import Dossier.Proofs.Collection.Inserting
import Dossier.Proofs.Store.Mirror

/-!
# Identifiers on reachable stores

`Host.identified_of_reached`: in every store that calls lead to, the identifier that a document brings selects, right after
the insertion, that document alone. `Host.unidentified` is an integer past 64 signed bits, which is stored by its digits and
looked up as a double.
-/

namespace Dossier

open Dossier.Action Outcome

/-- In a store that starts without a database, wherever calls lead to: if a document that brings an identifier, a text or an
integer of 64 signed bits, is inserted, then the value as an identifier selects exactly that document. Reading answers it,
updates are about it, and deleting takes out it alone. -/
theorem Host.identified_of_reached {disk : Disk} {settings : Settings} {ids : IdSource} {clock : Clock}
    {requests : List StoreRequest} (fresh : ∀ e ∈ disk.entries, ∀ f, e.2 ≠ .database f)
    (calls : ∀ r ∈ requests, r.Within fun _ => True) {h : Host}
    (reached : ((start disk settings ids clock).callAll requests).2 = h) {s : Store} (opened : h.store = some s)
    {name : String} {x : Session} (session : s.session? name = some x) {c : Collection} {fields : Fields} {value : Json}
    (brought : value ∈ NewDocument.supplied fields) (signed : ∀ n, value = .number (.whole n) → n.isSigned = true)
    {id : String} {v : Workspace} (inserted : (c.insertOne (.object fields)).result (s.workspace x) = (.ok id, v)) :
    identifierOf value = .ok id ∧ ∃ t row, (s.workspace x).current.table? c.name.text = some t
      ∧ c.Identifies value id (NewDocument.bodyOf fields) t.rows row v := by
  have good : h.Good Database.Numbered := good_of_reached Database.kept_numbered fresh calls reached
  have here := good.workspace opened session
  obtain ⟨named, row, added⟩ := Collection.inserted_of_insertOne here.orderly here.current brought inserted
  obtain ⟨t, -, found, -⟩ := added.rows
  exact ⟨named, t, row, found, added.identifies named signed found⟩

/-- Calls that insert a document. -/
def StoreRequest.entering : List StoreRequest :=
  [.reopen none, .session "main" (.within "entries" (.insertOne (.object [("_id", .string "0"), ("a", .null)])))]

/-- The host after these calls, and the collection of the document. -/
def Host.entered : Host := (blank.callAll StoreRequest.entering).2
def Collection.entries : Collection := ⟨⟨"entries", by decide⟩, ⟨[]⟩⟩

/-- The least integer of 64 signed bits, and the one past the greatest. -/
def Json.least : Json := .number (.whole ⟨-0x8000000000000000, by decide⟩)
def Json.past : Json := .number (.whole ⟨0x8000000000000000, by decide⟩)

theorem Host.identified_of_reached_least : ∃ s x v row, entered.store = some s ∧ s.session? "main" = some x
    ∧ (Collection.entries.insertOne (.object [("a", .bool true), ("id", .least)])).result (s.workspace x)
      = (.ok "-9223372036854775808", v)
    ∧ (∃ others, others.length = 1
      ∧ Collection.entries.Identifies .least "-9223372036854775808" [("a", .bool true)] others row v)
    ∧ ∃ d, d.body = [("a", .bool true)] ∧ Collection.entries.Selects v (.identifying .least) [d] := by
  have evaluated : (entered.store.bind fun s => (s.session? "main").bind fun x =>
      ((s.workspace x).current.table? "entries").map fun t => (t.rows.length,
        ((Collection.entries.insertOne (.object [("a", .bool true), ("id", .least)])).result (s.workspace x)).1.toOption))
      = some (1, some "-9223372036854775808") := by decide +kernel
  obtain ⟨s, x, opened, session, found⟩ := Host.exists_session_of_bind evaluated
  obtain ⟨t, table, eq⟩ := Option.map_eq_some_iff.1 found
  obtain ⟨length, answered⟩ := Prod.mk.inj eq
  cases made : (Collection.entries.insertOne (.object [("a", .bool true), ("id", .least)])).result (s.workspace x) with
  | mk answer v =>
    rw [made] at answered
    cases eq_ok_of_toOption answered
    have calls : ∀ r ∈ StoreRequest.entering, r.Within fun _ => True := by
      simp [StoreRequest.entering, StoreRequest.Within, Request.Within]
    have brought : Json.least ∈ NewDocument.supplied [("a", .bool true), ("id", .least)] := List.mem_singleton_self _
    have signed : ∀ n, Json.least = .number (.whole n) → n.isSigned = true := by
      intro n eq
      cases eq
      rfl
    obtain ⟨-, t', row, found', identifies⟩ :=
      identified_of_reached (Disk.start_fresh []) calls (h := entered) (by rw [entered, blank]) opened session brought
        signed made
    obtain rfl := Option.some.inj (found'.symm.trans table)
    obtain ⟨d, document, body⟩ := identifies.whole (by decide) rfl
    exact ⟨s, x, v, row, opened, session, made, ⟨_, length, identifies⟩, d, body, (identifies.selects d document).2⟩

/-- The document is inserted under the digits of its identifier; neither finding nor deleting by the identifier finds it. -/
theorem Host.unidentified : ∃ s x v, entered.store = some s ∧ s.session? "main" = some x
    ∧ (Collection.entries.insertOne (.object [("_id", .past)])).result (s.workspace x) = (.ok "9223372036854775808", v)
    ∧ ((Collection.entries.findOne (.identifying .past)).result v).1 = .ok none
    ∧ ((Collection.entries.delete (.identifying .past) .one).result v).1 = .ok 0
    ∧ ((Collection.entries.count (.identifying (.string "9223372036854775808"))).result v).1 = .ok 1 := by
  have evaluated : (entered.store.bind fun s => (s.session? "main").map fun x =>
      let ran := (Collection.entries.insertOne (.object [("_id", .past)])).result (s.workspace x)
      (ran.1.toOption, ((Collection.entries.findOne (.identifying .past)).result ran.2).1.toOption.map Option.isSome,
        ((Collection.entries.delete (.identifying .past) .one).result ran.2).1.toOption,
        ((Collection.entries.count (.identifying (.string "9223372036854775808"))).result ran.2).1.toOption))
      = some (some "9223372036854775808", some false, some 0, some 1) := by decide +kernel
  obtain ⟨s, x, opened, session, eq⟩ := Host.exists_session_of_map evaluated
  cases made : (Collection.entries.insertOne (.object [("_id", .past)])).result (s.workspace x) with
  | mk answer v =>
    rw [made] at eq
    obtain ⟨answered, eq⟩ := Prod.mk.inj eq
    obtain ⟨missing, eq⟩ := Prod.mk.inj eq
    obtain ⟨deleted, counted⟩ := Prod.mk.inj eq
    cases eq_ok_of_toOption answered
    obtain ⟨none', given, absent⟩ := Option.map_eq_some_iff.1 missing
    obtain rfl := Option.isSome_eq_false_iff.1 absent |> Option.isNone_iff_eq_none.1
    exact ⟨s, x, v, opened, session, made, eq_ok_of_toOption given, eq_ok_of_toOption deleted, eq_ok_of_toOption counted⟩

end Dossier
