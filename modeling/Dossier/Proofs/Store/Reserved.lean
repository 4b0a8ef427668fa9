import Dossier.Proofs.Collection.Selecting
import Dossier.Proofs.Update.Reserved

/-!
# Reserved fields on reachable stores

`Host.unreserved_of_reached`: no body that calls lead to has a reserved field at its top, so every document that is
found shows its identifier followed by the entries of its body, unless an operator update inserts a document for a
filter that pins a path below a reserved field. `Host.found_reserved` is such a case.
-/

namespace Dossier

open Dossier.Action Database

/-- Whatever the request inserts for the filter of an operator update, the filter pins no path below a reserved field;
and the request puts no text in the place of a body. -/
def CollectionRequest.SparesReserved : CollectionRequest → Prop
  | update _ filter change true =>
    ∀ c f, Update.parse change = .ok (.change c) → Filter.parse filter = .ok f → f.SparesReserved
  | putBody _ _ => False
  | _ => True

theorem CollectionRequest.SparesReserved.writes {r : CollectionRequest} (spares : r.SparesReserved) :
    r.Writes Body.Unreserved := by
  cases r with
  | insertOne document => exact NewDocument.brings_unreserved document
  | insertMany documents => exact fun d _ => NewDocument.brings_unreserved d
  | update cardinality filter change upsert =>
    intro u parsed
    refine ⟨Update.keeps_unreserved parsed, fun wanted f read => Update.inserts_unreserved parsed fun c eq => ?_⟩
    subst wanted eq
    exact spares c f parsed read
  | replaceOne filter replacement upsert =>
    exact fun body parsed =>
      ⟨Update.keeps_unreserved parsed, fun _ f _ => Update.inserts_unreserved parsed fun c eq => by cases eq⟩
  | putBody id data => exact spares.elim
  | _ => trivial

/-- A document shows its identifier followed by the entries of its body exactly if no entry has the identifier's key. -/
theorem Document.value_eq_iff {d : Document} (distinct : (Fields.keys d.body).Nodup) :
    d.value = .object ((idKey, .string d.id) :: d.body) ↔ idKey ∉ Fields.keys d.body := by
  constructor
  · intro same
    have unrepeated := Fields.nodup_foldl_put [(idKey, .string d.id)] d.body (by simp [Fields.keys])
    rw [Json.object.inj same] at unrepeated
    exact (List.nodup_cons.1 unrepeated).1
  · exact fun new => congrArg Json.object (Fields.foldl_put (List.nodup_cons.2 ⟨new, distinct⟩))

/-- In a store that starts without a database, no body that calls lead to has a reserved field at its top, and what a
session finds are documents of rows, each shown with its identifier first and then the entries of the body. -/
theorem Host.unreserved_of_reached {disk : Disk} {settings : Settings} {ids : IdSource} {clock : Clock}
    {requests : List StoreRequest} (fresh : ∀ e ∈ disk.entries, ∀ f, e.2 ≠ .database f)
    (calls : ∀ r ∈ requests, r.Within CollectionRequest.SparesReserved) {h : Host}
    (reached : ((start disk settings ids clock).callAll requests).2 = h) {s : Store} (opened : h.store = some s) :
    (∀ db, s.Holds db → ∀ t ∈ db.tables, ∀ r ∈ t.rows, ∃ members,
        r.data.tree = .object members ∧ ∀ m ∈ members, isReserved (Tree.stringText m.1) = false)
      ∧ ∀ name x, s.session? name = some x → ∀ (c : Collection) filter listing docs w,
        (c.find filter listing).result (s.workspace x) = (.ok docs, w) →
        ∀ d ∈ docs, d.value = .object (("_id", .string d.id) :: d.body)
          ∧ ∃ r, (s.workspace x).current.HasRow c.name r ∧ r.id = d.id ∧ r.data.decode = .ok d.body := by
  have good : h.Good (Bodies Body.Unreserved) :=
    good_of_reached (kept_bodies.mono fun _ spares => spares.writes) fresh calls reached
  have store := good.store s opened
  refine ⟨fun db holds t mem r hr => (store.holds holds t mem r hr).top, ?_⟩
  intro name x session c filter listing docs w found d mem
  have before := good.workspace opened session
  have finds : Gives False (· = (s.workspace x).current) (c.find filter listing) _ := c.gives_find filter listing _
  have given := (finds _ before.orderly False.elim rfl).2.2.2
  rw [found] at given
  obtain ⟨r, stored, read⟩ := given docs rfl d mem
  obtain ⟨id, decoded⟩ := Row.document_eq_ok read
  obtain ⟨t, table, hr⟩ := stored
  obtain ⟨free, distinct⟩ := (before.current.row table r hr).decoded decoded
  have new : Document.idKey ∉ Fields.keys d.body := fun mem => by
    simpa [Document.idKey, isReserved, idFields] using free _ mem
  exact ⟨(Document.value_eq_iff distinct).2 new, r, ⟨t, table, hr⟩, id.symm, decoded⟩

/-- A call that inserts the document that a filter describes, with an identifier and a field at a path. -/
def StoreRequest.describe (path : String) : StoreRequest :=
  .session "main" (.within "notes" (.update .one (.object [("_id", .string "x"), (path, .string "v")])
    (.object [("$set", .object [("a", .string "w")])]) true))

/-- The host after it. -/
def Host.described (path : String) : Host := (blank.callAll [.reopen none, .describe path]).2

/-- All documents of the collection. -/
def Collection.notes : Action (List Document) := Collection.find ⟨⟨"notes", by decide⟩, ⟨[]⟩⟩ .null ⟨none, none, none⟩

theorem Host.unreserved_of_reached_described : ∃ s x docs w, (described "b.c").store = some s
    ∧ s.session? "main" = some x ∧ Collection.notes.result (s.workspace x) = (.ok docs, w) ∧ docs.length = 1
    ∧ ∀ d ∈ docs, d.value = .object (("_id", .string d.id) :: d.body) := by
  have evaluated : ((described "b.c").store.bind fun s => (s.session? "main").map fun x =>
      (Collection.notes.result (s.workspace x)).1.toOption.map List.length) = some (some 1) := by decide +kernel
  obtain ⟨s, x, opened, session, eq⟩ := Host.exists_session_of_map evaluated
  cases ran : Collection.notes.result (s.workspace x) with
  | mk r w =>
    rw [ran] at eq
    cases r with
    | error e => cases eq
    | ok docs =>
      have spared : ((Filter.parse (.object [("_id", .string "x"), ("b.c", .string "v")])).toOption.map fun f =>
          decide f.SparesReserved) = some true := by decide +kernel
      have calls : ∀ r ∈ [.reopen none, .describe "b.c"], StoreRequest.Within CollectionRequest.SparesReserved r := by
        refine List.forall_mem_cons.2 ⟨trivial, List.forall_mem_singleton.2 fun c f _ read => ?_⟩
        rw [read] at spared
        exact of_decide_eq_true (Option.some.inj spared)
      have shown :=
        (unreserved_of_reached (Disk.start_fresh []) calls (h := described "b.c") (by rw [described, blank]) opened).2 "main" x
          session _ _ _ docs w ran
      exact ⟨s, x, docs, w, opened, session, ran, Option.some.inj eq, fun d mem => (shown d mem).1⟩

/-- A document that is inserted for a filter that pins a path below the identifier: its body has the reserved field,
which stands in the place of the identifier in what is shown. -/
theorem Host.found_reserved : ∃ s x d w, (described "_id.y").store = some s ∧ s.session? "main" = some x
    ∧ Collection.notes.result (s.workspace x) = (.ok [d], w) ∧ "_id" ∈ Fields.keys d.body
    ∧ d.value ≠ .object (("_id", .string d.id) :: d.body) := by
  have evaluated : ((described "_id.y").store.bind fun s => (s.session? "main").map fun x =>
      (Collection.notes.result (s.workspace x)).1.toOption.map fun docs => docs.map fun d => Fields.keys d.body)
      = some (some [["_id", "a"]]) := by decide +kernel
  obtain ⟨s, x, opened, session, eq⟩ := Host.exists_session_of_map evaluated
  cases ran : Collection.notes.result (s.workspace x) with
  | mk r w =>
    rw [ran] at eq
    cases r with
    | error e => cases eq
    | ok docs =>
      obtain ⟨d, rfl, keys⟩ := List.map_eq_singleton_iff.1 (Option.some.inj eq)
      have repeated : Document.idKey ∈ Fields.keys d.body := keys ▸ List.mem_cons_self
      have distinct : (Fields.keys d.body).Nodup := by
        rw [keys]
        decide
      exact ⟨s, x, d, w, opened, session, ran, repeated, mt (Document.value_eq_iff distinct).1 (not_not_intro repeated)⟩

end Dossier
