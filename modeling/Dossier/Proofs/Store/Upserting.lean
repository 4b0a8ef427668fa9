import Dossier.Proofs.Collection.Upserting
import Dossier.Proofs.Store.Readable

/-!
# Upserts on reachable stores

`Host.upserts_once`: in every store that calls lead to, an upsert with a filter of equalities that has inserted has inserted
the one document that the filter selects, and upserts that repeat the filter go on to update it. Finding gives it if it
decodes; `Host.upserted_unreadable` is an upsert that inserts a document so deep that it does not.
-/

namespace Dossier

open Dossier.Action Outcome Text

namespace Collection

/-- The filter selects exactly one row, which has the identifier, and the calls that read give its document, if it decodes. -/
def Shows (c : Collection) (filter : Json) (f : Filter) (id : String) (w : Workspace) : Prop :=
  ∃ t row, w.current.table? c.name.text = some t ∧ t.select (c.predicate f) = [row] ∧ row.id = id
    ∧ ∀ d, row.document = .ok d → d.id = id ∧ c.Selects w filter [d]

theorem Holds.shows {c : Collection} {f : Filter} {id : String} {w : Workspace} (h : c.Holds f id w.current)
    (orderly : w.Orderly) {filter : Json} (parsed : Filter.parse filter = .ok f) (fits : (c.predicate f).Fits) :
    c.Shows filter f id w := by
  obtain ⟨t, row, found, only, named, -⟩ := h
  refine ⟨t, row, found, only, named, fun d document => ⟨?_, selects_of_decodes orderly found parsed (.of_fits fits) ?_⟩⟩
  · exact (Row.document_eq_ok document).1.trans named
  · rw [only]
    exact Outcome.mapM_cons_eq_ok.2 ⟨d, [], document, rfl, rfl⟩

end Collection

/-- In a store that starts without a database, wherever calls lead to that freeze no collection, and when all promoted paths
are of one collection: let a filter consist of equalities of values without doubles at body paths that do not overlap, and of
at most one text as the identifier, and let an update have no path that overlaps one of them. If an upsert of the two inserts,
then the filter selects exactly the inserted document, and the identifier is the one that the filter names, if it does; and
whatever upserts with the filter come after it, each fails or updates that one document and inserts nothing. -/
theorem Host.upserts_once {disk : Disk} {settings : Settings} {ids : IdSource} {clock : Clock}
    {requests : List StoreRequest} (fresh : ∀ e ∈ disk.entries, ∀ f, e.2 ≠ .database f)
    (calls : ∀ r ∈ requests, r.Within (· ≠ .freeze)) {h : Host}
    (reached : ((start disk settings ids clock).callAll requests).2 = h) {s : Store} (opened : h.store = some s)
    {name : String} {x : Session} (session : s.session? name = some x) {c : Collection}
    (resolves : c.resolver.promoted ⊆ ((s.workspace x).current.resolver c.name.text).promoted)
    (own : ∀ p ∈ (s.workspace x).current.promotions, p.collection = c.name.text) {filter change : Json} {f : Filter}
    (parsed : Filter.parse filter = .ok f) {supplied : Option String} (describes : f.Describes supplied)
    (elsewhere : Collection.Elsewhere f change) {result : UpdateResult} {v : Workspace}
    (made : (c.updateOne filter change true).result (s.workspace x) = (.ok result, v)) {id : String}
    (inserted : result.upserted = some id) :
    (∀ wanted, supplied = some wanted → id = wanted) ∧ c.Shows filter f id v
      ∧ ∀ updates : List Json, (∀ other ∈ updates, Collection.Elsewhere f other) →
        c.Shows filter f id (c.upsertAll filter updates v).2
          ∧ ∀ answer, .ok answer ∈ (c.upsertAll filter updates v).1 → answer.matched = 1 ∧ answer.upserted = none := by
  have kept : Kept (fun db => db.Numbered ∧ db.Separate) (· ≠ .freeze) :=
    (Database.kept_numbered.mono fun _ _ => trivial).and Database.lasting_separate.kept
  have good : h.Good fun db => db.Numbered ∧ db.Separate := good_of_reached kept fresh calls reached
  have here := good.workspace opened session
  have steady : c.Steady (s.workspace x) := ⟨here.orderly, here.current.1, here.current.2, own, resolves⟩
  obtain ⟨after, fits, holds, named⟩ := Collection.holds_of_inserted steady parsed describes elsewhere made inserted
  refine ⟨named, holds.shows after.orderly parsed fits, fun updates others => ?_⟩
  obtain ⟨last, holds', repeats⟩ := Collection.repeats_upsertAll after parsed describes named others holds
  exact ⟨holds'.shows last.orderly parsed fits, repeats⟩

/-- The paths `k`, `n.a`, `n.b` and `z`. -/
def FieldPath.k : FieldPath := ⟨["k"], by decide, by decide⟩
def FieldPath.na : FieldPath := ⟨["n", "a"], by decide, by decide⟩
def FieldPath.nb : FieldPath := ⟨["n", "b"], by decide, by decide⟩
def FieldPath.z : FieldPath := ⟨["z"], by decide, by decide⟩

/-- A collection with a promoted path. -/
def Collection.tags : Collection := ⟨⟨"tags", by decide⟩, ⟨[.k]⟩⟩

/-- Calls that insert a document and promote a path of it. -/
def StoreRequest.tagging : List StoreRequest :=
  [.reopen none, .session "main" (.within "tags" (.insertOne (.object [("_id", .string "w"), ("k", .string "v")]))),
    .session "main" (.within "tags" (.promote "k" false))]

/-- The host after these calls. -/
def Host.tagged : Host := (blank.callAll StoreRequest.tagging).2

/-- A list with a quote and a null in it, and an object. -/
def Json.quoted : Json := .array [.string "\"", .null]
def Json.flagged : Json := .object [("c", .bool true)]

/-- A filter that pins the identifier, the promoted path and two paths below one key. -/
def Json.tagged : Json := .object [("_id", .string "x"), ("k", .quoted), ("n.a", .object [("$eq", .flagged)]), ("n.b", .null)]

/-- The filter as it is read. -/
def Filter.tagged : Filter :=
  ⟨[⟨"_id", .system .id, [.compare .eq (.string "x")]⟩, ⟨"k", .body .k, [.compare .eq .quoted]⟩,
    ⟨"n.a", .body .na, [.compare .eq .flagged]⟩, ⟨"n.b", .body .nb, [.compare .eq .null]⟩]⟩

/-- An update that counts. -/
def Json.counting : Json := .object [("$inc", .object [("z", .number (.whole ⟨5, by decide⟩))])]

theorem Filter.describes_tagged : tagged.Describes (some "x") where
  equalities := by simp [tagged]
  fields := by simp [tagged]
  apart := by decide
  plain := by decide
  identifier := rfl

theorem Collection.elsewhere_counting : Elsewhere .tagged .counting :=
  ⟨rfl, ⟨[], [], [(.z, .whole ⟨5, by decide⟩)]⟩, rfl, by decide⟩

theorem Host.upserts_once_tagged : ∃ s x v, tagged.store = some s ∧ s.session? "main" = some x
    ∧ (Collection.tags.updateOne .tagged .counting true).result (s.workspace x) = (.ok ⟨0, 0, some "x"⟩, v)
    ∧ Collection.tags.Shows .tagged .tagged "x" v
    ∧ Collection.tags.Shows .tagged .tagged "x" (Collection.tags.upsertAll .tagged [.counting, .counting] v).2
    ∧ .ok ⟨1, 1, none⟩ ∈ (Collection.tags.upsertAll .tagged [.counting, .counting] v).1 := by
  have evaluated : (tagged.store.bind fun s => (s.session? "main").map fun x =>
      let ran := (Collection.tags.updateOne .tagged .counting true).result (s.workspace x)
      ((s.workspace x).current.promotions.map fun p => (p.collection, p.path), ran.1.toOption,
        (Collection.tags.upsertAll .tagged [.counting, .counting] ran.2).1.map Except.toOption))
      = some ([("tags", .k)], some ⟨0, 0, some "x"⟩, [some ⟨1, 1, none⟩, some ⟨1, 1, none⟩]) := by decide +kernel
  obtain ⟨s, x, opened, session, eq⟩ := Host.exists_session_of_map evaluated
  obtain ⟨entries, rest⟩ := Prod.mk.inj eq
  obtain ⟨answered, repeated⟩ := Prod.mk.inj rest
  cases made : (Collection.tags.updateOne .tagged .counting true).result (s.workspace x) with
  | mk answer v =>
  rw [made] at answered repeated
  cases eq_ok_of_toOption answered
  obtain ⟨registered, single⟩ := Database.resolver_of_single entries
  have own : ∀ p ∈ (s.workspace x).current.promotions, p.collection = "tags" := fun p known => (single p known).1
  have resolves : Collection.tags.resolver.promoted
      ⊆ ((s.workspace x).current.resolver Collection.tags.name.text).promoted := fun _ known => registered ▸ known
  have calls : ∀ r ∈ StoreRequest.tagging, r.Within (· ≠ .freeze) := by
    simp [StoreRequest.tagging, StoreRequest.Within, Request.Within]
  obtain ⟨-, shows, later⟩ :=
    upserts_once (Disk.start_fresh []) calls (h := tagged) (by rw [tagged, blank]) opened session resolves own
      (rfl : Filter.parse .tagged = .ok .tagged) Filter.describes_tagged Collection.elsewhere_counting made rfl
  have again : ∀ other ∈ [Json.counting, Json.counting], Collection.Elsewhere .tagged other :=
    List.forall_mem_cons.2 ⟨Collection.elsewhere_counting, List.forall_mem_singleton.2 Collection.elsewhere_counting⟩
  obtain ⟨answer, mem, given⟩ := List.mem_map.1 (repeated ▸ List.mem_cons_self)
  exact ⟨s, x, v, opened, session, made, shows, (later _ again).1, eq_ok_of_toOption given ▸ mem⟩

/-- An update that sets so many arrays three objects down. -/
def Json.burying (arrays : Nat) : Json := .object [("$set", .object [("z.b.c", .nested arrays)])]

/-- An upsert that sets a value so far below others that the body nests deeper than what decodes, though the update does
not: it inserts, and then finding with the same filter fails. -/
theorem Host.upserted_unreadable : (Json.burying 125).tree.depth = Tree.decodeDepth
    ∧ ∃ s x v, tagged.store = some s ∧ s.session? "main" = some x
    ∧ (Collection.tags.updateOne .tagged (.burying 125) true).result (s.workspace x) = (.ok ⟨0, 0, some "x"⟩, v)
    ∧ ((Collection.tags.find .tagged .all).result v).1 = .error (.serialization .unreadable) := by
  have evaluated : (tagged.store.bind fun s => (s.session? "main").map fun x =>
      let ran := (Collection.tags.updateOne .tagged (.burying 125) true).result (s.workspace x)
      (ran.1.toOption, ((Collection.tags.find .tagged .all).result ran.2).1.map fun _ => ()))
      = some (some ⟨0, 0, some "x"⟩, .error (.serialization .unreadable)) := by decide +kernel
  obtain ⟨s, x, opened, session, eq⟩ := Host.exists_session_of_map evaluated
  obtain ⟨answered, failed⟩ := Prod.mk.inj eq
  cases made : (Collection.tags.updateOne .tagged (.burying 125) true).result (s.workspace x) with
  | mk answer v =>
  rw [made] at answered failed
  cases eq_ok_of_toOption answered
  refine ⟨by decide +kernel, s, x, v, opened, session, made, ?_⟩
  cases answer : ((Collection.tags.find .tagged .all).result v).1 with
  | error e =>
    rw [answer] at failed
    cases failed
    rfl
  | ok docs =>
    rw [answer] at failed
    cases failed

end Dossier
