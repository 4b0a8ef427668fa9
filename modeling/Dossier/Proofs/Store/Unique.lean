import Dossier.Proofs.Collection.Twin
import Dossier.Proofs.Database.Unique
import Dossier.Proofs.Session.Unkeyed
import Dossier.Proofs.Store.Mirror

/-!
# Unique promotions on reachable stores

`Host.distinct_of_reached`: in every database that a store comes to hold, no two rows hold equal values at the path of a
unique promotion, unless the registry has a rival of it; and a request that would make two such rows fails with a violated
constraint. `Host.not_distinct_of_rivals` is a run in which the index of a rival stands in for the one that is asked for.
-/

namespace Dossier

open Text Dossier.Action Database

namespace Database

theorem Wrote.indexes {db after : Database} {table : String} (h : db.Wrote table after) : after.indexes = db.indexes := by
  obtain ⟨f, -, -, rfl⟩ := h.eq_mapTable
  rfl

/-- The indexes of unique promotions last. -/
theorem lasting_enforcing : Lasting Enforcing where
  empty := ⟨mirroring_empty, by simp [empty], by simp [empty]⟩
  version _ version h := h.congr (h.mirroring.version version) rfl rfl
  tables db name after h made := by
    have mirroring := h.mirroring.createTable made
    unfold createTable at made
    split at made
    · cases made
      exact h
    · split at made <;> cases made
      exact h.congr mirroring rfl rfl
  stable db name r s n after h made := by
    obtain ⟨sound, wrote⟩ := run_eq_ok h.mirroring.installed.sound made
    exact h.congr (h.mirroring.wrote sound wrote) wrote.promotions wrote.indexes
  promotes _ _ _ _ _ _ h admits made := h.promote (h.mirroring.promote admits.target made) made
  compounds db name columns after h made :=
    h.createIndex (name.apart_of_derived rfl) (lasting_mirroring.compounds db name columns after h.mirroring made) made
  checks db name check message condition gs after h listed made := by
    have mirroring := lasting_mirroring.checks db name check message condition gs after h.mirroring listed made
    obtain ⟨l, rfl, -⟩ := replaceTriggers_eq_ok made
    exact h.congr mirroring rfl rfl
  records db entry h := by
    refine h.congr (h.mirroring.recordCheck entry) ?_ ?_
    all_goals
      unfold recordCheck
      split <;> rfl
  puts db name id data n after h made := by
    obtain ⟨sound, _, cs, _, _, _, rfl⟩ :=
      updateRows_eq_ok h.mirroring.installed.sound (fun _ _ => rewrites_of_putBody) made
    have wrote : db.Wrote name.text (db.rewritten name.text cs) := .rewritten cs
    exact h.congr (h.mirroring.wrote sound wrote) wrote.promotions wrote.indexes

end Database

/-- Requests on documents leave the registry of promotions as it is. -/
theorem Database.stable_promotions (promotions : List Promotion) :
    Stable fun db => db.Enforcing ∧ db.promotions = promotions := fun db name r s n after h made =>
  have ⟨_, wrote⟩ := run_eq_ok h.1.mirroring.installed.sound made
  ⟨lasting_enforcing.stable db name r s n after h.1 made, wrote.promotions.trans h.2⟩

/-- A call on documents is plain. -/
theorem CollectionRequest.plain_perform (c : Collection) {r : CollectionRequest} (onDocuments : r.onDocuments = true) :
    Plain (r.perform c) := by
  cases r with
  | insertOne document => exact (c.plain_insertOne document).map _
  | insertMany documents => exact (c.plain_insertMany documents).map _
  | find filter listing wanted => exact (Plain.ofRequest _).bind fun _ => (c.plain_find filter _).bind fun _ => .pure _
  | findOne filter => exact (c.plain_findOne filter).map _
  | count filter => exact (c.plain_count filter).map _
  | update cardinality filter change upsert =>
    cases cardinality with
    | one => exact (c.plain_updateOne filter change upsert).map _
    | many => exact (c.plain_updateMany filter change upsert).map _
  | replaceOne filter replacement upsert => exact (c.plain_replaceOne filter replacement upsert).map _
  | delete cardinality filter => exact (c.plain_delete filter cardinality).map _
  | _ => cases onDocuments

/-- A call on documents that would make two rows with equal values at the path of a unique promotion, if no index were
unique, fails with a violated constraint. -/
theorem CollectionRequest.violates_of_not_distinct {w : Workspace} (orderly : w.Orderly) (enforcing : w.current.Enforcing)
    {p : Promotion} (entry : p ∈ w.current.promotions) (unique : p.unique = true)
    (free : Site.Free w.current.sites ⟨p.collection, p.path⟩) (c : Collection) {r : CollectionRequest}
    (onDocuments : r.onDocuments = true) {t : Table}
    (after : ((r.perform c).result w.unkeyed).2.current.table? p.collection = some t) (twice : ¬ t.Distinct p.path) :
    ∃ message, ((r.perform c).result w).1 = .error (.constraint message) := by
  refine ((r.plain_perform c onDocuments).keyless w).resolve_right fun same => twice ?_
  have keeps : Invariant False (fun db => db.Enforcing ∧ db.promotions = w.current.promotions) (r.perform c) :=
    (r.plain_perform c onDocuments).invariant (stable_promotions w.current.promotions)
  obtain ⟨-, -, enforcing', promotions⟩ := keeps w orderly False.elim ⟨enforcing, rfl⟩
  rw [same, Workspace.current_unkeyed] at after
  have sites : ((r.perform c).result w).2.current.sites = w.current.sites := by rw [sites, promotions, sites]
  obtain ⟨u, found, distinct⟩ := enforcing'.distinct (promotions ▸ entry) unique (sites ▸ free)
  have same : some t = some u := after.symm.trans found
  exact Option.some.inj same ▸ distinct

/-! ## Reachable stores -/

/-- In a store that starts without a database, whatever calls are made, no two rows hold equal values at the path of a
unique entry of the registry without a rival; and where the same call would make two such rows if no index were unique,
it fails with a violated constraint. -/
theorem Host.distinct_of_reached {disk : Disk} {settings : Settings} {ids : IdSource} {clock : Clock}
    {requests : List StoreRequest} (fresh : ∀ e ∈ disk.entries, ∀ f, e.2 ≠ .database f)
    (calls : ∀ r ∈ requests, r.Within (· ≠ .freeze)) {h : Host}
    (reached : ((start disk settings ids clock).callAll requests).2 = h) {s : Store} (opened : h.store = some s) :
    (∀ db, s.Holds db → ∀ p ∈ db.promotions, p.unique = true → (∀ q ∈ db.promotions, ¬ p.site.Rival q.site) →
      ∃ t, db.table? p.collection = some t ∧ t.Distinct p.path)
    ∧ ∀ name x, s.session? name = some x → ∀ p ∈ (s.workspace x).current.promotions, p.unique = true →
      (∀ q ∈ (s.workspace x).current.promotions, ¬ p.site.Rival q.site) →
      ∀ (c : Collection) (r : CollectionRequest), r.onDocuments = true →
      ∀ t, ((r.perform c).result (s.workspace x).unkeyed).2.current.table? p.collection = some t → ¬ t.Distinct p.path →
      ∃ message, ((r.perform c).result (s.workspace x)).1 = .error (.constraint message) := by
  have good : h.Good Enforcing := good_of_reached lasting_enforcing.kept fresh calls reached
  constructor
  · exact fun db holds p entry unique alone => ((good.store s opened).holds holds).distinct entry unique (Site.free_iff.2 alone)
  · intro name x session p entry unique alone c r onDocuments t after twice
    have here := good.workspace opened session
    exact CollectionRequest.violates_of_not_distinct here.orderly here.current entry unique (Site.free_iff.2 alone) c
      onDocuments after twice

instance (t : Table) (path : FieldPath) : Decidable (t.Distinct path) := inferInstanceAs (Decidable (List.Pairwise _ _))

/-- A document with an identifier and a value at `c`. -/
def Json.identified (id value : String) : Json := .object [("_id", .string id), ("c", .string value)]

/-- Calls that promote the path `c` of a collection and insert a document. -/
def StoreRequest.uniqueThenInsert : List StoreRequest :=
  [.reopen none, .session "main" (.within "a" (.promote "c" true)),
    .session "main" (.within "a" (.insertOne (.identified "x" "v")))]

/-- The host after these calls. -/
def Host.unique : Host := (blank.callAll StoreRequest.uniqueThenInsert).2

/-- The promotion of the path. -/
def Promotion.uniquePath : Promotion :=
  CollectionName.promotion ⟨"a", by decide⟩ ⟨["c"], by decide, by decide⟩ true 0

/-- The promotion is the only entry of the registry. -/
def Database.Solitary (db : Database) : Prop :=
  db.promotions.map (fun p => (p.collection, p.path, p.unique, p.createdAt)) = [("a", Promotion.uniquePath.path, true, 0)]

instance (db : Database) : Decidable db.Solitary := inferInstanceAs (Decidable (_ = _))

theorem Database.Solitary.eq {db : Database} (h : db.Solitary) : db.promotions = [Promotion.uniquePath] := by
  obtain ⟨⟨c, q, column, u, time, named⟩, promotions, shown⟩ := List.map_eq_singleton_iff.1 h
  cases shown
  cases named
  exact promotions

theorem Database.Solitary.alone {db : Database} (h : db.Solitary) :
    ∀ q ∈ db.promotions, ¬ Promotion.uniquePath.site.Rival q.site := by
  intro q mem
  rw [h.eq, List.mem_singleton] at mem
  subst mem
  exact fun rival => rival.2 (.refl _)

/-- The insertion of a document with the same value. -/
def CollectionRequest.repetition : CollectionRequest := .insertOne (.identified "y" "v")

/-- The collection of the documents. -/
def Collection.uniquePath : Collection := ⟨⟨"a", by decide⟩, ⟨[Promotion.uniquePath.path]⟩⟩

theorem Host.distinct_of_reached_repetition : ∃ s x, unique.store = some s ∧ s.session? "main" = some x
    ∧ (∃ t, s.file.contents.table? "a" = some t ∧ t.rows.length = 1 ∧ t.Distinct Promotion.uniquePath.path)
    ∧ ∃ message, ((CollectionRequest.repetition.perform .uniquePath).result (s.workspace x)).1
      = .error (.constraint message) := by
  have evaluated : (unique.store.bind fun s => (s.session? "main").bind fun x =>
      (s.file.contents.table? "a").bind fun t =>
      (((CollectionRequest.repetition.perform .uniquePath).result (s.workspace x).unkeyed).2.current.table? "a").map
        fun u => (t.rows.length, decide (u.Distinct Promotion.uniquePath.path), decide s.file.contents.Solitary,
          decide (s.workspace x).current.Solitary)) = some (1, false, true, true) := by decide +kernel
  obtain ⟨s, x, opened, session, found⟩ := Host.exists_session_of_bind evaluated
  obtain ⟨t, table, found⟩ := Option.bind_eq_some_iff.1 found
  obtain ⟨u, after, eq⟩ := Option.map_eq_some_iff.1 found
  obtain ⟨rows, eq⟩ := Prod.mk.inj eq
  obtain ⟨twice, eq⟩ := Prod.mk.inj eq
  obtain ⟨committed, seen⟩ := Prod.mk.inj eq
  have committed := of_decide_eq_true committed
  have seen := of_decide_eq_true seen
  have calls : ∀ r ∈ StoreRequest.uniqueThenInsert, r.Within (· ≠ .freeze) := by
    simp [StoreRequest.uniqueThenInsert, StoreRequest.Within, Request.Within]
  obtain ⟨distinct, violates⟩ := distinct_of_reached (Disk.start_fresh []) calls (h := unique) (by rw [unique, blank]) opened
  have entry : ∀ db : Database, db.Solitary → Promotion.uniquePath ∈ db.promotions := fun db h =>
    h.eq ▸ List.mem_singleton_self _
  obtain ⟨t', table', apart⟩ := distinct _ (.inl rfl) _ (entry _ committed) rfl committed.alone
  have same : some t = some t' := table.symm.trans table'
  refine ⟨s, x, opened, session, ⟨t, table, rows, Option.some.inj same ▸ apart⟩, ?_⟩
  exact violates "main" x session _ (entry _ seen) rfl seen.alone _ _ rfl u after (of_decide_eq_false twice)

/-- Calls that promote two paths whose indexes have one name, and insert two documents with one value at the second. -/
def StoreRequest.uniqueRivals : List StoreRequest :=
  [.reopen none, .session "main" (.within "a" (.promote "b.c" true)),
    .session "main" (.within "a__b" (.promote "c" true)),
    .session "main" (.within "a__b" (.insertOne (.identified "x" "v"))),
    .session "main" (.within "a__b" (.insertOne (.identified "y" "v")))]

/-- The later of two unique rivals gets no index: two documents with one value at its path are inserted. -/
theorem Host.not_distinct_of_rivals : ∃ s t p, (blank.callAll StoreRequest.uniqueRivals).2.store = some s
    ∧ p ∈ s.file.contents.promotions ∧ p.unique = true ∧ s.file.contents.table? p.collection = some t
    ∧ ¬ t.Distinct p.path := by
  have evaluated : ((blank.callAll StoreRequest.uniqueRivals).2.store.bind fun s =>
      s.file.contents.promotions.getLast?.bind fun p => (s.file.contents.table? p.collection).map fun t =>
        (p.unique, decide (t.Distinct p.path))) = some (true, false) := by decide +kernel
  obtain ⟨s, opened, found⟩ := Option.bind_eq_some_iff.1 evaluated
  obtain ⟨p, last, found⟩ := Option.bind_eq_some_iff.1 found
  obtain ⟨t, table, eq⟩ := Option.map_eq_some_iff.1 found
  obtain ⟨unique, twice⟩ := Prod.mk.inj eq
  exact ⟨s, t, p, opened, List.mem_of_getLast? last, unique, table, of_decide_eq_false twice⟩

end Dossier
