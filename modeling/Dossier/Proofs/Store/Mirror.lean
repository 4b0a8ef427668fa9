import Dossier.Proofs.Database.Promoting
import Dossier.Proofs.Store.Atomic

/-!
# Promoted columns on reachable stores

`Host.columnValues_of_reached`: in every database that a store comes to hold, committed or in an open
transaction, the column of a promoted path holds what the bodies hold at the path, unless the registry has a
rival of it. `Host.rivals_columnValues` is a run in which a rival takes the triggers away.
-/

namespace Dossier

open Text Dossier.Action

/-- The site of a promotion. -/
def Promotion.site (p : Promotion) : Site := ⟨p.collection, p.path⟩

/-- The registry has no rival of a site if none of its promotions is one. -/
theorem Site.free_iff {db : Database} {s : Site} : s.Free db.sites ↔ ∀ p ∈ db.promotions, ¬ s.Rival p.site := List.forall_mem_map

/-- What leaves the database as it is keeps everything. -/
theorem Action.Quiet.invariant {P : Database → Prop} {α : Type} {a : Action α} (h : Quiet a) : Invariant False P a :=
  fun w orderly within start =>
    have ⟨orderly', base, same⟩ := h w.current w orderly within rfl
    ⟨orderly', base, same ▸ start⟩

/-! ## What requests keep -/

/-- What a store without files has, and every way to change a database keeps but the triggers against updates. -/
structure Database.Lasting (P : Database → Prop) : Prop where
  empty : P .empty
  version : ∀ db version, P db → P { db with version }
  tables : ∀ db name after, P db → db.createTable name = .ok after → P after
  stable : Stable P
  promotes : ∀ db name path unique time after, P db → db.Admits name path → db.promote name path unique time = .ok after → P after
  compounds : ∀ db (name : CollectionName) columns after, P db → db.createIndex (name.compoundIndex columns) = .ok after →
    P after
  checks : ∀ db name check message condition gs after, P db → Check.triggers? name check message condition = some gs →
    db.replaceTriggers gs = .ok after → P after
  records : ∀ db entry, P db → P (db.recordCheck entry)
  puts : ∀ db (name : CollectionName) id data n after, P db →
    (db.updateRows name.text fun t => (t.rows.filter fun r => r.id = id).mapM fun r => do
      return (r, { r with data := ← db.admitBody t r data })) = .ok (n, after) → P after

/-- What the requests to one collection have to keep of a database, but for the triggers against updates. -/
structure Database.Enduring (name : CollectionName) (P : Database → Prop) : Prop where
  stable : Stable P
  promotes : ∀ db path unique time after, P db → db.Admits name path → db.promote name path unique time = .ok after → P after
  compounds : ∀ db columns after, P db → db.createIndex (name.compoundIndex columns) = .ok after → P after
  checks : ∀ db check message condition gs after, P db → Check.triggers? name check message condition = some gs →
    db.replaceTriggers gs = .ok after → P after
  records : ∀ db entry, P db → P (db.recordCheck entry)
  puts : ∀ db id data n after, P db →
    (db.updateRows name.text fun t => (t.rows.filter fun r => r.id = id).mapM fun r => do
      return (r, { r with data := ← db.admitBody t r data })) = .ok (n, after) → P after

/-- A request to a collection keeps what statements, promotions, indexes over several columns and bodies put in place keep, if
the registration of a check keeps it, or the triggers against updates, where the request is that. -/
theorem CollectionRequest.invariant_perform {P : Database → Prop} {c : Collection} (stable : Database.Stable P)
    (promotes : ∀ db path unique time after, P db → db.Admits c.name path → db.promote c.name path unique time = .ok after → P after)
    (compounds : ∀ db columns after, P db → db.createIndex (c.name.compoundIndex columns) = .ok after → P after)
    (puts : ∀ db id data n after, P db →
      (db.updateRows c.name.text fun t => (t.rows.filter fun r => r.id = id).mapM fun r => do
        return (r, { r with data := ← db.admitBody t r data })) = .ok (n, after) → P after)
    (r : CollectionRequest)
    (checks : ∀ path expression, r = .addCheck path expression → Invariant False P (c.addCheck path expression))
    (freezes : r = .freeze → Invariant False P c.freeze) : Invariant False P (r.perform c) := by
  cases r with
  | insertOne document => exact ((c.plain_insertOne document).invariant stable).map _
  | insertMany documents => exact ((c.plain_insertMany documents).invariant stable).map _
  | find filter listing wanted =>
    exact (Invariant.ofRequest _).bind fun _ => (c.quiet_find filter _).invariant.bind fun _ => .pure _
  | findOne filter => exact (c.quiet_findOne filter).invariant.map _
  | findRaw predicate listing wanted =>
    exact (Invariant.ofRequest _).bind fun _ => (c.quiet_findRaw predicate _).invariant.bind fun _ => .pure _
  | count filter => exact (c.quiet_count filter).invariant.map _
  | update cardinality filter change upsert =>
    cases cardinality with
    | one => exact ((c.plain_updateOne filter change upsert).invariant stable).map _
    | many => exact ((c.plain_updateMany filter change upsert).invariant stable).map _
  | replaceOne filter replacement upsert => exact ((c.plain_replaceOne filter replacement upsert).invariant stable).map _
  | delete cardinality filter => exact ((c.plain_delete filter cardinality).invariant stable).map _
  | promote path unique => exact (c.invariant_promote path unique fun db path time after => promotes db path unique time after).map _
  | promoteCompound paths unique =>
    exact (c.invariant_promoteCompound paths unique (fun db path time after => promotes db path unique time after) compounds).map _
  | addCheck path expression => exact (checks path expression rfl).map _
  | name => exact .pure _
  | promotions | checks | schema | columnValues => exact (Invariant.read _).map _
  | freeze => exact (freezes rfl).bind fun _ => .pure _
  | putBody id data => exact (Invariant.write fun db n after h made => puts db id data n after h made).map _

/-- Every request to a collection but the one that freezes it keeps what endures. -/
theorem Database.Enduring.perform {P : Database → Prop} {c : Collection} (endures : Enduring c.name P) (r : CollectionRequest)
    (thaws : r ≠ .freeze) : Invariant False P (r.perform c) :=
  CollectionRequest.invariant_perform endures.stable endures.promotes endures.compounds endures.puts r
    (fun path expression _ => c.invariant_addCheck endures.checks endures.records path expression) fun freeze => absurd freeze thaws

namespace Database.Lasting

variable {P : Database → Prop} (lasting : Lasting P)

include lasting

theorem enduring (name : CollectionName) : Enduring name P where
  stable := lasting.stable
  promotes db path unique after := lasting.promotes db name path unique after
  compounds db := lasting.compounds db name
  checks db := lasting.checks db name
  records := lasting.records
  puts db := lasting.puts db name

/-- Every request to a collection but the one that freezes it keeps what lasts. -/
theorem perform (c : Collection) (r : CollectionRequest) (thaws : r ≠ .freeze) : Invariant False P (r.perform c) :=
  (lasting.enduring c.name).perform r thaws

theorem kept : Kept P (· ≠ .freeze) where
  empty := lasting.empty
  version := lasting.version
  opening := Collection.invariant_openNamed lasting.tables
  perform := lasting.perform

end Database.Lasting

namespace Database

/-- The mirrors last. -/
theorem lasting_mirroring : Lasting Mirroring where
  empty := mirroring_empty
  version _ version h := h.version version
  tables _ _ _ h made := h.createTable made
  stable := stable_mirroring
  promotes _ _ _ _ _ _ h admits made := h.promote admits.target made
  compounds db name columns after h made := by
    obtain ⟨installed, promotions, mirrors⟩ :=
      h.installed.createIndex (i := name.compoundIndex columns) nofun (fun _ _ => nofun) made
    have sites : after.sites = db.sites := by rw [Database.sites, promotions, Database.sites]
    exact ⟨sites ▸ installed, fun s mem free => mirrors s (h.mirrors s (sites ▸ mem) (sites ▸ free))⟩
  checks _ _ _ _ _ _ _ h made replaced := h.replaceTriggers (guards_of_triggers? made) replaced
  records _ entry h := h.recordCheck entry
  puts _ _ _ _ _ _ h made := by
    obtain ⟨sound, _, cs, _, _, _, rfl⟩ := updateRows_eq_ok h.installed.sound (fun _ _ => rewrites_of_putBody) made
    exact h.wrote sound (.rewritten cs)

end Database

/-- Every request but the one that freezes a collection keeps the mirrors. -/
theorem kept_mirroring : Kept Database.Mirroring (· ≠ .freeze) := Database.lasting_mirroring.kept

/-- The column of a path that may be promoted is found under its name, which is no column's of every table. -/
theorem Table.exists_column? {t : Table} {path : FieldPath} (target : path.targetColumn = .ok path.column)
    (has : t.columns.any (sameName path.column) = true) :
    ∃ made, t.column? path.column = some (.promoted made) ∧ sameName path.column made = true := by
  have notReserved : ∀ c ∈ FieldPath.reservedColumns, sameName path.column c = false :=
    (FieldPath.free_of_targetColumn target).2
  obtain ⟨made, mem, same⟩ : ∃ made, t.columns.find? (sameName path.column) = some made ∧ sameName path.column made = true := by
    obtain ⟨c, hc, same⟩ := List.any_eq_true.1 has
    obtain ⟨made, found⟩ := Option.isSome_iff_exists.1 (List.find?_isSome.2 ⟨c, hc, same⟩)
    exact ⟨made, found, List.find?_some found⟩
  refine ⟨made, ?_, same⟩
  unfold Table.column?
  rw [notReserved "id" (by decide), notReserved "data" (by decide), notReserved "created_at" (by decide),
    notReserved "updated_at" (by decide), mem]
  rfl

/-- The values of a mirrored column are what the bodies hold at the path. -/
theorem Database.Mirrors.columnValues {db : Database} {s : Site} (h : db.Mirrors s)
    (target : s.path.targetColumn = .ok s.column) : ∃ t, db.table? s.collection = some t
      ∧ t.columnValues s.column = t.rows.map fun r => r.data.extract s.path := by
  obtain ⟨⟨t, found, has, rows⟩, -⟩ := h
  obtain ⟨made, column, same⟩ := t.exists_column? target has
  change t.column? s.column = _ at column
  change sameName s.column made = true at same
  refine ⟨t, found, ?_⟩
  unfold Table.columnValues
  simp only [column]
  refine List.map_congr_left fun r hr => ?_
  rw [← rows r hr, Row.promotedValue_congr r same]
  rfl

/-! ## Reachable stores -/

/-- A database that a store holds: the contents of its file, what a session with an open transaction sees, or a
state that such a session can go back to. -/
def Store.Holds (s : Store) (db : Database) : Prop :=
  db = s.file.contents ∨ ∃ name x t, s.session? name = some x ∧ x.transaction = some t
    ∧ (db = t.view ∨ ∃ level, (level, db) ∈ t.saved)

theorem Store.Good.holds {P : Database → Prop} {s : Store} (good : s.Good P) {db : Database} (holds : s.Holds db) : P db := by
  rcases holds with rfl | ⟨name, x, t, session, transaction, seen⟩
  · exact good.contents
  · have session := good.session session
    unfold Session.Good at session
    rw [transaction] at session
    obtain ⟨-, view, saved⟩ := session
    rcases seen with rfl | ⟨level, mem⟩
    · exact view
    · exact saved _ mem

/-- The column of a promoted path without rivals mirrors the path in all rows of the collection. -/
theorem Database.Mirroring.mirrored {db : Database} (h : db.Mirroring) {name : CollectionName} {t : Table}
    (found : db.table? name.text = some t) {path : FieldPath} (promoted : path ∈ (db.resolver name.text).promoted)
    (alone : ∀ q ∈ db.promotions, ¬ Site.Rival ⟨name.text, path⟩ q.site) :
    ∀ r ∈ t.rows, r.promotedValue path.column = r.data.extract path := by
  obtain ⟨p, known, rfl⟩ := List.mem_map.1 promoted
  obtain ⟨entry, collection⟩ := List.mem_filter.1 known
  have site : (⟨name.text, p.path⟩ : Site) ∈ db.sites := List.mem_map.2 ⟨p, entry, by rw [of_decide_eq_true collection]⟩
  obtain ⟨⟨u, found', -, rows⟩, -⟩ := h.mirrors _ site (Site.free_iff.2 alone)
  obtain rfl := Option.some.inj (found.symm.trans found')
  exact rows

/-- In a store that starts without a database, whatever calls are made, the column of a promoted path that has
no rival in the registry holds the value of the path in every row. -/
theorem Host.columnValues_of_reached {disk : Disk} {settings : Settings} {ids : IdSource} {clock : Clock}
    {requests : List StoreRequest} (fresh : ∀ e ∈ disk.entries, ∀ f, e.2 ≠ .database f)
    (calls : ∀ r ∈ requests, r.Within (· ≠ .freeze)) {h : Host}
    (reached : ((start disk settings ids clock).callAll requests).2 = h) {s : Store} (opened : h.store = some s)
    {db : Database} (holds : s.Holds db) {p : Promotion} (entry : p ∈ db.promotions)
    (alone : ∀ q ∈ db.promotions, ¬ p.site.Rival q.site) :
    ∃ t, db.table? p.collection = some t ∧ t.columnValues p.column = t.rows.map fun r => r.data.extract p.path := by
  have good : h.Good Database.Mirroring := good_of_reached kept_mirroring fresh calls reached
  have mirroring := (good.store s opened).holds holds
  have known : p.site ∈ db.sites := List.mem_map_of_mem entry
  rw [p.named]
  exact (mirroring.mirrors _ known (Site.free_iff.2 alone)).columnValues (mirroring.installed.targets _ known)

/-- A registry with one entry, as the collection of the entry resolves it. -/
theorem Database.resolver_of_single {db : Database} {name : String} {path : FieldPath}
    (entries : db.promotions.map (fun p => (p.collection, p.path)) = [(name, path)]) :
    (db.resolver name).promoted = [path] ∧ ∀ p ∈ db.promotions, p.collection = name ∧ p.path = path := by
  obtain ⟨⟨collection, path', column, unique, time, named⟩, single, shown⟩ := List.map_eq_singleton_iff.1 entries
  obtain ⟨rfl, rfl⟩ := Prod.mk.inj shown
  refine ⟨?_, fun p known => ?_⟩
  · rw [resolver, promotionsOf, single, List.filter_cons, if_pos (decide_eq_true rfl)]
    rfl
  · rw [single, List.mem_singleton] at known
    exact known ▸ ⟨rfl, rfl⟩

theorem Disk.start_fresh (current : Location) : ∀ e ∈ (start current).entries, ∀ f, e.2 ≠ .database f := by
  intro e mem f
  obtain ⟨place, -, rfl⟩ := List.mem_map.1 mem
  exact nofun

/-- A host without files. -/
def Host.blank : Host := start (.start []) ⟨"store.db", 5000, .wal, .full, 4, 5000, true, none⟩ (.start fun _ => "") (.still 0)

/-- The promotion of the path `b.c` of the collection `a`, and that collection after it. -/
def Promotion.nested : Promotion := CollectionName.promotion ⟨"a", rfl⟩ ⟨["b", "c"], by decide, by decide⟩ false 0
def Collection.nested : Collection := ⟨⟨"a", rfl⟩, ⟨[Promotion.nested.path]⟩⟩

/-- A call that promotes the path, and one that inserts a document that has it. -/
def StoreRequest.promoteNested : StoreRequest := .session "main" (.within "a" (.promote "b.c" false))
def StoreRequest.insertNested : StoreRequest :=
  .session "main" (.within "a" (.insertOne (.object [("_id", .string "x"), ("b", .object [("c", .string "v")])])))

/-- The host after both. -/
def Host.mirrored : Host := (blank.callAll [.reopen none, .promoteNested, .insertNested]).2

theorem Host.columnValues_of_reached_nested : ∃ s t, mirrored.store = some s
    ∧ s.file.contents.table? "a" = some t ∧ t.rows.length = 1
    ∧ t.columnValues "b__c" = t.rows.map fun r => r.data.extract Promotion.nested.path := by
  have evaluated : (mirrored.store.map fun s => (s.file.contents.promotions.map fun p => (p.collection, p.path, p.unique, p.createdAt),
      (s.file.contents.table? "a").map fun t => t.rows.length)) = some ([("a", Promotion.nested.path, false, 0)], some 1) := by
    decide +kernel
  obtain ⟨s, opened, eq⟩ := Option.map_eq_some_iff.1 evaluated
  obtain ⟨entries, rows⟩ := Prod.mk.inj eq
  have promotions : s.file.contents.promotions = [Promotion.nested] := by
    obtain ⟨⟨c, q, column, u, time, rfl⟩, promotions, shown⟩ := List.map_eq_singleton_iff.1 entries
    cases shown
    exact promotions
  have entry : Promotion.nested ∈ s.file.contents.promotions := promotions ▸ List.mem_singleton_self _
  have alone : ∀ q ∈ s.file.contents.promotions, ¬ Promotion.nested.site.Rival q.site := by
    intro q mem
    rw [promotions, List.mem_singleton] at mem
    subst mem
    exact fun rival => rival.2 (.refl _)
  have calls : ∀ r ∈ [.reopen none, .promoteNested, .insertNested], StoreRequest.Within (· ≠ .freeze) r := by
    simp [StoreRequest.promoteNested, StoreRequest.insertNested, StoreRequest.Within, Request.Within]
  obtain ⟨t, found, values⟩ :=
    columnValues_of_reached (Disk.start_fresh []) calls (h := mirrored) (by rw [mirrored, blank]) opened (.inl rfl) entry alone
  have length : t.rows.length = 1 := by
    rw [show s.file.contents.table? "a" = some t from found] at rows
    exact Option.some.inj rows
  exact ⟨s, t, opened, found, length, values⟩

/-- The host when the path `c` of the collection `a__b` has been promoted in between. -/
def Host.rivaled : Host :=
  (blank.callAll [.reopen none, .promoteNested, .session "main" (.within "a__b" (.promote "c" false)), .insertNested]).2

/-- The column of the earlier of two rivals stays null when a document is inserted that has its path. -/
theorem Host.columnValues_of_rivals : ∃ s t p, rivaled.store = some s ∧ p ∈ s.file.contents.promotions
    ∧ s.file.contents.table? p.collection = some t
    ∧ t.columnValues p.column ≠ t.rows.map fun r => r.data.extract p.path := by
  have evaluated : (rivaled.store.bind fun s => s.file.contents.promotions.head?.bind fun p =>
      (s.file.contents.table? p.collection).map fun t =>
        ((t.columnValues p.column).map Value.isNull, t.rows.map fun r => (r.data.extract p.path).isNull))
      = some ([true], [false]) := by decide +kernel
  obtain ⟨s, opened, eq⟩ := Option.bind_eq_some_iff.1 evaluated
  obtain ⟨p, first, eq⟩ := Option.bind_eq_some_iff.1 eq
  obtain ⟨t, found, eq⟩ := Option.map_eq_some_iff.1 eq
  obtain ⟨null, held⟩ := Prod.mk.inj eq
  refine ⟨s, t, p, opened, List.mem_of_head? first, found, fun same => ?_⟩
  rw [same, List.map_map] at null
  have := null.symm.trans held
  simp at this

end Dossier
