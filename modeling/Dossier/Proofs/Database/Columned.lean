import Dossier.Proofs.Database.Lenient
import Dossier.Proofs.Database.Promoting
import Dossier.Proofs.Database.RowTwins

/-!
# Databases with the promoted paths of one collection

In a `Database.Columned` database every promoted column mirrors its path and no write is refused. Statements keep it
so, and so does a promotion that is not unique, which leaves the rows twins of what they were.
-/

namespace Dossier

open Text Outcome

namespace Database

open Row Table

variable {db after : Database} {name : CollectionName} {timed : Prop} {resolver : Resolver}

/-- Lenient, with promoted paths of one collection, none of which has a rival. -/
structure Columned (name : CollectionName) (resolver : Resolver) (db : Database) : Prop where
  lenient : db.Lenient
  mirroring : db.Mirroring
  own : ∀ s ∈ db.sites, s.collection = name.text
  free : ∀ s ∈ db.sites, s.Free db.sites
  resolves : db.resolver name.text = resolver

namespace Columned

theorem mem_sites (h : db.Columned name resolver) {path : FieldPath} :
    path ∈ resolver.promoted ↔ (⟨name.text, path⟩ : Site) ∈ db.sites := by
  rw [← h.resolves]
  unfold Database.resolver promotionsOf sites
  simp only [List.mem_map, List.mem_filter, Site.mk.injEq]
  constructor
  · rintro ⟨p, ⟨mem, own⟩, path⟩
    exact ⟨p, mem, by simpa using own, path⟩
  · rintro ⟨p, mem, own, path⟩
    exact ⟨p, ⟨mem, by simpa using own⟩, path⟩

theorem mirrored (h : db.Columned name resolver) {t : Table} (found : db.table? name.text = some t) :
    ∀ r ∈ t.rows, r.Mirrored resolver := by
  intro r mem p promoted
  have site := h.mem_sites.1 promoted
  obtain ⟨⟨u, found', -, rows⟩, -⟩ := h.mirroring.mirrors _ site (h.free _ site)
  obtain rfl := Option.some.inj (found.symm.trans found')
  exact rows r mem

/-- Writes of rows keep what is promoted. -/
theorem wrote (h : db.Columned name resolver) {table : String} (sound : after.Sound) (wrote : db.Wrote table after) :
    after.Columned name resolver := by
  have mirroring := h.mirroring.wrote sound wrote
  obtain ⟨f, -, -, rfl⟩ := wrote.eq_mapTable
  exact ⟨⟨sound, h.lenient.copies, h.lenient.unkeyed⟩, mirroring, h.own, h.free, h.resolves⟩

end Columned

/-! ## Promotions -/

/-- What a promotion changes: rows in their promoted columns, tables in their columns, triggers, indexes and the
registry. -/
structure Promoted (db : Database) (name : CollectionName) (path : FieldPath) (unique : Bool) (time : Int) (after : Database) : Prop where
  tables : ∃ f : Table → Table, (∀ t, (f t).name = t.name) ∧ (∀ timed t, RowTwins timed (f t) t)
    ∧ after.tables = (db.mapTable name.text f).tables
  triggers : ∀ g ∈ after.triggers, g ∈ db.triggers ∨ ∃ column, g.action = .copy path column
  indexes : ∀ i ∈ after.indexes, i ∈ db.indexes ∨ i.unique = unique
  promotions : after.promotions = enter (name.promotion path unique time) db.promotions

theorem ensureColumn_tables {table column : String} (made : db.ensureColumn table column = .ok after) :
    ∃ f : Table → Table, (∀ t, (f t).name = t.name) ∧ (∀ t, (f t).rows = t.rows) ∧ after = db.mapTable table f := by
  obtain ⟨t, found, made⟩ := bind_eq_ok.1 made
  split at made
  · cases made
    exact ⟨id, fun _ => rfl, fun _ => rfl, by simp [Database.mapTable]⟩
  · obtain ⟨_, _, made⟩ := bind_eq_ok.1 made
    split at made
    · cases made
    · cases made
      exact ⟨fun t => { t with columns := t.columns ++ [column] }, fun _ => rfl, fun _ => rfl, rfl⟩

theorem promote_eq_ok (h : db.Mirroring) {path : FieldPath} {unique : Bool} {time : Int} (target : path.targetColumn = .ok path.column)
    (made : db.promote name path unique time = .ok after) : db.Promoted name path unique time after := by
  let n : Site := ⟨name.text, path⟩
  obtain ⟨db₁, ensured, made⟩ := bind_eq_ok.1 made
  obtain ⟨installed₁, -⟩ := h.installed.ensureColumn (n := n) target ensured
  obtain ⟨f, names, rows, rfl⟩ := ensureColumn_tables ensured
  obtain ⟨db₂, triggered, made⟩ := bind_eq_ok.1 made
  obtain ⟨installed₂, -⟩ := installed₁.sync rfl triggered
  obtain ⟨l, rfl, mem⟩ := replaceTriggers_eq_ok triggered
  obtain ⟨db₄, indexed, made⟩ := bind_eq_ok.1 made
  cases made
  have triggers : ∀ g ∈ l, g ∈ db.triggers ∨ ∃ column, g.action = .copy path column := by
    intro g hg
    rcases (mem g).1 hg with new | ⟨old, -⟩
    · rw [CollectionName.copyTriggers_eq] at new
      simp only [List.mem_cons, List.not_mem_nil, or_false] at new
      rcases new with rfl | rfl
      · exact .inr ⟨_, rfl⟩
      · exact .inr ⟨_, rfl⟩
    · exact .inl old
  -- the older rows are written, or left as they are
  have filled : ∃ g : Table → Table, (∀ t, (g t).name = t.name) ∧ (∀ timed t, RowTwins timed (g t) t)
      ∧ ((Database.fillColumn { db.mapTable name.text f with triggers := l } name.text path.column path).toOption.getD
        { db.mapTable name.text f with triggers := l }) = { db.mapTable name.text g with triggers := l } := by
    have twins : ∀ timed t, RowTwins timed (f t) t := fun timed t => by
      unfold RowTwins
      rw [rows]
      exact RowTwins.refl timed t
    cases fill : Database.fillColumn { db.mapTable name.text f with triggers := l } name.text path.column path with
    | error e => exact ⟨f, names, twins, rfl⟩
    | ok after =>
      obtain ⟨-, rfl⟩ := fillColumn_eq_ok installed₂.sound fill
      refine ⟨Table.fill path.column path ∘ f, names, fun timed t => (rowTwins_fill timed _ _ _).trans (twins timed t), ?_⟩
      rw [← mapTable_mapTable names]
      rfl
  obtain ⟨g, names', twins, eq⟩ := filled
  rw [eq] at indexed
  rcases createIndex_eq_ok indexed with ⟨-, rfl⟩ | ⟨_, _, _, rfl⟩
  · exact ⟨⟨g, names', twins, rfl⟩, triggers, fun i hi => .inl hi, rfl⟩
  · refine ⟨⟨g, names', twins, rfl⟩, triggers, fun i hi => ?_, rfl⟩
    rcases List.mem_append.1 hi with hi | hi
    · exact .inl hi
    · rw [List.mem_singleton.1 hi]
      exact .inr rfl

namespace Columned

/-- A promotion that is admitted makes no rival. -/
theorem free_promote (h : db.Columned name resolver) {path : FieldPath} (admits : db.Admits name path) :
    ∀ s ∈ (⟨name.text, path⟩ : Site) :: db.sites, s.Free (⟨name.text, path⟩ :: db.sites) := by
  have own : ∀ s ∈ (⟨name.text, path⟩ : Site) :: db.sites, s.collection = name.text := List.forall_mem_cons.2 ⟨rfl, h.own⟩
  by_cases known : (⟨name.text, path⟩ : Site) ∈ db.sites
  · have same : ∀ q, q ∈ (⟨name.text, path⟩ : Site) :: db.sites → q ∈ db.sites := by
      intro q mem
      rcases List.mem_cons.1 mem with rfl | mem
      · exact known
      · exact mem
    exact fun s hs q hq => h.free s (same s hs) q (same q hq)
  · -- no site of the registry has the column
    have apart : ∀ q ∈ db.sites, sameName q.column path.column = false := by
      intro q mem
      rw [Bool.eq_false_iff]
      intro same
      obtain ⟨p, hp, rfl⟩ := List.mem_map.1 mem
      obtain ⟨first, entry, collection, path_⟩ := admits.exists_entry hp (h.own _ mem) (p.named ▸ same)
      exact known (List.mem_map.2 ⟨first, entry, by rw [collection, path_]⟩)
    have columns : ∀ s ∈ (⟨name.text, path⟩ : Site) :: db.sites, ∀ q ∈ (⟨name.text, path⟩ : Site) :: db.sites,
        sameName s.stem q.stem = true → sameName s.column q.column = true := by
      intro s hs q hq stem
      rw [Site.stem, Site.stem, own s hs, own q hq] at stem
      exact sameName_append_left _ _ _ ▸ stem
    rintro s hs q hq ⟨stem, unlike⟩
    have column := columns s hs q hq stem
    rcases List.mem_cons.1 hs with rfl | hs
    · rcases List.mem_cons.1 hq with rfl | hq
      · exact unlike (.refl _)
      · rw [sameName_comm] at column
        exact Bool.false_ne_true ((apart q hq).symm.trans column)
    · rcases List.mem_cons.1 hq with rfl | hq
      · exact Bool.false_ne_true ((apart s hs).symm.trans column)
      · exact h.free s hs q hq ⟨stem, unlike⟩

/-- A promotion that is not unique adds its path. -/
theorem promote (h : db.Columned name resolver) {path : FieldPath} {time : Int} (admits : db.Admits name path)
    (made : db.promote name path false time = .ok after) : after.Columned name (after.resolver name.text)
      ∧ ∀ p, p ∈ (after.resolver name.text).promoted ↔ p = path ∨ p ∈ resolver.promoted := by
  have mirroring := h.mirroring.promote admits.target made
  obtain ⟨-, triggers, indexes, promotions⟩ := promote_eq_ok h.mirroring admits.target made
  have sites : ∀ s, s ∈ after.sites ↔ s ∈ (⟨name.text, path⟩ : Site) :: db.sites := by
    intro s
    rw [Database.sites, promotions, List.mem_cons]
    exact mem_sites_recordPromotion (p := name.promotion path false time)
  have columned : after.Columned name (after.resolver name.text) := by
    refine ⟨⟨mirroring.installed.sound, fun g mem => ?_, fun i mem => ?_⟩, mirroring, fun s mem => ?_, fun s mem q mem' => ?_, rfl⟩
    · rcases triggers g mem with old | ⟨column, action⟩
      · exact h.lenient.copies g old
      · exact ⟨path, column, action⟩
    · rcases indexes i mem with old | unique
      · exact h.lenient.unkeyed i old
      · exact unique
    · rcases List.mem_cons.1 ((sites s).1 mem) with rfl | old
      · rfl
      · exact h.own s old
    · exact h.free_promote admits s ((sites s).1 mem) q ((sites q).1 mem')
  refine ⟨columned, fun p => ?_⟩
  rw [columned.mem_sites, h.mem_sites, sites, List.mem_cons, Site.mk.injEq]
  simp

/-- The table of a collection is made, if it is not there, beside those of others. -/
theorem createTable (h : db.Columned name resolver) (made : db.createTable name = .ok after) : after.Columned name resolver := by
  have mirroring := h.mirroring.createTable made
  unfold Database.createTable at made
  split at made
  · cases made
    exact h
  · split at made
    · cases made
    · cases made
      exact ⟨⟨mirroring.installed.sound, h.lenient.copies, h.lenient.unkeyed⟩, mirroring, h.own, h.free, h.resolves⟩

end Columned

theorem columned_empty (name : CollectionName) : empty.Columned name ⟨[]⟩ :=
  ⟨⟨mirroring_empty.installed.sound, by simp [empty], by simp [empty]⟩, mirroring_empty, by simp [sites, empty],
    by simp [sites, empty], rfl⟩

end Database

end Dossier
