import Dossier.Proofs.Database.Mirror
import Dossier.Proofs.Session.Promotion

/-!
# Promotions and mirrors

Every operation keeps `Database.Mirroring`. For a promotion that is the work of five steps, each on a database in
which the new site is known but not in the registry yet: `Database.mirroring_promote` puts them together.
-/

namespace Dossier

open Text Outcome

/-- The trigger goes by the name of one of others. -/
def Trigger.namedIn (gs : List Trigger) (g : Trigger) : Bool := gs.any fun h => sameName g.name h.name

namespace Database

variable {db after : Database} {known : List Site} {s n : Site} {table : String} {t : Table}

/-! ## The schema stays -/

/-- A change of rows leaves what is installed. -/
theorem Installed.mapTable {f : Table → Table} (h : db.Installed known) (sound : (db.mapTable table f).Sound)
    (name : ∀ t, (f t).name = t.name) (columns : ∀ t, (f t).columns = t.columns) : (db.mapTable table f).Installed known := by
  refine ⟨sound, h.triggers, fun t mem c hc => ?_, fun i hi unique c hc => ?_, h.targets⟩
  · obtain ⟨u, hu, rfl⟩ := List.mem_map.1 mem
    by_cases here : sameName u.name table = true
    · rw [if_pos here, name] at *
      rw [columns] at hc
      exact h.columns u hu c hc
    · rw [if_neg here] at *
      exact h.columns u hu c hc
  · obtain ⟨t, found, column⟩ := h.indexes i hi unique c hc
    rw [table?_mapTable name, found]
    split
    · exact ⟨f t, rfl, by rwa [columns]⟩
    · exact ⟨t, rfl, column⟩

theorem Installed.wrote (h : db.Installed known) (sound : after.Sound) (wrote : db.Wrote table after) :
    after.Installed known := by
  obtain ⟨f, name, columns, rfl⟩ := wrote.eq_mapTable
  exact h.mapTable sound name columns

/-- What writes rows keeps the mirrors. -/
theorem Mirroring.wrote (h : db.Mirroring) (sound : after.Sound) (wrote : db.Wrote table after) : after.Mirroring := by
  have same : after.sites = db.sites := by rw [sites, wrote.promotions, sites]
  constructor
  · rw [same]
    exact h.installed.wrote sound wrote
  · rw [same]
    exact fun s mem free => (h.mirrors s mem free).wrote h.installed free wrote

theorem stable_mirroring : Stable Mirroring := fun _ _ _ _ _ _ h eq =>
  have ⟨sound, wrote⟩ := run_eq_ok h.installed.sound eq
  h.wrote sound wrote

/-! ## Tables, checks and versions -/

theorem mirroring_empty : empty.Mirroring := by
  have sound : empty.Sound :=
    ⟨⟨.nil, by simp [empty]⟩, by simp [Thawed, empty], ⟨by simp [empty], by simp [empty]⟩⟩
  exact ⟨⟨sound, by simp [empty], by simp [empty], by simp [empty], by simp [sites, empty]⟩, by simp [sites, empty]⟩

theorem Mirroring.version (h : db.Mirroring) (version : Int) : Mirroring { db with version } := by
  obtain ⟨⟨⟨⟨names, rowids⟩, thawed, ⟨single, separates⟩⟩, triggers, columns, indexes, targets⟩, mirrors⟩ := h
  refine ⟨⟨⟨⟨names, rowids⟩, thawed, ⟨single, separates⟩⟩, triggers, columns, indexes, targets⟩, fun s mem free => ?_⟩
  obtain ⟨table, synced⟩ := mirrors s mem free
  exact ⟨table, synced⟩

theorem Mirroring.recordCheck (h : db.Mirroring) (entry : CheckEntry) : (db.recordCheck entry).Mirroring := by
  unfold Database.recordCheck
  split
  · exact h
  · obtain ⟨⟨⟨⟨names, rowids⟩, thawed, ⟨single, separates⟩⟩, triggers, columns, indexes, targets⟩, mirrors⟩ := h
    refine ⟨⟨⟨⟨names, rowids⟩, thawed, ⟨single, separates⟩⟩, triggers, columns, indexes, targets⟩, fun s mem free => ?_⟩
    obtain ⟨table, synced⟩ := mirrors s mem free
    exact ⟨table, synced⟩

/-- A table that is not there yet is made without rows and columns. -/
theorem Mirroring.createTable (h : db.Mirroring) {name : CollectionName} (made : db.createTable name = .ok after) :
    after.Mirroring := by
  unfold Database.createTable at made
  split at made
  · cases made
    exact h
  · rename_i absent
    split at made
    · cases made
    · cases made
      have fresh : ∀ t ∈ db.tables, sameName t.name name.text = false := by
        simpa [table?] using absent
      have kept : ∀ {other t}, db.table? other = some t →
          table? { db with tables := db.tables ++ [⟨name.text, [], []⟩] } other = some t := by
        intro other t found
        unfold table? at found ⊢
        rw [List.find?_append, found]
        rfl
      obtain ⟨⟨⟨⟨names, rowids⟩, thawed, ⟨single, separates⟩⟩, triggers, columns, indexes, targets⟩, mirrors⟩ := h
      refine ⟨⟨⟨⟨?_, ?_⟩, thawed, ⟨single, ?_⟩⟩, triggers, ?_, ?_, targets⟩, fun s mem free => ?_⟩
      · refine List.pairwise_append.2 ⟨names, by simp, fun t mem u hu => ?_⟩
        rw [List.mem_singleton.1 hu]
        exact fresh t mem
      · intro t mem
        rcases List.mem_append.1 mem with mem | mem
        · exact rowids t mem
        · rw [List.mem_singleton.1 mem]
          exact List.nodup_nil
      · intro t mem
        rcases List.mem_append.1 mem with mem | mem
        · exact separates t mem
        · rw [List.mem_singleton.1 mem]
          exact fun _ _ _ r hr => absurd hr List.not_mem_nil
      · intro t mem
        rcases List.mem_append.1 mem with mem | mem
        · exact columns t mem
        · rw [List.mem_singleton.1 mem]
          exact fun c hc => absurd hc List.not_mem_nil
      · intro i hi unique c hc
        obtain ⟨t, found, column⟩ := indexes i hi unique c hc
        exact ⟨t, kept found, column⟩
      · obtain ⟨⟨t, found, column, rows⟩, synced⟩ := mirrors s mem free
        exact ⟨⟨t, kept found, column, rows⟩, synced⟩

/-! ## Triggers -/

/-- New triggers stand in front of the old ones that go by other names. -/
theorem triggers_of_replaceTriggers {gs : List Trigger} (made : db.replaceTriggers gs = .ok after) :
    after = { db with triggers := gs.reverse ++ db.triggers.filter fun g => !g.namedIn gs } := by
  have dropped : ∀ (gs : List Trigger) (db : Database), gs.foldl (fun db t => db.dropTrigger t.name) db
      = { db with triggers := db.triggers.filter fun g => !g.namedIn gs } := by
    intro gs
    induction gs with
    | nil => exact fun db => congrArg (fun l => { db with triggers := l }) (List.filter_eq_self.2 fun _ _ => rfl).symm
    | cons h rest ih =>
      intro db
      rw [List.foldl_cons, ih, dropTrigger, List.filter_filter]
      simp [Trigger.namedIn, Bool.and_comm]
  have created : ∀ (gs : List Trigger) (db after : Database), gs.foldlM createTrigger db = .ok after →
      after = { db with triggers := gs.reverse ++ db.triggers } := by
    intro gs
    induction gs with
    | nil =>
      intro db after h
      cases h
      rfl
    | cons h rest ih =>
      intro db after made
      rw [List.foldlM_cons] at made
      obtain ⟨mid, first, later⟩ := bind_eq_ok.1 made
      obtain ⟨_, _, first⟩ := bind_eq_ok.1 first
      have eq : mid = { db with triggers := h :: db.triggers } := by
        split at first
        · cases first
        · exact (Except.ok.inj first).symm
      rw [ih mid after later, eq]
      simp
  rw [replaceTriggers, dropped] at made
  exact created gs _ after made

/-- The triggers after some have been made in the place of those of their names. -/
theorem replaceTriggers_eq_ok {gs : List Trigger} (made : db.replaceTriggers gs = .ok after) :
    ∃ l, after = { db with triggers := l } ∧ ∀ g, g ∈ l ↔
      g ∈ gs ∨ (g ∈ db.triggers ∧ ∀ h ∈ gs, sameName g.name h.name = false) :=
  ⟨_, triggers_of_replaceTriggers made, fun g => by simp [Trigger.namedIn, List.mem_append, List.mem_filter]⟩

/-- Other triggers are installed. -/
theorem Installed.triggers_congr (h : db.Installed known) {l : List Trigger}
    (triggers : ∀ g ∈ l, g.Guards ∨ ∃ s ∈ known, ∃ e, e ≠ .anyUpdate ∧ g = s.sync e) :
    Installed known { db with triggers := l } := by
  obtain ⟨⟨⟨names, rowids⟩, -, ⟨single, separates⟩⟩, -, columns, indexes, targets⟩ := h
  refine ⟨⟨⟨names, rowids⟩, fun g mem => ?_, ⟨single, separates⟩⟩, triggers, columns, indexes, targets⟩
  rcases triggers g mem with check | ⟨s, _, e, he, rfl⟩
  · exact check.event
  · exact he

/-- The triggers of checks go by names of their own. -/
theorem Mirroring.replaceTriggers (h : db.Mirroring) {gs : List Trigger} (checks : ∀ g ∈ gs, g.Guards)
    (made : db.replaceTriggers gs = .ok after) : after.Mirroring := by
  obtain ⟨l, rfl, mem⟩ := replaceTriggers_eq_ok made
  constructor
  · refine h.installed.triggers_congr fun g hg => ?_
    rcases (mem g).1 hg with new | ⟨old, -⟩
    · exact .inl (checks g new)
    · exact h.installed.triggers g old
  · intro s site free
    obtain ⟨table, synced⟩ := h.mirrors s site free
    refine ⟨table, fun e he => ?_⟩
    obtain ⟨q, alike, old⟩ := synced e he
    exact ⟨q, alike, (mem _).2 (.inr ⟨old, fun g hg => by rw [sameName_comm]; exact (checks g hg).apart q e⟩)⟩

theorem guards_of_triggers? {name : CollectionName} {check message condition : String} {gs : List Trigger}
    (made : Check.triggers? name check message condition = some gs) : ∀ g ∈ gs, g.Guards := by
  have apart : ∀ (ending : String) (e : TriggerEvent), ending = "__insert" ∨ ending = "__update" → ∀ s : Site,
      sameName (check ++ ending) (s.sync e).name = false := by
    intro ending e which s
    obtain ⟨start, tail, split, length, ne⟩ : ∃ start tail : String, Site.part e = start ++ tail
        ∧ ending.length = tail.length ∧ sameName ending tail = false := by
      rcases which with rfl | rfl <;> cases e
      · exact ⟨"__syn", "c_insert", by decide, by decide, by decide⟩
      · exact ⟨"__syn", "c_update", by decide, by decide, by decide⟩
      · exact ⟨"__syn", "c_update", by decide, by decide, by decide⟩
      · exact ⟨"__syn", "c_insert", by decide, by decide, by decide⟩
      · exact ⟨"__syn", "c_update", by decide, by decide, by decide⟩
      · exact ⟨"__syn", "c_update", by decide, by decide, by decide⟩
    have name : (s.sync e).name = (s.stem ++ start) ++ tail := by
      rw [Site.sync, split]
      exact String.append_assoc.symm
    rw [name]
    exact sameName_append_of_ne length ne _ _
  obtain ⟨violation, -, rfl⟩ := Option.map_eq_some_iff.1 made
  intro g mem
  simp only [List.mem_cons, List.not_mem_nil, or_false] at mem
  rcases mem with rfl | rfl
  · exact ⟨⟨violation, message, rfl⟩, by simp, fun s e => apart _ e (.inl rfl) s⟩
  · exact ⟨⟨violation, message, rfl⟩, by simp, fun s e => apart _ e (.inr rfl) s⟩

/-! ## Indexes -/

theorem createIndex_eq_ok {i : Index} (made : db.createIndex i = .ok after) :
    ((db.index? i.name).isSome = true ∧ after = db)
    ∨ ∃ t, db.table? i.table = some t ∧ (i.unique = true → i.separates t.rows = true)
      ∧ after = { db with indexes := db.indexes ++ [i] } := by
  obtain ⟨t, found, made⟩ := bind_eq_ok.1 made
  rw [tableOf_eq_ok] at found
  by_cases clash : (db.table? i.name).isSome = true
  · simp [clash] at made
  · by_cases taken : (db.index? i.name).isSome = true
    · simp only [clash, taken, Bool.false_eq_true, if_false, if_true] at made
      exact .inl ⟨taken, (Except.ok.inj made).symm⟩
    · simp only [clash, taken, Bool.false_eq_true, if_false] at made
      split at made
      · cases made
      · rename_i separates
        refine .inr ⟨t, found, fun unique => ?_, (Except.ok.inj made).symm⟩
        simpa [unique] using separates

/-- An index is made, on one column that is there if it is unique. -/
theorem Installed.createIndex (h : db.Installed known) {i : Index} (single : i.unique = true → ∃ c, i.columns = [c])
    (column : ∀ c ∈ i.columns, i.unique = true → ∃ t, db.table? i.table = some t ∧ t.columns.any (sameName c) = true)
    (made : db.createIndex i = .ok after) :
    after.Installed known ∧ after.promotions = db.promotions ∧ ∀ s, db.Mirrors s → after.Mirrors s := by
  rcases createIndex_eq_ok made with ⟨-, rfl⟩ | ⟨t, found, separates, rfl⟩
  · exact ⟨h, rfl, fun _ => id⟩
  · refine ⟨?_, rfl, fun s ⟨table, synced⟩ => ⟨table, synced⟩⟩
    obtain ⟨⟨⟨names, rowids⟩, thawed, keyed⟩, triggers, columns, indexes, targets⟩ := h
    have tidy : db.Tidy := ⟨names, rowids⟩
    refine ⟨⟨⟨names, rowids⟩, thawed, ⟨fun j hj unique => ?_, fun u mem j hj unique => ?_⟩⟩, triggers, columns, ?_, targets⟩
    · rcases List.mem_append.1 hj with hj | hj
      · exact keyed.single j hj unique
      · obtain rfl := List.mem_singleton.1 hj
        exact single unique
    · obtain ⟨hj, on⟩ := List.mem_filter.1 hj
      rcases List.mem_append.1 hj with hj | hj
      · exact keyed.separates u mem j (List.mem_filter.2 ⟨hj, on⟩) unique
      · obtain rfl := List.mem_singleton.1 hj
        obtain rfl := Option.some.inj ((tidy.table?_eq_some mem (sameName_symm on)).symm.trans found)
        exact j.apart_of_separates (separates unique)
    · intro j hj unique c hc
      rcases List.mem_append.1 hj with hj | hj
      · exact indexes j hj unique c hc
      · obtain rfl := List.mem_singleton.1 hj
        exact column c hc unique

/-! ## The steps of a promotion -/

/-- A site becomes known. -/
theorem Installed.cons (h : db.Installed known) (target : n.path.targetColumn = .ok n.column) :
    db.Installed (n :: known) := by
  refine ⟨h.sound, fun g mem => (h.triggers g mem).imp_right ?_, fun t mem c hc => ?_, h.indexes,
    List.forall_mem_cons.2 ⟨target, h.targets⟩⟩
  · rintro ⟨s, mem, sync⟩
    exact ⟨s, List.mem_cons_of_mem _ mem, sync⟩
  · obtain ⟨s, mem, same⟩ := h.columns t mem c hc
    exact ⟨s, List.mem_cons_of_mem _ mem, same⟩

/-- A column that may be promoted is none that every table has. -/
theorem hasColumn_of_target (target : n.path.targetColumn = .ok n.column) (t : Table) :
    t.hasColumn n.column = t.columns.any (sameName n.column) := by
  have free : systemColumns.any (sameName n.column) = false := List.any_eq_false.2 fun c mem =>
    Bool.eq_false_iff.1 ((FieldPath.free_of_targetColumn target).2 c (List.mem_append_left _ mem))
  rw [Table.hasColumn, List.any_append, free, Bool.false_or]

/-- The column is there, or it is added and no index knows it yet. -/
theorem Installed.ensureColumn (h : db.Installed known) (target : n.path.targetColumn = .ok n.column)
    (made : db.ensureColumn n.collection n.column = .ok after) :
    after.Installed (n :: known) ∧ after.promotions = db.promotions ∧ (∀ s, db.Mirrors s → after.Mirrors s)
      ∧ ∃ t, after.table? n.collection = some t ∧ t.columns.any (sameName n.column) = true
        ∧ ((∃ q ∈ known, sameName n.stem q.stem = true)
          ∨ ∀ i ∈ after.indexesOn n.collection, i.unique = true → ∀ c ∈ i.columns, sameName n.column c = false) := by
  have installed := h.cons target
  obtain ⟨t, found, made⟩ := bind_eq_ok.1 made
  rw [tableOf_eq_ok] at found
  have columns := hasColumn_of_target target t
  have name := (mem_of_table? found).2
  split at made
  · rename_i present
    cases made
    rw [columns] at present
    refine ⟨installed, rfl, fun _ => id, t, found, present, .inl ?_⟩
    obtain ⟨c, hc, same⟩ := List.any_eq_true.1 present
    obtain ⟨q, mem, onTable, column⟩ := h.columns t (mem_of_table? found).1 c hc
    refine ⟨q, mem, Site.stem_same ?_ ?_⟩
    · exact sameName_trans (sameName_symm name) (sameName_symm onTable)
    · exact sameName_trans same (sameName_symm column)
  · rename_i absent
    obtain ⟨u, found', made⟩ := bind_eq_ok.1 made
    rw [tableOf_eq_ok, found] at found'
    cases found'
    have absent' : t.hasColumn n.column = false := by simpa using absent
    simp only [absent', Bool.false_eq_true, if_false] at made
    cases made
    have unknown : ∀ i ∈ db.indexesOn n.collection, i.unique = true → ∀ c ∈ i.columns, sameName n.column c = false := by
      intro i hi unique c hc
      obtain ⟨hi, on⟩ := List.mem_filter.1 hi
      obtain ⟨u, found', has⟩ := h.indexes i hi unique c hc
      rw [table?_congr on, found] at found'
      cases found'
      rw [Bool.eq_false_iff]
      intro same
      rw [absent'] at columns
      refine Bool.false_ne_true (columns.trans ?_)
      rw [show sameName n.column = sameName c from funext (sameName_left same)]
      exact has
    obtain ⟨⟨⟨names, rowids⟩, thawed, keyed⟩, triggers, owned, indexes, targets⟩ := installed
    have tidy : db.Tidy := ⟨names, rowids⟩
    have keeps : ∀ t : Table, ({ t with columns := t.columns ++ [n.column] } : Table).name = t.name := fun _ => rfl
    have found' := @table?_mapTable db n.collection _ keeps
    refine ⟨⟨⟨tidy.mapTable keeps fun t mem _ => rowids t mem, thawed, keyed.mapTable keeps fun t mem _ i hi unique =>
        keyed.separates t mem i hi unique⟩, triggers, ?_, ?_, targets⟩, rfl, ?_, ?_⟩
    · intro u mem c hc
      obtain ⟨v, hv, rfl⟩ := List.mem_map.1 mem
      by_cases here : sameName v.name n.collection = true
      · rw [if_pos here] at hc ⊢
        rcases List.mem_append.1 hc with hc | hc
        · exact owned v hv c hc
        · rw [List.mem_singleton.1 hc]
          exact ⟨n, List.mem_cons_self, sameName_symm here, sameName_refl _⟩
      · rw [if_neg here] at hc ⊢
        exact owned v hv c hc
    · intro i hi unique c hc
      obtain ⟨u, hu, has⟩ := indexes i hi unique c hc
      rw [found', hu]
      split
      · exact ⟨_, rfl, by rw [List.any_append, has, Bool.true_or]⟩
      · exact ⟨u, rfl, has⟩
    · rintro s ⟨⟨u, hu, has, rows⟩, synced⟩
      refine ⟨?_, synced⟩
      rw [found', hu]
      split
      · exact ⟨_, rfl, by rw [List.any_append, has, Bool.true_or], rows⟩
      · exact ⟨u, rfl, has, rows⟩
    · refine ⟨{ t with columns := t.columns ++ [n.column] }, ?_, by simp, .inr unknown⟩
      exact found_mapTable keeps found

/-- The triggers of the site are made. They take the place of triggers of the same path, or of rivals. -/
theorem Installed.sync (h : db.Installed (n :: known)) {name : CollectionName} (collection : name.text = n.collection)
    (made : db.replaceTriggers (name.copyTriggers n.path n.path.column) = .ok after) :
    after.Installed (n :: known) ∧ after.promotions = db.promotions ∧ after.tables = db.tables
      ∧ after.indexes = db.indexes ∧ (∀ s, s.Free (n :: known) → db.Mirrors s → after.Mirrors s)
      ∧ ∀ e, e ≠ .anyUpdate → n.sync e ∈ after.triggers := by
  have news : name.copyTriggers n.path n.path.column = [n.sync .insert, n.sync .bodyUpdate] := by
    rw [CollectionName.copyTriggers_eq, collection]
  rw [news] at made
  obtain ⟨l, rfl, mem⟩ := replaceTriggers_eq_ok made
  have own : ∀ e, e ≠ .anyUpdate → n.sync e ∈ l := by
    intro e he
    refine (mem _).2 (.inl ?_)
    cases e with
    | insert => exact List.mem_cons_self
    | bodyUpdate => exact List.mem_cons_of_mem _ List.mem_cons_self
    | anyUpdate => exact absurd rfl he
  refine ⟨h.triggers_congr fun g hg => ?_, rfl, rfl, rfl, ?_, own⟩
  · rcases (mem g).1 hg with new | ⟨old, -⟩
    · refine .inr ⟨n, List.mem_cons_self, ?_⟩
      simp only [List.mem_cons, List.not_mem_nil, or_false] at new
      rcases new with rfl | rfl
      · exact ⟨.insert, by decide, rfl⟩
      · exact ⟨.bodyUpdate, by decide, rfl⟩
    · exact h.triggers g old
  · rintro s free ⟨table, synced⟩
    refine ⟨table, fun e he => ?_⟩
    obtain ⟨q, alike, old⟩ := synced e he
    by_cases taken : sameName q.stem n.stem = true
    · have same := sameName_trans alike.stem_same taken
      exact ⟨n, free.alike List.mem_cons_self same, own e he⟩
    · refine ⟨q, alike, (mem _).2 (.inr ⟨old, fun g hg => ?_⟩)⟩
      rw [Bool.eq_false_iff]
      intro same
      simp only [List.mem_cons, List.not_mem_nil, or_false] at hg
      rcases hg with rfl | rfl
      · exact taken (Site.stem_of_sync_name same).1
      · exact taken (Site.stem_of_sync_name same).1

/-- The column of the site is written, or left as it is if that fails. -/
theorem Installed.fill (h : db.Installed (n :: known)) {t : Table} (found : db.table? n.collection = some t) :
    ((db.fillColumn n.collection n.column n.path).toOption.getD db).Installed (n :: known)
      ∧ ((db.fillColumn n.collection n.column n.path).toOption.getD db).promotions = db.promotions
      ∧ (∃ u, ((db.fillColumn n.collection n.column n.path).toOption.getD db).table? n.collection = some u
        ∧ u.columns = t.columns)
      ∧ ∀ s, s.Free (n :: known) → db.Mirrors s → ((db.fillColumn n.collection n.column n.path).toOption.getD db).Mirrors s := by
  cases made : db.fillColumn n.collection n.column n.path with
  | error e => exact ⟨h, rfl, ⟨t, found, rfl⟩, fun _ _ => id⟩
  | ok after =>
    obtain ⟨sound, rfl⟩ := fillColumn_eq_ok h.sound made
    refine ⟨h.mapTable sound (Table.fill_name _ _) (Table.fill_columns _ _), rfl, ⟨t.fill n.column n.path, ?_, rfl⟩,
      fun s free mirrors => ?_⟩
    · exact found_mapTable (Table.fill_name _ _) found
    refine mirrors.mapTable (Table.fill_name _ _) (Table.fill_columns _ _) fun t _ on mirrored r mem => ?_
    obtain ⟨r, hr, rfl⟩ := List.mem_map.1 mem
    rw [Row.setPromoted_data]
    by_cases same : sameName n.column s.column = true
    · have stem := Site.stem_same (s := s) (q := n) (sameName_symm on) (sameName_symm same)
      rw [Row.promotedValue_setPromoted_of_same _ _ same, (free.alike List.mem_cons_self stem).2]
    · rw [Row.promotedValue_setPromoted_of_ne _ _ (Bool.eq_false_iff.2 same)]
      exact mirrored r hr

/-- A column that no index knows is written in every row. -/
theorem Installed.mirrors_fill (h : db.Installed (n :: known)) {t : Table} (found : db.table? n.collection = some t)
    (column : t.columns.any (sameName n.column) = true) (synced : ∀ e, e ≠ .anyUpdate → n.sync e ∈ db.triggers)
    (unknown : ∀ i ∈ db.indexesOn n.collection, i.unique = true → ∀ c ∈ i.columns, sameName n.column c = false) :
    ((db.fillColumn n.collection n.column n.path).toOption.getD db).Mirrors n := by
  obtain ⟨after, made⟩ := exists_fillColumn h.sound found unknown n.path
  obtain ⟨-, rfl⟩ := fillColumn_eq_ok h.sound made
  rw [made]
  refine ⟨⟨t.fill n.column n.path, ?_, column, fun r mem => ?_⟩, fun e he => ⟨n, .refl n, synced e he⟩⟩
  · exact found_mapTable (Table.fill_name _ _) found
  · obtain ⟨r, -, rfl⟩ := List.mem_map.1 mem
    exact Row.promotedValue_setPromoted _ _ _

/-! ## Promotions -/

theorem mem_sites_recordPromotion {p : Promotion} :
    s ∈ (db.recordPromotion p).sites ↔ s = ⟨p.collection, p.path⟩ ∨ s ∈ db.sites := by
  unfold Database.recordPromotion sites
  simp only
  induction db.promotions with
  | nil => simp [enter]
  | cons q rest ih =>
    unfold enter
    by_cases same : q.collection = p.collection ∧ q.path = p.path
    · simp only [same, decide_true, Bool.and_self, if_true, List.map_cons, List.mem_cons]
      rw [or_self_left]
    · have differ : ¬ (decide (q.collection = p.collection) && decide (q.path = p.path)) = true := by simpa using same
      rw [if_neg differ, List.map_cons, List.mem_cons, List.map_cons, List.mem_cons, ih, or_left_comm]

/-- What is installed does not depend on the order in which the sites are known. -/
theorem Installed.congr {known' : List Site} (h : db.Installed known) (same : ∀ s, s ∈ known' ↔ s ∈ known) :
    db.Installed known' := by
  refine ⟨h.sound, fun g mem => (h.triggers g mem).imp_right ?_, fun t mem c hc => ?_, h.indexes,
    fun s mem => h.targets s ((same s).1 mem)⟩
  · rintro ⟨s, mem, sync⟩
    exact ⟨s, (same s).2 mem, sync⟩
  · obtain ⟨s, mem, owns⟩ := h.columns t mem c hc
    exact ⟨s, (same s).2 mem, owns⟩

theorem Installed.promotions_congr (h : db.Installed known) (promotions : List Promotion) :
    Installed known { db with promotions } := by
  obtain ⟨⟨⟨names, rowids⟩, thawed, ⟨single, separates⟩⟩, triggers, columns, indexes, targets⟩ := h
  exact ⟨⟨⟨names, rowids⟩, thawed, ⟨single, separates⟩⟩, triggers, columns, indexes, targets⟩

/-- A promotion keeps the mirrors, and adds its own unless it has a rival. -/
theorem Mirroring.promote (h : db.Mirroring) {name : CollectionName} {path : FieldPath} {unique : Bool} {time : Int}
    (target : path.targetColumn = .ok path.column) (made : db.promote name path unique time = .ok after) : after.Mirroring := by
  let n : Site := ⟨name.text, path⟩
  obtain ⟨db₁, ensured, made⟩ := bind_eq_ok.1 made
  obtain ⟨installed₁, promotions₁, mirrors₁, t, found₁, column, known⟩ := h.installed.ensureColumn (n := n) target ensured
  obtain ⟨db₂, triggered, made⟩ := bind_eq_ok.1 made
  obtain ⟨installed₂, promotions₂, tables, indexes, mirrors₂, synced⟩ := installed₁.sync rfl triggered
  have found₂ : db₂.table? n.collection = some t := by rw [table?, tables]; exact found₁
  obtain ⟨installed₃, promotions₃, ⟨u, found₃, columns⟩, mirrors₃⟩ := installed₂.fill found₂
  obtain ⟨db₄, indexed, made⟩ := bind_eq_ok.1 made
  cases made
  have owned : ∀ c ∈ (name.columnIndex path.column unique).columns, (name.columnIndex path.column unique).unique = true →
      ∃ t, ((db₂.fillColumn n.collection n.column n.path).toOption.getD db₂).table?
        (name.columnIndex path.column unique).table = some t ∧ t.columns.any (sameName c) = true := by
    intro c hc _
    rw [List.mem_singleton.1 hc]
    exact ⟨u, found₃, columns ▸ column⟩
  obtain ⟨installed₄, promotions₄, mirrors₄⟩ := installed₃.createIndex (fun _ => ⟨_, rfl⟩) owned indexed
  have sites : db₄.sites = db.sites := by rw [Database.sites, promotions₄, promotions₃, promotions₂, promotions₁, Database.sites]
  have mem : ∀ s, s ∈ (db₄.recordPromotion (name.promotion path unique time)).sites ↔ s ∈ n :: db.sites := by
    intro s
    rw [mem_sites_recordPromotion, sites, List.mem_cons]
    exact Iff.rfl
  refine ⟨(installed₄.congr mem).promotions_congr _, fun s hs free => ?_⟩
  have free : s.Free (n :: db.sites) := fun q hq => free q ((mem q).2 hq)
  -- the sites of the registry are mirrored all the way, the new one from the filling of its column on
  have old : ∀ s, s ∈ db.sites → s.Free (n :: db.sites) → db₄.Mirrors s := fun s hs free =>
    mirrors₄ s (mirrors₃ s free (mirrors₂ s free (mirrors₁ s (h.mirrors s hs fun q hq => free q (List.mem_cons_of_mem _ hq)))))
  have mirrors : db₄.Mirrors s := by
    rcases List.mem_cons.1 ((mem s).1 hs) with rfl | hs
    · rcases known with ⟨q, hq, stem⟩ | unknown
      · have alike := free.alike (List.mem_cons_of_mem _ hq) stem
        exact (old q hq (free.congr alike)).congr alike.symm
      · refine mirrors₄ n (installed₂.mirrors_fill found₂ column synced ?_)
        rw [indexesOn, indexes]
        exact unknown
    · exact old s hs free
  obtain ⟨table, triggers⟩ := mirrors
  exact ⟨table, triggers⟩

end Database

end Dossier
