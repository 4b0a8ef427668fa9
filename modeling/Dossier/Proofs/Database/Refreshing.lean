import Dossier.Proofs.Database.Unique

/-!
# Promotions in closed form

A promotion adds the column if it is missing, brings its triggers to the front, fills the column if no unique index stands
against that, makes the index and makes the entry (`Database.promote_eq`). `Database.Fills` says of the rows alone whether the
column can be filled. A path that stands promoted (`Database.Standing`) stays so under further promotions, and promoting it
once more does no more than bring its triggers and its values to the front.
-/

namespace Dossier

open Text Outcome

/-! ## Lists in which some elements come to the front -/

section Front
variable {α ι : Type} (block : ι → List α) (named : ι → α → Bool)

/-- The block comes to the front in the place of what goes by its name. -/
def front (l : List α) (i : ι) : List α := block i ++ l.filter fun a => !named i a

variable {block named}

theorem foldl_front (l : List α) (is : List ι) : is.foldl (front block named) l
    = is.foldl (front block named) [] ++ l.filter fun a => is.all fun i => !named i a := by
  induction is generalizing l with
  | nil => exact (List.filter_eq_self.2 fun _ _ => rfl).symm
  | cons i rest ih =>
    rw [List.foldl_cons, ih, List.foldl_cons, ih (front block named [] i)]
    simp [front, List.filter_append, List.filter_filter, Bool.and_comm]

/-- What comes to the front last need not have come there before. -/
theorem front_foldl_front {i : ι} (own : ∀ a ∈ block i, named i a = true) (l : List α) (is : List ι) :
    front block named (is.foldl (front block named) (front block named l i)) i
      = front block named (is.foldl (front block named) l) i := by
  have gone : ∀ p : α → Bool, (block i).filter (fun a => !named i a && p a) = [] := by
    intro p
    refine List.filter_eq_nil_iff.2 fun a mem => ?_
    simp [own a mem]
  rw [foldl_front (front block named l i), foldl_front l]
  unfold front
  simp only [List.filter_append, List.filter_filter, gone, List.nil_append]
  congr 3
  funext a
  cases named i a <;> simp

end Front

/-! ## Whether a column can be filled -/

/-- Two values that a unique index tells apart. -/
def Value.Apart (x y : Value) : Prop := test .eq .none .binary x y ≠ some true

instance (x y : Value) : Decidable (x.Apart y) := inferInstanceAs (Decidable (_ ≠ _))

/-- When the column of the path is filled from the first row to the last, every value is apart from those before it and from
what those after it still hold. -/
def Table.Clear (t : Table) (path : FieldPath) : Prop := t.rows.Pairwise fun r s =>
  (r.data.extract path).Apart (s.data.extract path) ∧ (s.promotedValue path.column).Apart (r.data.extract path)

namespace Database

variable {db after : Database} {table : String} {t : Table} {path : FieldPath}

/-- A unique index of the table is on the column. -/
def Guarded (db : Database) (table column : String) : Prop :=
  ∃ i ∈ db.indexesOn table, i.unique = true ∧ ∃ c ∈ i.columns, sameName column c = true

/-- No unique index stands against filling the column of the path. -/
def Fills (db : Database) (table : String) (path : FieldPath) : Prop :=
  db.Guarded table path.column → ∀ t ∈ db.table? table, t.Clear path

instance (t : Table) (path : FieldPath) : Decidable (t.Clear path) := inferInstanceAs (Decidable (List.Pairwise _ _))

instance (db : Database) (table column : String) : Decidable (db.Guarded table column) :=
  inferInstanceAs (Decidable (∃ i ∈ _, _ ∧ ∃ c ∈ _, _))

instance (db : Database) (table : String) (path : FieldPath) : Decidable (db.Fills table path) :=
  inferInstanceAs (Decidable (_ → ∀ t ∈ _, _))

theorem conflict?_eq_none_iff {row : Row} : db.conflict? t row = none ↔ ∀ i ∈ db.indexesOn t.name, i.unique = true →
    ∀ s ∈ t.rows, s.rowid ≠ row.rowid → i.sameKey s row = false := by
  constructor
  · exact fun none_ i mem unique s hs ne => conflict?_eq_none none_ mem unique hs ne
  · intro free
    refine Option.map_eq_none_iff.2 (List.find?_eq_none.2 fun i mem => ?_)
    simp only [Bool.and_eq_true, not_and, Bool.not_eq_true]
    refine fun unique => List.any_eq_false.2 fun s hs => ?_
    simp only [Bool.and_eq_true, decide_eq_true_eq, not_and, Bool.not_eq_true]
    exact free i mem unique s hs

/-- A column of a row can be written if no unique index is against it. -/
theorem exists_setColumn_iff (tidy : db.Tidy) (thawed : db.Thawed) (found : db.table? table = some t) {r : Row} (mem : r ∈ t.rows)
    {column : String} {v : Value} :
    (∃ after, db.setColumn table r.rowid column v = .ok after) ↔ db.conflict? t (r.setPromoted column v) = none := by
  have here := find?_rowid (tidy.rowids t (mem_of_table? found).1) mem
  unfold Database.setColumn
  rw [tableOf_eq_ok.2 found, ok_bind, thawed.ready_columnUpdate, ok_bind]
  simp only [here]
  cases db.conflict? t (r.setPromoted column v) with
  | none => exact ⟨fun _ => rfl, fun _ => ⟨_, rfl⟩⟩
  | some e =>
    refine ⟨fun able => ?_, fun none_ => ?_⟩
    · obtain ⟨_, made⟩ := able
      cases made
    · cases none_

/-- Filling the next row: its value is apart from those before it and from what those after it hold. -/
theorem conflict?_partlyFilled (sound : db.Sound) (found : db.table? table = some t) {done rest : List Row} {r : Row}
    (rows : t.rows = done ++ r :: rest) :
    (db.mapTable table (partlyFilled path.column path done (r :: rest))).conflict?
        (partlyFilled path.column path done (r :: rest) t) (r.setPromoted path.column (r.data.extract path)) = none
      ↔ (db.Guarded table path.column → (∀ s ∈ done, (s.data.extract path).Apart (r.data.extract path))
        ∧ ∀ s ∈ rest, (s.promotedValue path.column).Apart (r.data.extract path)) := by
  have on : ∀ i, i ∈ db.indexesOn t.name ↔ i ∈ db.indexesOn table := fun i => by rw [indexesOn_congr (mem_of_table? found).2]
  have nodup := sound.tidy.rowids t (mem_of_table? found).1
  rw [rows, List.map_append, List.map_cons, List.nodup_append, List.nodup_cons] at nodup
  obtain ⟨-, ⟨later, -⟩, before⟩ := nodup
  have doneNe : ∀ s ∈ done, s.rowid ≠ r.rowid := fun s mem => before _ (List.mem_map_of_mem mem) _ List.mem_cons_self
  have restNe : ∀ s ∈ rest, s.rowid ≠ r.rowid := fun s mem same => later (same ▸ List.mem_map_of_mem mem)
  have hr : r ∈ t.rows := rows ▸ List.mem_append_right _ List.mem_cons_self
  have old : ∀ i ∈ db.indexesOn table, i.unique = true → ∀ s ∈ t.rows, s.rowid ≠ r.rowid → i.sameKey s r = false :=
    fun i mem unique s hs ne => sound.keyed.separates t (mem_of_table? found).1 i ((on i).2 mem) unique s hs r hr ne
  rw [conflict?_eq_none_iff]
  constructor
  · rintro free ⟨i, mem, unique, c, hc, same⟩
    obtain ⟨c', single⟩ := sound.keyed.single i (List.mem_filter.1 mem).1 unique
    obtain rfl : c = c' := List.mem_singleton.1 (single ▸ hc)
    have key : ∀ s : Row, s ∈ done.map (fun r => r.setPromoted path.column (r.data.extract path)) ++ r :: rest →
        s.rowid ≠ r.rowid → (s.promotedValue c).Apart (r.data.extract path) := by
      intro s hs ne
      have apart := free i ((on i).2 mem) unique s hs ne
      simpa [Index.sameKey, single, Row.promotedValue_setPromoted_of_same _ _ same, Value.Apart] using apart
    constructor
    · intro s hs
      have apart := key _ (List.mem_append_left _ (List.mem_map_of_mem hs)) (doneNe s hs)
      rwa [Row.promotedValue_setPromoted_of_same _ _ same] at apart
    · intro s hs
      rw [Row.promotedValue_congr _ same]
      exact key s (List.mem_append_right _ (List.mem_cons_of_mem _ hs)) (restNe s hs)
  · intro clear i mem unique s hs ne
    have mem := (on i).1 mem
    obtain ⟨c, single⟩ := sound.keyed.single i (List.mem_filter.1 mem).1 unique
    by_cases same : sameName path.column c = true
    · obtain ⟨apart, apart'⟩ := clear ⟨i, mem, unique, c, single ▸ List.mem_singleton_self c, same⟩
      have value : (s.promotedValue c).Apart (r.data.extract path) := by
        rcases List.mem_append.1 hs with hs | hs
        · obtain ⟨filled, there, rfl⟩ := List.mem_map.1 hs
          rw [Row.promotedValue_setPromoted_of_same _ _ same]
          exact apart filled there
        · rcases List.mem_cons.1 hs with rfl | hs
          · exact absurd rfl ne
          · rw [← Row.promotedValue_congr _ same]
            exact apart' s hs
      simpa [Index.sameKey, single, Row.promotedValue_setPromoted_of_same _ _ same, Value.Apart] using value
    · have other : ∀ r : Row, (r.setPromoted path.column (r.data.extract path)).promotedValue c = r.promotedValue c :=
        fun r => Row.promotedValue_setPromoted_of_ne _ _ (Bool.eq_false_iff.2 same)
      have asBefore : ∀ s : Row, s ∈ t.rows → s.rowid ≠ r.rowid →
          (Value.test .eq .none .binary (s.promotedValue c) (r.promotedValue c) == some true) = false := by
        intro s hs ne
        simpa [Index.sameKey, single] using old i mem unique s hs ne
      simp only [Index.sameKey, single, List.all_cons, List.all_nil, Bool.and_true, other]
      rcases List.mem_append.1 hs with hs | hs
      · obtain ⟨filled, there, rfl⟩ := List.mem_map.1 hs
        rw [other]
        exact asBefore filled (rows ▸ List.mem_append_left _ there) ne
      · exact asBefore s (rows ▸ List.mem_append_right _ hs) ne

/-- The column can be filled from a row on, when those before it are filled. -/
theorem exists_foldlM_fill_iff (sound : db.Sound) (found : db.table? table = some t) {done todo : List Row}
    (rows : t.rows = done ++ todo) :
    (∃ after, todo.foldlM (fun db r => db.setColumn table r.rowid path.column (r.data.extract path))
      (db.mapTable table (partlyFilled path.column path done todo)) = .ok after)
    ↔ (db.Guarded table path.column →
      (∀ s ∈ done, ∀ r ∈ todo, (s.data.extract path).Apart (r.data.extract path))
      ∧ todo.Pairwise fun r s => (r.data.extract path).Apart (s.data.extract path)
        ∧ (s.promotedValue path.column).Apart (r.data.extract path)) := by
  induction todo generalizing done with
  | nil => exact ⟨fun _ _ => ⟨fun _ _ => nofun, .nil⟩, fun _ => ⟨_, rfl⟩⟩
  | cons r rest ih =>
    have tidy : (db.mapTable table (partlyFilled path.column path done (r :: rest))).Tidy := by
      refine sound.tidy.mapTable (fun _ => rfl) fun u mem here => ?_
      obtain rfl := Option.some.inj ((sound.tidy.table?_eq_some mem here).symm.trans found)
      have rowids := sound.tidy.rowids u mem
      rw [rows] at rowids
      simpa [partlyFilled, Function.comp_def] using rowids
    have thawed : (db.mapTable table (partlyFilled path.column path done (r :: rest))).Thawed := sound.thawed
    have found' := found_mapTable (f := partlyFilled path.column path done (r :: rest)) (fun _ => rfl) found
    have one : (∃ after, Database.setColumn (db.mapTable table (partlyFilled path.column path done (r :: rest))) table r.rowid
        path.column (r.data.extract path) = .ok after) ↔ _ := exists_setColumn_iff tidy thawed found'
      (show r ∈ (partlyFilled path.column path done (r :: rest) t).rows from List.mem_append_right _ List.mem_cons_self)
    rw [conflict?_partlyFilled sound found rows] at one
    have later := @ih (done ++ [r]) (rows.trans (List.append_cons done r rest))
    have next : ∀ mid, Database.setColumn (db.mapTable table (partlyFilled path.column path done (r :: rest))) table r.rowid
        path.column (r.data.extract path) = .ok mid → mid = db.mapTable table (partlyFilled path.column path (done ++ [r]) rest) := by
      intro mid first
      obtain ⟨_, _, rfl, _⟩ := setColumn_eq_ok tidy first
      exact editRow_partlyFilled sound found rows
    constructor
    · rintro ⟨after, made⟩ guarded
      rw [List.foldlM_cons] at made
      obtain ⟨mid, first, made⟩ := bind_eq_ok.1 made
      obtain ⟨apart, apart'⟩ := one.1 ⟨mid, first⟩ guarded
      rw [next mid first] at made
      obtain ⟨others, ordered⟩ := later.1 ⟨after, made⟩ guarded
      refine ⟨fun s hs => List.forall_mem_cons.2 ⟨apart s hs, others s (List.mem_append_left _ hs)⟩, ?_⟩
      exact List.pairwise_cons.2 ⟨fun s hs => ⟨others r (List.mem_append_right _ (List.mem_singleton_self r)) s hs, apart' s hs⟩,
        ordered⟩
    · intro clear
      obtain ⟨mid, first⟩ := one.2 fun guarded =>
        ⟨fun s hs => (clear guarded).1 s hs r List.mem_cons_self, fun s hs => ((List.pairwise_cons.1 (clear guarded).2).1 s hs).2⟩
      have rest_ := later.2 fun guarded => by
        obtain ⟨apart, ordered⟩ := clear guarded
        obtain ⟨first, ordered⟩ := List.pairwise_cons.1 ordered
        refine ⟨fun s hs s' hs' => ?_, ordered⟩
        rcases List.mem_append.1 hs with hs | hs
        · exact apart s hs s' (List.mem_cons_of_mem _ hs')
        · obtain rfl := List.mem_singleton.1 hs
          exact (first s' hs').1
      obtain ⟨after, made⟩ := rest_
      exact ⟨after, by rw [List.foldlM_cons, first, ok_bind, next mid first, made]⟩

/-- A column can be filled exactly if no unique index stands against it. -/
theorem exists_fillColumn_iff (sound : db.Sound) (found : db.table? table = some t) :
    (∃ after, db.fillColumn table path.column path = .ok after) ↔ db.Fills table path := by
  have all : (∃ after, t.rows.foldlM (fun db r => db.setColumn table r.rowid path.column (r.data.extract path))
      (db.mapTable table (partlyFilled path.column path [] t.rows)) = .ok after) ↔ _ := exists_foldlM_fill_iff sound found rfl
  rw [partlyFilled_nil sound found] at all
  have start : db.fillColumn table path.column path
      = t.rows.foldlM (fun db r => db.setColumn table r.rowid path.column (r.data.extract path)) db := by
    unfold Database.fillColumn
    rw [tableOf_eq_ok.2 found, ok_bind]
  rw [start, all, Fills, found]
  simp [Table.Clear]

/-- Whether a column can be filled depends on the rows and the unique indexes alone. -/
theorem Fills.congr {other : Database} {u : Table} (found : db.table? table = some t) (found' : other.table? table = some u)
    (rows : u.rows = t.rows) (guarded : other.Guarded table path.column → db.Guarded table path.column)
    (fills : db.Fills table path) : other.Fills table path := by
  intro guard v mem
  obtain rfl : u = v := by simpa [found'] using mem
  have clear := fills (guarded guard) t (by simp [found])
  unfold Table.Clear at clear ⊢
  rwa [rows]

end Database

/-! ## The steps of a promotion -/

/-- The table with a column of the name. -/
def Table.withColumn (column : String) (t : Table) : Table :=
  if t.hasColumn column then t else { t with columns := t.columns ++ [column] }

@[simp] theorem Table.withColumn_name (column : String) (t : Table) : (t.withColumn column).name = t.name := by
  unfold withColumn
  split <;> rfl

@[simp] theorem Table.withColumn_rows (column : String) (t : Table) : (t.withColumn column).rows = t.rows := by
  unfold withColumn
  split <;> rfl

/-- The triggers when those of a path have been made in the place of those of their names. -/
def CollectionName.synced (name : CollectionName) : List Trigger → FieldPath → List Trigger :=
  front (fun path => (name.copyTriggers path path.column).reverse)
    fun path t => (name.copyTriggers path path.column).any fun g => sameName t.name g.name

/-- Triggers that are made last need not be made before. -/
theorem CollectionName.synced_foldl_synced (name : CollectionName) (l : List Trigger) (path : FieldPath) (paths : List FieldPath) :
    name.synced (paths.foldl name.synced (name.synced l path)) path = name.synced (paths.foldl name.synced l) path := by
  unfold synced
  refine front_foldl_front (fun t mem => ?_) l paths
  exact List.any_eq_true.2 ⟨t, List.mem_reverse.1 mem, sameName_refl _⟩

namespace Database

variable {db after : Database} {name : CollectionName} {path : FieldPath} {unique : Bool} {time : Int} {t : Table}

theorem ensureColumn_eq (tidy : db.Tidy) {table column : String} (found : db.table? table = some t) :
    db.ensureColumn table column = .ok (db.mapTable table (Table.withColumn column)) := by
  unfold ensureColumn addColumn
  rw [tableOf_eq_ok.2 found, ok_bind]
  cases has : t.hasColumn column with
  | true =>
    rw [if_pos rfl, tidy.mapTable_eq_self found (by rw [Table.withColumn, if_pos has])]
    rfl
  | false =>
    have added : t.withColumn column = { t with columns := t.columns ++ [column] } := by
      rw [Table.withColumn, has, if_neg Bool.false_ne_true]
    rw [if_neg Bool.false_ne_true, ok_bind]
    simp only [has, Bool.false_eq_true, if_false]
    exact congrArg Except.ok (tidy.mapTable_congr_of_eq found added.symm)

theorem foldl_dropTrigger (gs : List Trigger) (db : Database) : gs.foldl (fun db t => db.dropTrigger t.name) db
    = { db with triggers := db.triggers.filter fun t => !gs.any fun g => sameName t.name g.name } := by
  induction gs generalizing db with
  | nil =>
    have all : (db.triggers.filter fun t => !([] : List Trigger).any fun g => sameName t.name g.name) = db.triggers :=
      List.filter_eq_self.2 fun _ _ => rfl
    rw [all]
    rfl
  | cons g rest ih =>
    rw [List.foldl_cons, ih, dropTrigger]
    simp [List.filter_filter, Bool.and_comm]

theorem createTrigger_eq {g : Trigger} (found : db.table? g.table = some t)
    (fresh : ∀ t ∈ db.triggers, sameName t.name g.name = false) :
    db.createTrigger g = .ok { db with triggers := g :: db.triggers } := by
  have free : (db.triggers.any fun t => sameName t.name g.name) = false := List.any_eq_false.2 fun t mem => by simp [fresh t mem]
  unfold createTrigger
  rw [tableOf_eq_ok.2 found, ok_bind]
  simp only [free, Bool.false_eq_true, if_false]
  rfl

/-- The triggers of a path can be made wherever its table is. -/
theorem replaceTriggers_copyTriggers (found : db.table? name.text = some t) :
    db.replaceTriggers (name.copyTriggers path path.column) = .ok { db with triggers := name.synced db.triggers path } := by
  have differ : sameName (name.derived [path.column, "sync_insert"]) (name.derived [path.column, "sync_update"]) = false := by
    rw [CollectionName.derived_pair, CollectionName.derived_pair]
    exact sameName_append_of_ne (by decide) (by decide) _ _
  obtain ⟨g, h, list, hg, hh, differ⟩ : ∃ g h, name.copyTriggers path path.column = [g, h] ∧ g.table = name.text
      ∧ h.table = name.text ∧ sameName g.name h.name = false := ⟨_, _, rfl, rfl, rfl, differ⟩
  have created : ∀ l : List Trigger, (∀ u ∈ l, sameName u.name g.name = false ∧ sameName u.name h.name = false) →
      [g, h].foldlM createTrigger { db with triggers := l } = .ok { db with triggers := h :: g :: l } := by
    intro l fresh
    have first : createTrigger { db with triggers := l } g = .ok { db with triggers := g :: l } :=
      createTrigger_eq (hg ▸ found) fun u mem => (fresh u mem).1
    have second : createTrigger { db with triggers := g :: l } h = .ok { db with triggers := h :: g :: l } :=
      createTrigger_eq (hh ▸ found)
      (List.forall_mem_cons.2 ⟨differ, fun u mem => (fresh u mem).2⟩)
    rw [List.foldlM_cons, first, ok_bind, List.foldlM_cons, second]
    rfl
  have kept := created (db.triggers.filter fun u => !(List.any [g, h] fun g => sameName u.name g.name)) fun u mem => by
    simpa using (List.mem_filter.1 mem).2
  unfold replaceTriggers CollectionName.synced front
  rw [foldl_dropTrigger]
  simp only [list]
  exact kept

/-- The database when the column is there and the triggers of a path have been made once more. -/
def prepared (db : Database) (name : CollectionName) (path : FieldPath) : Database :=
  { db.mapTable name.text (Table.withColumn path.column) with triggers := name.synced db.triggers path }

/-- The database when the values of the path have been written as well, if they can be. -/
def refreshed (db : Database) (name : CollectionName) (path : FieldPath) : Database :=
  if db.Fills name.text path then (db.prepared name path).mapTable name.text (Table.fill path.column path)
  else db.prepared name path

theorem found_prepared (found : db.table? name.text = some t) :
    (db.prepared name path).table? name.text = some (t.withColumn path.column) :=
  found_mapTable (Table.withColumn_name path.column) found

theorem Sound.prepared (sound : db.Sound) (name : CollectionName) (path : FieldPath) : (db.prepared name path).Sound := by
  have tidy : (db.mapTable name.text (Table.withColumn path.column)).Tidy :=
    sound.tidy.mapTable (Table.withColumn_name _) fun t mem _ => by
      rw [Table.withColumn_rows]
      exact sound.tidy.rowids t mem
  have keyed : (db.mapTable name.text (Table.withColumn path.column)).Keyed :=
    sound.keyed.mapTable (Table.withColumn_name _) fun t mem _ i hi unique => by
      rw [Table.withColumn_rows]
      exact sound.keyed.separates t mem i hi unique
  refine ⟨⟨tidy.names, tidy.rowids⟩, fun g mem => ?_, ⟨keyed.single, keyed.separates⟩⟩
  rcases List.mem_append.1 mem with new | old
  · simp only [CollectionName.copyTriggers, List.mem_reverse, List.mem_cons, List.not_mem_nil, or_false] at new
    rcases new with rfl | rfl <;> simp
  · exact sound.thawed g (List.mem_filter.1 old).1

/-- A promotion refreshes the path, and makes the index and the entry. -/
theorem promote_eq (sound : db.Sound) (found : db.table? name.text = some t) : db.promote name path unique time
    = ((db.refreshed name path).createIndex (name.columnIndex path.column unique)).map fun db =>
      db.recordPromotion (name.promotion path unique time) := by
  have placed := found_mapTable (Table.withColumn_name path.column) found
  have sound' := sound.prepared name path
  have fills : (db.prepared name path).Fills name.text path ↔ db.Fills name.text path :=
    ⟨Fills.congr (found_prepared found) found (t.withColumn_rows _).symm id,
      Fills.congr found (found_prepared found) (t.withColumn_rows _) id⟩
  have filled : ((db.prepared name path).fillColumn name.text path.column path).toOption.getD (db.prepared name path)
      = db.refreshed name path := by
    have able : (∃ after, (db.prepared name path).fillColumn name.text path.column path = .ok after) ↔ _ :=
      exists_fillColumn_iff sound' (found_prepared found)
    rw [fills] at able
    unfold refreshed
    cases made : (db.prepared name path).fillColumn name.text path.column path with
    | error e => rw [if_neg fun clear => (able.2 clear).elim fun after eq => (nomatch made.symm.trans eq), Except.toOption,
        Option.getD_none]
    | ok after =>
      rw [if_pos (able.1 ⟨after, made⟩), (fillColumn_eq_ok sound' made).2]
      rfl
  unfold Database.promote install
  rw [ensureColumn_eq sound.tidy found, ok_bind, replaceTriggers_copyTriggers placed, ok_bind]
  have steps : (((db.prepared name path).fillColumn name.text path.column path).toOption.getD (db.prepared name path)).createIndex
        (name.columnIndex path.column unique) >>= (fun db => pure (db.recordPromotion (name.promotion path unique time)))
      = ((db.refreshed name path).createIndex (name.columnIndex path.column unique)).map fun db =>
        db.recordPromotion (name.promotion path unique time) := by
    rw [filled]
    cases (db.refreshed name path).createIndex (name.columnIndex path.column unique) <;> rfl
  exact steps

end Database

end Dossier
