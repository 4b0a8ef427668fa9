import Dossier.Proofs.Database.Refreshing

/-!
# Paths that stand promoted

After a promotion the path stands promoted (`Database.Standing`): its column, its index and its entry are there, and its column
mirrors the bodies unless a unique index stands against that. Further promotions of the collection keep it so. Promoting
such a path once more succeeds with the same answer and does no more than refresh it; and when all paths of a run of promotions
are refreshed in their order, nothing changes (`Database.Settled`).
-/

namespace Dossier

open Text Outcome

namespace Database

/-! ## The registry -/

section Registry
variable {l : List Promotion} {e y : Promotion} {pr : Promotion → Bool}

/-- An entry that is looked up by its site stays where it is when another one is entered, unique if either is and both are of
one site. -/
theorem find?_enter_of_some (plain : ∀ p q : Promotion, p.SameSite q → pr p = pr q) (found : l.find? pr = some y) :
    (enter e l).find? pr
      = some (if y.collection = e.collection ∧ y.path = e.path then { y with unique := y.unique || e.unique } else y) := by
  induction l with
  | nil => cases found
  | cons q rest ih =>
    unfold enter
    by_cases same : q.collection = e.collection ∧ q.path = e.path
    · have as : (decide (q.collection = e.collection) && decide (q.path = e.path)) = true := by simpa using same
      rw [if_pos as]
      have alike : pr { q with unique := q.unique || e.unique } = pr q := plain _ _ ⟨rfl, rfl⟩
      by_cases here : pr q = true
      · obtain rfl : q = y := by simpa [here] using found
        rw [List.find?_cons_of_pos (alike.trans here), if_pos same]
      · have later : rest.find? pr = some y := by simpa [here] using found
        have differ : ¬ (y.collection = e.collection ∧ y.path = e.path) := fun own =>
          here ((plain q y ⟨same.1.trans own.1.symm, same.2.trans own.2.symm⟩).trans (List.find?_some later))
        rw [List.find?_cons_of_neg (by rwa [alike]), later, if_neg differ]
    · have other : ¬ (decide (q.collection = e.collection) && decide (q.path = e.path)) = true := by simpa using same
      rw [if_neg other]
      by_cases here : pr q = true
      · obtain rfl : q = y := by simpa [here] using found
        rw [List.find?_cons_of_pos here, if_neg same]
      · have later : rest.find? pr = some y := by simpa [here] using found
        rw [List.find?_cons_of_neg here, ih later]

/-- An entry of a new site comes last. -/
theorem find?_enter_of_none (plain : ∀ p q : Promotion, p.SameSite q → pr p = pr q) (none_ : l.find? pr = none)
    (own : pr e = true) : (enter e l).find? pr = some e := by
  induction l with
  | nil => simp [enter, own]
  | cons q rest ih =>
    have here : ¬ pr q = true := List.find?_eq_none.1 none_ q List.mem_cons_self
    have later : rest.find? pr = none := by simpa [here] using none_
    have other : ¬ (decide (q.collection = e.collection) && decide (q.path = e.path)) = true := fun same => by
      simp only [Bool.and_eq_true, decide_eq_true_eq] at same
      exact here ((plain q e same).trans own)
    unfold enter
    rw [if_neg other, List.find?_cons_of_neg here, ih later]

/-- Entering what is there already changes nothing. -/
theorem enter_eq_self (found : l.find? (fun q => decide (q.collection = e.collection) && decide (q.path = e.path)) = some y)
    (unique : e.unique = true → y.unique = true) : enter e l = l := by
  induction l with
  | nil => cases found
  | cons q rest ih =>
    unfold enter
    by_cases same : (decide (q.collection = e.collection) && decide (q.path = e.path)) = true
    · obtain rfl : q = y := by simpa [same] using found
      rw [if_pos same]
      have kept : (q.unique || e.unique) = q.unique := by
        cases own : e.unique with
        | false => exact Bool.or_false _
        | true => rw [unique own, Bool.true_or]
      rw [kept]
    · rw [if_neg same, ih (by simpa [same] using found)]

end Registry

theorem promotion?_eq (db : Database) (collection : String) (path : FieldPath) : db.promotion? collection path
    = db.promotions.find? fun q => decide (q.collection = collection) && decide (q.path = path) := by
  simp [promotion?, promotionsOf, List.find?_filter]

theorem pathOfColumn?_eq (db : Database) (collection column : String) : db.pathOfColumn? collection column
    = (db.promotions.find? fun q => decide (q.collection = collection) && sameName q.column column).map Promotion.path := by
  simp [pathOfColumn?, promotionsOf, List.find?_filter]

end Database

/-! ## What a promotion leaves -/

/-- Writes the column of a path from the body. -/
def Row.refill (r : Row) (path : FieldPath) : Row := r.setPromoted path.column (r.data.extract path)

/-- The table after its column has been made and, if it can be, filled. -/
def Table.refreshed (fills : Bool) (path : FieldPath) (t : Table) : Table :=
  if fills then (t.withColumn path.column).fill path.column path else t.withColumn path.column

@[simp] theorem Table.refreshed_name (fills : Bool) (path : FieldPath) (t : Table) : (t.refreshed fills path).name = t.name := by
  unfold Table.refreshed
  split <;> simp

section
variable (t : Table) (fills : Bool) {path : FieldPath}

theorem Table.refreshed_rows : (t.refreshed fills path).rows = if fills then t.rows.map (Row.refill · path) else t.rows := by
  unfold Table.refreshed
  cases fills <;> simp [Table.fill, Row.refill]

/-- The values of other columns stay. -/
theorem Table.refreshed_values {other : FieldPath} (differ : sameName path.column other.column = false) : ∃ f : Row → Row,
    (t.refreshed fills path).rows = t.rows.map f
      ∧ ∀ r, (f r).data = r.data ∧ (f r).promotedValue other.column = r.promotedValue other.column := by
  rw [Table.refreshed_rows]
  split
  · exact ⟨(Row.refill · path), rfl, fun r => ⟨rfl, Row.promotedValue_setPromoted_of_ne _ _ differ⟩⟩
  · exact ⟨id, (List.map_id _).symm, fun r => ⟨rfl, rfl⟩⟩

theorem Table.withColumn_hasColumn (column : String) : (t.withColumn column).hasColumn column = true := by
  unfold withColumn
  split
  · assumption
  · simp [Table.hasColumn]

theorem Table.refreshed_columns : (t.refreshed fills path).columns = (t.withColumn path.column).columns := by
  unfold Table.refreshed
  split
  · exact Table.fill_columns _ _ _
  · rfl

theorem Table.refreshed_hasColumn {column : String} (had : t.hasColumn column = true ∨ column = path.column) :
    (t.refreshed fills path).hasColumn column = true := by
  have columns : (t.refreshed fills path).hasColumn column = (t.withColumn path.column).hasColumn column := by
    unfold Table.hasColumn
    rw [Table.refreshed_columns]
  rw [columns]
  rcases had with had | rfl
  · unfold withColumn
    split
    · exact had
    · unfold Table.hasColumn at had ⊢
      rw [← List.append_assoc, List.any_append, had, Bool.true_or]
  · exact Table.withColumn_hasColumn _ _

end

namespace Database

variable {db after other : Database} {name : CollectionName} {path q : FieldPath} {unique : Bool} {time : Int} {t : Table} {i : Index}

theorem refreshed_eq (db : Database) (name : CollectionName) (path : FieldPath) : db.refreshed name path =
    { db.mapTable name.text (Table.refreshed (decide (db.Fills name.text path)) path) with
      triggers := name.synced db.triggers path } := by
  unfold refreshed prepared Table.refreshed
  by_cases fills : db.Fills name.text path
  · rw [if_pos fills]
    simp only [fills, decide_true, if_true]
    have both : (db.mapTable name.text (Table.withColumn path.column)).mapTable name.text (Table.fill path.column path) = _ :=
      mapTable_mapTable (Table.withColumn_name path.column) _
    exact congrArg (fun mid : Database => { mid with triggers := name.synced db.triggers path }) both
  · rw [if_neg fills]
    simp only [fills, decide_false, Bool.false_eq_true, if_false]

/-- All tables of one database are there in another one, and no others, and its indexes are. -/
structure Over (db other : Database) : Prop where
  tables : ∀ n, (other.table? n).isSome = (db.table? n).isSome
  indexes : db.indexes ⊆ other.indexes

theorem Over.trans {last : Database} (h : db.Over other) (h' : other.Over last) : db.Over last :=
  ⟨fun n => (h'.tables n).trans (h.tables n), fun _ mem => h'.indexes (h.indexes mem)⟩

/-- An index is made only where its table is and no table has its name. -/
theorem createIndex_inv (made : db.createIndex i = .ok after) :
    (db.table? i.table).isSome = true ∧ (db.table? i.name).isSome = false ∧ (after.index? i.name).isSome = true
      ∧ (after = db ∨ after = { db with indexes := db.indexes ++ [i] }) := by
  obtain ⟨t, found, steps⟩ := bind_eq_ok.1 made
  rw [tableOf_eq_ok] at found
  refine ⟨by rw [found]; rfl, ?_, ?_⟩
  · refine Bool.eq_false_iff.2 fun clash => ?_
    simp [clash] at steps
  · rcases createIndex_eq_ok made with ⟨taken, rfl⟩ | ⟨-, -, -, rfl⟩
    · exact ⟨taken, .inl rfl⟩
    · refine ⟨List.find?_isSome.2 ⟨i, List.mem_append_right _ (List.mem_singleton_self i), sameName_refl _⟩, .inr rfl⟩

/-- An index of a name that exists is not made. -/
theorem createIndex_of_taken (table : (db.table? i.table).isSome = true) (free : (db.table? i.name).isSome = false)
    (taken : (db.index? i.name).isSome = true) : db.createIndex i = .ok db := by
  obtain ⟨t, found⟩ := Option.isSome_iff_exists.1 table
  unfold createIndex
  rw [tableOf_eq_ok.2 found, ok_bind]
  simp [free, taken]

theorem Over.createIndex (h : db.Over other) (made : db.createIndex i = .ok db) : other.createIndex i = .ok other := by
  obtain ⟨table, free, taken, -⟩ := createIndex_inv made
  refine createIndex_of_taken ((h.tables _).trans table) ((h.tables _).trans free) ?_
  obtain ⟨j, mem, same⟩ := List.find?_isSome.1 taken
  exact List.find?_isSome.2 ⟨j, h.indexes mem, same⟩

/-- Making an index once more does nothing. -/
theorem createIndex_again (made : db.createIndex i = .ok after) : db.Over after ∧ after.createIndex i = .ok after := by
  obtain ⟨table, free, taken, rfl | rfl⟩ := createIndex_inv made
  · exact ⟨⟨fun _ => rfl, fun _ => id⟩, made⟩
  · exact ⟨⟨fun _ => rfl, fun _ => List.mem_append_left _⟩, createIndex_of_taken table free taken⟩

theorem over_refreshed (db : Database) (name : CollectionName) (path : FieldPath) : db.Over (db.refreshed name path) := by
  rw [refreshed_eq]
  refine ⟨fun n => ?_, fun _ => id⟩
  have found : (db.mapTable name.text (Table.refreshed (decide (db.Fills name.text path)) path)).table? n = _ := table?_mapTable
    (Table.refreshed_name (decide (db.Fills name.text path)) path) n
  have same : table? { db.mapTable name.text (Table.refreshed (decide (db.Fills name.text path)) path) with
      triggers := name.synced db.triggers path } n
    = (db.mapTable name.text (Table.refreshed (decide (db.Fills name.text path)) path)).table? n := rfl
  rw [same, found]
  split <;> simp

/-- What a promotion at a time leaves that succeeds. -/
structure Promotes (db : Database) (name : CollectionName) (path : FieldPath) (unique : Bool) (time : Int) (t : Table)
    (after : Database) : Prop where
  past : db.Over after
  found : db.table? name.text = some t
  found' : after.table? name.text = some (t.refreshed (decide (db.Fills name.text path)) path)
  triggers : after.triggers = name.synced db.triggers path
  promotions : after.promotions = enter (name.promotion path unique time) db.promotions
  index : after.createIndex (name.columnIndex path.column unique) = .ok after

theorem exists_promotes (sound : db.Sound) (made : db.promote name path unique time = .ok after) :
    ∃ t, db.Promotes name path unique time t after := by
  obtain ⟨placed, ensured, -⟩ := bind_eq_ok.1 made
  obtain ⟨t, found, -⟩ := bind_eq_ok.1 ensured
  rw [tableOf_eq_ok] at found
  rw [promote_eq sound found] at made
  obtain ⟨indexed, created, rfl⟩ := map_eq_ok.1 made
  obtain ⟨past, again⟩ := createIndex_again created
  obtain ⟨-, -, -, kept⟩ := createIndex_inv created
  have same : indexed.tables = (db.refreshed name path).tables ∧ indexed.triggers = (db.refreshed name path).triggers
      ∧ indexed.promotions = (db.refreshed name path).promotions := by
    rcases kept with rfl | rfl <;> exact ⟨rfl, rfl, rfl⟩
  have past' := (over_refreshed db name path).trans past
  rw [refreshed_eq] at same
  refine ⟨t, ⟨past'.tables, past'.indexes⟩, found, ?_, same.2.1, ?_, ?_⟩
  · have there := found_mapTable (Table.refreshed_name (decide (db.Fills name.text path)) path) found
    unfold table? at there ⊢
    rw [← there]
    exact congrArg (List.find? _) same.1
  · exact congrArg (enter _) same.2.2
  · have past'' : indexed.Over (indexed.recordPromotion (name.promotion path unique time)) := ⟨fun _ => rfl, fun _ => id⟩
    exact past''.createIndex again

/-! ## Filled columns -/

/-- The column of the path holds in every row of the collection what the body holds. -/
def Filled (db : Database) (name : CollectionName) (path : FieldPath) : Prop :=
  ∀ t ∈ db.table? name.text, ∀ r ∈ t.rows, r.promotedValue path.column = r.data.extract path

/-- A column that is filled can be filled once more: the unique indexes separate its values. -/
theorem Filled.fills (filled : db.Filled name path) (sound : db.Sound) : db.Fills name.text path := by
  rintro ⟨i, mem, unique, c, hc, same⟩ t found
  have values := filled t found
  have ⟨there, on⟩ := mem_of_table? (Option.mem_def.1 found)
  obtain ⟨c', single⟩ := sound.keyed.single i (List.mem_filter.1 mem).1 unique
  obtain rfl : c = c' := List.mem_singleton.1 (single ▸ hc)
  have apart : ∀ r ∈ t.rows, ∀ s ∈ t.rows, r.rowid ≠ s.rowid → (r.data.extract path).Apart (s.data.extract path) := by
    intro r hr s hs ne
    have differ := sound.keyed.separates t there i (indexesOn_congr on ▸ mem) unique r hr s hs ne
    simp only [Index.sameKey, single, List.all_cons, List.all_nil, Bool.and_true, ← Row.promotedValue_congr _ same,
      values r hr, values s hs] at differ
    simpa [Value.Apart] using differ
  have rowids : t.rows.Pairwise fun r s => r.rowid ≠ s.rowid := List.pairwise_map.1 (sound.tidy.rowids t there)
  refine rowids.imp_of_mem fun {r s} hr hs ne => ⟨apart r hr s hs ne, ?_⟩
  rw [values s hs]
  exact apart s hs r hr ne.symm

theorem Over.guarded (h : db.Over other) {table column : String} : db.Guarded table column → other.Guarded table column := by
  rintro ⟨i, mem, unique, c, hc, same⟩
  obtain ⟨mem, on⟩ := List.mem_filter.1 mem
  exact ⟨i, List.mem_filter.2 ⟨h.indexes mem, on⟩, unique, c, hc, same⟩

namespace Promotes

theorem guarded (h : db.Promotes name q unique time t after) {table column : String} :
    db.Guarded table column → after.Guarded table column := h.past.guarded

/-- A promotion fills its column if it can be filled, and whether it can does not change. -/
theorem filled (h : db.Promotes name path unique time t after) (fills : db.Fills name.text path) : after.Filled name path := by
  intro u found r mem
  obtain rfl : _ = u := Option.some.inj (h.found'.symm.trans found)
  rw [Table.refreshed_rows, decide_eq_true fills, if_pos rfl] at mem
  obtain ⟨r, -, rfl⟩ := List.mem_map.1 mem
  exact Row.promotedValue_setPromoted _ _ _

theorem fills_iff (h : db.Promotes name path unique time t after) (sound : after.Sound) :
    after.Fills name.text path ↔ db.Fills name.text path := by
  constructor
  · intro fills
    refine Classical.byContradiction fun stuck => ?_
    have rows : t.rows = (t.refreshed (decide (db.Fills name.text path)) path).rows := by
      rw [Table.refreshed_rows, decide_eq_false stuck, if_neg Bool.false_ne_true]
    exact stuck (fills.congr h.found' h.found rows h.guarded)
  · exact fun fills => (h.filled fills).fills sound

variable (h : db.Promotes name q unique time t after) (differ : sameName q.column path.column = false)

include h differ

/-- What holds of another column stays. -/
theorem filled_of_ne (filled : db.Filled name path) : after.Filled name path := by
  obtain ⟨f, rows, same⟩ := t.refreshed_values (decide (db.Fills name.text q)) differ
  intro u found r mem
  obtain rfl : _ = u := Option.some.inj (h.found'.symm.trans found)
  rw [rows] at mem
  obtain ⟨r, hr, rfl⟩ := List.mem_map.1 mem
  rw [(same r).1, (same r).2]
  exact filled t h.found r hr

theorem fills_of_ne (fills : after.Fills name.text path) : db.Fills name.text path := by
  obtain ⟨f, rows, same⟩ := t.refreshed_values (decide (db.Fills name.text q)) differ
  intro guard u found
  obtain rfl : t = u := Option.some.inj (h.found.symm.trans found)
  have clear := fills (h.guarded guard) _ h.found'
  unfold Table.Clear at clear ⊢
  rw [rows, List.pairwise_map] at clear
  refine clear.imp fun {r s} apart => ?_
  rwa [(same r).1, (same s).1, (same s).2] at apart

end Promotes

/-! ## Standing promotions -/

/-- The path stands promoted, and the answer to its promotion is the one that is given. -/
structure Standing (db : Database) (name : CollectionName) (unique : Bool) (path : FieldPath) (shown : PromotedColumn) : Prop where
  target : path.targetColumn = .ok path.column
  column : ∃ t, db.table? name.text = some t ∧ t.hasColumn path.column = true
  values : db.Fills name.text path → db.Filled name path
  index : db.createIndex (name.columnIndex path.column unique) = .ok db
  taken : db.pathOfColumn? name.text path.column = some path
  entry : ∃ e, db.promotion? name.text path = some e ∧ (unique = true → e.unique = true) ∧ e.shown = shown

/-- A path that stands promoted may be promoted. -/
theorem Standing.admits {shown : PromotedColumn} (h : db.Standing name unique path shown) : db.Admits name path :=
  ⟨h.target, fun _ found => Option.some.inj (found.symm.trans h.taken)⟩

/-- The site of an entry tells whether it is looked up. -/
theorem plain_promotion (collection : String) (path : FieldPath) (p q : Promotion) (same : p.SameSite q) :
    (decide (p.collection = collection) && decide (p.path = path)) = (decide (q.collection = collection) && decide (q.path = path)) := by
  rw [same.1, same.2]

theorem plain_pathOfColumn (collection column : String) (p q : Promotion) (same : p.SameSite q) :
    (decide (p.collection = collection) && sameName p.column column)
      = (decide (q.collection = collection) && sameName q.column column) := by
  rw [same.1, p.named, q.named, same.2]

/-- A promotion makes its path stand promoted. -/
theorem Promotes.standing (h : db.Promotes name path unique time t after) (sound : after.Sound) (admits : db.Admits name path) :
    after.Standing name unique path (after.promoted name path unique time) := by
  refine ⟨admits.target, ⟨_, h.found', Table.refreshed_hasColumn _ _ (.inr rfl)⟩, fun fills => h.filled ((h.fills_iff sound).1 fills),
    h.index, ?_, ?_⟩
  · rw [pathOfColumn?_eq, h.promotions]
    have free := admits.free
    simp only [pathOfColumn?_eq] at free
    cases found : db.promotions.find? fun q => decide (q.collection = name.text) && sameName q.column path.column with
    | none =>
      rw [find?_enter_of_none (plain_pathOfColumn _ _) found (by simp)]
      rfl
    | some y =>
      rw [find?_enter_of_some (plain_pathOfColumn _ _) found]
      have own : y.path = path := free _ (by rw [found]; rfl)
      split <;> simp [own]
  · have answer : ∀ e, after.promotion? name.text path = some e → (unique = true → e.unique = true) →
        ∃ e, after.promotion? name.text path = some e ∧ (unique = true → e.unique = true)
          ∧ e.shown = after.promoted name path unique time := fun e found own => ⟨e, found, own, by rw [promoted, found]; rfl⟩
    cases found : db.promotion? name.text path with
    | none =>
      rw [promotion?_eq] at found
      refine answer (name.promotion path unique time) ?_ fun own => own
      rw [promotion?_eq, h.promotions, find?_enter_of_none (plain_promotion _ _) found (by simp)]
    | some y =>
      rw [promotion?_eq] at found
      have site : y.collection = name.text ∧ y.path = path := by simpa using List.find?_some found
      refine answer { y with unique := y.unique || unique } ?_ fun own => by simp [own]
      rw [promotion?_eq, h.promotions, find?_enter_of_some (plain_promotion _ _) found]
      exact congrArg some (if_pos site)

/-- A further promotion keeps the paths that stand promoted, and whether their columns can be filled. -/
theorem Promotes.keeps {shown : PromotedColumn} (h : db.Promotes name q unique time t after) (sound : after.Sound)
    (admits : db.Admits name q) (standing : db.Standing name unique path shown) :
    after.Standing name unique path shown ∧ (after.Fills name.text path ↔ db.Fills name.text path) := by
  obtain ⟨u, found, has⟩ := standing.column
  obtain rfl : t = u := Option.some.inj (h.found.symm.trans found)
  obtain ⟨e, entry, own, answer⟩ := standing.entry
  have rest : (after.Filled name path ∨ ¬ after.Fills name.text path) ∧ (after.Fills name.text path ↔ db.Fills name.text path) := by
    by_cases same : sameName q.column path.column = true
    · -- two paths of the collection with one column are the same
      obtain rfl : path = q := by
        refine admits.free path ?_
        have taken := standing.taken
        rw [pathOfColumn?_eq] at taken ⊢
        simpa only [sameName_right same] using taken
      have iff_ := h.fills_iff sound
      refine ⟨?_, iff_⟩
      by_cases fills : db.Fills name.text path
      · exact .inl (h.filled fills)
      · exact .inr fun again => fills (iff_.1 again)
    · have differ := Bool.eq_false_iff.2 same
      have iff_ : after.Fills name.text path ↔ db.Fills name.text path :=
        ⟨h.fills_of_ne differ, fun fills => (h.filled_of_ne differ (standing.values fills)).fills sound⟩
      refine ⟨?_, iff_⟩
      by_cases fills : db.Fills name.text path
      · exact .inl (h.filled_of_ne differ (standing.values fills))
      · exact .inr fun again => fills (iff_.1 again)
  refine ⟨⟨standing.target, ⟨_, h.found', Table.refreshed_hasColumn _ _ (.inl has)⟩,
    fun fills => rest.1.resolve_right fun stuck => stuck fills, h.past.createIndex standing.index, ?_, ?_⟩, rest.2⟩
  · have taken := standing.taken
    rw [pathOfColumn?_eq] at taken ⊢
    obtain ⟨y, there, eq⟩ := Option.map_eq_some_iff.1 taken
    rw [h.promotions, find?_enter_of_some (plain_pathOfColumn _ _) there]
    split <;> simp [eq]
  · rw [promotion?_eq] at entry ⊢
    rw [h.promotions, find?_enter_of_some (plain_promotion _ _) entry]
    refine ⟨_, rfl, fun asked => ?_, ?_⟩
    · split <;> simp [own asked]
    · have kept : (e.unique || unique) = e.unique := by
        cases unique with
        | false => exact Bool.or_false _
        | true => rw [own rfl, Bool.true_or]
      rw [← answer]
      split <;> simp [kept]

/-- A path that stands promoted is promoted once more: it is refreshed, and the answer is the same. -/
theorem Standing.again {shown : PromotedColumn} (h : db.Standing name unique path shown) (sound : db.Sound)
    (time : Int) : db.promote name path unique time = .ok (db.refreshed name path) ∧ (db.refreshed name path).promoted name path unique time = shown := by
  obtain ⟨t, found, -⟩ := h.column
  obtain ⟨e, entry, own, answer⟩ := h.entry
  have promotions : (db.refreshed name path).promotions = db.promotions := by rw [refreshed_eq]; rfl
  have entered : enter (name.promotion path unique time) db.promotions = db.promotions :=
    enter_eq_self (by rwa [promotion?_eq] at entry) own
  constructor
  · rw [promote_eq sound found, (over_refreshed db name path).createIndex h.index]
    refine congrArg Except.ok ?_
    unfold recordPromotion
    simp only [promotions, entered]
    rw [← promotions]
  · have kept : (db.refreshed name path).promotion? name.text path = some e := by
      rw [promotion?_eq, promotions, ← promotion?_eq, entry]
    rw [promoted, kept]
    exact answer

end Database

/-! ## Promotions that are settled -/

/-- Writes the columns of paths in every row, one path after another. -/
def Table.refill (paths : List FieldPath) (t : Table) : Table := { t with rows := t.rows.map fun r => paths.foldl Row.refill r }

theorem Row.foldl_refill (paths : List FieldPath) (r : Row) : paths.foldl refill r = { r with
    promoted := paths.foldl (front (fun path => [(path.column, r.data.extract path)]) fun path e => sameName e.1 path.column)
      r.promoted } := by
  have all : ∀ paths : List FieldPath, ∀ s : Row, s.data = r.data → paths.foldl refill s = { s with
      promoted := paths.foldl (front (fun path => [(path.column, r.data.extract path)]) fun path e => sameName e.1 path.column)
        s.promoted } := by
    intro paths
    induction paths with
    | nil => exact fun _ _ => rfl
    | cons path rest ih =>
      intro s data
      rw [List.foldl_cons, ih (s.refill path) data, List.foldl_cons]
      simp only [refill, setPromoted, front, data, List.singleton_append]
  exact all paths r rfl

/-- A column that is written last need not be written before. -/
theorem Row.refill_foldl_refill (path : FieldPath) (paths : List FieldPath) (r : Row) :
    (paths.foldl refill (r.refill path)).refill path = (paths.foldl refill r).refill path := by
  have data : (r.refill path).data = r.data := rfl
  have promoted : (r.refill path).promoted = front (fun path => [(path.column, r.data.extract path)])
      (fun path e => sameName e.1 path.column) r.promoted path := rfl
  have last := @front_foldl_front _ _ (fun path : FieldPath => [(path.column, r.data.extract path)])
    (fun path e => sameName e.1 path.column) path (fun e mem => by
      obtain rfl := List.mem_singleton.1 mem
      exact sameName_refl _) r.promoted paths
  rw [foldl_refill paths (r.refill path), foldl_refill paths r, data, promoted]
  unfold refill setPromoted
  simp only
  exact congrArg (fun promoted => ({ r with promoted } : Row)) last

namespace Database

variable {db after : Database} {name : CollectionName} {path : FieldPath} {unique : Bool} {time : Int} {t : Table}
variable {promotions : List (FieldPath × PromotedColumn)}

/-- The paths stand promoted with these answers, and refreshing all of them in their order changes neither triggers nor rows. -/
structure Settled (db : Database) (name : CollectionName) (unique : Bool) (promotions : List (FieldPath × PromotedColumn)) :
    Prop where
  standing : ∀ p ∈ promotions, db.Standing name unique p.1 p.2
  triggers : (promotions.map Prod.fst).foldl name.synced db.triggers = db.triggers
  rows : ∀ t ∈ db.table? name.text, ∀ r ∈ t.rows,
    ((promotions.map Prod.fst).filter fun path => decide (db.Fills name.text path)).foldl Row.refill r = r

theorem settled_nil (db : Database) (name : CollectionName) (unique : Bool) : db.Settled name unique [] :=
  ⟨nofun, rfl, fun _ _ _ _ => rfl⟩

/-- After one more promotion all are settled. -/
theorem Settled.promote (h : db.Settled name unique promotions) (sound : db.Sound) (sound' : after.Sound)
    (admits : db.Admits name path) (made : db.promote name path unique time = .ok after) :
    after.Settled name unique (promotions ++ [(path, after.promoted name path unique time)]) := by
  obtain ⟨t, promoted⟩ := exists_promotes sound made
  have kept := fun p mem => promoted.keeps sound' admits (h.standing p mem)
  refine ⟨List.forall_mem_append.2 ⟨fun p mem => (kept p mem).1,
    List.forall_mem_singleton.2 (promoted.standing sound' admits)⟩, ?_, fun u found r mem => ?_⟩
  · rw [List.map_append, List.foldl_append, promoted.triggers]
    have last := name.synced_foldl_synced db.triggers path (promotions.map Prod.fst)
    rw [h.triggers] at last
    exact last
  · have filtered : ((promotions.map Prod.fst).filter fun path => decide (after.Fills name.text path))
        = (promotions.map Prod.fst).filter fun path => decide (db.Fills name.text path) := by
      refine List.filter_congr fun path listed => ?_
      obtain ⟨p, there, rfl⟩ := List.mem_map.1 listed
      exact decide_eq_decide.2 (kept p there).2
    have own := promoted.fills_iff sound'
    obtain rfl : _ = u := Option.some.inj (promoted.found'.symm.trans found)
    rw [List.map_append, List.filter_append, filtered, List.foldl_append]
    rw [Table.refreshed_rows] at mem
    by_cases fills : db.Fills name.text path
    · rw [decide_eq_true fills, if_pos rfl] at mem
      obtain ⟨r, hr, rfl⟩ := List.mem_map.1 mem
      have last := Row.refill_foldl_refill path
        ((promotions.map Prod.fst).filter fun path => decide (db.Fills name.text path)) r
      rw [h.rows t promoted.found r hr] at last
      simpa [own.2 fills] using last
    · rw [decide_eq_false fills, if_neg Bool.false_ne_true] at mem
      have stuck : ¬ after.Fills name.text path := fun again => fills (own.1 again)
      simpa [stuck] using h.rows t promoted.found r mem

/-- An index that is not unique changes nothing of that. -/
theorem Settled.createIndex (h : db.Settled name unique promotions) {i : Index} (plain : i.unique = false)
    (made : db.createIndex i = .ok after) : after.Settled name unique promotions := by
  obtain ⟨past, -⟩ := createIndex_again made
  obtain ⟨-, -, -, kept⟩ := createIndex_inv made
  have fills : ∀ path, after.Fills name.text path ↔ db.Fills name.text path := by
    intro path
    rcases kept with rfl | rfl
    · rfl
    · have guarded : Guarded { db with indexes := db.indexes ++ [i] } name.text path.column → db.Guarded name.text path.column := by
        rintro ⟨j, mem, unique, column⟩
        obtain ⟨mem, on⟩ := List.mem_filter.1 mem
        rcases List.mem_append.1 mem with mem | own
        · exact ⟨j, List.mem_filter.2 ⟨mem, on⟩, unique, column⟩
        · obtain rfl := List.mem_singleton.1 own
          rw [plain] at unique
          cases unique
      exact ⟨fun fills guard t found => fills (past.guarded guard) t found, fun fills guard t found => fills (guarded guard) t found⟩
  have same : after.tables = db.tables ∧ after.promotions = db.promotions ∧ after.triggers = db.triggers := by
    rcases kept with rfl | rfl <;> exact ⟨rfl, rfl, rfl⟩
  have table : ∀ n, after.table? n = db.table? n := fun n => by rw [table?, same.1, table?]
  refine ⟨fun p mem => ?_, by rw [same.2.2]; exact h.triggers, fun t found r hr => ?_⟩
  · obtain ⟨target, column, values, index, taken, entry⟩ := h.standing p mem
    refine ⟨target, by rwa [table], fun again t found => ?_, past.createIndex index, ?_, ?_⟩
    · rw [table] at found
      exact values ((fills p.1).1 again) t found
    · rwa [pathOfColumn?_eq, same.2.1, ← pathOfColumn?_eq]
    · rwa [promotion?_eq, same.2.1, ← promotion?_eq]
  · rw [table] at found
    simp only [fills]
    exact h.rows t found r hr

/-- A path that stands promoted has its column already. -/
theorem Standing.refreshed_table {shown : PromotedColumn} (h : db.Standing name unique path shown)
    (found : db.table? name.text = some t) (paths : List FieldPath) :
    (t.refreshed (decide (db.Fills name.text path)) path).refill paths
      = t.refill (if db.Fills name.text path then path :: paths else paths) := by
  obtain ⟨u, found', has⟩ := h.column
  obtain rfl : t = u := Option.some.inj (found.symm.trans found')
  have present : t.withColumn path.column = t := by rw [Table.withColumn, if_pos has]
  unfold Table.refreshed
  rw [present]
  by_cases fills : db.Fills name.text path
  · simp [fills, Table.refill, Table.fill, Row.refill, Function.comp_def]
  · simp [fills]

/-- To refresh paths that stand promoted is to bring their triggers and their values to the front. -/
theorem foldl_refreshed {paths : List FieldPath} (mirroring : db.Mirroring)
    (standing : ∀ path ∈ paths, ∃ shown, db.Standing name unique path shown) :
    paths.foldl (fun db path => db.refreshed name path) db = { db.mapTable name.text (Table.refill
      (paths.filter fun path => decide (db.Fills name.text path))) with triggers := paths.foldl name.synced db.triggers } := by
  induction paths generalizing db with
  | nil => simp [mapTable, Table.refill]
  | cons path rest ih =>
    obtain ⟨⟨shown, here⟩, later⟩ := List.forall_mem_cons.1 standing
    obtain ⟨made, -⟩ := here.again mirroring.installed.sound 0
    have mirroring' := mirroring.promote here.target made
    obtain ⟨t, promoted⟩ := exists_promotes mirroring.installed.sound made
    have kept := fun q shown (h : db.Standing name unique q shown) =>
      promoted.keeps mirroring'.installed.sound here.admits h
    have filtered : (rest.filter fun path_1 => decide ((db.refreshed name path).Fills name.text path_1))
        = rest.filter fun path => decide (db.Fills name.text path) := by
      refine List.filter_congr fun q mem => ?_
      obtain ⟨shown, h⟩ := later q mem
      exact decide_eq_decide.2 (kept q shown h).2
    rw [List.foldl_cons, ih mirroring' fun q mem => (later q mem).imp fun shown h => (kept q shown h).1, filtered,
      promoted.triggers, List.foldl_cons]
    have tables : (db.mapTable name.text (Table.refreshed (decide (db.Fills name.text path)) path)).mapTable name.text _ = _ :=
      mapTable_mapTable (Table.refreshed_name (decide (db.Fills name.text path)) path)
      (Table.refill (rest.filter fun path => decide (db.Fills name.text path)))
    have same := mirroring.installed.sound.tidy.mapTable_congr_of_eq promoted.found
      (f := Table.refill (rest.filter fun path => decide (db.Fills name.text path))
        ∘ Table.refreshed (decide (db.Fills name.text path)) path)
      (here.refreshed_table promoted.found _)
    have front : (path :: rest).filter (fun path => decide (db.Fills name.text path))
        = if db.Fills name.text path then path :: rest.filter fun path => decide (db.Fills name.text path)
          else rest.filter fun path => decide (db.Fills name.text path) := by
      rw [List.filter_cons]
      by_cases fills : db.Fills name.text path <;> simp [fills]
    rw [front, ← same, ← tables]
    rw [refreshed_eq db]
    rfl

/-- Refreshing all paths that are settled changes nothing. -/
theorem Settled.refreshed (h : db.Settled name unique promotions) (mirroring : db.Mirroring) :
    (promotions.map Prod.fst).foldl (fun db path => db.refreshed name path) db = db := by
  cases promotions with
  | nil => rfl
  | cons p rest =>
    obtain ⟨t, found, -⟩ := (h.standing p List.mem_cons_self).column
    have standing : ∀ path ∈ (p :: rest).map Prod.fst, ∃ shown, db.Standing name unique path shown := by
      intro path mem
      obtain ⟨q, there, rfl⟩ := List.mem_map.1 mem
      exact ⟨q.2, h.standing q there⟩
    have rows : t.refill (((p :: rest).map Prod.fst).filter fun path => decide (db.Fills name.text path)) = t := by
      have same := List.map_congr_left fun r mem => h.rows t found r mem
      rw [List.map_id'] at same
      unfold Table.refill
      rw [same]
    rw [foldl_refreshed mirroring standing, h.triggers, mirroring.installed.sound.tidy.mapTable_eq_self found rows]

end Database

end Dossier
