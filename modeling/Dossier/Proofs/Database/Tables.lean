import Dossier.Database.Write
import Dossier.Proofs.Outcome

/-!
# Tables and their rows

The tables of a `Database.Tidy` database have names of their own and number their rows. A change of one row
(`Database.editRow`) leaves the schema, all other tables and all other rows alone.
-/

namespace Dossier

open Text

namespace Text

theorem sameName_iff {a b : String} : sameName a b = true ↔ foldCase a = foldCase b := by simp [sameName]

theorem sameName_symm {a b : String} (h : sameName a b = true) : sameName b a = true := sameName_comm a b ▸ h

theorem sameName_trans {a b c : String} (h : sameName a b = true) (h' : sameName b c = true) : sameName a c = true :=
  sameName_iff.2 ((sameName_iff.1 h).trans (sameName_iff.1 h'))

/-- Same names are the same as any third one. -/
theorem sameName_left {a b : String} (h : sameName a b = true) (c : String) : sameName a c = sameName b c := by
  simp only [sameName, sameName_iff.1 h]

theorem sameName_right {a b : String} (h : sameName a b = true) (c : String) : sameName c a = sameName c b := by
  simp only [sameName, sameName_iff.1 h]

theorem foldCase_append (a b : String) : foldCase (a ++ b) = foldCase a ++ foldCase b := by
  apply String.toList_injective
  simp [foldCase]

/-- Names with one ending are the same if what stands before it is. -/
theorem sameName_append_right (a b ending : String) : sameName (a ++ ending) (b ++ ending) = sameName a b := by
  rw [Bool.eq_iff_iff, sameName_iff, sameName_iff, foldCase_append, foldCase_append]
  constructor
  · intro h
    apply String.toList_injective
    have := congrArg String.toList h
    simpa using this
  · intro h
    rw [h]

/-- Names with one beginning are the same if what stands after it is. -/
theorem sameName_append_left (start a b : String) : sameName (start ++ a) (start ++ b) = sameName a b := by
  rw [Bool.eq_iff_iff, sameName_iff, sameName_iff, foldCase_append, foldCase_append]
  constructor
  · intro h
    apply String.toList_injective
    have := congrArg String.toList h
    simpa using this
  · intro h
    rw [h]

/-- Names that end differently, in as many characters, differ. -/
theorem sameName_append_of_ne {s t : String} (length : s.length = t.length) (ne : sameName s t = false) (a b : String) :
    sameName (a ++ s) (b ++ t) = false := by
  rw [Bool.eq_false_iff] at ne ⊢
  intro h
  apply ne
  rw [sameName_iff, foldCase_append, foldCase_append] at h
  have lists := congrArg String.toList h
  simp only [String.toList_append] at lists
  have ends := List.append_inj' lists (by simpa [foldCase, ← String.length_toList] using length)
  exact sameName_iff.2 (String.toList_injective ends.2)

end Text

/-! ## Rows -/

namespace Row

@[simp] theorem setPromoted_rowid (r : Row) (column : String) (v : Value) : (r.setPromoted column v).rowid = r.rowid := rfl

@[simp] theorem setPromoted_data (r : Row) (column : String) (v : Value) : (r.setPromoted column v).data = r.data := rfl

/-- A column is read under any spelling of its name. -/
theorem promotedValue_congr (r : Row) {column other : String} (h : sameName column other = true) :
    r.promotedValue column = r.promotedValue other := by
  unfold promotedValue
  simp only [sameName_right h]

theorem promotedValue_setPromoted_of_same (r : Row) {column other : String} (v : Value)
    (h : sameName column other = true) : (r.setPromoted column v).promotedValue other = v := by
  rw [← promotedValue_congr _ h, promotedValue_setPromoted]

end Row

namespace Table

/-- Changes the row with a number. -/
def editRow (rowid : Int) (f : Row → Row) (t : Table) : Table :=
  { t with rows := t.rows.map fun r => if r.rowid = rowid then f r else r }

@[simp] theorem editRow_name (rowid : Int) (f : Row → Row) (t : Table) : (t.editRow rowid f).name = t.name := rfl

@[simp] theorem editRow_columns (rowid : Int) (f : Row → Row) (t : Table) : (t.editRow rowid f).columns = t.columns := rfl

theorem editRow_editRow {rowid : Int} {f : Row → Row} (keeps : ∀ r : Row, r.rowid = rowid → (f r).rowid = rowid)
    (g : Row → Row) (t : Table) : (t.editRow rowid f).editRow rowid g = t.editRow rowid (g ∘ f) := by
  simp only [editRow, List.map_map]
  congr 1
  apply List.map_congr_left
  intro r _
  by_cases h : r.rowid = rowid
  · simp [h, keeps r h]
  · simp [h]

/-- A change of a row that is not there changes nothing. -/
theorem editRow_of_absent {rowid : Int} (f : Row → Row) {t : Table} (absent : ∀ r ∈ t.rows, r.rowid ≠ rowid) :
    t.editRow rowid f = t := by
  have same : t.rows.map (fun r => if r.rowid = rowid then f r else r) = t.rows :=
    (List.map_congr_left fun r hr => if_neg (absent r hr)).trans (List.map_id _)
  simp [editRow, same]

/-- The rows after a change of one: the others, and the changed one if it was there. -/
theorem mem_editRow {rowid : Int} {f : Row → Row} {t : Table} {r : Row} (h : r ∈ (t.editRow rowid f).rows) :
    (r ∈ t.rows ∧ r.rowid ≠ rowid) ∨ ∃ old ∈ t.rows, old.rowid = rowid ∧ r = f old := by
  obtain ⟨old, mem, rfl⟩ := List.mem_map.1 h
  by_cases same : old.rowid = rowid
  · exact .inr ⟨old, mem, same, by simp [same]⟩
  · exact .inl ⟨by simpa [same] using mem, by simp [same]⟩

theorem rowids_editRow {rowid : Int} {f : Row → Row} (keeps : ∀ r : Row, r.rowid = rowid → (f r).rowid = rowid)
    (t : Table) : (t.editRow rowid f).rows.map Row.rowid = t.rows.map Row.rowid := by
  simp only [editRow, List.map_map]
  apply List.map_congr_left
  intro r _
  by_cases h : r.rowid = rowid
  · simp [h, keeps r h]
  · simp [h]

/-- The table after new states of rows have been written, one after another. -/
def rewrite (written : Row → Row) (cs : List (Row × Row)) (t : Table) : Table :=
  cs.foldl (fun t c => t.editRow c.2.rowid fun _ => written c.2) t

@[simp] theorem rewrite_name (written : Row → Row) (cs : List (Row × Row)) (t : Table) :
    (t.rewrite written cs).name = t.name := by
  induction cs generalizing t with
  | nil => rfl
  | cons c rest ih => exact ih _

@[simp] theorem rewrite_columns (written : Row → Row) (cs : List (Row × Row)) (t : Table) :
    (t.rewrite written cs).columns = t.columns := by
  induction cs generalizing t with
  | nil => rfl
  | cons c rest ih => exact ih _

/-- Adds a row at the end. -/
def addRow (row : Row) (t : Table) : Table := { t with rows := t.rows ++ [row] }

@[simp] theorem addRow_name (row : Row) (t : Table) : (t.addRow row).name = t.name := rfl

@[simp] theorem addRow_columns (row : Row) (t : Table) : (t.addRow row).columns = t.columns := rfl

/-- A change of a row that has just been added leaves the others alone. -/
theorem editRow_addRow {row : Row} {t : Table} (fresh : ∀ r ∈ t.rows, r.rowid ≠ row.rowid) (f : Row → Row) :
    (t.addRow row).editRow row.rowid f = t.addRow (f row) := by
  have others : t.rows.map (fun r => if r.rowid = row.rowid then f r else r) = t.rows :=
    (List.map_congr_left fun r mem => if_neg (fresh r mem)).trans (List.map_id _)
  simp [addRow, editRow, others]

/-- Writes a column of every row from its body. -/
def fill (column : String) (path : FieldPath) (t : Table) : Table :=
  { t with rows := t.rows.map fun r => r.setPromoted column (r.data.extract path) }

@[simp] theorem fill_name (column : String) (path : FieldPath) (t : Table) : (t.fill column path).name = t.name := rfl

@[simp] theorem fill_columns (column : String) (path : FieldPath) (t : Table) : (t.fill column path).columns = t.columns := rfl

theorem lt_nextRowid {t : Table} {r : Row} (mem : r ∈ t.rows) : r.rowid < t.nextRowid := by
  have bound : ∀ (l : List Int) (start : Int), start ≤ l.foldl max start ∧ ∀ n ∈ l, n ≤ l.foldl max start := by
    intro l
    induction l with
    | nil => simp
    | cons n rest ih =>
      intro start
      obtain ⟨from_, all⟩ := ih (max start n)
      refine ⟨by simp only [List.foldl_cons]; omega, ?_⟩
      rintro m (_ | ⟨_, later⟩)
      · simp only [List.foldl_cons]; omega
      · exact all m later
  have := (bound (t.rows.map Row.rowid) 0).2 r.rowid (List.mem_map_of_mem mem)
  unfold nextRowid
  omega

end Table

/-! ## Databases -/

namespace Database

/-- The tables have names of their own, and the rows of each have numbers of their own. -/
structure Tidy (db : Database) : Prop where
  names : db.tables.Pairwise fun s t => sameName s.name t.name = false
  rowids : ∀ t ∈ db.tables, (t.rows.map Row.rowid).Nodup

variable {db : Database} {table : String} {t : Table}

theorem tableOf_eq_ok : db.tableOf table = .ok t ↔ db.table? table = some t := by
  unfold tableOf
  cases db.table? table <;> simp

theorem mem_of_table? (found : db.table? table = some t) : t ∈ db.tables ∧ sameName t.name table = true :=
  ⟨List.mem_of_find?_eq_some found, List.find?_some (p := fun t : Table => sameName t.name table) found⟩

theorem table?_congr {other : String} (h : sameName table other = true) : db.table? table = db.table? other := by
  unfold table?
  simp only [sameName_right h]

theorem mapTable_congr {other : String} (h : sameName table other = true) (f : Table → Table) :
    db.mapTable table f = db.mapTable other f := by
  unfold mapTable
  simp only [sameName_right h]

theorem mapTable_mapTable {f : Table → Table} (name : ∀ t, (f t).name = t.name) (g : Table → Table) :
    (db.mapTable table f).mapTable table g = db.mapTable table (g ∘ f) := by
  simp only [mapTable, List.map_map]
  have each : ∀ t : Table, ((fun t => if sameName t.name table then g t else t) ∘
      fun t => if sameName t.name table then f t else t) t = if sameName t.name table then (g ∘ f) t else t := by
    intro t
    by_cases h : sameName t.name table = true
    · simp [h, name]
    · simp [h]
  rw [funext each]

theorem table?_mapTable {f : Table → Table} (name : ∀ t, (f t).name = t.name) (other : String) :
    (db.mapTable table f).table? other
      = if sameName table other then (db.table? other).map f else db.table? other := by
  unfold mapTable table?
  simp only
  induction db.tables with
  | nil => simp
  | cons t rest ih =>
    by_cases here : sameName t.name other = true
    · by_cases changed : sameName t.name table = true
      · have : sameName table other = true := sameName_trans (sameName_symm changed) here
        simp [here, changed, this, name]
      · have : sameName table other = false := by
          rw [Bool.eq_false_iff]
          exact fun same => changed (sameName_trans here (sameName_symm same))
        simp [here, changed, this]
    · by_cases changed : sameName t.name table = true
      · simpa [here, changed, name] using ih
      · simpa [here, changed] using ih

/-- The table of a name after a change of it. -/
theorem found_mapTable {f : Table → Table} (name : ∀ t, (f t).name = t.name) (found : db.table? table = some t) :
    (db.mapTable table f).table? table = some (f t) := by
  rw [table?_mapTable name, sameName_refl, if_pos rfl, found]
  rfl

/-- A row of a number in a list of rows with numbers of their own. -/
theorem find?_rowid {rows : List Row} (nodup : (rows.map Row.rowid).Nodup) {r : Row} (mem : r ∈ rows) :
    rows.find? (fun s => decide (s.rowid = r.rowid)) = some r := by
  induction rows with
  | nil => cases mem
  | cons s rest ih =>
    rw [List.map_cons, List.nodup_cons] at nodup
    rcases List.mem_cons.1 mem with rfl | later
    · simp
    · have : s.rowid ≠ r.rowid := fun same => nodup.1 (same ▸ List.mem_map_of_mem later)
      simp [this, ih nodup.2 later]

namespace Tidy

/-- The row of a number is the only one. -/
theorem row_eq (tidy : db.Tidy) (found : db.table? table = some t) {r s : Row} (hr : r ∈ t.rows) (hs : s ∈ t.rows)
    (same : r.rowid = s.rowid) : r = s := by
  have nodup := tidy.rowids t (mem_of_table? found).1
  have first := find?_rowid nodup hr
  rw [same] at first
  exact Option.some.inj (first.symm.trans (find?_rowid nodup hs))

/-- The table of a name is the only one. -/
theorem table?_eq_some (tidy : db.Tidy) (mem : t ∈ db.tables) (name : sameName t.name table = true) :
    db.table? table = some t := by
  have names := tidy.names
  unfold table?
  generalize db.tables = tables at mem names
  induction tables with
  | nil => cases mem
  | cons s rest ih =>
    obtain ⟨apart, others⟩ := List.pairwise_cons.1 names
    rcases List.mem_cons.1 mem with rfl | later
    · simp [name]
    · have : sameName s.name table = false := by
        rw [Bool.eq_false_iff]
        intro same
        have := apart t later
        rw [sameName_trans same (sameName_symm name)] at this
        cases this
      simp only [List.find?_cons, this]
      exact ih later others

theorem mapTable {f : Table → Table} (tidy : db.Tidy) (name : ∀ t, (f t).name = t.name)
    (rowids : ∀ t ∈ db.tables, sameName t.name table = true → ((f t).rows.map Row.rowid).Nodup) :
    (db.mapTable table f).Tidy := by
  constructor
  · refine List.pairwise_map.2 (tidy.names.imp fun {s t} apart => ?_)
    have : ∀ t : Table, (if sameName t.name table then f t else t).name = t.name := by
      intro t
      split
      · exact name t
      · rfl
    rwa [this, this]
  · intro t mem
    obtain ⟨s, hs, rfl⟩ := List.mem_map.1 mem
    split
    · exact rowids s hs ‹_›
    · exact tidy.rowids s hs

/-- Changes of a table agree if they agree on the one table of its name. -/
theorem mapTable_congr_of_eq {f g : Table → Table} (tidy : db.Tidy) (found : db.table? table = some t) (same : f t = g t) :
    db.mapTable table f = db.mapTable table g := by
  unfold Database.mapTable
  congr 1
  refine List.map_congr_left fun s mem => ?_
  split
  · rename_i here
    obtain rfl := Option.some.inj ((tidy.table?_eq_some mem here).symm.trans found)
    exact same
  · rfl

/-- Changing the one table of a name to itself changes nothing. -/
theorem mapTable_eq_self {f : Table → Table} (tidy : db.Tidy) (found : db.table? table = some t) (same : f t = t) :
    db.mapTable table f = db := by
  rw [tidy.mapTable_congr_of_eq (g := id) found same]
  simp [Database.mapTable]

end Tidy

end Database

end Dossier
