import Dossier.Proofs.Database.Writing

/-!
# Unique indexes

`Database.Keyed`: every unique index is on one column and separates the rows of its table. No write of a row
breaks that, whether or not the index was there when the row was inserted.
-/

namespace Dossier

open Text Outcome

/-! ## The order of values -/

theorem Decimal.Magnitude.compare_swap (a b : Decimal.Magnitude) : a.compare b = (b.compare a).swap := by
  cases a <;> cases b
  case ratio.ratio =>
    rw [Magnitude.compare, Magnitude.compare]
    exact Std.OrientedCmp.eq_swap
  all_goals rfl

namespace Value

theorem textOrder_swap (as bs : List Char) : textOrder as bs = (textOrder bs as).swap := by
  induction as generalizing bs with
  | nil => cases bs <;> rfl
  | cons a as ih =>
    cases bs with
    | nil => rfl
    | cons b bs =>
      simp only [textOrder, Ordering.swap_then]
      rw [← ih bs, @Std.OrientedCmp.eq_swap _ compare _ a.toNat]

theorem order_swap (c : Collation) (x y : Value) : order c x y = (order c y x).swap := by
  have numbers : (compare x.rank y.rank).then (x.magnitude.compare y.magnitude)
      = ((compare y.rank x.rank).then (y.magnitude.compare x.magnitude)).swap := by
    rw [Ordering.swap_then, ← Decimal.Magnitude.compare_swap, ← Std.OrientedCmp.eq_swap]
  cases x <;> cases y <;> first
    | exact numbers
    | exact textOrder_swap _ _

/-- Equality under no affinity does not tell its sides apart. -/
theorem test_eq_comm (c : Collation) (x y : Value) : test .eq .none c x y = test .eq .none c y x := by
  have holds : Comparison.eq.holds (order c x y) = Comparison.eq.holds (order c y x) := by
    rw [order_swap c x y]
    cases order c y x <;> rfl
  simp only [test, compare?, align, Affinity.isNumeric, Bool.or_comm x.isNull]
  cases y.isNull || x.isNull <;> simp [holds]

end Value

namespace Index

theorem sameKey_comm (i : Index) (r s : Row) : i.sameKey r s = i.sameKey s r := by
  simp only [sameKey, Value.test_eq_comm]

/-- The key of an index is told by the promoted columns. -/
theorem sameKey_congr (i : Index) {r r' : Row} (h : r.promoted = r'.promoted) (s : Row) : i.sameKey r s = i.sameKey r' s := by
  simp only [sameKey, Row.promotedValue, h]

theorem separates_iff (i : Index) (rows : List Row) :
    i.separates rows = true ↔ rows.Pairwise fun r s => i.sameKey r s = false := by
  induction rows with
  | nil => simp [separates]
  | cons r rest ih => simp [separates, ih]

theorem apart_of_separates (i : Index) {rows : List Row} (h : i.separates rows = true) :
    ∀ r ∈ rows, ∀ s ∈ rows, r.rowid ≠ s.rowid → i.sameKey r s = false := by
  have separate := (separates_iff i rows).1 h
  have apart : rows.Pairwise fun r s => r.rowid ≠ s.rowid → i.sameKey r s = false := by
    refine separate.imp ?_
    exact fun key _ => key
  have flipped : rows.Pairwise (flip fun r s => r.rowid ≠ s.rowid → i.sameKey r s = false) := by
    refine separate.imp ?_
    intro r s key _
    rwa [sameKey_comm]
  exact fun r hr s hs => apart.forall_of_forall_of_flip (fun _ _ ne => absurd rfl ne) flipped hr hs

end Index

namespace Database

/-- Every unique index is on one column and separates the rows of its table. -/
structure Keyed (db : Database) : Prop where
  single : ∀ i ∈ db.indexes, i.unique = true → ∃ column, i.columns = [column]
  separates : ∀ t ∈ db.tables, ∀ i ∈ db.indexesOn t.name, i.unique = true →
    ∀ r ∈ t.rows, ∀ s ∈ t.rows, r.rowid ≠ s.rowid → i.sameKey r s = false

variable {db after : Database} {table : String} {t : Table}

theorem indexesOn_congr {other : String} (h : sameName table other = true) : db.indexesOn table = db.indexesOn other := by
  unfold indexesOn
  simp only [sameName_right h]

/-- No unique index stands against a row: none holds its key for another one. -/
theorem conflict?_eq_none {row : Row} (h : db.conflict? t row = none) {i : Index} (mem : i ∈ db.indexesOn t.name)
    (unique : i.unique = true) {r : Row} (hr : r ∈ t.rows) (ne : r.rowid ≠ row.rowid) : i.sameKey r row = false := by
  unfold conflict? at h
  have all := List.find?_eq_none.1 (Option.map_eq_none_iff.1 h) i mem
  rw [Bool.eq_false_iff]
  intro same
  exact all (by simp only [unique, Bool.true_and]; exact List.any_eq_true.2 ⟨r, hr, by simp [ne, same]⟩)

/-- A table changes to one whose rows the indexes still separate. -/
theorem Keyed.mapTable {f : Table → Table} (keyed : db.Keyed) (name : ∀ t, (f t).name = t.name)
    (separated : ∀ t ∈ db.tables, sameName t.name table = true → ∀ i ∈ db.indexesOn t.name, i.unique = true →
      ∀ r ∈ (f t).rows, ∀ s ∈ (f t).rows, r.rowid ≠ s.rowid → i.sameKey r s = false) : (db.mapTable table f).Keyed := by
  refine ⟨keyed.single, fun t mem i hi unique => ?_⟩
  obtain ⟨s, hs, rfl⟩ := List.mem_map.1 mem
  by_cases here : sameName s.name table = true
  · rw [if_pos here] at hi ⊢
    rw [name] at hi
    exact separated s hs here i hi unique
  · rw [if_neg here] at hi ⊢
    exact keyed.separates s hs i hi unique

/-- One row changes, and no other has the key that it gets. -/
theorem Keyed.editRow {rowid : Int} {f : Row → Row} (keyed : db.Keyed) (tidy : db.Tidy) (found : db.table? table = some t)
    (keeps : ∀ r : Row, r.rowid = rowid → (f r).rowid = rowid)
    (free : ∀ i ∈ db.indexesOn t.name, i.unique = true → ∀ old ∈ t.rows, old.rowid = rowid →
      ∀ r ∈ t.rows, r.rowid ≠ rowid → i.sameKey r (f old) = false) : (db.editRow table rowid f).Keyed := by
  refine keyed.mapTable (Table.editRow_name rowid f) fun u mem here i hi unique => ?_
  obtain rfl := Option.some.inj ((tidy.table?_eq_some mem here).symm.trans found)
  intro r hr s hs ne
  rcases Table.mem_editRow hr with ⟨hr, otherR⟩ | ⟨old, hold, number, rfl⟩
  · rcases Table.mem_editRow hs with ⟨hs, otherS⟩ | ⟨old, hold, number, rfl⟩
    · exact keyed.separates u mem i hi unique r hr s hs ne
    · exact free i hi unique old hold number r hr otherR
  · rcases Table.mem_editRow hs with ⟨hs, otherS⟩ | ⟨old', hold', number', rfl⟩
    · rw [Index.sameKey_comm]
      exact free i hi unique old hold number s hs otherS
    · exact absurd ((keeps old number).trans (keeps old' number').symm) ne

/-- A row gets a new state with the same promoted columns. -/
theorem Keyed.editRow_of_promoted {rowid : Int} {f : Row → Row} (keyed : db.Keyed) (tidy : db.Tidy)
    (found : db.table? table = some t) (keeps : ∀ r : Row, r.rowid = rowid → (f r).rowid = rowid)
    (same : ∀ r ∈ t.rows, r.rowid = rowid → (f r).promoted = r.promoted) : (db.editRow table rowid f).Keyed := by
  refine keyed.editRow tidy found keeps fun i hi unique old hold number r hr ne => ?_
  rw [Index.sameKey_comm, Index.sameKey_congr i (same old hold number)]
  exact keyed.separates t (mem_of_table? found).1 i hi unique old hold r hr (number ▸ ne.symm)

/-- A new row without promoted columns has null in every key. -/
theorem Keyed.addRow {row : Row} (keyed : db.Keyed) (tidy : db.Tidy) (found : db.table? table = some t)
    (bare : row.promoted = []) : (db.mapTable table (Table.addRow row)).Keyed := by
  refine keyed.mapTable (Table.addRow_name row) fun u mem here i hi unique => ?_
  obtain rfl := Option.some.inj ((tidy.table?_eq_some mem here).symm.trans found)
  have null : ∀ r, i.sameKey row r = false := by
    intro r
    obtain ⟨column, columns⟩ := keyed.single i (List.mem_filter.1 hi).1 unique
    simp [Index.sameKey, columns, Row.promotedValue, bare, Value.test, Value.compare?, Value.isNull]
  intro r hr s hs ne
  simp only [Table.addRow, List.mem_append, List.mem_singleton] at hr hs
  rcases hr with hr | rfl
  · rcases hs with hs | rfl
    · exact keyed.separates u mem i hi unique r hr s hs ne
    · rw [Index.sameKey_comm]
      exact null r
  · exact null s

/-- Taking rows out leaves the others separate. -/
theorem Keyed.deleteRows (keyed : db.Keyed) (table : String) (rowids : List Int) : (db.deleteRows table rowids).Keyed :=
  keyed.mapTable (fun _ => rfl) fun t mem _ i hi unique r hr s hs =>
    keyed.separates t mem i hi unique r (List.mem_filter.1 hr).1 s (List.mem_filter.1 hs).1

/-- Writing a column checks the indexes. -/
theorem Keyed.setColumn {rowid : Int} {column : String} {v : Value} (keyed : db.Keyed) (tidy : db.Tidy)
    (h : db.setColumn table rowid column v = .ok after) : after.Keyed := by
  obtain ⟨t, found, rfl, fine⟩ := setColumn_eq_ok tidy h
  refine keyed.editRow tidy found (fun r same => same) fun i hi unique old hold number r hr ne => ?_
  exact conflict?_eq_none (fine old hold number) hi unique hr (by simpa [number] using ne)

end Database

end Dossier
