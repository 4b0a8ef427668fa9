import Dossier.Proofs.Database.Sorting
import Dossier.Proofs.Statement.Deciding
import Dossier.Proofs.Statement.Queries

/-!
# Statements by their text

What the engine does that reads the text of a statement (`Database.execute`) is what the statement is answered with
(`Database.run`): a condition chooses the rows that the filter selects (`Table.sift_condition`), terms order them as the
listing does (`Listing.run_selection`), and the search for a number finds the first of them (`Statement.run_target`).
-/

namespace Dossier

open Text Sql Outcome

variable {t : Table} {params : List Value} {n : Nat} {p : Predicate} {rows : List Row} {r : Resolver} {l : Listing}

/-! ## Conditions -/

theorem Outcome.mapM_ok {ε α β : Type} {f : α → Except ε β} {g : α → β} {xs : List α} (each : ∀ x ∈ xs, f x = .ok (g x)) :
    xs.mapM f = .ok (xs.map g) := by
  induction xs with
  | nil => rfl
  | cons x xs ih =>
    obtain ⟨here, later⟩ := List.forall_mem_cons.1 each
    rw [List.mapM_cons, here, ok_bind, ih later]
    rfl

namespace Table

/-- A condition leaves the rows of which it is true. -/
theorem sift_of_decides {x : Expr} {f : Row → Truth} (decides : x.Decides t params f) (rows : List Row) :
    t.sift params rows x = .ok (rows.filter fun row => (f row).isTrue) := by
  obtain ⟨resolved, known, holds⟩ := decides
  have names : t.resolved x = .ok resolved := by
    rw [Table.resolved, known]
    rfl
  rw [sift, names]
  exact filterM_ok fun row _ => by rw [holds row]

/-- The condition of a filter leaves the rows that the filter selects. -/
theorem sift_condition (known : ∀ u ∈ p, ∀ v ∈ u.operand?, v.Known t) (short : ∀ u ∈ p, u.isTooLong = false)
    (placed : Value.Placed params n p.params) :
    (p.condition? n).toList.foldlM (t.sift params) t.rows = .ok (t.select p) := by
  cases p with
  | nil => exact congrArg Except.ok t.select_nil.symm
  | cons u ts =>
    show (t.sift params t.rows (Predicate.expr n u ts)).bind pure = _
    rw [sift_of_decides (Predicate.decides_expr u ts known short placed) t.rows]
    rfl

end Table

/-! ## Orders -/

namespace Listing

/-- The values by which a row is ordered: what the keys are about, and its number. -/
def values (l : Listing) (r : Resolver) (row : Row) : List Value :=
  l.keys.map (fun key => row.read (r.operand key.field)) ++ [.integer row.rowid]

/-- The order of rows by their values, the number deciding where the keys tie them. -/
def orderAll (l : Listing) (r : Resolver) : Row → Row → Ordering :=
  compareLex (SortKey.orderAll r l.keys) (compareOn Row.rowid)

instance (l : Listing) (r : Resolver) : Std.TransCmp (l.orderAll r) := inferInstanceAs (Std.TransCmp (compareLex _ _))

theorem collation?_operand (v : Operand) : v.expr.collation? = none := by
  cases v <;> rfl

/-- The terms order values as the keys order rows. -/
theorem orderAll_terms (a b : Row) : OrderTerm.orderAll (l.terms r) (l.values r a) (l.values r b) = l.orderAll r a b := by
  unfold terms values orderAll compareLex
  induction l.keys with
  | nil =>
    have numbers : Value.order .binary (.integer a.rowid) (.integer b.rowid) = compareOn Row.rowid a b := by
      show (compare 1 1).then (compare (a.rowid * 1) (b.rowid * 1)) = compare a.rowid b.rowid
      rw [Int.mul_one, Int.mul_one]
      rfl
    exact Ordering.then_eq.trans numbers
  | cons key keys ih =>
    obtain ⟨field, direction⟩ := key
    simp only [List.map_cons, List.cons_append, OrderTerm.orderAll, collation?_operand, Option.getD_none, ih, SortKey.orderAll,
      SortKey.order, Ordering.then_assoc]
    cases direction <;> rfl

theorem order_le_trans (a b c : Row) (first : (l.orderAll r a b != .gt) = true) (second : (l.orderAll r b c != .gt) = true) :
    (l.orderAll r a c != .gt) = true := by
  rw [bne_iff_ne, ne_eq, ← Ordering.isLE_iff_ne_gt] at *
  exact Std.TransCmp.isLE_trans first second

theorem order_le_total (a b : Row) : ((l.orderAll r a b != .gt) || (l.orderAll r b a != .gt)) = true := by
  have swapped : l.orderAll r b a = (l.orderAll r a b).swap := Std.OrientedCmp.eq_swap
  rw [swapped]
  cases l.orderAll r a b <;> rfl

/-- Sorting by the numbers as well changes nothing where rows stand in the order of their numbers. -/
theorem mergeSort_orderAll (increasing : rows.Pairwise fun a b => a.rowid < b.rowid) :
    rows.mergeSort (fun a b => l.orderAll r a b != .gt) = l.sorted r rows := by
  have perm : (rows.mergeSort fun a b => l.orderAll r a b != .gt).Perm rows := List.mergeSort_perm ..
  have perm' : (l.sorted r rows).Perm rows := List.mergeSort_perm ..
  have sorted : (l.sorted r rows).Pairwise fun a b => l.orderAll r a b = .lt := by
    refine (pairwise_sorted r increasing).imp fun {a b} before => ?_
    unfold orderAll compareLex compareOn
    rcases before with lt | ⟨eq, older⟩
    · rw [lt]
      rfl
    · rw [eq]
      exact Int.compare_eq_lt.2 older
  have distinct : (rows.map Row.rowid).Nodup := List.pairwise_map.2 (increasing.imp fun lt => Int.ne_of_lt lt)
  refine (perm.trans perm'.symm).eq_of_pairwise (fun a b ha hb le ge => ?_) (List.pairwise_mergeSort order_le_trans order_le_total rows)
    (sorted.imp fun lt => by rw [lt]; rfl)
  have swapped : l.orderAll r b a = (l.orderAll r a b).swap := Std.OrientedCmp.eq_swap
  have tied : l.orderAll r a b = .eq := by
    rw [swapped] at ge
    cases order : l.orderAll r a b with
    | eq => rfl
    | lt =>
      rw [order] at ge
      cases ge
    | gt =>
      rw [order] at le
      cases le
  exact List.inj_on_of_nodup_map distinct (perm.subset ha) (perm'.subset hb) (Int.compare_eq_eq.1 (Ordering.then_eq_eq.1 tied).2)

/-- The engine finds the columns of the terms, and reads there what the listing orders by. -/
theorem exists_terms (number : t.column? orderColumn = some .rowid) {keys : List SortKey}
    (known : ∀ key ∈ keys, (r.operand key.field).Known t) : ∃ es,
      (keys.map (fun key => (⟨(r.operand key.field).expr, key.direction == .descending⟩ : OrderTerm)) ++ [orderTerm]).mapM
        (fun term => t.resolved term.key) = .ok es
      ∧ ∀ (row : Row) (params : List Value), es.mapM (row.valueOf params)
        = .ok (keys.map (fun key => row.read (r.operand key.field)) ++ [.integer row.rowid]) := by
  induction keys with
  | nil =>
    have resolved : t.resolved orderTerm.key = .ok (.column ⟨.current, .rowid⟩) := by
      have found : orderTerm.key.resolve t.scope = some (.column ⟨.current, .rowid⟩) := by
        simp [orderTerm, Expr.resolve, Table.scope, number]
      rw [Table.resolved, found]
      rfl
    refine ⟨[.column ⟨.current, .rowid⟩], ?_, fun row params => rfl⟩
    rw [List.map_nil, List.nil_append, List.mapM_cons, resolved]
    rfl
  | cons key keys ih =>
    obtain ⟨here, later⟩ := List.forall_mem_cons.1 known
    obtain ⟨es, resolved, values⟩ := ih later
    obtain ⟨e, reads⟩ := Operand.exists_reads here
    have first : t.resolved (r.operand key.field).expr = .ok e := by
      rw [Table.resolved, reads.known]
      rfl
    refine ⟨e :: es, ?_, fun row params => ?_⟩
    · rw [List.map_cons, List.cons_append, List.mapM_cons, first, ok_bind, resolved]
      rfl
    · have value : row.valueOf params e = .ok (row.read (r.operand key.field)) := by
        have read := reads.value row params
        show demand _ (e.eval (fun place => row.column place.column) params) = _
        rw [read]
        rfl
      rw [List.mapM_cons, value, ok_bind, values]
      rfl

/-- A selection sorts rows as the listing does. -/
theorem sorted_selection (params : List Value) (number : t.column? orderColumn = some .rowid)
    (known : ∀ key ∈ l.keys, (r.operand key.field).Known t) (increasing : rows.Pairwise fun a b => a.rowid < b.rowid) (table : String) (p : Predicate) (n : Nat) :
    (l.selection r table p n).sorted t params rows
      = if limits.orderTerms < l.keys.length + 1 then .error (.failure "too many terms in ORDER BY clause")
        else .ok (l.sorted r rows) := by
  obtain ⟨es, resolved, values⟩ := exists_terms number known
  have length : (l.selection r table p n).order.length = l.keys.length + 1 := by simp [selection, terms]
  rw [Selection.sorted, length]
  split
  · rfl
  · have valued : rows.mapM (fun row => (do return (row, ← es.mapM (row.valueOf params)) : Except EngineError (Row × List Value)))
        = .ok (rows.map fun row => (row, l.values r row)) := by
      refine Outcome.mapM_ok fun row _ => ?_
      rw [values row params]
      rfl
    have sorted : (rows.map fun row => (row, l.values r row)).mergeSort (fun a b => OrderTerm.orderAll (l.terms r) a.2 b.2 != .gt)
        = (rows.mergeSort fun a b => l.orderAll r a b != .gt).map fun row => (row, l.values r row) :=
      (List.map_mergeSort fun a _ b _ => by rw [orderAll_terms]).symm
    show ((l.terms r).mapM fun term => t.resolved term.key).bind _ = _
    rw [terms, resolved]
    show (rows.mapM fun row => (do return (row, ← es.mapM (row.valueOf params)) : Except EngineError (Row × List Value))).bind _ = _
    rw [valued]
    show Except.ok (((rows.map fun row => (row, l.values r row)).mergeSort
      fun a b => OrderTerm.orderAll (l.terms r) a.2 b.2 != .gt).map (·.1)) = _
    rw [sorted, mergeSort_orderAll increasing, List.map_map]
    exact congrArg Except.ok (List.map_id _)

/-- A limit or a skip is refused if it is too great. -/
theorem pageNumber_whole (k : Nat) : Selection.pageNumber params (.value (Grammar.wholeValue k))
    = if pageLimit < k then .error (.failure "datatype mismatch") else .ok (k : Int) := by
  unfold Selection.pageNumber Grammar.wholeValue
  by_cases great : pageLimit < k
  · rw [if_pos great, if_neg (by unfold pageLimit at great; omega)]
    rfl
  · rw [if_neg great, if_pos (by unfold pageLimit at great; omega)]
    rfl

/-- A selection gives the stretch of rows that the listing gives. -/
theorem page_selection (table : String) (p : Predicate) (n : Nat) (rows : List Row) :
    (l.selection r table p n).page params rows = l.page rows := by
  obtain ⟨sort, limit, skip⟩ := l
  cases limit with
  | none =>
    cases skip with
    | none => rfl
    | some m =>
      have unlimited : Selection.pageNumber params (.value (.integer (-1))) = .ok (-1) := rfl
      simp only [Selection.page, selection, limitExpr, skipExpr, Option.map_some, unlimited, ok_bind, pageNumber_whole]
      by_cases great : pageLimit < m
      · simp only [page, great, Option.any_none, Option.any_some, decide_true, if_true]
        rfl
      · simp only [page, great, Option.any_none, Option.any_some, decide_false, Bool.false_eq_true, if_false]
        rfl
  | some k =>
    simp only [Selection.page, selection, limitExpr, skipExpr, pageNumber_whole]
    by_cases great : pageLimit < k
    · simp only [page, great, Option.any_some, decide_true, if_true]
      rfl
    · have positive : ¬ (k : Int) < 0 := Int.not_lt.2 (Int.natCast_nonneg k)
      by_cases zero : k = 0
      · subst zero
        rfl
      · have some_ : (k : Int) ≠ 0 := by exact_mod_cast zero
        cases skip with
        | none =>
          simp only [page, great, zero, positive, some_, Option.map_none, Option.any_some, Option.any_none, decide_false,
            Bool.false_eq_true, if_false, ok_bind, Option.some.injEq]
          rfl
        | some m =>
          by_cases great' : pageLimit < m
          · simp only [page, great, great', zero, some_, Option.map_some, Option.any_some, decide_false, decide_true,
              Bool.false_eq_true, if_false, if_true, ok_bind, Option.some.injEq, pageNumber_whole]
            rfl
          · simp only [page, great, great', zero, positive, some_, Option.map_some, Option.any_some, decide_false,
              Bool.false_eq_true, if_false, ok_bind, Option.some.injEq, pageNumber_whole]
            rfl

/-- A selection gives what the listing gives of the rows that the filter selects. -/
theorem run_selection {db : Database} {table : String} (found : db.table? table = some t)
    (number : t.column? orderColumn = some .rowid) (increasing : t.rows.Pairwise fun a b => a.rowid < b.rowid)
    (keys : ∀ key ∈ l.keys, (r.operand key.field).Known t) (known : ∀ u ∈ p, ∀ v ∈ u.operand?, v.Known t)
    (short : ∀ u ∈ p, u.isTooLong = false) (placed : Value.Placed params n p.params) :
    (l.selection r table p n).run db params = l.apply r (t.select p) := by
  have ordered : (t.select p).Pairwise fun a b => a.rowid < b.rowid := increasing.sublist List.filter_sublist
  have sorted := sorted_selection params number keys ordered table p n
  have chosen : (l.selection r table p n).condition.toList.foldlM (t.sift params) t.rows = .ok (t.select p) :=
    Table.sift_condition known short placed
  have there : db.tableOf (l.selection r table p n).table = .ok t := Database.tableOf_eq_ok.2 found
  rw [Selection.run, there, ok_bind, chosen, ok_bind]
  rw [sorted, Listing.apply]
  split
  · rfl
  · exact page_selection table p n _

end Listing

/-! ## Statements -/

namespace Statement

variable {db : Database} {table : String}

/-- A row is found by its number. -/
theorem filter_rowid {first : Row} (increasing : rows.Pairwise fun a b => a.rowid < b.rowid) (mem : first ∈ rows) :
    rows.filter (fun row => decide (row.rowid = first.rowid)) = [first] := by
  induction rows with
  | nil => cases mem
  | cons row rest ih =>
    obtain ⟨before, later⟩ := List.pairwise_cons.1 increasing
    rcases List.mem_cons.1 mem with rfl | there
    · have none_ : rest.filter (fun row => decide (row.rowid = first.rowid)) = [] :=
        List.filter_eq_nil_iff.2 fun other mem => by simpa using (Int.ne_of_lt (before other mem)).symm
      rw [List.filter_cons_of_pos (by simp), none_]
    · rw [List.filter_cons_of_neg (by simpa using Int.ne_of_lt (before first there)), ih later there]

/-- The first of the rows that a filter selects is found again. -/
theorem filter_first (numbered : t.Numbered) (p : Predicate) :
    t.rows.filter (fun row => ((t.select p).take 1).head?.any fun first => decide (row.rowid = first.rowid)) = (t.select p).take 1 := by
  cases selected : t.select p with
  | nil => exact List.filter_eq_nil_iff.2 fun _ _ => Bool.false_ne_true
  | cons first rest =>
    have chosen : first ∈ t.select p := by
      rw [selected]
      exact List.mem_cons_self
    exact filter_rowid numbered.rowids (List.mem_filter.1 chosen).1

/-- The rows that the text of a mutation restricts to are those that it is about. -/
theorem run_target (found : db.table? table = some t) (number : t.column? orderColumn = some .rowid) (numbered : t.Numbered)
    (known : ∀ u ∈ p, ∀ v ∈ u.operand?, v.Known t) (short : ∀ u ∈ p, u.isTooLong = false)
    (placed : Value.Placed params n p.params) (cardinality : Cardinality) :
    (target table p cardinality n).run db params = .ok (t.targets p cardinality) := by
  cases cardinality with
  | many =>
    have there : db.tableOf (target table p .many n).table = .ok t := Database.tableOf_eq_ok.2 found
    rw [Target.run, there, ok_bind]
    show ((p.condition? n).toList.map Restriction.condition).foldlM (Restriction.keep db t params) t.rows = _
    rw [List.foldlM_map]
    exact Table.sift_condition known short placed
  | one =>
    have there : db.tableOf (target table p .one n).table = .ok t := Database.tableOf_eq_ok.2 found
    have first := Listing.run_selection (l := .first) (r := ⟨[]⟩) found number numbered.rowids (fun _ mem => absurd mem List.not_mem_nil) known
      short placed
    rw [Listing.apply_first] at first
    rw [Target.run, there, ok_bind]
    show (Restriction.keep db t params t.rows (Statement.numbered table p n)).bind pure = _
    have kept : Restriction.keep db t params t.rows (Statement.numbered table p n) = .ok ((t.select p).take 1) := by
      show ((Listing.first.selection ⟨[]⟩ table p n).run db params).bind _ = _
      rw [first]
      exact congrArg Except.ok (filter_first numbered p)
    rw [kept]
    rfl

/-- The engine that is given the text of a statement and its values does what the statement is answered with. -/
def IsExecuted {a : Answer} (s : Statement a) (db : Database) (name : CollectionName) (r : Resolver) : Prop :=
  db.execute (s.text name r) s.params = (db.run name r s).map fun x => (s.reply x.1, x.2)

/-- A table in which the engine finds what a filter is about, and its rows in the order of their numbers. -/
structure Serves (t : Table) (p : Predicate) : Prop where
  number : t.column? orderColumn = some .rowid
  numbered : t.Numbered
  known : ∀ u ∈ p, ∀ v ∈ u.operand?, v.Known t
  plain : p.Plain

variable {name : CollectionName} {cardinality : Cardinality}

/-- What the engine reads and does decides what it executes. -/
theorem isExecuted_of_read {a : Answer} {s : Statement a} {q : Query} (fits : s.Fits)
    (read : Query.read? (s.text name r) s.params.length = some q)
    (performed : db.perform s.params q = (db.answer name r s).map fun x => (s.reply x.1, x.2)) : s.IsExecuted db name r := by
  rw [IsExecuted, Database.run_of_fits fits, ← performed, Database.execute, read]
  rfl

theorem isExecuted_countTargets (found : db.table? name.text = some t) (serves : Serves t p) (fits : (countTargets p cardinality).Fits) :
    (countTargets p cardinality).IsExecuted db name r := by
  have targets := run_target found serves.number serves.numbered serves.known fits.2 (.whole p.params) cardinality
  refine isExecuted_of_read fits (read?_countTargets serves.plain (isWithinLimits_iff.1 fits.1).2.2.2 cardinality) ?_
  rw [Database.perform, Database.answer, Database.tableOf_eq_ok.2 found]
  show ((target name.text p cardinality 0).run db p.params).bind _ = _
  rw [targets]
  rfl

theorem isExecuted_delete (found : db.table? name.text = some t) (serves : Serves t p) (fits : (delete p cardinality).Fits) :
    (delete p cardinality).IsExecuted db name r := by
  have targets := run_target found serves.number serves.numbered serves.known fits.2 (.whole p.params) cardinality
  have table : (target name.text p cardinality 0).table = name.text := by cases cardinality <;> rfl
  refine isExecuted_of_read fits (read?_delete serves.plain (isWithinLimits_iff.1 fits.1).2.2.2 cardinality) ?_
  rw [Database.perform, Database.answer, Database.tableOf_eq_ok.2 found, table]
  show ((target name.text p cardinality 0).run db p.params).bind _ = _
  rw [targets]
  rfl

/-- The columns of a document are found in every table. -/
theorem resolved_columns (t : Table) : (columnsOf systemColumns).mapM t.resolved
    = .ok [.column ⟨.current, .id⟩, .column ⟨.current, .data⟩, .column ⟨.current, .createdAt⟩, .column ⟨.current, .updatedAt⟩] := by
  have data : sameName "data" "id" = false := by decide
  have created : sameName "created_at" "id" = false ∧ sameName "created_at" "data" = false := by decide
  have updated : sameName "updated_at" "id" = false ∧ sameName "updated_at" "data" = false ∧ sameName "updated_at" "created_at" = false := by
    decide
  simp [columnsOf, systemColumns, Table.resolved, Expr.resolve, Table.scope, Table.column?, data, created, updated, demand]

/-- What the engine gives of the rows of a selection. -/
theorem perform_rows (s : Selection) (params : List Value) (values : Row → List Value) (found : db.table? s.table = some t)
    {columns es : List Expr} (resolved : columns.mapM t.resolved = .ok es)
    (reads : ∀ row : Row, es.mapM (row.valueOf params) = .ok (values row)) :
    db.perform params (.rows columns s) = (s.run db params).map fun rows => (.rows (rows.map values), db) := by
  have there := Database.tableOf_eq_ok.2 found
  rw [Database.perform, there, ok_bind, resolved, ok_bind]
  cases s.run db params with
  | error e => rfl
  | ok rows =>
    rw [ok_bind, Outcome.mapM_ok fun row _ => reads row]
    rfl

theorem isExecuted_find (found : db.table? name.text = some t) (serves : Serves t p)
    (keys : ∀ key ∈ l.keys, (r.operand key.field).Known t) (fits : p.Fits) : (find p l).IsExecuted db name r := by
  have selection := Listing.run_selection found serves.number serves.numbered.rowids keys serves.known fits.2 (.whole p.params)
  have performed := perform_rows (l.selection r name.text p 0) p.params
    (fun row => [.text row.id, .text row.data.text, .integer row.createdAt, .integer row.updatedAt]) found (resolved_columns t) fun _ => rfl
  refine isExecuted_of_read (fits.find l) (read?_find serves.plain (isWithinLimits_iff.1 fits.1).2.2.2) ?_
  rw [selection] at performed
  refine performed.trans ?_
  rw [Database.answer, Database.tableOf_eq_ok.2 found, ok_bind]
  cases l.apply r (t.select p) <;> rfl

theorem isExecuted_fetch (found : db.table? name.text = some t) (serves : Serves t p) (fits : p.Fits) :
    (fetch p cardinality).IsExecuted db name r := by
  have keys : ∀ key ∈ (fetchListing cardinality).keys, ((⟨[]⟩ : Resolver).operand key.field).Known t := by
    cases cardinality <;> exact fun _ mem => absurd mem List.not_mem_nil
  have selection := Listing.run_selection found serves.number serves.numbered.rowids keys serves.known fits.2 (.whole p.params)
  have applied : (fetchListing cardinality).apply ⟨[]⟩ (t.select p) = .ok (t.targets p cardinality) := by
    cases cardinality with
    | one => exact Listing.apply_first _ _
    | many => exact Listing.apply_all _ _
  have resolved : (columnsOf ["id", "data"]).mapM t.resolved = .ok [.column ⟨.current, .id⟩, .column ⟨.current, .data⟩] := by
    have data : sameName "data" "id" = false := by decide
    simp [columnsOf, Table.resolved, Expr.resolve, Table.scope, Table.column?, data, demand]
  have performed := perform_rows ((fetchListing cardinality).selection ⟨[]⟩ name.text p 0) p.params
    (fun row => [.text row.id, .text row.data.text]) found resolved fun _ => rfl
  refine isExecuted_of_read (fits.fetch cardinality) (read?_fetch serves.plain (isWithinLimits_iff.1 fits.1).2.2.2 cardinality) ?_
  rw [selection, applied] at performed
  refine performed.trans ?_
  rw [Database.answer, Database.tableOf_eq_ok.2 found, ok_bind]
  rfl

theorem isExecuted_count (found : db.table? name.text = some t) (serves : Serves t p) (fits : p.Fits) :
    (count p).IsExecuted db name r := by
  have text : (count p).text name r = (countTargets p .many).text name r := by
    have same : targetText name p .many = p.whereText := rfl
    show _ = "SELECT COUNT(*) FROM " ++ name.quoted ++ targetText name p .many
    rw [same]
    rfl
  have executed : (countTargets p .many).IsExecuted db name r := isExecuted_countTargets found serves (Fits.countTargets fits)
  rw [IsExecuted, ← text] at executed
  rw [IsExecuted]
  exact executed

/-- The statements that find, count and delete by a filter do what they are answered with; the one that deletes a single row does
so if it fits. -/
structure Executed (p : Predicate) (db : Database) (name : CollectionName) (r : Resolver) : Prop where
  find (l : Listing) : (find p l).IsExecuted db name r
  count : (count p).IsExecuted db name r
  deleteMany : (delete p .many).IsExecuted db name r
  deleteOne : (delete p .one).Fits → (delete p .one).IsExecuted db name r

/-- The filter of a collection chooses by its text what it chooses by its meaning, if the promoted paths have their columns. -/
theorem executed_filter {f : Filter} (found : db.table? name.text = some t) (number : t.column? orderColumn = some .rowid)
    (numbered : t.Numbered) (columns : ∀ path ∈ r.promoted, ∃ made, t.column? path.column = some (.promoted made))
    (fits : (f.predicate r).Fits) : Executed (f.predicate r) db name r :=
  have serves : Serves t (f.predicate r) := ⟨number, numbered, Filter.known_predicate columns, f.plain_predicate r⟩
  { find _ := isExecuted_find found serves (fun key _ => Resolver.known_operand columns key.field) fits
    count := isExecuted_count found serves fits
    deleteMany := isExecuted_delete found serves fits
    deleteOne := isExecuted_delete found serves }

end Statement

end Dossier
