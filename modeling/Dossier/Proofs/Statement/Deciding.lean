import Dossier.Proofs.Database.Fitting
import Dossier.Proofs.Database.Tables
import Dossier.Proofs.Statement.Conjunction
import Dossier.Proofs.Statement.Spelling

/-!
# What the engine decides by a compiled filter

The condition that the engine reads in the clause of a compiled filter has for every row the truth that the filter has
(`Predicate.decides_expr`): each operand finds its column, the values are taken by their places, and a conjunction that is
settled by its left side, or written as 0, has the truth of the conjunction in three values. So the engine selects the rows
that the filter selects (`Predicate.isReadIn`).
-/

namespace Dossier

open Text Sql

variable {t : Table} {params : List Value} {n : Nat}

namespace Truth

theorem and_assoc (a b c : Truth) : (a.and b).and c = a.and (b.and c) := by
  rcases a with _ | _ | _ <;> rcases b with _ | _ | _ <;> rcases c with _ | _ | _ <;> rfl

theorem and_true (a : Truth) : a.and (some true) = a := by
  rcases a with _ | _ | _ <;> rfl

theorem and_false (a : Truth) : a.and (some false) = some false := by
  rcases a with _ | _ | _ <;> rfl

end Truth

/-! ## Expressions -/

namespace Sql.Expr

/-- The scope of the table knows the names of the expression, which has this truth for every row. -/
def Decides (t : Table) (params : List Value) (e : Expr) (truth : Row → Truth) : Prop :=
  ∃ resolved, e.resolve t.scope = some resolved
    ∧ ∀ r : Row, resolved.holds (fun place => r.column place.column) params = some (truth r)

variable {x y : Expr} {f g : Row → Truth}

theorem decides_value (v : Value) : Decides t params (.value v) fun _ => v.truth := ⟨_, rfl, fun _ => rfl⟩

/-- The literal 0 is false. -/
theorem Decides.truth_of_isFalse (h : x.Decides t params f) (zero : Grammar.isFalse x = true) (r : Row) : f r = some false := by
  obtain ⟨resolved, known, holds⟩ := h
  cases x with
  | value v =>
    cases v with
    | integer n =>
      obtain rfl : n = 0 := by simpa [Grammar.isFalse] using zero
      cases known
      exact (Option.some.inj (holds r)).symm
    | null | real | text => cases zero
  | param | name | column | unknown | unary | binary | ternary => cases zero

theorem Decides.not (h : x.Decides t params f) : (Expr.unary .not x).Decides t params fun r => (f r).not := by
  obtain ⟨resolved, known, holds⟩ := h
  refine ⟨.unary .not resolved, by simp [resolve, known], fun r => ?_⟩
  obtain ⟨v, value, truth⟩ := Option.map_eq_some_iff.1 (holds r)
  simp [Expr.holds, eval, value, UnaryOp.apply, truth, Value.truth_ofTruth]

/-- A conjunction, also where its left side settles it or one side is the literal 0. -/
theorem Decides.and (left : x.Decides t params f) (right : y.Decides t params g) :
    (Grammar.binaryForm .and x y).Decides t params fun r => (f r).and (g r) := by
  by_cases zero : (Grammar.isFalse x || Grammar.isFalse y) = true
  · have false_ (r : Row) : (f r).and (g r) = some false := by
      rcases Bool.or_eq_true_iff.1 zero with here | here
      · rw [left.truth_of_isFalse here]
        rfl
      · rw [right.truth_of_isFalse here, Truth.and_false]
    rw [Grammar.binaryForm, if_pos (by simpa using zero)]
    simp only [false_]
    exact decides_value (.integer 0)
  · obtain ⟨x', knownX, holdsX⟩ := left
    obtain ⟨y', knownY, holdsY⟩ := right
    rw [Grammar.binaryForm, if_neg (by simpa using zero)]
    refine ⟨.binary .and x' y', by simp [resolve, knownX, knownY], fun r => ?_⟩
    obtain ⟨a, valueX, truthX⟩ := Option.map_eq_some_iff.1 (holdsX r)
    obtain ⟨b, valueY, truthY⟩ := Option.map_eq_some_iff.1 (holdsY r)
    show _ = some ((f r).and (g r))
    rw [← truthX, ← truthY]
    by_cases settled : a.truth = some false
    · simp only [Expr.holds, eval, valueX, settled?, settled, if_true, Option.bind_eq_bind, Option.bind_some]
      rfl
    · simp [Expr.holds, eval, valueX, valueY, settled?, settled, combine, Value.truth_ofTruth]

/-- A disjunction, also where its left side settles it. -/
theorem Decides.or (left : x.Decides t params f) (right : y.Decides t params g) :
    (Expr.binary .or x y).Decides t params fun r => (f r).or (g r) := by
  obtain ⟨x', knownX, holdsX⟩ := left
  obtain ⟨y', knownY, holdsY⟩ := right
  refine ⟨.binary .or x' y', by simp [resolve, knownX, knownY], fun r => ?_⟩
  obtain ⟨a, valueX, truthX⟩ := Option.map_eq_some_iff.1 (holdsX r)
  obtain ⟨b, valueY, truthY⟩ := Option.map_eq_some_iff.1 (holdsY r)
  show _ = some ((f r).or (g r))
  rw [← truthX, ← truthY]
  by_cases settled : a.truth = some true
  · simp only [Expr.holds, eval, valueX, settled?, settled, if_true, Option.bind_eq_bind, Option.bind_some]
    rfl
  · simp [Expr.holds, eval, valueX, valueY, settled?, settled, combine, Value.truth_ofTruth]

end Sql.Expr

/-! ## Operands -/

/-- The table has what the operand is about. -/
def Operand.Known (t : Table) : Operand → Prop
  | .promoted name => ∃ made, t.column? name = some (.promoted made)
  | _ => True

/-- The expression reads from every row what the operand reads, and is compared as the operand is. -/
structure Operand.Reads (v : Operand) (t : Table) (e : Expr) : Prop where
  known : v.expr.resolve t.scope = some e
  affinity : e.affinity = v.affinity
  collation : e.collation? = none
  value : ∀ (r : Row) (params : List Value), e.eval (fun place => r.column place.column) params = some (r.read v)

/-- A promoted column is found under its name, but for the case of its letters. -/
theorem Table.sameName_of_column? {name made : String} (found : t.column? name = some (.promoted made)) : sameName name made = true := by
  unfold column? at found
  split at found
  · cases found
  split at found
  · cases found
  split at found
  · cases found
  split at found
  · cases found
  split at found
  · rename_i other there
    cases found
    exact List.find?_some there
  · split at found <;> cases found

theorem Operand.exists_reads {v : Operand} (known : v.Known t) : ∃ e, v.Reads t e := by
  cases v with
  | system c =>
    cases c with
    | id => exact ⟨.column ⟨.current, .id⟩, rfl, rfl, rfl, fun _ _ => rfl⟩
    | createdAt => exact ⟨.column ⟨.current, .createdAt⟩, rfl, rfl, rfl, fun _ _ => rfl⟩
    | updatedAt => exact ⟨.column ⟨.current, .updatedAt⟩, rfl, rfl, rfl, fun _ _ => rfl⟩
  | promoted name =>
    obtain ⟨made, found⟩ := known
    refine ⟨.column ⟨.current, .promoted made⟩, ?_, rfl, rfl, fun r params => ?_⟩
    · simp [expr, Expr.resolve, Table.scope, found]
    · exact congrArg some (r.promotedValue_congr (Table.sameName_of_column? found)).symm
  | extract path =>
    refine ⟨.binary .extract (.column ⟨.current, .data⟩) (.value (.text path.jsonPath)), rfl, rfl, rfl, fun r params => ?_⟩
    exact r.data.extract?_jsonPath path

/-! ## Terms -/

/-- The values stand in the list from a place on. -/
def Value.Placed (params : List Value) (n : Nat) (vs : List Value) : Prop := vs <+: params.drop n

namespace Value.Placed

variable {v : Value} {vs ws : List Value}

theorem whole (vs : List Value) : Placed vs 0 vs := List.prefix_refl vs

theorem left (h : Placed params n (vs ++ ws)) : Placed params n vs := (List.prefix_append vs ws).trans h

theorem right (h : Placed params n (vs ++ ws)) : Placed params (n + vs.length) ws := by
  obtain ⟨rest, eq⟩ := h
  exact ⟨rest, by rw [← List.drop_drop, ← eq, List.append_assoc, List.drop_left]⟩

theorem head (h : Placed params n (v :: vs)) : params[n]? = some v := by
  obtain ⟨rest, eq⟩ := h
  rw [← Nat.add_zero n, ← List.getElem?_drop, ← eq]
  rfl

theorem tail (h : Placed params n (v :: vs)) : Placed params (n + 1) vs :=
  right (show Placed params n ([v] ++ vs) from h)

end Value.Placed

namespace Term

variable {v : Operand} {e : Expr}

theorem decides_isNull (reads : v.Reads t e) (negated : Bool) :
    (Expr.binary (.is negated) v.expr (.value .null)).Decides t params fun r => some ((r.read v).isNull != negated) := by
  have constant : Expr.truthConstant? t.scope (.value .null) = none := rfl
  refine ⟨.binary (.is negated) e (.value .null), by simp [Expr.resolve, reads.known, constant], fun r => ?_⟩
  have same (a : Value.Affinity) (c : Value.Collation) : Expr.same a c (r.read v) .null = (r.read v).isNull := by
    simp [Expr.same, Value.compare?, Value.isNull]
  simp only [Expr.holds, Expr.eval, reads.value, Expr.settled?, Expr.combine, same, Option.bind_eq_bind, Option.bind_some,
    Option.map_some]
  exact congrArg some (Value.truth_ofTruth (some _))

/-- A comparison with a value, of what the operand reads or of its cast. -/
theorem decides_compare {x e : Expr} {a : Value.Affinity} {read : Row → Value} (known : x.resolve t.scope = some e)
    (affinity : e.affinity = a) (collation : e.collation? = none)
    (value : ∀ r : Row, e.eval (fun place => r.column place.column) params = some (read r))
    (op : Value.Comparison) {w : Value} (placed : Value.Placed params n [w]) :
    (Expr.binary (.compare op) x (.param n)).Decides t params fun r => Value.test op a .binary (read r) w := by
  refine ⟨.binary (.compare op) e (.param n), by simp [Expr.resolve, known], fun r => ?_⟩
  have between : e.affinity.between .none = a := by
    rw [affinity]
    cases a <;> rfl
  simp [Expr.holds, Expr.eval, value, placed.head, Expr.settled?, Expr.combine, Expr.commonAffinity,
    Expr.commonCollation, collation, Expr.affinity, Expr.collation?, between, Value.truth_ofTruth]

theorem decides_like (reads : v.Reads t e) {pattern : String} (short : Like.isTooLong pattern = false)
    (placed : Value.Placed params n [.text pattern]) :
    (Expr.ternary .likeEscape v.expr (.param n) (.value (.text "\\"))).Decides t params
      fun r => Value.like (some likeEscape) (r.read v) (.text pattern) := by
  refine ⟨.ternary .likeEscape e (.param n) (.value (.text "\\")), by simp [Expr.resolve, reads.known], fun r => ?_⟩
  have escaped (x : Value) : Expr.likeEscaped x (.text pattern) (.text "\\")
      = some (.ofTruth (x.like (some likeEscape) (.text pattern))) :=
    if_neg (by rw [Value.text?, Option.any_some, short]; decide)
  simp only [Expr.holds, Expr.eval, reads.value, placed.head, escaped, Option.bind_eq_bind, Option.bind_some,
    Option.map_some, Value.truth_ofTruth]

/-- Membership is the disjunction of the equalities. -/
theorem decides_member (reads : v.Reads t e) {vs : List Value} (placed : Value.Placed params n vs) :
    (Grammar.memberForm v.expr (places n vs)).Decides t params fun r => Value.member v.affinity .binary (r.read v) vs := by
  induction vs generalizing n with
  | nil => exact Expr.decides_value (.ofBool false)
  | cons w vs ih =>
    have equality : (Expr.binary .element v.expr (.param n)).Decides t params
        fun r => Value.test .eq v.affinity .binary (r.read v) w := by
      refine ⟨.binary .element e (.param n), by simp [Expr.resolve, reads.known], fun r => ?_⟩
      simp [Expr.holds, Expr.eval, reads.value, placed.head, Expr.settled?, Expr.combine, reads.affinity, reads.collation,
        Value.truth_ofTruth]
    exact equality.or (ih placed.tail)

/-- The expression of a term has the truth of the term. -/
theorem decides_expr (u : Term) (known : ∀ v ∈ u.operand?, v.Known t) (short : u.isTooLong = false)
    (placed : Value.Placed params n u.params) :
    (u.expr n).Decides t params fun r => u.holds r.read := by
  cases u with
  | isNull v =>
    obtain ⟨e, reads⟩ := Operand.exists_reads (known v rfl)
    simpa [holds, expr] using decides_isNull reads false
  | notNull v =>
    obtain ⟨e, reads⟩ := Operand.exists_reads (known v rfl)
    simpa [holds, expr] using decides_isNull reads true
  | compare v op w =>
    obtain ⟨e, reads⟩ := Operand.exists_reads (known v rfl)
    exact decides_compare reads.known reads.affinity reads.collation (fun r => reads.value r params) op placed
  | compareReal v op w =>
    obtain ⟨e, reads⟩ := Operand.exists_reads (known v rfl)
    have cast : (Expr.unary (.cast .real) v.expr).resolve t.scope = some (.unary (.cast .real) e) := by
      simp [Expr.resolve, reads.known]
    exact decides_compare cast rfl reads.collation (fun r => by simp [Expr.eval, reads.value, UnaryOp.apply]) op placed
  | member v negated vs =>
    obtain ⟨e, reads⟩ := Operand.exists_reads (known v rfl)
    cases negated with
    | false => exact decides_member reads placed
    | true => exact (decides_member reads placed).not
  | like v pattern =>
    obtain ⟨e, reads⟩ := Operand.exists_reads (known v rfl)
    exact decides_like reads short placed
  | constant b => cases b <;> exact Expr.decides_value _

end Term

/-! ## Predicates -/

namespace Predicate

variable {f : Row → Truth} {x : Expr}

theorem decides_conjoined (left : x.Decides t params f) (ts : Predicate) (known : ∀ u ∈ ts, ∀ v ∈ u.operand?, v.Known t)
    (short : ∀ u ∈ ts, u.isTooLong = false) (placed : Value.Placed params n ts.params) : (conjoined x n ts).Decides t params fun r => (f r).and (ts.holds r.read) := by
  induction ts generalizing x f n with
  | nil =>
    have same (r : Row) : (f r).and (holds r.read []) = f r := Truth.and_true _
    simp only [conjoined, same]
    exact left
  | cons u ts ih =>
    obtain ⟨here, later⟩ := List.forall_mem_cons.1 known
    obtain ⟨shortHere, shortLater⟩ := List.forall_mem_cons.1 short
    have next := ih (left.and (u.decides_expr here shortHere (Value.Placed.left placed))) later shortLater (Value.Placed.right placed)
    have same (r : Row) : ((f r).and (u.holds r.read)).and (holds r.read ts) = (f r).and (holds r.read (u :: ts)) :=
      Truth.and_assoc _ _ _
    simp only [same] at next
    exact next

/-- The condition has the truth of the predicate, if its values stand in their places. -/
theorem decides_expr (u : Term) (ts : Predicate) (known : ∀ w ∈ u :: ts, ∀ v ∈ w.operand?, v.Known t)
    (short : ∀ w ∈ u :: ts, w.isTooLong = false) (placed : Value.Placed params n (Predicate.params (u :: ts))) :
    (expr n u ts).Decides t params fun r => holds r.read (u :: ts) := by
  obtain ⟨here, later⟩ := List.forall_mem_cons.1 known
  obtain ⟨shortHere, shortLater⟩ := List.forall_mem_cons.1 short
  have placed : Value.Placed params n (u.params ++ Predicate.params ts) := placed
  exact decides_conjoined (u.decides_expr here shortHere placed.left) ts later shortLater placed.right

/-- The engine reads the clause of the predicate, with order and page after it, as a condition that takes the values of the
predicate, all of them, and has its truth for every row, so that it selects the same rows of the table. -/
def IsReadIn (p : Predicate) (t : Table) (l : Listing) (r : Resolver) : Prop :=
  ∃ page ls condition, lexemes? (l.text r) = some (page, 0) ∧ lexemes? (p.whereText ++ l.text r) = some (ls, p.params.length)
    ∧ RawSelection.ofLexemes? t.scope page ls = some ⟨some condition, true⟩
    ∧ (∀ row : Row, condition.holds (fun place => row.column place.column) p.params = some (p.holds row.read))
    ∧ t.selectRaw condition p.params = .ok (t.select p)

/-- What the engine reads as a condition selects as the predicate does. -/
theorem isReadIn (u : Term) (ts : Predicate) (known : ∀ w ∈ u :: ts, ∀ v ∈ w.operand?, v.Known t)
    (plain : Predicate.Plain (u :: ts)) (l : Listing) (r : Resolver) (fits : Predicate.Fits (u :: ts)) :
    IsReadIn (u :: ts) t l r := by
  obtain ⟨condition, resolved, holds⟩ := decides_expr u ts known fits.2 (.whole _)
  have room : (Predicate.params (u :: ts)).length ≤ limits.values := (Statement.isWithinLimits_iff.1 fits.1).2.2.2
  obtain ⟨ls, order⟩ := l.lexemes_eq_cons r
  have stops : Grammar.connective? (l.lexemes r) = none := by
    rw [order]
    rfl
  have listed : RawSelection.isListed? (l.lexemes r) (l.lexemes r) = some true :=
    if_pos (constants_beq (l.isConstant_tokens r))
  have where_ : Grammar.takeWord "where" (.word "WHERE" :: (lexemes 0 (u :: ts) ++ l.lexemes r))
      = some (lexemes 0 (u :: ts) ++ l.lexemes r) := rfl
  have page := (l.spells_text r).lexemes?_eq (Nat.zero_le _)
  have clause := ((spells_whereText plain (l.gap_text r)).append (l.spells_text r)).lexemes?_eq room
  refine ⟨_, _, condition, page, clause, ?_, holds, Outcome.filterM_ok fun row _ => ?_⟩
  · unfold RawSelection.ofLexemes?
    simp only [whereLexemes, List.cons_append, where_, expression_lexemes stops 0 u ts, resolved, listed, Option.bind_eq_bind,
      Option.bind_some]
    rfl
  · rw [holds row]

end Predicate

/-! ## Filters -/

/-- The text of a field holds no U+0000. -/
theorem Resolver.nul_not_mem_operand (r : Resolver) (field : FieldRef) : '\x00' ∉ (r.operand field).text.toList := fun mem => by
  rw [← Operand.text_tokens] at mem
  obtain ⟨t, there, inside⟩ := List.mem_flatMap.1 mem
  have constant := List.all_eq_true.1 (isConstant_operand r field) t there
  simp [Token.isConstant, inside] at constant

/-- The terms of a filter are about its fields. -/
theorem Filter.operand_of_mem_predicate {f : Filter} {r : Resolver} {u : Term} (mem : u ∈ f.predicate r) {v : Operand}
    (about : v ∈ u.operand?) : ∃ field, v = r.operand field := by
  obtain ⟨clause, -, term⟩ := List.mem_flatMap.1 mem
  obtain ⟨condition, -, rfl⟩ := List.mem_map.1 term
  exact ⟨clause.field, Condition.operand?_term about⟩

/-- What a field is read from is known where the promoted paths have their columns. -/
theorem Resolver.known_operand {r : Resolver} (columns : ∀ path ∈ r.promoted, ∃ made, t.column? path.column = some (.promoted made))
    (field : FieldRef) : (r.operand field).Known t := by
  unfold Resolver.operand
  split
  · trivial
  split
  · rename_i path promoted
    exact columns path (List.contains_iff_mem.1 promoted)
  · trivial

namespace Filter

variable {f : Filter} {r : Resolver}

theorem plain_predicate (f : Filter) (r : Resolver) : (f.predicate r).Plain := fun w mem v about => by
  obtain ⟨field, rfl⟩ := operand_of_mem_predicate mem about
  exact r.nul_not_mem_operand field

theorem known_predicate (columns : ∀ path ∈ r.promoted, ∃ made, t.column? path.column = some (.promoted made)) :
    ∀ u ∈ f.predicate r, ∀ v ∈ u.operand?, v.Known t := fun w mem v about => by
  obtain ⟨field, rfl⟩ := operand_of_mem_predicate mem about
  exact Resolver.known_operand columns field

/-- A filter with at least one condition is read as it is meant, if the promoted paths have their columns. -/
theorem isReadIn (some_ : f.predicate r ≠ [])
    (columns : ∀ path ∈ r.promoted, ∃ made, t.column? path.column = some (.promoted made)) (l : Listing)
    (fits : (f.predicate r).Fits) : (f.predicate r).IsReadIn t l r := by
  have known := known_predicate (f := f) columns
  have plain := f.plain_predicate r
  obtain ⟨u, ts, terms⟩ := List.exists_cons_of_ne_nil some_
  rw [terms] at known plain fits ⊢
  exact Predicate.isReadIn u ts known plain l r fits

end Filter

end Dossier
