import Dossier.Proofs.Decimal.Conversion
import Dossier.Proofs.Filter.Selecting

/-!
# Ranges of integers

A `Bound` is one of the four range operators with an integer of 64 signed bits; `Bound.admits` says of which integers it
holds. A filter of bounds is read as their comparisons (`Filter.parse_bounds`). The engine converts the stored integer to a
double and compares the double with the bound as it stands, so that a bound holds of a row if it admits the double nearest to
the integer (`Bound.holds_term`).
-/

namespace Dossier

open Outcome Decimal

/-- The side of a number on which a range lies, with the number or without it. -/
inductive Edge
  | above
  | atLeast
  | below
  | atMost
deriving DecidableEq, Repr

namespace Edge

/-- The operator of a filter. -/
def operator : Edge → String
  | above => "$gt"
  | atLeast => "$gte"
  | below => "$lt"
  | atMost => "$lte"

/-- How the engine compares a value with the number. -/
def comparison : Edge → Value.Comparison
  | above => .gt
  | atLeast => .ge
  | below => .lt
  | atMost => .le

/-- An integer is on this side of the number. -/
def admits (number n : Int) : Edge → Bool
  | above => number < n
  | atLeast => number ≤ n
  | below => n < number
  | atMost => n ≤ number

theorem isOperatorKey_operator (edge : Edge) : isOperatorKey edge.operator = true := by
  cases edge <;> decide

/-- The order of two integers decides the comparison. -/
theorem holds_compare (edge : Edge) (n number : Int) : edge.comparison.holds (compare n number) = edge.admits number n := by
  have gt := Int.compare_eq_gt (a := n) (b := number)
  have lt := Int.compare_eq_lt (a := n) (b := number)
  rw [Bool.eq_iff_iff]
  cases edge with
  | above => simp [comparison, Value.Comparison.holds, admits, gt]
  | atLeast => simp [comparison, Value.Comparison.holds, admits, lt]
  | below => simp [comparison, Value.Comparison.holds, admits, lt]
  | atMost => simp [comparison, Value.Comparison.holds, admits, gt]

end Edge

/-- A bound of a range of integers. -/
structure Bound where
  edge : Edge
  number : Whole
  signed : number.isSigned = true

namespace Bound

/-- The operator with its operand. -/
def entry (b : Bound) : String × Json := (b.edge.operator, .number (.whole b.number))

/-- The condition that the operator stands for. -/
def condition (b : Bound) : Condition := .compare b.edge.comparison (.number (.whole b.number))

/-- The integer is within the bound. -/
def admits (b : Bound) (n : Int) : Bool := b.edge.admits b.number n

theorem parse_entry (b : Bound) (field : String) : Condition.parse field b.entry.1 b.entry.2 = .ok b.condition := by
  cases b with
  | mk edge number => cases edge <;> rfl

/-- A double and an integer are compared by their places on the line. -/
theorem test_real (op : Value.Comparison) (x : Float) (n : Int) :
    Value.test op .real .binary (.real x) (.integer n) = some (op.holds ((Magnitude.ofFloat x).compare (.ofInt n))) := rfl

variable {read : Operand → Value} {resolver : Resolver} {path : FieldPath} {n : Int}

/-- A bound on a body path compares the double nearest to the integer that is read. -/
theorem holds_term (b : Bound) (value : read (resolver.operand (.body path)) = .integer n) (fits : n.natAbs < 2 ^ 64) :
    (b.condition.term (resolver.operand (.body path))).holds read = some (b.admits (nearestWhole n)) := by
  have term : b.condition.term (resolver.operand (.body path))
      = .compareReal (resolver.operand (.body path)) b.edge.comparison (.ofNumber (.whole b.number)) := by
    rw [Resolver.operand]
    cases b with
    | mk edge number => split <;> cases edge <;> rfl
  rw [term, Term.holds, value, Value.ofNumber_of_signed b.signed]
  show Value.test _ .real .binary (.real (Float.ofInt n)) (.integer b.number) = _
  rw [test_real, Magnitude.compare_ofInt n b.number fits, Edge.holds_compare]
  rfl

end Bound

variable {field : String} {ref : FieldRef} {bounds : List Bound}

/-- A filter of bounds is read as their conditions. -/
theorem Filter.parse_bounds (accepted : FieldRef.parse field = .ok ref) (some_ : bounds ≠ []) :
    Filter.parse (.asking field (bounds.map Bound.entry)) = .ok (.on field ref (bounds.map Bound.condition)) := by
  have operators : ∀ e ∈ bounds.map Bound.entry, isOperatorKey e.1 = true := by
    intro e mem
    obtain ⟨b, -, rfl⟩ := List.mem_map.1 mem
    exact b.edge.isOperatorKey_operator
  refine Filter.parse_asking accepted (mt List.map_eq_nil_iff.1 some_) operators ?_
  clear some_ operators
  induction bounds with
  | nil => rfl
  | cons b rest ih => exact mapM_cons_eq_ok.2 ⟨_, _, b.parse_entry field, ih, rfl⟩

/-- The filter is true of a row with an integer at the path if all bounds admit the double nearest to the integer. -/
theorem Filter.isTrue_bounds {read : Operand → Value} {resolver : Resolver} {path : FieldPath} {n : Int}
    (value : read (resolver.operand (.body path)) = .integer n) (fits : n.natAbs < 2 ^ 64) :
    (((Filter.on field (.body path) (bounds.map Bound.condition)).predicate resolver).holds read).isTrue
      = bounds.all (·.admits (nearestWhole n)) := by
  rw [Predicate.isTrue_holds, Filter.predicate_on, List.all_map, List.all_map]
  refine congrArg (bounds.all ·) (funext fun b => ?_)
  show ((b.condition.term _).holds read).isTrue = _
  rw [b.holds_term value fits, Truth.isTrue_some]

end Dossier
