import Dossier.Proofs.Sql.Numeral
import Dossier.Proofs.Update.Guards

/-!
# Sums of signed integers

The engine adds integers of 64 signed bits as the store does, and its guard against overflow holds exactly
where the store's sum leaves them.
-/

namespace Dossier

open Decimal Text

namespace Whole

theorem bounds_one : (-0x8000000000000000 : Int) ≤ 1 ∧ (1 : Int) < 0x10000000000000000 := by decide

theorem bounds_two : (-0x8000000000000000 : Int) ≤ 2 ∧ (2 : Int) < 0x10000000000000000 := by decide

theorem bounds_forty : (-0x8000000000000000 : Int) ≤ 40 ∧ (40 : Int) < 0x10000000000000000 := by decide

end Whole

/-! ## Adding them -/

namespace Number

theorem signed?_eq_some {a : Number} {m : Int} (h : a.signed? = some m) :
    ∃ bounds, a = .whole ⟨m, bounds⟩ ∧ -0x8000000000000000 ≤ m ∧ m < 0x8000000000000000 := by
  cases a with
  | real x => simp [signed?] at h
  | whole n =>
    obtain ⟨n, bounds⟩ := n
    simp only [signed?, Whole.isSigned, Option.ite_none_right_eq_some, decide_eq_true_eq, Option.some.injEq] at h
    obtain ⟨high, rfl⟩ := h
    exact ⟨bounds, rfl, bounds.1, high⟩

/-- Signed integers add as integers while the sum is signed. -/
theorem add?_of_signed {a b : Number} {m n : Int} (ha : a.signed? = some m) (hb : b.signed? = some n) :
    (∃ bounds, a.add? b = some (.whole ⟨m + n, bounds⟩)
        ∧ -0x8000000000000000 ≤ m + n ∧ m + n < 0x8000000000000000)
      ∨ a.add? b = none ∧ ¬ (-0x8000000000000000 ≤ m + n ∧ m + n < 0x8000000000000000) := by
  by_cases fits : -0x8000000000000000 ≤ m + n ∧ m + n < 0x8000000000000000
  · have bounds : -0x8000000000000000 ≤ m + n ∧ m + n < 0x10000000000000000 := by omega
    exact .inl ⟨bounds, by simp only [add?, ha, hb, fits, Whole.ofInt?, bounds]; simp, fits⟩
  · exact .inr ⟨by simp only [add?, ha, hb, fits]; simp, fits⟩

end Number

/-- The engine's sum of two signed integers that stays signed. -/
theorem Value.add_integer {m n : Int} (low : -0x8000000000000000 ≤ m + n) (high : m + n < 0x8000000000000000) :
    Value.add (.integer m) (.integer n) = .integer (m + n) := by
  have inside : fits (m + n) = true := by simp only [fits, low, high, decide_true, Bool.and_self]
  simp [add, arithmetic, number, inside]

theorem Value.test_integer (op : Comparison) (m k : Int) :
    test op .none .binary (.integer m) (.integer k) = some (op.holds (Ord.compare m k)) := by
  simp [test, compare?, isNull, align, Affinity.isNumeric, order, rank, magnitude, Magnitude.ofInt, Magnitude.compare]

theorem Tree.isWholeText_intText (n : Int) : isWholeText (Number.intText n) = true := by
  have digits : ∀ c ∈ natDigits n.natAbs, (c.isDigit || c == '-') = true := fun c hc => by
    rw [isDigit_of_mem_natDigits hc, Bool.true_or]
  unfold isWholeText Number.intText
  split <;> simpa using digits

theorem Value.fits_iff {n : Int} : fits n = true ↔ -0x8000000000000000 ≤ n ∧ n < 0x8000000000000000 := by
  simp only [fits, Bool.and_eq_true, decide_eq_true_eq]

/-! ## What is added to -/

/-- What is added to at a path: zero where nothing stands, and nothing where no number does. -/
def Json.addend? : Option Json → Option Number
  | none => some .zero
  | some (.number a) => some a
  | some _ => none

section
variable {path : FieldPath} {delta a : Number} {current : Option Json}

theorem incremented_of_addend (addend : Json.addend? current = some a) :
    incremented path delta current = ((a.add? delta).map .number).elim (.error (.overflow path.text)) .ok := by
  cases current with
  | none => cases addend; rfl
  | some j => cases j <;> cases addend; rfl

theorem incremented_of_none (none_ : Json.addend? current = none) :
    incremented path delta current = .error (.notANumber path.text) := by
  cases current with
  | none => cases none_
  | some j => cases j <;> cases none_ <;> rfl

theorem incremented_eq_ok {v : Json} : incremented path delta current = .ok v
    ↔ ∃ a sum, Json.addend? current = some a ∧ a.add? delta = some sum ∧ v = .number sum := by
  cases addend : Json.addend? current with
  | none => simp [incremented_of_none addend]
  | some a =>
    rw [incremented_of_addend addend]
    cases sum : a.add? delta with
    | none => simp [sum]
    | some s => simp [sum, eq_comm]

end

/-! ## Integers at a path -/

/-- A tree has an integer of 64 signed bits at a path, or it has nothing there, which counts as zero. -/
inductive Tree.Counts (t : Tree) (path : List String) : Int → Prop
  | absent (none_ : t.lookup? path = none) : Counts t path 0
  | integer {m : Int} (fits : Value.fits m = true) (found : t.lookup? path = some (.number (Number.intText m))) : Counts t path m

variable {path : FieldPath} {delta : Number} {m n : Int} {fields : Fields}

namespace Tree.Counts

variable {t : Tree} (h : t.Counts path.segments m) (hd : delta.signed? = some n)
include h hd

/-- The guard against overflow holds exactly where the sum is not one of 64 signed bits. -/
theorem overflowGuard :
    ((path.overflowGuard? delta).any fun g => (g.holds t).isTrue) = !Value.fits (m + n) := by
  obtain ⟨_, -, low, high⟩ := Number.signed?_eq_some hd
  rw [Bool.eq_iff_iff, Bool.not_eq_true', ← Bool.not_eq_true, Value.fits_iff]
  simp only [FieldPath.overflowGuard?, hd]
  cases h with
  | absent none_ =>
    have within : -0x8000000000000000 ≤ 0 + n ∧ 0 + n < 0x8000000000000000 := by omega
    simp only [within, and_self, not_true_eq_false, iff_false]
    split
    · simp [Guard.holds, Guard.pastBound, none_, Truth.isTrue]
    · split
      · simp [Guard.holds, Guard.pastBound, none_, Truth.isTrue]
      · simp
  | integer fits found =>
    obtain ⟨first, last⟩ := Value.fits_iff.1 fits
    have past : ∀ op bound, (Guard.pastBound t path op bound).isTrue = op.holds (Ord.compare m bound) := by
      intro op bound
      rw [Guard.pastBound, found]
      simp only [Tree.typeName, Tree.isWholeText_intText, Tree.value, Tree.numberValue_intText first last,
        Value.test_integer]
      cases op.holds (Ord.compare m bound) <;> rfl
    split
    · simp only [Option.any_some, Guard.holds, past, Value.Comparison.holds, beq_iff_eq, Int.compare_eq_gt]
      omega
    · split
      · simp only [Option.any_some, Guard.holds, past, Value.Comparison.holds, beq_iff_eq, Int.compare_eq_lt]
        omega
      · simp only [Option.any_none, Bool.false_eq_true, false_iff, not_not]
        omega

/-- The engine writes the sum of the integer that it finds, zero for nothing, and a signed one. -/
theorem sum_value (fits : Value.fits (m + n) = true) :
    (Assignment.sum path delta).value t = .number (Number.intText (m + n)) := by
  obtain ⟨low, high⟩ := Value.fits_iff.1 fits
  cases h with
  | absent none_ =>
    simp only [Assignment.value, none_, Option.map_none, Option.getD_none, Value.isNull, if_true, Value.ofNumber, hd,
      Value.add_integer low high, Tree.ofValue]
  | integer inside found =>
    obtain ⟨first, last⟩ := Value.fits_iff.1 inside
    have current : Tree.value (.number (Number.intText m)) = .integer m := by
      rw [Tree.value, Tree.numberValue_intText first last]
    simp only [Assignment.value, found, Option.map_some, Option.getD_some, current, Value.isNull, Bool.false_eq_true, if_false,
      Value.ofNumber, hd, Value.add_integer low high, Tree.ofValue]

end Tree.Counts

namespace Step

theorem counts_of_none (h : fields.getAt? path.segments = none) : (Json.object fields).tree.Counts path.segments 0 :=
  .absent (by rw [Json.lookup?_tree path.nonempty, h]; rfl)

theorem counts_of_signed {a : Number} (signed : a.signed? = some m) (h : fields.getAt? path.segments = some (.number a)) :
    (Json.object fields).tree.Counts path.segments m := by
  obtain ⟨bounds, rfl, inside⟩ := Number.signed?_eq_some signed
  exact .integer (Value.fits_iff.2 inside) (by rw [Json.lookup?_tree path.nonempty, h]; rfl)

/-- The engine and the store take a sum of signed integers alike. -/
theorem alike_of_signed (hd : delta.signed? = some n)
    (target : ∀ a, fields.getAt? path.segments = some (.number a) → a.signed?.isSome) : (increment path delta).Alike fields := by
  simp only [Alike]
  cases addend : Json.addend? (fields.getAt? path.segments) with
  | none => rw [incremented_of_none addend]; trivial
  | some a =>
    obtain ⟨m, ha, counts⟩ : ∃ m, a.signed? = some m ∧ (Json.object fields).tree.Counts path.segments m := by
      cases found : fields.getAt? path.segments with
      | none =>
        rw [found] at addend
        cases addend
        exact ⟨0, rfl, counts_of_none found⟩
      | some j =>
        rw [found] at addend
        cases j <;> cases addend
        obtain ⟨m, ha⟩ := Option.isSome_iff_exists.1 (target a found)
        exact ⟨m, ha, counts_of_signed ha found⟩
    have same : overflows path delta fields = !Value.fits (m + n) := counts.overflowGuard hd
    rw [incremented_of_addend addend]
    rcases Number.add?_of_signed ha hd with ⟨bounds, sum, inside⟩ | ⟨sum, beyond⟩
    · have fits := Value.fits_iff.2 inside
      simp only [sum, Option.map_some, Option.elim_some, same, fits, Bool.not_true, and_true]
      exact counts.sum_value hd fits
    · simp only [sum, Option.map_none, Option.elim_none, same, Bool.eq_false_iff.2 (mt Value.fits_iff.1 beyond), Bool.not_false]

end Step

end Dossier
