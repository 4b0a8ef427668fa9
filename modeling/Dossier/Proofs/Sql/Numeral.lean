import Mathlib.Data.List.TakeWhile
import Dossier.Proofs.Json.Writing
import Dossier.Sql.Document

/-!
# Numbers that the engine reads

The engine reads a number of a stored text as a numeral. It reads the decimal text of a whole number as that number
(`Tree.numberValue_intText`), and it takes a number of the grammar for whole only where no point and no exponent stands
(`Value.numeral?_of_isNumber`).
-/

namespace Dossier

open Decimal Text

/-! ## Whole numbers -/

theorem not_isPadding_of_isDigit {c : Char} (h : c.isDigit = true) : Value.isPadding c = false := by
  have range : 48 ≤ c.toNat ∧ c.toNat ≤ 57 := by simpa [Char.isDigit, UInt32.le_iff_toNat_le] using h
  simp only [Value.isPadding, Bool.or_eq_false_iff, decide_eq_false_iff_not, Bool.and_eq_false_iff]
  omega

/-- A text that begins with a digit has neither padding nor a sign. -/
theorem takeSign_of_isDigit {d : Char} (h : d.isDigit = true) (ds : List Char) :
    (d :: ds).dropWhile Value.isPadding = d :: ds ∧ Value.takeSign (d :: ds) = (false, d :: ds) := by
  have plain : d ≠ '-' ∧ d ≠ '+' := by constructor <;> (rintro rfl; simp [Char.isDigit] at h)
  refine ⟨by simp [not_isPadding_of_isDigit h], ?_⟩
  rw [Value.takeSign] <;> simp_all

/-- The sign of an integer, and its digits. -/
theorem takeSign_intText (n : Int) : Value.takeSign ((Number.intText n).dropWhile Value.isPadding)
    = (decide (n < 0), natDigits n.natAbs) := by
  unfold Number.intText
  split
  · rename_i negative
    simp [Value.takeSign, Value.isPadding, negative]
  · rename_i positive
    cases h : natDigits n.natAbs with
    | nil => exact absurd h (natDigits_ne_nil _)
    | cons d ds =>
      obtain ⟨padding, sign⟩ := takeSign_of_isDigit (isDigit_of_mem_natDigits (n := n.natAbs) (h ▸ List.mem_cons_self)) ds
      rw [padding, sign, decide_eq_false positive]

theorem Value.numeral?_intText (n : Int) :
    numeral? (String.ofList (Number.intText n)) = some ⟨decide (n < 0), n.natAbs, 0, true, true⟩ := by
  have digits : (natDigits n.natAbs).takeWhile Char.isDigit = natDigits n.natAbs :=
    List.takeWhile_eq_self_iff.2 fun c => isDigit_of_mem_natDigits
  have rest : (natDigits n.natAbs).dropWhile Char.isDigit = [] :=
    List.dropWhile_eq_nil_iff.2 fun c => isDigit_of_mem_natDigits
  have nonempty : (natDigits n.natAbs).isEmpty = false := by simpa using natDigits_ne_nil n.natAbs
  simp [numeral?, takeSign_intText, digits, rest, nonempty, takeExponent,
    decimalNumber_natDigits]

/-- The decimal text of an integer reads back as that integer, or as no signed one. -/
theorem Tree.numberValue_intText {n : Int} (low : -0x8000000000000000 ≤ n) (high : n < 0x8000000000000000) :
    Tree.numberValue (Number.intText n) = .integer n := by
  have value : (if n < 0 then -(n.natAbs : Int) else n.natAbs) = n := by split <;> omega
  simp only [Tree.numberValue, Value.numeral?_intText, Value.Numeral.signed?, decide_eq_true_eq, value, low, high, decide_true,
    Bool.and_self, if_true]

/-- A numeral that is no signed integer counts as the nearest double. -/
theorem Tree.numberValue_of_none {text : List Char} {n : Value.Numeral} (read : Value.numeral? (String.ofList text) = some n)
    (past : n.signed? = none) : Tree.numberValue text = .real n.toFloat := by
  rw [Tree.numberValue, read]
  simp only [past]

/-- The double nearest to a whole number is the number as a double. -/
theorem nearest_whole {n : Nat} (positive : n ≠ 0) : nearest n 0 = Float.ofInt n := by
  rw [nearest, if_neg positive, if_pos (Int.le_refl 0), if_neg (by decide)]
  rfl

theorem Value.Numeral.toFloat_whole {n : Nat} (positive : n ≠ 0) : toFloat ⟨false, n, 0, true, true⟩ = Float.ofInt n :=
  nearest_whole positive

/-- The decimal text of a whole number reads as the number is handed over: past the signed ones, as the nearest double. -/
theorem Tree.numberValue_whole (n : Whole) : Tree.numberValue (Number.intText n.val) = Value.ofNumber (.whole n) := by
  by_cases high : n.val < 0x8000000000000000
  · rw [numberValue_intText n.property.1 high]
    simp [Value.ofNumber, Number.signed?, Whole.isSigned, high]
  · obtain ⟨m, same⟩ := Int.eq_ofNat_of_zero_le (show 0 ≤ n.val by omega)
    have sign : ¬ (m : Int) < 0 := by omega
    have read := Value.numeral?_intText m
    rw [decide_eq_false sign, Int.natAbs_natCast] at read
    have past : Value.Numeral.signed? ⟨false, m, 0, true, true⟩ = none := by
      simp [Value.Numeral.signed?, same ▸ high]
    have handed : Value.ofNumber (.whole n) = .real (Float.ofInt n.val) := by
      simp [Value.ofNumber, Number.signed?, Whole.isSigned, high, Number.toFloat]
    rw [handed, same, numberValue_of_none read past, Value.Numeral.toFloat_whole (by omega)]

/-! ## Points and exponents -/

/-- Decoding reads a number as whole only where the text has neither point nor exponent. -/
theorem Number.isWholeText_of_ofChars? {text : List Char} {n : Whole} (read : ofChars? text = some (.whole n)) :
    Tree.isWholeText text = true := by
  have digits : (if text.head? == some '-' then text.drop 1 else text).dropWhile Char.isDigit = [] := by
    unfold ofChars? at read
    simp only at read
    split at read
    · assumption
    · obtain ⟨x, -, eq⟩ := Option.map_eq_some_iff.1 read
      cases eq
    · obtain ⟨x, -, eq⟩ := Option.map_eq_some_iff.1 read
      cases eq
  have all := List.dropWhile_eq_nil_iff.1 digits
  refine List.all_eq_true.2 fun c mem => ?_
  rw [Bool.or_eq_true, beq_iff_eq]
  cases text with
  | nil => cases mem
  | cons first rest =>
    by_cases negative : first = '-'
    · subst negative
      rcases List.mem_cons.1 mem with rfl | later
      · exact .inr rfl
      · exact .inl (all c (by simpa using later))
    · exact .inl (all c (by simpa [negative] using mem))

namespace Tree

/-- A number of the grammar without its sign begins with digits, after which a fraction or an exponent may stand. -/
theorem digits_of_isUnsigned {cs : List Char} (h : isUnsigned cs = true) :
    cs.takeWhile Char.isDigit ≠ [] ∧ isFraction (cs.dropWhile Char.isDigit) = true := by
  unfold isUnsigned digits? at h
  cases run : cs.takeWhile Char.isDigit with
  | nil => simp [run] at h
  | cons d ds =>
    refine ⟨List.cons_ne_nil d ds, ?_⟩
    simp only [run] at h
    split at h
    · rename_i eq
      cases eq
      exact h
    · cases h
    · rename_i eq
      cases eq
      exact h
    · cases h

/-- What the engine takes off a text as an exponent is more than nothing if the grammar takes it for one. -/
theorem takeExponent_of_isExponent {e : Char} {rest : List Char} (h : isExponent (e :: rest) = true) :
    (Value.takeExponent (e :: rest)).2.length < (e :: rest).length := by
  have signed : ((e = 'e' ∨ e = 'E') ∧ ((digits? (Value.takeSign rest).2).any (·.2.isEmpty)) = true)
      ∧ (Value.takeSign rest).2.length ≤ rest.length := by
    unfold isExponent at h
    split at h
    · cases ‹e :: rest = []›
    · cases ‹e :: rest = _›
      simpa [Value.takeSign] using h
    · cases ‹e :: rest = _›
      simpa [Value.takeSign] using h
    · rename_i plus minus eq
      cases eq
      rw [Value.takeSign]
      · simpa using h
      · rintro cs rfl
        exact minus _ rfl
      · rintro cs rfl
        exact plus _ rfl
  obtain ⟨⟨letter, digits⟩, length⟩ := signed
  have letter : (e = 'e' || e = 'E') = true := by simpa using letter
  rw [Value.takeExponent, if_pos letter]
  unfold digits? at digits
  cases run : (Value.takeSign rest).2.takeWhile Char.isDigit with
  | nil => simp [run] at digits
  | cons d ds =>
    simp only [run, List.length_cons]
    have shorter := List.length_dropWhile_le Char.isDigit (Value.takeSign rest).2
    omega

end Tree

/-- The engine reads every number of the grammar, and none with a point or an exponent as whole. -/
theorem Value.numeral?_of_isNumber {text : List Char} (h : Tree.isNumber text = true) :
    ∃ n, numeral? (String.ofList text) = some n ∧ (n.whole = true → Tree.isWholeText text = true) := by
  obtain ⟨sign, cs, taken, unsigned, same⟩ : ∃ sign cs, takeSign (text.dropWhile isPadding) = (sign, cs)
      ∧ Tree.isUnsigned cs = true ∧ (text = cs ∨ text = '-' :: cs) := by
    unfold Tree.isNumber at h
    split at h
    · rename_i rest
      exact ⟨true, rest, by simp [takeSign, isPadding], h, .inr rfl⟩
    · refine ⟨false, text, ?_, h, .inl rfl⟩
      have digits := (Tree.digits_of_isUnsigned h).1
      cases text with
      | nil => exact absurd rfl digits
      | cons d ds =>
        by_cases digit : d.isDigit = true
        · rw [(takeSign_of_isDigit digit ds).1, (takeSign_of_isDigit digit ds).2]
        · simp [digit] at digits
  obtain ⟨digits, fraction⟩ := Tree.digits_of_isUnsigned unsigned
  have nonempty : (cs.takeWhile Char.isDigit).isEmpty = false := by simpa using digits
  simp only [numeral?, String.toList_ofList, taken, nonempty, Bool.false_and, Bool.false_eq_true, if_false]
  refine ⟨_, rfl, fun whole => ?_⟩
  simp only [Bool.and_eq_true, Bool.not_eq_true', beq_iff_eq] at whole
  obtain ⟨point, length⟩ := whole
  have end_ : cs.dropWhile Char.isDigit = [] := by
    unfold Tree.isFraction at fraction
    split at fraction
    · rename_i rest eq
      rw [eq] at point
      cases point
    · rename_i plain
      cases after : cs.dropWhile Char.isDigit with
      | nil => rfl
      | cons e rest =>
        have shorter := Tree.takeExponent_of_isExponent (after ▸ fraction)
        rw [after] at length
        split at length
        · rename_i eq
          exact absurd (after.trans eq) (plain _)
        · simp only at length
          omega
  have all : ∀ c ∈ cs, c.isDigit = true := List.dropWhile_eq_nil_iff.1 end_
  refine List.all_eq_true.2 fun c mem => ?_
  rw [Bool.or_eq_true, beq_iff_eq]
  rcases same with rfl | rfl
  · exact .inl (all c mem)
  · exact (List.mem_cons.1 mem).symm.imp_left (all c)

end Dossier
