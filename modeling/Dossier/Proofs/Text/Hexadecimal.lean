import Dossier.Text.Ascii
import Mathlib.Data.String.Basic

/-!
# Hexadecimal digits of a fixed width

Runs of `width` digits are ordered as texts in the way of the numbers that they write modulo `16 ^ width`
(`hexDigits_lt_iff`), and are equal where these numbers are (`hexDigits_eq_iff`).
-/

namespace Dossier.Text

variable {width m n : Nat} {c : Char}

theorem length_hexDigits (width n : Nat) : (hexDigits width n).length = width := by
  induction width generalizing n with
  | zero => rfl
  | succ width ih => simp [hexDigits, ih]

/-- What holds of the sixteen digits holds of all digits that are written. -/
theorem of_mem_hexDigits {p : Char → Bool} (all : ∀ d : Fin 16, p (hexDigit d.val) = true) (mem : c ∈ hexDigits width n) :
    p c = true := by
  induction width generalizing n with
  | zero => cases mem
  | succ width ih =>
    rcases List.mem_append.1 mem with early | last
    · exact ih early
    · rw [List.mem_singleton.1 last]
      exact all ⟨n % 16, Nat.mod_lt n (by decide)⟩

theorem hexDigit_lt_iff (hm : m < 16) (hn : n < 16) : hexDigit m < hexDigit n ↔ m < n := by
  have all : ∀ a b : Fin 16, hexDigit a.val < hexDigit b.val ↔ a.val < b.val := by decide
  exact all ⟨m, hm⟩ ⟨n, hn⟩

theorem hexDigit_eq_iff (hm : m < 16) (hn : n < 16) : hexDigit m = hexDigit n ↔ m = n := by
  have all : ∀ a b : Fin 16, hexDigit a.val = hexDigit b.val ↔ a.val = b.val := by decide
  exact all ⟨m, hm⟩ ⟨n, hn⟩

/-- Beginnings of one length decide the order of two texts, unless they are equal. -/
theorem append_lt_append_iff {as bs cs ds : List Char} (length : as.length = bs.length) :
    as ++ cs < bs ++ ds ↔ as < bs ∨ (as = bs ∧ cs < ds) := by
  induction as generalizing bs with
  | nil =>
    obtain rfl := List.length_eq_zero_iff.1 length.symm
    simp
  | cons a as ih =>
    obtain ⟨b, bs, rfl⟩ := List.exists_cons_of_length_eq_add_one length.symm
    rw [List.cons_append, List.cons_append, List.cons_lt_cons_iff, List.cons_lt_cons_iff, ih (Nat.succ.inj length),
      List.cons.injEq]
    tauto

/-- The last digit and the number that the others write. -/
theorem mod_pow_succ (width n : Nat) : n % 16 ^ (width + 1) = n % 16 + 16 * (n / 16 % 16 ^ width) := by
  rw [Nat.pow_succ', Nat.mod_mul]

theorem hexDigits_eq_iff : hexDigits width m = hexDigits width n ↔ m % 16 ^ width = n % 16 ^ width := by
  induction width generalizing m n with
  | zero => simp [hexDigits, Nat.mod_one]
  | succ width ih =>
    have small : ∀ k : Nat, k % 16 < 16 := fun k => Nat.mod_lt k (by decide)
    rw [hexDigits, hexDigits, List.append_singleton_inj, ih, hexDigit_eq_iff (small m) (small n), mod_pow_succ, mod_pow_succ]
    have := small m
    have := small n
    omega

theorem hexDigits_lt_iff : hexDigits width m < hexDigits width n ↔ m % 16 ^ width < n % 16 ^ width := by
  induction width generalizing m n with
  | zero => simp [hexDigits, Nat.mod_one]
  | succ width ih =>
    have small : ∀ k : Nat, k % 16 < 16 := fun k => Nat.mod_lt k (by decide)
    have last : [hexDigit (m % 16)] < [hexDigit (n % 16)] ↔ m % 16 < n % 16 := by
      rw [List.cons_lt_cons_iff, hexDigit_lt_iff (small m) (small n)]
      simp
    rw [hexDigits, hexDigits, append_lt_append_iff ((length_hexDigits ..).trans (length_hexDigits ..).symm), ih, last,
      hexDigits_eq_iff, mod_pow_succ, mod_pow_succ]
    have := small m
    have := small n
    omega

end Dossier.Text
