import Mathlib.Algebra.Group.Nat.Even
import Dossier.Decimal.Binary

/-!
# The double nearest to a whole number

A double keeps 53 bits of a number. `nearestWhole` drops the bits below them and rounds half to even. The doubles among the
whole numbers are those of at most 53 bits and zeros after them (`IsDouble`): they stay as they are (`IsDouble.nearestWhole`),
and no double is nearer to a number than the one that it is rounded to (`nearestNat_nearest`).
-/

namespace Dossier.Decimal

/-- The whole number nearest to `n / 2 ^ k`, of two the even one. -/
def halfEven (n k : Nat) : Nat :=
  let q := n / 2 ^ k
  let r := n % 2 ^ k
  if 2 * r < 2 ^ k then q else if 2 ^ k < 2 * r then q + 1 else q + q % 2

/-- The number of bits past the 53 that a double keeps. -/
def droppedBits (n : Nat) : Nat := n.log2 - 52

/-- The double nearest to a whole number that is not negative. -/
def nearestNat (n : Nat) : Nat := halfEven n (droppedBits n) * 2 ^ droppedBits n

/-- The double nearest to a whole number. -/
def nearestWhole (n : Int) : Int := n.sign * nearestNat n.natAbs

/-- The whole number has at most 53 bits before the zeros that it ends in. -/
def IsDouble (n : Int) : Prop := ∃ m k : Nat, m < 2 ^ 53 ∧ n.natAbs = m * 2 ^ k

variable {n m k j : Nat}

/-! ## Rounding a quotient -/

theorem halfEven_mem (n k : Nat) : n / 2 ^ k ≤ halfEven n k ∧ halfEven n k ≤ n / 2 ^ k + 1 := by
  unfold halfEven
  dsimp only
  split
  · omega
  · split <;> omega

/-- Bits that are zero are dropped without rounding. -/
theorem halfEven_mul_pow (n k j : Nat) : halfEven (n * 2 ^ j) (k + j) = halfEven n k := by
  have pos := Nat.two_pow_pos j
  have quotient : n * 2 ^ j / 2 ^ (k + j) = n / 2 ^ k := by rw [pow_add, Nat.mul_div_mul_right _ _ pos]
  have remainder : n * 2 ^ j % 2 ^ (k + j) = n % 2 ^ k * 2 ^ j := by rw [pow_add, Nat.mul_mod_mul_right]
  have below : 2 * (n % 2 ^ k * 2 ^ j) < 2 ^ (k + j) ↔ 2 * (n % 2 ^ k) < 2 ^ k := by
    rw [pow_add, ← mul_assoc, Nat.mul_lt_mul_right pos]
  have above : 2 ^ (k + j) < 2 * (n % 2 ^ k * 2 ^ j) ↔ 2 ^ k < 2 * (n % 2 ^ k) := by
    rw [pow_add, ← mul_assoc, Nat.mul_lt_mul_right pos]
  simp only [halfEven, quotient, remainder, below, above]

theorem halfEven_zero (n : Nat) : halfEven n 0 = n := by
  simp [halfEven, Nat.mod_one]

/-- A multiple is divided without rounding. -/
theorem halfEven_mul (m k : Nat) : halfEven (m * 2 ^ k) k = m := by
  have scaled := halfEven_mul_pow m 0 k
  rwa [Nat.zero_add, halfEven_zero] at scaled

/-- No multiple of the power is nearer than the rounded one. -/
theorem halfEven_nearest (n k m : Nat) :
    ((n : Int) - (halfEven n k * 2 ^ k : Nat)).natAbs ≤ ((n : Int) - (m * 2 ^ k : Nat)).natAbs := by
  have pos := Nat.two_pow_pos k
  have whole := Nat.div_add_mod n (2 ^ k)
  have small := Nat.mod_lt n pos
  have other : m * 2 ^ k ≤ n / 2 ^ k * 2 ^ k ∨ (n / 2 ^ k + 1) * 2 ^ k ≤ m * 2 ^ k :=
    (Nat.lt_or_ge (n / 2 ^ k) m).symm.imp (Nat.mul_le_mul_right _) (Nat.mul_le_mul_right _)
  have next : (n / 2 ^ k + 1) * 2 ^ k = n / 2 ^ k * 2 ^ k + 2 ^ k := Nat.succ_mul _ _
  rw [mul_comm] at whole
  have rounded : halfEven n k * 2 ^ k = n / 2 ^ k * 2 ^ k ∧ 2 * (n % 2 ^ k) ≤ 2 ^ k
      ∨ halfEven n k * 2 ^ k = n / 2 ^ k * 2 ^ k + 2 ^ k ∧ 2 ^ k ≤ 2 * (n % 2 ^ k) := by
    unfold halfEven
    dsimp only
    split
    · exact .inl ⟨rfl, by omega⟩
    · split
      · exact .inr ⟨next, by omega⟩
      · rcases Nat.mod_two_eq_zero_or_one (n / 2 ^ k) with even | odd
        · exact .inl ⟨by rw [even, Nat.add_zero], by omega⟩
        · exact .inr ⟨by rw [odd, next], by omega⟩
  rw [next] at other
  generalize halfEven n k * 2 ^ k = v at rounded ⊢
  generalize m * 2 ^ k = w at other ⊢
  generalize n / 2 ^ k * 2 ^ k = low at *
  omega

/-! ## Rounding to 53 bits -/

/-- The bits that are kept are 53, unless the number has fewer. -/
theorem log2_of_dropped (dropped : droppedBits n ≠ 0) : n.log2 = 52 + droppedBits n := by
  unfold droppedBits at *
  omega

/-- A double of the size of a number is a multiple of the number's last bit that is kept. -/
theorem dvd_of_large (bits : m < 2 ^ 53) (large : 2 ^ (52 + j) ≤ m * 2 ^ k) : 2 ^ j ∣ m * 2 ^ k := by
  have enough : j ≤ k := by
    by_contra less
    have power : 2 ^ (53 + k) ≤ 2 ^ (52 + j) := Nat.pow_le_pow_right (by decide) (by omega)
    have bound : m * 2 ^ k < 2 ^ 53 * 2 ^ k := Nat.mul_lt_mul_of_pos_right bits (Nat.two_pow_pos k)
    rw [pow_add] at power
    omega
  exact Nat.dvd_mul_left_of_dvd (Nat.pow_dvd_pow 2 enough) m

/-- No double is nearer to a number than the one that it is rounded to. -/
theorem nearestNat_nearest (n : Nat) {d : Int} (double : IsDouble d) (natural : 0 ≤ d) :
    ((n : Int) - nearestNat n).natAbs ≤ ((n : Int) - d).natAbs := by
  obtain ⟨m, k, bits, eq⟩ := double
  obtain ⟨d, rfl⟩ := Int.eq_ofNat_of_zero_le natural
  rw [Int.natAbs_natCast] at eq
  by_cases dropped : droppedBits n = 0
  · rw [nearestNat, dropped, halfEven_zero]
    omega
  by_cases large : 2 ^ (52 + droppedBits n) ≤ d
  · obtain ⟨i, rfl⟩ := eq ▸ dvd_of_large bits (eq ▸ large)
    rw [mul_comm]
    exact halfEven_nearest n (droppedBits n) i
  · -- A smaller double is not above the number without the bits that are dropped.
    have low : 2 ^ (52 + droppedBits n) ≤ n :=
      log2_of_dropped dropped ▸ Nat.log2_self_le fun zero => dropped (by rw [zero]; rfl)
    have nearer := halfEven_nearest n (droppedBits n) (2 ^ 52)
    rw [← pow_add] at nearer
    rw [nearestNat]
    omega

/-- A double is rounded to itself. -/
theorem IsDouble.nearestNat {n : Nat} (double : IsDouble n) : nearestNat n = n := by
  have nearest := nearestNat_nearest n double (Int.natCast_nonneg n)
  omega

theorem IsDouble.nearestWhole {n : Int} (double : IsDouble n) : nearestWhole n = n := by
  have same : Decimal.nearestNat n.natAbs = n.natAbs := IsDouble.nearestNat (n := n.natAbs) double
  rw [Decimal.nearestWhole, same, Int.sign_mul_natAbs]

/-- Numbers up to `2 ^ 53` are doubles. -/
theorem isDouble_of_natAbs_le {n : Int} (small : n.natAbs ≤ 2 ^ 53) : IsDouble n := by
  rcases Nat.lt_or_eq_of_le small with less | eq
  · exact ⟨n.natAbs, 0, less, (Nat.mul_one _).symm⟩
  · exact ⟨2 ^ 52, 1, by decide, eq⟩

end Dossier.Decimal
