import Mathlib
import Dossier.Proofs.Decimal.Rounding

/-!
# Whole numbers as doubles

Core defines the operations on doubles by a model: a double is unpacked into a sign, a mantissa and an exponent, the operation
is done on these, and the result is rounded and packed. `IsWhole` is the normal form of a whole number in the model, which
rounding reaches (`isWhole_round`) and packing keeps (`IsWhole.unpack_pack`). So the conversion of a whole number gives the
nearest double (`isWhole_ofNat`), and comparing that double with a whole number is comparing the nearest double as a number
(`Magnitude.compare_ofInt`).
-/

namespace Dossier.Decimal

open Float.Model Float.Model.UnpackedFloat

/-- The unpacked double is normal and has the sign and a whole absolute value. -/
inductive IsWhole (s : Sign) (value : Nat) : UnpackedFloat → Prop
  | finite {m : Nat} {e : Int} (pos : 0 < m) (low : 2 ^ 52 ≤ m) (high : m < 2 ^ 53) (least : -52 ≤ e) (greatest : e ≤ 971)
      (same : m * 2 ^ (e + 52).toNat = value * 2 ^ 52) : IsWhole s value (.finite s m e pos)

variable {s : Sign} {u : UnpackedFloat} {value n m j k : Nat} {e : Int}

/-! ## Rounding -/

/-- After a shift the round bit says whether half of the last bit is left or more, and the sticky bit whether it is not just
the half or nothing. -/
theorem shiftRight_exact (m k : Nat) : (ExtendedMantissa.ofMantissaAndAccuracy m .exact >>> k)
    = ⟨m / 2 ^ k, decide (2 ^ k ≤ 2 * (m % 2 ^ k)), decide (2 * (m % 2 ^ k) % 2 ^ k ≠ 0)⟩ := by
  show k.repeat ExtendedMantissa.shiftRightOne _ = _
  induction k with
  | zero => simp [Nat.repeat, ExtendedMantissa.ofMantissaAndAccuracy, Nat.mod_one]
  | succ k ih =>
    have pos := Nat.two_pow_pos k
    have small := Nat.mod_lt m pos
    have next : m % 2 ^ (k + 1) = m % 2 ^ k + 2 ^ k * (m / 2 ^ k % 2) := by rw [pow_succ, Nat.mod_mul]
    rw [Nat.repeat, ih, ExtendedMantissa.shiftRightOne]
    congr 1
    · rw [Nat.div_div_eq_div_mul, pow_succ]
    · rw [next, pow_succ]
      rcases Nat.mod_two_eq_zero_or_one (m / 2 ^ k) with even | odd
      · simp [even]
        omega
      · simp [odd]
        omega
    · have double : 2 * (m % 2 ^ (k + 1)) % 2 ^ (k + 1) = 2 * (m % 2 ^ k) := by
        rw [Nat.pow_succ', Nat.mul_mod_mul_left, Nat.mod_mul_left_mod]
      rw [double, ← Bool.decide_or, decide_eq_decide]
      rcases Nat.lt_or_ge (2 * (m % 2 ^ k)) (2 ^ k) with less | more
      · rw [Nat.mod_eq_of_lt less]
        omega
      · omega

/-- The model rounds half to even. -/
theorem roundedMantissa_shiftRight (m k : Nat) :
    (ExtendedMantissa.ofMantissaAndAccuracy m .exact >>> k).roundedMantissa = halfEven m k := by
  have small := Nat.mod_lt m (Nat.two_pow_pos k)
  rw [shiftRight_exact, halfEven]
  rcases lt_trichotomy (2 * (m % 2 ^ k)) (2 ^ k) with less | half | more
  · have round : decide (2 ^ k ≤ 2 * (m % 2 ^ k)) = false := decide_eq_false (by omega)
    rw [round, if_pos less]
    cases decide (2 * (m % 2 ^ k) % 2 ^ k ≠ 0) <;> rfl
  · have round : decide (2 ^ k ≤ 2 * (m % 2 ^ k)) = true := decide_eq_true (by omega)
    have sticky : decide (2 * (m % 2 ^ k) % 2 ^ k ≠ 0) = false := by rw [half, Nat.mod_self]; rfl
    rw [round, sticky, if_neg (by omega), if_neg (by omega)]
    rfl
  · have round : decide (2 ^ k ≤ 2 * (m % 2 ^ k)) = true := decide_eq_true (by omega)
    have sticky : decide (2 * (m % 2 ^ k) % 2 ^ k ≠ 0) = true := by
      rw [Nat.mod_eq_sub_mod (Nat.le_of_lt more), Nat.mod_eq_of_lt (by omega)]
      exact decide_eq_true (by omega)
    rw [round, sticky, if_neg (by omega), if_pos more]
    rfl

/-- A mantissa of 53 bits is in its place. -/
theorem shiftToTargetExponent_of_normal (low : 2 ^ 52 ≤ m) (high : m < 2 ^ 53) (least : -1074 ≤ e) :
    shiftToTargetExponent Format.binary64 m e .exact = (⟨m, false, false⟩, e) := by
  have log : m.log2 = 52 := (Nat.log2_eq_iff (by omega)).2 ⟨low, high⟩
  have target : Format.binary64.targetExponent (totalExponent m e) = e := by
    simp only [Format.targetExponent, totalExponent, log, Format.mantissaBits, Format.minExponent]
    omega
  rw [shiftToTargetExponent, target, shiftToExponent, Int.sub_self]
  exact Prod.ext rfl (Int.add_zero e)

/-- A mantissa that rounding has brought to 54 bits loses the last of them, which is zero. -/
theorem shiftToTargetExponent_of_carry (least : -1074 ≤ e) :
    shiftToTargetExponent Format.binary64 (2 ^ 53) e .exact = (⟨2 ^ 52, false, false⟩, e + 1) := by
  have target : Format.binary64.targetExponent (totalExponent (2 ^ 53) e) = e + 1 := by
    simp only [Format.targetExponent, totalExponent, Nat.log2_two_pow, Format.mantissaBits, Format.minExponent]
    omega
  have one : (e + 1 - e).toNat = 1 := by omega
  rw [shiftToTargetExponent, target, shiftToExponent, one]
  rfl

theorem log2_mul_pow (pos : 0 < n) (j : Nat) : (n * 2 ^ j).log2 = n.log2 + j := by
  have low := Nat.log2_self_le (Nat.pos_iff_ne_zero.1 pos)
  have high := Nat.lt_log2_self (n := n)
  refine (Nat.log2_eq_iff (Nat.ne_of_gt (Nat.mul_pos pos (Nat.two_pow_pos j)))).2 ⟨?_, ?_⟩
  · rw [pow_add]
    exact Nat.mul_le_mul_right _ low
  · rw [Nat.add_right_comm, pow_add]
    exact Nat.mul_lt_mul_of_pos_right high (Nat.two_pow_pos j)

/-- The first 53 bits, rounded, in units of the last of them. -/
theorem halfEven_mul_nearestNat (enough : 52 ≤ n.log2 + j) :
    halfEven (n * 2 ^ j) (n.log2 + j - 52) * 2 ^ n.log2 = nearestNat n * 2 ^ 52 := by
  rcases Nat.le_total 52 n.log2 with long | short
  · obtain ⟨d, eq⟩ := Nat.exists_eq_add_of_le long
    have dropped : droppedBits n = d := by rw [droppedBits, eq, Nat.add_sub_cancel_left]
    rw [eq, show 52 + d + j - 52 = d + j by omega, halfEven_mul_pow, nearestNat, dropped, pow_add, mul_assoc,
      mul_comm (2 ^ 52)]
  · obtain ⟨d, eq⟩ := Nat.exists_eq_add_of_le enough
    obtain ⟨c, eq'⟩ := Nat.exists_eq_add_of_le short
    have dropped : droppedBits n = 0 := by rw [droppedBits]; omega
    rw [show n.log2 + j - 52 = d by omega, show j = c + d by omega, pow_add, ← mul_assoc, halfEven_mul, nearestNat, dropped,
      halfEven_zero, mul_assoc, ← pow_add, show c + n.log2 = 52 by omega, pow_zero, mul_one]

/-- The first 53 bits, rounded, are 53 bits or the next power of two. -/
theorem halfEven_bits (pos : 0 < n) (enough : 52 ≤ n.log2) :
    2 ^ 52 ≤ halfEven n (n.log2 - 52) ∧ halfEven n (n.log2 - 52) ≤ 2 ^ 53 := by
  obtain ⟨d, eq⟩ := Nat.exists_eq_add_of_le enough
  obtain ⟨low, high⟩ := (Nat.log2_eq_iff (Nat.ne_of_gt pos)).1 eq
  have least : 2 ^ 52 ≤ n / 2 ^ d := (Nat.le_div_iff_mul_le (Nat.two_pow_pos d)).2 (by rwa [← pow_add])
  have greatest : n / 2 ^ d < 2 ^ 53 :=
    (Nat.div_lt_iff_lt_mul (Nat.two_pow_pos d)).2 (by rwa [← pow_add, Nat.add_right_comm 52 1 d])
  obtain ⟨low', high'⟩ := halfEven_mem n d
  rw [eq, Nat.add_sub_cancel_left]
  omega

/-- Rounding a whole number that has been scaled to 53 bits or more gives its nearest double. -/
theorem isWhole_round (s : Sign) (pos : 0 < n) (enough : 52 ≤ n.log2 + j) (fits : n.log2 ≤ 1000) :
    IsWhole s (nearestNat n) (roundWithAccuracy Format.binary64 s (n * 2 ^ j) (-j) .exact) := by
  have log := log2_mul_pow pos j
  have same := halfEven_mul_nearestNat enough
  obtain ⟨low, high⟩ := halfEven_bits (Nat.mul_pos pos (Nat.two_pow_pos j)) (log ▸ enough)
  rw [log] at low high
  have target : Format.binary64.targetExponent (totalExponent (n * 2 ^ j) (-j)) = (n.log2 : Int) - 52 := by
    simp only [Format.targetExponent, totalExponent, log, Format.mantissaBits, Format.minExponent]
    omega
  have amount : ((n.log2 : Int) - 52 - -(j : Int)).toNat = n.log2 + j - 52 := by omega
  have place : -(j : Int) + (n.log2 + j - 52 : Nat) = (n.log2 : Int) - 52 := by omega
  have exponent : ((n.log2 : Int) - 52 + 52).toNat = n.log2 := by omega
  rw [roundWithAccuracy, shiftToTargetExponent, target, shiftToExponent, amount, place]
  dsimp only
  rw [roundedMantissa_shiftRight]
  generalize halfEven (n * 2 ^ j) (n.log2 + j - 52) = q at *
  rcases Nat.lt_or_eq_of_le high with normal | rfl
  · rw [shiftToTargetExponent_of_normal low normal (by omega)]
    rw [dif_neg (show q ≠ 0 by omega)]
    exact .finite _ low normal (by omega) (by omega) (by rw [exponent, same])
  · rw [shiftToTargetExponent_of_carry (by omega)]
    refine .finite (Nat.two_pow_pos 52) (by omega) (by omega) (by omega) (by omega) ?_
    rw [← same, show ((n.log2 : Int) - 52 + 1 + 52).toNat = 1 + n.log2 by omega, pow_add, ← mul_assoc, ← pow_add]

/-! ## Packing -/

section Fields

variable (b : BitVec 64)

theorem toNat_unpackMantissa : (@unpackMantissa Format.binary64 b).toNat = b.toNat % 2 ^ 52 := by
  simp [unpackMantissa]

theorem toNat_unpackExponent : (@unpackExponent Format.binary64 b).toNat = b.toNat / 2 ^ 52 % 2 ^ 11 := by
  simp [unpackExponent, Nat.shiftRight_eq_div_pow]

theorem toNat_unpackSign : (@unpackSign Format.binary64 b).toNat = b.toNat / 2 ^ 63 % 2 := by
  simp [unpackSign, Nat.shiftRight_eq_div_pow]

/-- The leading bit of a normal mantissa is not stored. -/
theorem toNat_implicit (f : BitVec 52) : (1#1 ++ f).toNat = 2 ^ 52 + f.toNat := by
  rw [BitVec.toNat_append, ← Nat.shiftLeft_add_eq_or_of_lt f.isLt, Nat.shiftLeft_eq]
  simp

end Fields

theorem isNegative_ofBitVec (t : BitVec 1) : (Sign.ofBitVec t == .negative) = decide (t.toNat = 1) := by
  revert t
  decide

/-- The bits of a double say what the double unpacks to. -/
theorem Binary.ofBits?_of_unpack {bits : UInt64} {pos : 0 < m}
    (unpacked : UnpackedFloat.unpack Format.binary64 bits.toBitVec = .finite s m e pos) :
    ofBits? bits = some ⟨s == .negative, m, e⟩ := by
  have mantissa := toNat_unpackMantissa bits.toBitVec
  have exponent := toNat_unpackExponent bits.toBitVec
  have sign := toNat_unpackSign bits.toBitVec
  have small : bits.toBitVec.toNat < 2 ^ 64 := bits.toBitVec.isLt
  have bias : ((Format.binary64.exponentBias : Int) + (52 : Nat)) = 1075 := rfl
  have negative : (Sign.ofBitVec (@unpackSign Format.binary64 bits.toBitVec) == .negative)
      = decide (bits.toBitVec.toNat / 0x8000000000000000 = 1) := by
    rw [isNegative_ofBitVec, sign]
    exact decide_eq_decide.2 (by omega)
  rw [UnpackedFloat.unpack] at unpacked
  dsimp only at unpacked
  rw [bias] at unpacked
  rw [UInt64.toNat_toBitVec] at mantissa exponent negative
  unfold ofBits?
  dsimp only
  split at unpacked
  · split at unpacked <;> cases unpacked
  next top =>
    have finite : bits.toNat / 0x10000000000000 % 0x800 ≠ 2047 := fun same =>
      top (BitVec.eq_of_toNat_eq (exponent.trans same))
    rw [if_neg finite]
    split at unpacked
    next least =>
      have none_ : bits.toNat / 0x10000000000000 % 0x800 = 0 := exponent.symm.trans (congrArg BitVec.toNat least)
      split at unpacked
      · cases unpacked
      · cases unpacked
        rw [if_pos none_, negative, mantissa, least]
        rfl
    next normal =>
      have some_ : bits.toNat / 0x10000000000000 % 0x800 ≠ 0 := fun same =>
        normal (BitVec.eq_of_toNat_eq (exponent.trans same))
      cases unpacked
      rw [if_neg some_, negative, toNat_implicit, mantissa, exponent, leastExponent]
      refine congrArg (fun e => some (Binary.mk _ _ e)) ?_
      omega

/-- A double in normal form is unpacked as it was packed. -/
theorem IsWhole.unpack_pack (whole : IsWhole s value u) : (Float.Model.pack u).unpack = u := by
  cases whole with
  | @finite m e pos low high least greatest same =>
    have log : m.log2 = 52 := (Nat.log2_eq_iff (Nat.ne_of_gt pos)).2 ⟨low, high⟩
    have biased : (e + Format.binary64.exponentBias + (52 : Nat)).toNat = (e + 1075).toNat := by
      show (e + 1023 + 52).toNat = _
      omega
    have exponent : (BitVec.ofNat 11 (e + 1075).toNat).toNat = (e + 1075).toNat := by
      rw [BitVec.toNat_ofNat]
      omega
    have top : BitVec.ofNat 11 (e + 1075).toNat ≠ -1#11 := fun eq => by
      have := exponent.symm.trans (congrArg BitVec.toNat eq)
      simp at this
      omega
    have normal : BitVec.ofNat 11 (e + 1075).toNat ≠ 0#11 := fun eq => by
      have := exponent.symm.trans (congrArg BitVec.toNat eq)
      simp at this
      omega
    have packed : UnpackedFloat.pack Format.binary64 (.finite s m e pos)
        = packComponents Format.binary64 s (BitVec.ofNat 11 (e + 1075).toNat) (BitVec.ofNat 52 m) := by
      rw [UnpackedFloat.pack]
      dsimp only
      rw [biased, log, if_neg (show ¬ 2 ^ 11 ≤ (e + 1075).toNat + 1 by omega)]
      exact if_pos rfl
    have mantissa : (1#1 ++ BitVec.ofNat 52 m).toNat = m := by
      rw [toNat_implicit, BitVec.toNat_ofNat]
      omega
    have bias : ((e + 1075).toNat : Int) - (Format.binary64.exponentBias + (52 : Nat)) = e := by
      show ((e + 1075).toNat : Int) - 1075 = e
      omega
    show UnpackedFloat.unpack Format.binary64 (UnpackedFloat.pack Format.binary64 (.finite s m e pos)) = _
    rw [packed, UnpackedFloat.unpack]
    simp only [unpackMantissa_packComponents, unpackExponent_packComponents, unpackSign_packComponents, if_neg top,
      if_neg normal, exponent, mantissa, bias, Sign.ofBitVec_toBitVec]

/-! ## Conversion -/

theorem IsWhole.neg (whole : IsWhole s value u) : IsWhole (-s) value u.neg := by
  cases whole with
  | finite pos low high least greatest same => exact .finite pos low high least greatest same

/-- A number of at most 53 bits is scaled to 53 bits. -/
theorem ofNat_of_small (pos : 0 < n) (small : n.log2 ≤ 52) : UnpackedFloat.ofNat Format.binary64 n
    = roundWithAccuracy Format.binary64 .positive (n * 2 ^ (52 - n.log2)) (-(52 - n.log2 : Nat)) .exact := by
  have target : Format.binary64.targetExponent (totalExponent n 0) = -(52 - n.log2 : Nat) := by
    simp only [Format.targetExponent, totalExponent, Format.mantissaBits, Format.minExponent]
    omega
  have order : Ord.compare (n : Int) 0 = .gt := Int.compare_eq_gt.2 (by omega)
  have amount : (0 - -((52 - n.log2 : Nat) : Int)).toNat = 52 - n.log2 := by omega
  have place : (0 : Int) - (52 - n.log2 : Nat) = -(52 - n.log2 : Nat) := by omega
  rw [UnpackedFloat.ofNat, UnpackedFloat.ofInt, UnpackedFloat.normalize, order]
  dsimp only
  rw [Int.toNat_natCast, UnpackedFloat.round, target, decreaseExponent, amount, place, Nat.shiftLeft_eq]

/-- One as a double. -/
theorem unpack_one : (Float.ofBits 0x3FF0000000000000).toModel.unpack = .finite .positive (2 ^ 52) (-52) (by decide) := by
  rfl

/-- A whole number that a double holds has no bits past the point. -/
theorem IsWhole.exists_scale (whole : IsWhole s n u) (small : n < 2 ^ 53) :
    ∃ (k : Nat) (pos : 0 < n * 2 ^ k), u = .finite s (n * 2 ^ k) (-k) pos := by
  cases whole with
  | @finite m e pos low high least greatest same =>
    have fraction : e ≤ 0 := by
      by_contra positive
      have power : 2 ^ 53 ≤ 2 ^ (e + 52).toNat := Nat.pow_le_pow_right (by decide) (by omega)
      have := Nat.mul_le_mul low power
      omega
    obtain ⟨k, rfl⟩ : ∃ k : Nat, e = -k := ⟨e.natAbs, by omega⟩
    have bits : k + (-(k : Int) + 52).toNat = 52 := by omega
    rw [← bits, pow_add, ← mul_assoc] at same
    obtain rfl := Nat.mul_right_cancel (Nat.two_pow_pos _) same
    exact ⟨k, pos, rfl⟩

theorem unpack_mul (x y : Float) : (x * y).toModel.unpack
    = (Float.Model.pack (UnpackedFloat.mul Format.binary64 x.toModel.unpack y.toModel.unpack)).unpack := rfl

theorem isWhole_toFloat (pos : 0 < n) (small : n < 2 ^ 53) : IsWhole .positive n n.toUInt64.toFloat.toModel.unpack := by
  have log : n.log2 ≤ 52 := Nat.le_of_lt_succ ((Nat.log2_lt (Nat.ne_of_gt pos)).2 small)
  have exact_ : nearestNat n = n := (isDouble_of_natAbs_le (n := n) (Nat.le_of_lt small)).nearestNat
  have word : n.toUInt64.toNat = n := UInt64.toNat_ofNat_of_lt' (Nat.lt_trans small (by decide))
  have whole := isWhole_round (j := 52 - n.log2) .positive pos (by omega) (by omega)
  rw [exact_, ← ofNat_of_small pos log, ← word] at whole
  have unpacked : n.toUInt64.toFloat.toModel.unpack = UnpackedFloat.ofNat Format.binary64 n.toUInt64.toNat :=
    whole.unpack_pack
  rw [unpacked]
  rwa [word] at whole ⊢

/-- A whole number of 64 bits becomes the nearest double. -/
theorem isWhole_ofNat (pos : 0 < n) (fits : n < 2 ^ 64) :
    IsWhole .positive (nearestNat n) (Float.ofNat n).toModel.unpack := by
  have bound : n.log2 < 64 := (Nat.log2_lt (Nat.ne_of_gt pos)).2 fits
  by_cases small : n < 2 ^ 53
  · -- A number of 53 bits is converted as a word and multiplied by one.
    obtain ⟨k, pos', first⟩ := (isWhole_toFloat pos small).exists_scale small
    have product : (Float.ofNat n).toModel.unpack
        = (Float.Model.pack (roundWithAccuracy Format.binary64 .positive (n * 2 ^ k * 2 ^ 52) (-k + -52) .exact)).unpack := by
      have converted : Float.ofNat n = n.toUInt64.toFloat * Float.ofBits 0x3FF0000000000000 := by
        show Float.ofScientific n false 0 = _
        rw [Float.ofScientific, dif_pos ⟨small, by decide⟩]
        rfl
      rw [converted, unpack_mul, first, unpack_one]
      rfl
    have log : (n * 2 ^ k).log2 = n.log2 + k := log2_mul_pow pos k
    have whole := isWhole_round (j := k + 52) .positive pos (by omega) (by omega)
    rw [product, mul_assoc, ← pow_add, show (-(k : Int) + -52) = -((k + 52 : Nat) : Int) by omega, whole.unpack_pack]
    exact whole
  · -- A longer one is read as a decimal.
    have below : ¬ (0 : Int) < -(2 ^ Format.binary64.exponentBits + n.log2) := by
      show ¬ (0 : Int) < -(2048 + n.log2)
      omega
    have converted : (Float.ofNat n).toModel.unpack
        = (Float.Model.pack (roundWithAccuracy Format.binary64 .positive ((n <<< 53) * 10 ^ 0) (-53 + 0) .exact)).unpack := by
      show (Float.ofScientific n false 0).toModel.unpack = _
      rw [Float.ofScientific, dif_neg (fun h => small h.1)]
      show (Float.Model.pack (UnpackedFloat.ofScientific Format.binary64 n 0)).unpack = _
      rw [UnpackedFloat.ofScientific, dif_neg (Nat.ne_of_gt pos), if_neg (by decide), if_neg below, if_pos (by decide)]
      rfl
    have whole := isWhole_round (j := 53) .positive pos (by omega) (by omega)
    rw [converted, Nat.shiftLeft_eq, pow_zero, mul_one, show (-53 + 0 : Int) = -(53 : Nat) from rfl, whole.unpack_pack]
    exact whole

/-! ## Comparison -/

/-- The place of a double in normal form. -/
theorem Magnitude.ofFloat_of_isWhole {x : Float} (whole : IsWhole s value x.toModel.unpack) :
    ∃ d : Nat, 0 < d ∧ ofFloat x = .ratio (s.apply value * d) d := by
  generalize unpacked : x.toModel.unpack = u at whole
  cases whole with
  | @finite m e pos low high least greatest same =>
    have read : Binary.ofFloat? x = some ⟨s == .negative, m, e⟩ := Binary.ofBits?_of_unpack unpacked
    have numerator : m * 2 ^ e.toNat = value * 2 ^ (-e).toNat := by
      refine Nat.mul_right_cancel (Nat.two_pow_pos 52) ?_
      rw [mul_assoc, ← pow_add, show e.toNat + 52 = (e + 52).toNat + (-e).toNat by omega, pow_add, ← mul_assoc, same,
        Nat.mul_right_comm]
    refine ⟨2 ^ (-e).toNat, Nat.two_pow_pos _, ?_⟩
    rw [ofFloat, read]
    show Magnitude.ratio (Binary.signed _) _ = _
    have signed : Binary.signed ⟨s == .negative, m, e⟩ = s.apply value * (2 ^ (-e).toNat : Nat) := by
      rw [Binary.signed, Binary.numerator]
      show (if _ then -((m * 2 ^ e.toNat : Nat) : Int) else (m * 2 ^ e.toNat : Nat)) = _
      rw [numerator, Int.natCast_mul]
      cases s with
      | negative => exact (Int.neg_mul _ _).symm
      | positive => rfl
    rw [signed]
    rfl

/-- The conversion of a whole number, as the place of its nearest double. -/
theorem Magnitude.ofFloat_ofInt (n : Int) (fits : n.natAbs < 2 ^ 64) :
    ∃ d : Nat, 0 < d ∧ ofFloat (Float.ofInt n) = .ratio (nearestWhole n * d) d := by
  rcases Int.lt_trichotomy n 0 with negative | rfl | positive
  · obtain ⟨k, rfl⟩ := Int.eq_negSucc_of_lt_zero negative
    have whole : IsWhole .negative (nearestNat k.succ) (Float.ofInt (Int.negSucc k)).toModel.unpack := by
      have back := isWhole_ofNat (Nat.succ_pos k) fits
      have unpacked : (Float.ofInt (Int.negSucc k)).toModel.unpack
          = (Float.Model.pack (Float.ofNat k.succ).toModel.unpack.neg).unpack := rfl
      rw [unpacked, back.neg.unpack_pack]
      exact back.neg
    obtain ⟨d, pos, place⟩ := ofFloat_of_isWhole whole
    refine ⟨d, pos, place.trans ?_⟩
    rw [nearestWhole, Int.sign_negSucc, Int.neg_one_mul]
    rfl
  · exact ⟨2 ^ 1074, Nat.two_pow_pos _, by decide +kernel⟩
  · obtain ⟨k, rfl⟩ := Int.eq_ofNat_of_zero_le (Int.le_of_lt positive)
    obtain ⟨d, pos, place⟩ := ofFloat_of_isWhole (isWhole_ofNat (Int.natCast_pos.1 positive) fits)
    refine ⟨d, pos, place.trans ?_⟩
    rw [nearestWhole, Int.sign_eq_one_of_pos positive, Int.one_mul]
    rfl

theorem compare_mul_right (a b : Int) {d : Nat} (pos : 0 < d) : Ord.compare (a * d) (b * d) = Ord.compare a b := by
  have pos : (0 : Int) < d := Int.natCast_pos.2 pos
  rcases Int.lt_trichotomy a b with less | rfl | more
  · rw [Int.compare_eq_lt.2 less, Int.compare_eq_lt.2 (Int.mul_lt_mul_of_pos_right less pos)]
  · rw [Int.compare_eq_eq.2 rfl, Int.compare_eq_eq.2 rfl]
  · rw [Int.compare_eq_gt.2 more, Int.compare_eq_gt.2 (Int.mul_lt_mul_of_pos_right more pos)]

/-- A whole number that has been converted is compared as its nearest double. -/
theorem Magnitude.compare_ofInt (n b : Int) (fits : n.natAbs < 2 ^ 64) :
    (ofFloat (Float.ofInt n)).compare (.ofInt b) = Ord.compare (nearestWhole n) b := by
  obtain ⟨d, pos, place⟩ := ofFloat_ofInt n fits
  rw [place, ofInt, compare, Int.natCast_one, Int.mul_one, compare_mul_right _ _ pos]

end Dossier.Decimal
