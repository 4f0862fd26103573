import Mathlib
import GuardedExpr.Number.Decimal
import GuardedExpr.Proofs.FloatBits

/-!
# Nearest floats

The float of a ratio, and so that of a decimal, is the nearest of all floats to it, and there is only
one such float. Hence the float of a decimal depends on nothing but the number that the decimal
denotes.
-/

namespace GuardedExpr.Number

open Float.Model UnpackedFloat

section Values

variable {q : ℚ} {x y : Float}

/-- The rational number that an unpacked float denotes. Infinity stands for the first power of two
beyond the format, and what is not a number for nothing. -/
def unpackedValue : UnpackedFloat → ℚ
  | .zero _ => 0
  | .finite sign significand exponent _ => sign.apply significand * 2 ^ exponent
  | .infinity sign => sign.apply 1 * 2 ^ 1024
  | .notANumber => 0

/-- The rational number that a float denotes. -/
def value (x : Float) : ℚ :=
  unpackedValue x.toModel.unpack

/-- The significand of the unpacked float is even; zero and infinity count as even. -/
def EvenSignificand : UnpackedFloat → Prop
  | .finite _ significand _ _ => Even significand
  | _ => True

theorem apply_signOf (x : Float) (n : Nat) :
    ((signOf x).apply n : ℚ) = (if isNegative x then -1 else 1) * n := by
  unfold signOf
  split <;> simp [Sign.apply]

theorem value_eq (number : x.isNaN = false) :
    value x = (if isNegative x then -1 else 1) * bitsValue (absBits x) := by
  have within := isNaN_eq_false_iff.mp number
  rw [value, unpack_eq, if_neg (Nat.not_lt.mpr within)]
  split
  · next infinite =>
      have one := apply_signOf x 1
      push_cast at one
      rw [unpackedValue, infinite, bitsValue_infinity, one, mul_one]
  split
  · next zero => rw [unpackedValue, zero, bitsValue_zero, mul_zero]
  · rw [unpackedValue, apply_signOf, bitsValue, Magnitude.value, mul_assoc]

theorem value_of_unsigned (number : x.isNaN = false) (unsigned : isNegative x = false) :
    value x = bitsValue (absBits x) := by
  rw [value_eq number, unsigned]
  simp

theorem even_significand_iff (bits : Nat) :
    Even (Magnitude.ofBits bits).significand ↔ Even bits := by
  obtain ⟨field, significand, rfl, upper, lower⟩ := exists_grid bits
  have leading : Even leadingBit := by decide
  rw [ofBits_grid upper lower, Nat.even_add, iff_true_left (leading.mul_left field)]

theorem evenSignificand_iff (number : x.isNaN = false) :
    EvenSignificand x.toModel.unpack ↔ Even (absBits x) := by
  have within := isNaN_eq_false_iff.mp number
  rw [unpack_eq, if_neg (Nat.not_lt.mpr within)]
  split
  · next infinite =>
      rw [infinite]
      exact iff_of_true trivial (by decide)
  split
  · next zero =>
      rw [zero]
      exact iff_of_true trivial Even.zero
  · exact even_significand_iff _

end Values

/-- **The nearest float** to a number that is not negative: no float is nearer, and if another
magnitude is as near, the significand is even. As infinity stands for the first power of two beyond
the format, it is the nearest float from half a step below that power on. -/
structure Nearest (q : ℚ) (x : Float) : Prop where
  number : x.isNaN = false
  unsigned : isNegative x = false
  near : ∀ y : Float, y.isNaN = false → |value x - q| ≤ |value y - q|
  even : ∀ y : Float, y.isNaN = false → absBits y ≠ absBits x → |value x - q| = |value y - q| →
    EvenSignificand x.toModel.unpack

namespace Nearest

variable {q : ℚ} {x y : Float}

theorem unsigned_le (nonneg : 0 ≤ q) (number : y.isNaN = false) :
    |bitsValue (absBits y) - q| ≤ |value y - q| := by
  have magnitude : 0 ≤ bitsValue (absBits y) := by
    rw [← bitsValue_zero]
    exact bitsValue_strictMono.monotone (Nat.zero_le _)
  rw [value_eq number]
  split
  · rw [neg_one_mul, abs_of_nonpos (show -bitsValue (absBits y) - q ≤ 0 by linarith)]
    exact abs_le.mpr ⟨by linarith, by linarith⟩
  · rw [one_mul]

/-- The bits that a number rounds to are those of its nearest float. -/
theorem of_roundsTo (nonneg : 0 ≤ q) {bits : Nat} (rounds : RoundsTo q bits) :
    Nearest q (Float.ofBits (UInt64.ofNat (min infinityBits bits))) := by
  obtain ⟨magnitude, unsigned⟩ := ofBits_spec (Nat.min_le_left infinityBits bits)
  have number : (Float.ofBits (UInt64.ofNat (min infinityBits bits))).isNaN = false := by
    rw [isNaN_eq_false_iff, magnitude]
    exact Nat.min_le_left _ _
  have point := value_of_unsigned number unsigned
  rw [magnitude] at point
  refine ⟨number, unsigned, fun y number' => ?_, fun y number' other same => ?_⟩
  · have near := rounds.near_of_le (isNaN_eq_false_iff.mp number')
    rw [point]
    exact near.1.trans (unsigned_le nonneg number')
  · have near := rounds.near_of_le (isNaN_eq_false_iff.mp number')
    rw [magnitude] at other
    rw [point] at same
    rw [evenSignificand_iff number, magnitude]
    exact near.2 other (near.1.antisymm (same ▸ unsigned_le nonneg number'))

/-- Of two floats with magnitudes in this order, not both are nearest: they would be equally near
and even, so another float would lie between them, and it would be nearer. -/
theorem not_lt (nearest : Nearest q x) (nearest' : Nearest q y) : ¬ absBits x < absBits y := by
  intro less
  have within := isNaN_eq_false_iff.mp nearest'.number
  have same := (nearest.near y nearest'.number).antisymm (nearest'.near x nearest.number)
  have even := nearest.even y nearest'.number less.ne' same
  have even' := nearest'.even x nearest.number less.ne same.symm
  rw [evenSignificand_iff nearest.number] at even
  rw [evenSignificand_iff nearest'.number] at even'
  have room : absBits x + 1 < absBits y := by
    refine Nat.lt_of_le_of_ne less fun next => ?_
    rw [← next] at even'
    exact Nat.not_even_iff_odd.mpr even.add_one even'
  obtain ⟨magnitude, unsigned⟩ := ofBits_spec (show absBits x + 1 ≤ infinityBits by omega)
  have number : (Float.ofBits (UInt64.ofNat (absBits x + 1))).isNaN = false := by
    rw [isNaN_eq_false_iff, magnitude]
    omega
  have near := nearest.near _ number
  rw [value_of_unsigned number unsigned, magnitude] at near
  rw [value_of_unsigned nearest.number nearest.unsigned] at near same
  rw [value_of_unsigned nearest'.number nearest'.unsigned] at same
  have first := bitsValue_strictMono (Nat.lt_succ_self (absBits x))
  have second := bitsValue_strictMono room
  have middle : 2 * q = bitsValue (absBits x) + bitsValue (absBits y) := by
    rcases abs_eq_abs.mp same with equal | opposite
    · linarith
    · linarith
  rw [abs_of_nonpos (by linarith)] at near
  exact absurd near (not_le.mpr (abs_lt.mpr ⟨by linarith, by linarith⟩))

/-- A number has one nearest float. -/
theorem unique (nearest : Nearest q x) (nearest' : Nearest q y) : x = y := by
  apply eq_of_absBits
  · exact Nat.le_antisymm (Nat.le_of_not_lt (nearest'.not_lt nearest))
      (Nat.le_of_not_lt (nearest.not_lt nearest'))
  · rw [nearest.unsigned, nearest'.unsigned]

end Nearest

theorem nearest_ofRatio {r : Ratio} (proper : 0 < r.den) : Nearest r.value (ofRatio r) := by
  obtain ⟨bits, rounds, found⟩ := exists_roundsTo proper
  have nonneg : 0 ≤ r.value := div_nonneg (Nat.cast_nonneg _) (Nat.cast_nonneg _)
  rw [ofRatio, found]
  exact .of_roundsTo nonneg rounds

/-- Every natural number up to the double of the leading bit is on the grid. -/
theorem exists_bitsValue_eq {n : Nat} (small : n ≤ 2 * leadingBit) :
    ∃ bits ≤ infinityBits, bitsValue bits = n := by
  rcases Nat.eq_zero_or_pos n with rfl | positive
  · exact ⟨0, Nat.zero_le _, by rw [bitsValue_zero, Nat.cast_zero]⟩
  -- so many places are left below the units
  obtain ⟨places, few, upper, lower⟩ : ∃ places ≤ 52,
      n * 2 ^ places ≤ 2 * leadingBit ∧ leadingBit ≤ n * 2 ^ places := by
    have leading : leadingBit = 2 ^ 52 := Nat.pow_eq
    refine ⟨52 - n.log2, Nat.sub_le _ _, ?_, ?_⟩
    · rcases Nat.lt_or_ge 52 n.log2 with large | within
      · rw [Nat.sub_eq_zero_of_le large.le, pow_zero, Nat.mul_one]
        exact small
      · calc n * 2 ^ (52 - n.log2)
            ≤ 2 ^ (n.log2 + 1) * 2 ^ (52 - n.log2) :=
              Nat.mul_le_mul_right _ Nat.lt_log2_self.le
          _ = 2 * leadingBit := by
            rw [← Nat.pow_add, leading, ← Nat.pow_succ']
            congr 1
            omega
    · calc leadingBit ≤ 2 ^ (n.log2 + (52 - n.log2)) := by
            rw [leading]
            exact Nat.pow_le_pow_right Nat.two_pos (by omega)
        _ = 2 ^ n.log2 * 2 ^ (52 - n.log2) := Nat.pow_add ..
        _ ≤ n * 2 ^ (52 - n.log2) :=
            Nat.mul_le_mul_right _ (Nat.log2_self_le positive.ne')
  refine ⟨(1074 - places) * leadingBit + n * 2 ^ places, ?_, ?_⟩
  · have bits : infinityBits = 2047 * leadingBit := rfl
    have fields : (1074 - places) * leadingBit ≤ 1074 * leadingBit :=
      Nat.mul_le_mul_right _ (Nat.sub_le _ _)
    omega
  · have exponent : leastExponent + ((1074 - places : Nat) : Int) = -(places : Int) := by
      unfold leastExponent
      omega
    rw [bitsValue_grid upper (.inr lower), exponent, zpow_neg, zpow_natCast]
    push_cast
    rw [mul_inv_cancel_right₀ (by positivity)]

/-- The float of a natural number is the number itself, as long as a significand can hold it. -/
theorem value_ofNat {n : Nat} (small : n ≤ 2 * leadingBit) : value (ofNat n) = n := by
  obtain ⟨bits, within, found⟩ := exists_bitsValue_eq small
  obtain ⟨magnitude, unsigned⟩ := ofBits_spec within
  have number : (Float.ofBits (UInt64.ofNat bits)).isNaN = false := by
    rw [isNaN_eq_false_iff, magnitude]
    exact within
  have whole : (Ratio.ofNat n).value = n := by
    rw [Ratio.value, Ratio.ofNat, Nat.cast_one, div_one]
  have near := (nearest_ofRatio (r := .ofNat n) Nat.one_pos).near _ number
  rw [value_of_unsigned number unsigned, magnitude, found, whole, sub_self, abs_zero] at near
  exact sub_eq_zero.mp (abs_nonpos_iff.mp near)

section Decimals

variable {d : Decimal}

/-- The rational number that a decimal denotes. -/
def Decimal.value (d : Decimal) : ℚ :=
  d.significand * 10 ^ d.exponent

theorem Decimal.value_nonneg (d : Decimal) : 0 ≤ d.value :=
  mul_nonneg (Nat.cast_nonneg _) (zpow_nonneg (by norm_num) _)

theorem Decimal.den_toRatio_pos (d : Decimal) : 0 < d.toRatio.den :=
  Ratio.den_scale_ofNat_pos d.significand d.exponent (by decide)

theorem Decimal.value_toRatio (d : Decimal) : d.toRatio.value = d.value := by
  rw [Decimal.toRatio, Ratio.value_scale_ofNat _ _ (by decide), Decimal.value, Nat.cast_ofNat]

theorem length_digitsOf_pos (n : Nat) : 0 < (digitsOf n).length :=
  Nat.length_toDigits_pos

theorem length_digitsOf_le_iff {n size : Nat} (positive : 0 < size) :
    (digitsOf n).length ≤ size ↔ n < 10 ^ size :=
  Nat.length_toDigits_le_iff (by decide) positive

/-- A number lies between the powers of ten that its digits count. -/
theorem digitsOf_bounds {n : Nat} (positive : 0 < n) :
    10 ^ ((digitsOf n).length - 1) ≤ n ∧ n < 10 ^ (digitsOf n).length := by
  have nonempty := length_digitsOf_pos n
  refine ⟨?_, (length_digitsOf_le_iff nonempty).mp (Nat.le_refl _)⟩
  by_cases single : (digitsOf n).length = 1
  · rw [single]
    exact positive
  · by_contra below
    have shorter := (length_digitsOf_le_iff (show 0 < (digitsOf n).length - 1 by omega)).mpr
      (Nat.lt_of_not_le below)
    omega

/-- The place of the point of a decimal, counted from its first digit. -/
def Decimal.point (d : Decimal) : Int :=
  (digitsOf d.significand).length + d.exponent

/-- The place of the point of a decimal tells its size. -/
theorem Decimal.value_between (positive : 0 < d.significand) :
    (10 : ℚ) ^ (d.point - 1) ≤ d.value ∧ d.value < 10 ^ d.point := by
  obtain ⟨lower, upper⟩ := digitsOf_bounds positive
  have ten : (10 : ℚ) ≠ 0 := by norm_num
  have unit : (0 : ℚ) < 10 ^ d.exponent := zpow_pos (by norm_num) _
  have nonempty := length_digitsOf_pos d.significand
  unfold Decimal.value Decimal.point
  constructor
  · have parts : ((digitsOf d.significand).length : Int) + d.exponent - 1 =
        (((digitsOf d.significand).length - 1 : Nat) : Int) + d.exponent := by omega
    rw [parts, zpow_add₀ ten, zpow_natCast]
    exact mul_le_mul_of_nonneg_right (by exact_mod_cast lower) unit.le
  · rw [zpow_add₀ ten, zpow_natCast]
    exact mul_lt_mul_of_pos_right (by exact_mod_cast upper) unit

/-- The first power of two beyond the format, and a power of ten beyond that. -/
theorem two_pow_le_ten_zpow : (2 : ℚ) ^ 1024 ≤ 10 ^ (310 : Int) := by
  have large : 2 ^ 1024 ≤ 10 ^ 310 := by decide +kernel
  exact_mod_cast large

/-- A power of ten below half of the least step of the format. -/
theorem two_mul_ten_zpow_le : 2 * (10 : ℚ) ^ (-331 : Int) ≤ 2 ^ leastExponent := by
  have small : 2 ^ 1075 ≤ 10 ^ 331 := by decide +kernel
  have cast : (2 : ℚ) ^ 1075 ≤ 10 ^ 331 := by exact_mod_cast small
  rw [pow_succ] at cast
  change 2 * (10 : ℚ) ^ (-(331 : Nat) : Int) ≤ 2 ^ (-(1074 : Nat) : Int)
  rw [zpow_neg, zpow_neg, zpow_natCast, zpow_natCast, ← div_eq_mul_inv,
    div_le_iff₀ (by positivity), ← div_eq_inv_mul, le_div_iff₀ (by positivity), mul_comm]
  exact cast

theorem Decimal.roundsTo_zero (small : d.significand = 0 ∨ d.point < -330) :
    RoundsTo d.value 0 := by
  apply RoundsTo.zero_of_lt
  rcases Nat.eq_zero_or_pos d.significand with zero | positive
  · rw [Decimal.value, zero, Nat.cast_zero, zero_mul, mul_zero]
    exact zpow_pos (by norm_num) _
  · have low : d.point ≤ -331 := by omega
    calc 2 * d.value < 2 * 10 ^ d.point := by linarith only [(Decimal.value_between positive).2]
      _ ≤ 2 * 10 ^ (-331 : Int) := by
          gcongr
          norm_num
      _ ≤ 2 ^ leastExponent := two_mul_ten_zpow_le

theorem Decimal.infinityBits_le {bits : Nat} (positive : 0 < d.significand)
    (large : 310 < d.point) (rounds : RoundsTo d.value bits) : infinityBits ≤ bits := by
  apply rounds.infinity_le_of_le
  rw [bitsValue_infinity]
  calc (2 : ℚ) ^ 1024 ≤ 10 ^ (310 : Int) := two_pow_le_ten_zpow
    _ ≤ 10 ^ (d.point - 1) := by
        gcongr
        · norm_num
        · omega
    _ ≤ d.value := (Decimal.value_between positive).1

/-- The cases that spare the powers of ten agree with the general one. -/
theorem Decimal.toFloat_eq (d : Decimal) : d.toFloat = ofRatio d.toRatio := by
  obtain ⟨bits, rounds, found⟩ := exists_roundsTo d.den_toRatio_pos
  rw [d.value_toRatio] at rounds
  unfold Decimal.toFloat
  dsimp only
  split
  · next small =>
      simp only [Bool.or_eq_true, decide_eq_true_eq] at small
      rw [ofRatio, found, rounds.unique (Decimal.roundsTo_zero small)]
      rfl
  next nonzero =>
  split
  · next large =>
      have positive : 0 < d.significand := by
        apply Nat.pos_of_ne_zero
        intro zero
        simp [zero] at nonzero
      rw [ofRatio, found, Nat.min_eq_left (Decimal.infinityBits_le positive large rounds)]
  · rfl

/-- **The float of a decimal is the nearest one.** -/
theorem Decimal.nearest_toFloat (d : Decimal) : Nearest d.value d.toFloat := by
  rw [d.toFloat_eq, ← d.value_toRatio]
  exact nearest_ofRatio d.den_toRatio_pos

end Decimals

end GuardedExpr.Number
