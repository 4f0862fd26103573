import Mathlib
import GuardedExpr.Proofs.Floats
import GuardedExpr.Proofs.Rounding

/-!
# Bits of floats

A float is its sign bit and the bits of its magnitude, and the magnitude is what the float itself
unpacks to. Whether a float is finite or not a number shows in how its bits compare with those of
infinity; the operations on the sign leave the magnitude as it is.
-/

namespace GuardedExpr.Number

open Float.Model UnpackedFloat

section Bits

variable {x y : Float}

/-- The sign of a float. -/
def signOf (x : Float) : Sign :=
  if isNegative x then .negative else .positive

/-- The word of a float. -/
def wordOf (x : Float) : BitVec 64 :=
  x.toModel.toBits.toBitVec

theorem toNat_unpackMantissa (bits : BitVec 64) :
    (@unpackMantissa .binary64 bits).toNat = bits.toNat % 2 ^ 52 := by
  simp only [unpackMantissa, BitVec.toNat_cast, BitVec.extractLsb_toNat, Nat.shiftRight_zero]

theorem toNat_wordOf (x : Float) : (wordOf x).toNat = x.toBits.toNat := rfl

theorem absBits_eq (x : Float) : absBits x = x.toBits.toNat % 2 ^ 63 := rfl

theorem isNegative_eq (x : Float) : isNegative x = decide (2 ^ 63 ≤ x.toBits.toNat) := rfl

theorem toNat_exponent (x : Float) :
    (@unpackExponent .binary64 (wordOf x)).toNat = absBits x / 2 ^ 52 := by
  rw [toNat_unpackExponent, toNat_wordOf, absBits_eq]
  omega

theorem toNat_mantissa (x : Float) :
    (@unpackMantissa .binary64 (wordOf x)).toNat = absBits x % 2 ^ 52 := by
  rw [toNat_unpackMantissa, toNat_wordOf, absBits_eq]
  omega

theorem sign_word (x : Float) : Sign.ofBitVec (@unpackSign .binary64 (wordOf x)) = signOf x := by
  have bit : (@unpackSign .binary64 (wordOf x)).toNat = x.toBits.toNat / 2 ^ 63 := by
    simp only [unpackSign, BitVec.toNat_cast, BitVec.extractLsb_toNat, Nat.shiftRight_eq_div_pow]
    have below := x.toBits.toNat_lt
    rw [toNat_wordOf]
    omega
  have below := x.toBits.toNat_lt
  have zero : @unpackSign .binary64 (wordOf x) = 0#1 ↔ x.toBits.toNat / 2 ^ 63 = 0 := by
    rw [← BitVec.toNat_inj, bit]
    rfl
  have positive : x.toBits.toNat / 2 ^ 63 = 0 ↔ ¬ 2 ^ 63 ≤ x.toBits.toNat := by omega
  unfold signOf Sign.ofBitVec
  simp only [isNegative_eq, zero, positive, decide_eq_true_eq, ite_not]

theorem significand_pos {bits : Nat} (nonzero : bits ≠ 0) :
    0 < (Magnitude.ofBits bits).significand := by
  obtain ⟨field, significand, rfl, upper, lower⟩ := exists_grid bits
  rw [ofBits_grid upper lower]
  rcases lower with rfl | normal
  · simpa [Nat.pos_iff_ne_zero] using nonzero
  · exact Nat.lt_of_lt_of_le (by decide) normal

theorem toNat_normal (x : Float) : (1#1 ++ @unpackMantissa .binary64 (wordOf x)).toNat =
    2 ^ 52 + absBits x % 2 ^ 52 := by
  have below : (@unpackMantissa .binary64 (wordOf x)).toNat < 2 ^ 52 := BitVec.isLt _
  rw [BitVec.toNat_append, ← Nat.shiftLeft_add_eq_or_of_lt below, toNat_mantissa]
  rfl

/-- A float read off its bits. -/
theorem unpack_eq (x : Float) : x.toModel.unpack =
    if infinityBits < absBits x then .notANumber
    else if absBits x = infinityBits then .infinity (signOf x)
    else if zero : absBits x = 0 then .zero (signOf x)
    else .finite (signOf x) (Magnitude.ofBits (absBits x)).significand
      (Magnitude.ofBits (absBits x)).exponent (significand_pos zero) := by
  have below : absBits x < 2 ^ 63 := Nat.mod_lt _ (by decide)
  have infinity : infinityBits = 2047 * 2 ^ 52 := infinityBits_eq
  have bias : ((Format.exponentBias .binary64 : Nat) : Int) = 1023 := rfl
  have full : @unpackExponent .binary64 (wordOf x) = -1#11 ↔ absBits x / 2 ^ 52 = 2047 := by
    rw [← BitVec.toNat_inj, toNat_exponent]
    rfl
  have least : @unpackExponent .binary64 (wordOf x) = 0#11 ↔ absBits x / 2 ^ 52 = 0 := by
    rw [← BitVec.toNat_inj, toNat_exponent]
    rfl
  have whole : @unpackMantissa .binary64 (wordOf x) = 0#52 ↔ absBits x % 2 ^ 52 = 0 := by
    rw [← BitVec.toNat_inj, toNat_mantissa]
    rfl
  have decoded : Magnitude.ofBits (absBits x) =
      if absBits x / 2 ^ 52 = 0 then ⟨absBits x % 2 ^ 52, -1074⟩
      else ⟨2 ^ 52 + absBits x % 2 ^ 52, -1074 + (absBits x / 2 ^ 52 - 1 : Nat)⟩ := rfl
  change UnpackedFloat.unpack .binary64 (wordOf x) = _
  unfold UnpackedFloat.unpack
  dsimp only
  rw [sign_word]
  by_cases overflow : absBits x / 2 ^ 52 = 2047
  · rw [if_pos (full.mpr overflow)]
    by_cases zero : absBits x % 2 ^ 52 = 0
    · rw [if_pos (whole.mpr zero), if_neg (by omega), if_pos (by omega)]
    · rw [if_neg (mt whole.mp zero), if_pos (by omega)]
  rw [if_neg (mt full.mp overflow), if_neg (show ¬ infinityBits < absBits x by omega),
    if_neg (show ¬ absBits x = infinityBits by omega)]
  by_cases small : absBits x / 2 ^ 52 = 0
  · rw [if_pos (least.mpr small)]
    rw [if_pos small] at decoded
    by_cases zero : absBits x % 2 ^ 52 = 0
    · rw [dif_pos (whole.mpr zero), dif_pos (by omega)]
    · rw [dif_neg (mt whole.mp zero), dif_neg (by omega)]
      simp only [finite.injEq, true_and, toNat_mantissa, toNat_exponent, decoded, bias]
      omega
  · rw [if_neg (mt least.mp small), dif_neg (by omega)]
    rw [if_neg small] at decoded
    simp only [finite.injEq, true_and, toNat_exponent, decoded, bias]
    refine ⟨toNat_normal x, ?_⟩
    omega

theorem isNaN_iff : x.isNaN = true ↔ infinityBits < absBits x := by
  change x.toModel.unpack.isNaN = true ↔ _
  rw [unpack_eq]
  split
  · next above => exact iff_of_true rfl above
  · next within =>
      refine iff_of_false ?_ within
      split
      · exact nofun
      · split <;> exact nofun

theorem isNaN_eq_false_iff : x.isNaN = false ↔ absBits x ≤ infinityBits := by
  rw [← Bool.not_eq_true, isNaN_iff, Nat.not_lt]

theorem isFinite_iff : x.isFinite = true ↔ absBits x < infinityBits := by
  change x.toModel.unpack.isFinite = true ↔ _
  rw [unpack_eq]
  split
  · next above => exact iff_of_false nofun (Nat.not_lt.mpr above.le)
  · next within =>
      split
      · next same => exact iff_of_false nofun (Nat.not_lt.mpr same.ge)
      · next other =>
          refine iff_of_true ?_ (Nat.lt_of_le_of_ne (Nat.le_of_not_lt within) other)
          split <;> rfl

theorem toNat_toBits (x : Float) :
    x.toBits.toNat = absBits x + if isNegative x then 2 ^ 63 else 0 := by
  have below := x.toBits.toNat_lt
  rw [absBits_eq, isNegative_eq]
  simp only [decide_eq_true_eq]
  split <;> omega

/-- A float is its sign and its magnitude. -/
theorem eq_of_absBits (magnitude : absBits x = absBits y) (sign : isNegative x = isNegative y) :
    x = y := by
  rw [← Float.toBits_inj, ← UInt64.toNat_inj, toNat_toBits, toNat_toBits, magnitude, sign]

theorem toBits_ofBits {word : UInt64} (number : word.toNat % 2 ^ 63 ≤ infinityBits) :
    (Float.ofBits word).toBits = word := by
  have infinity : infinityBits = 2047 * 2 ^ 52 := infinityBits_eq
  have notNaN : ¬ @isNaNBits .binary64 word.toBitVec = true := by
    intro nan
    obtain ⟨full, part⟩ := of_decide_eq_true nan
    have field := congrArg BitVec.toNat full
    have fraction : (@unpackMantissa .binary64 word.toBitVec).toNat ≠ 0 := fun zero =>
      part (BitVec.toNat_inj.mp zero)
    rw [toNat_unpackExponent] at field
    rw [toNat_unpackMantissa] at fraction
    change word.toNat / 2 ^ 52 % 2 ^ 11 = 2047 at field
    change word.toNat % 2 ^ 52 ≠ 0 at fraction
    omega
  have packed := @pack_unpack .binary64 word.toBitVec
  rw [if_neg notNaN] at packed
  change UInt64.ofBitVec (UnpackedFloat.pack .binary64 (UnpackedFloat.unpack .binary64
    word.toBitVec)) = word
  rw [packed]

theorem ofBits_spec {bits : Nat} (number : bits ≤ infinityBits) :
    absBits (Float.ofBits (UInt64.ofNat bits)) = bits ∧
      isNegative (Float.ofBits (UInt64.ofNat bits)) = false := by
  have infinity : infinityBits = 2047 * 2 ^ 52 := infinityBits_eq
  have word : (UInt64.ofNat bits).toNat = bits := by
    rw [UInt64.toNat_ofNat', Nat.mod_eq_of_lt (by omega)]
  have back := toBits_ofBits (show (UInt64.ofNat bits).toNat % 2 ^ 63 ≤ infinityBits by omega)
  rw [absBits_eq, isNegative_eq, back, word, decide_eq_false_iff_not]
  omega

/-- Every float but a NaN is what is packed from its parts. -/
theorem ofModel_pack_unpack (x : Float) : Float.ofModel (Float.Model.pack x.toModel.unpack) = x :=
  Float.ofBits_toBits x

theorem neg_eq (magnitude : absBits y = absBits x) (sign : isNegative y = !isNegative x) :
    -x = y := by
  have signs : signOf y = -signOf x := by
    unfold signOf
    rw [sign]
    cases isNegative x <;> rfl
  have unpacked : y.toModel.unpack = x.toModel.unpack.neg := by
    rw [unpack_eq, unpack_eq]
    simp only [magnitude, signs]
    split
    · rfl
    split
    · rfl
    split <;> rfl
  rw [← ofModel_pack_unpack y, unpacked]
  rfl

theorem abs_eq (magnitude : absBits y = absBits x) (sign : isNegative y = false) : x.abs = y := by
  have signs : signOf y = .positive := by
    unfold signOf
    rw [sign]
    rfl
  have unpacked : y.toModel.unpack = x.toModel.unpack.abs := by
    rw [unpack_eq, unpack_eq]
    simp only [magnitude, signs]
    split
    · rfl
    split
    · rfl
    split <;> rfl
  rw [← ofModel_pack_unpack y, unpacked]
  rfl

end Bits

end GuardedExpr.Number
