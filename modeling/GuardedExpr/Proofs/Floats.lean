import Mathlib
import GuardedExpr.Number.Binary

/-!
# Floats

Equality of floats is reflexive but at NaN, symmetric and transitive: floats are equal when they
have the same parts, or are both zero. So equal floats are one float, but for the sign of zero.
Integers of 64 bits are finite as floats, because the nearest float of a ratio has an exponent not
far above that of the ratio.
-/

namespace GuardedExpr.Number

open Float.Model UnpackedFloat

section Equality

theorem compare_sign_eq_iff (s t : Sign) : compare s t = .eq ↔ s = t := by
  cases s <;> cases t <;> simp [compare]

/-- The unpacked floats are the same, or both zero. -/
def SameNumber (a b : UnpackedFloat) : Prop :=
  a = b ∨ ∃ s t, a = .zero s ∧ b = .zero t

theorem SameNumber.symm {a b : UnpackedFloat} (same : SameNumber a b) : SameNumber b a := by
  rcases same with same | ⟨s, t, zero, zero'⟩
  · exact .inl same.symm
  · exact .inr ⟨t, s, zero', zero⟩

theorem SameNumber.trans {a b c : UnpackedFloat} (first : SameNumber a b)
    (second : SameNumber b c) : SameNumber a c := by
  rcases first with rfl | ⟨s, t, zero, zero'⟩
  · exact second
  · rcases second with rfl | ⟨_, u, _, zero''⟩
    · exact .inr ⟨s, t, zero, zero'⟩
    · exact .inr ⟨s, u, zero, zero''⟩

theorem SameNumber.isNaN_eq {a b : UnpackedFloat} (same : SameNumber a b) :
    a.isNaN = b.isNaN := by
  rcases same with rfl | ⟨s, t, rfl, rfl⟩
  · rfl
  · rfl

/-- Unpacked floats are equal when they are the same or both zero; a NaN equals nothing. -/
theorem compare_eq_eq_iff (a b : UnpackedFloat) :
    a.compare b = some .eq ↔ a.isNaN = false ∧ SameNumber a b := by
  unfold SameNumber
  cases a with
  | notANumber => simp [UnpackedFloat.compare, UnpackedFloat.isNaN]
  | infinity s =>
      cases b with
      | infinity t => simp [UnpackedFloat.compare, UnpackedFloat.isNaN, compare_sign_eq_iff]
      | _ => cases s <;> simp [UnpackedFloat.compare]
  | zero s =>
      cases b with
      | notANumber => simp [UnpackedFloat.compare]
      | zero t => simp [UnpackedFloat.compare, UnpackedFloat.isNaN]
      | infinity t | finite t _ _ _ => cases t <;> simp [UnpackedFloat.compare]
  | finite s m e _ =>
      cases b with
      | notANumber => cases s <;> simp [UnpackedFloat.compare]
      | zero t => cases s <;> simp [UnpackedFloat.compare]
      | infinity t => cases s <;> cases t <;> simp [UnpackedFloat.compare]
      | finite t n f _ =>
          cases s <;> cases t <;>
            simp [UnpackedFloat.compare, UnpackedFloat.isNaN, Ordering.then_eq_eq, and_comm]

theorem beq_iff {x y : Float} : (x == y) = true ↔
    x.isNaN = false ∧ SameNumber x.toModel.unpack y.toModel.unpack := by
  change (x.toModel.unpack.compare y.toModel.unpack == some .eq) = true ↔ _
  rw [beq_iff_eq, compare_eq_eq_iff]
  rfl

theorem beq_self {x : Float} (number : x.isNaN = false) : (x == x) = true :=
  beq_iff.mpr ⟨number, .inl rfl⟩

theorem beq_symm {x y : Float} (equal : (x == y) = true) : (y == x) = true := by
  obtain ⟨number, same⟩ := beq_iff.mp equal
  exact beq_iff.mpr ⟨same.isNaN_eq.symm.trans number, same.symm⟩

theorem beq_trans {x y z : Float} (first : (x == y) = true) (second : (y == z) = true) :
    (x == z) = true := by
  obtain ⟨number, same⟩ := beq_iff.mp first
  exact beq_iff.mpr ⟨number, same.trans (beq_iff.mp second).2⟩

/-- The numbers are equal, or neither is a number. -/
def Agree (x y : Float) : Prop :=
  (x == y) = true ∨ x.isNaN = true ∧ y.isNaN = true

theorem Agree.refl (x : Float) : Agree x x := by
  cases number : x.isNaN with
  | false => exact .inl (beq_self number)
  | true => exact .inr ⟨number, number⟩

theorem eq_of_bits {x y : Float}
    (same : x.toModel.toBits.toBitVec = y.toModel.toBits.toBitVec) : x = y := by
  obtain ⟨⟨bits, valid⟩⟩ := x
  obtain ⟨⟨bits', valid'⟩⟩ := y
  obtain rfl : bits = bits' := UInt64.toBitVec_inj.mp same
  rfl

/-- Equal numbers are one number, or zeros. -/
theorem eq_or_zeros_of_beq {x y : Float} (equal : (x == y) = true) :
    x = y ∨ (x = 0.0 ∨ x = -0.0) ∧ (y = 0.0 ∨ y = -0.0) := by
  have unpacked : x.toModel.unpack.beq y.toModel.unpack = true := equal
  have valid : Format.binary64.Valid x.toModel.toBits.toBitVec := x.toModel.valid
  obtain ⟨_, _, same | ⟨zero, zero'⟩ | ⟨zero, zero'⟩⟩ :=
    (unpack_beq_unpack_iff valid y.toModel.valid).mp unpacked
  · exact .inl (eq_of_bits same)
  · exact .inr ⟨.inl (eq_of_bits zero), .inr (eq_of_bits zero')⟩
  · exact .inr ⟨.inr (eq_of_bits zero), .inl (eq_of_bits zero')⟩

/-- What zeros have in common, equal numbers have in common. -/
theorem eq_of_beq {α : Type} (f : Float → α) (zeros : f 0.0 = f (-0.0)) {x y : Float}
    (equal : (x == y) = true) : f x = f y := by
  rcases eq_or_zeros_of_beq equal with rfl | ⟨rfl | rfl, rfl | rfl⟩
  · rfl
  · rfl
  · exact zeros
  · exact zeros.symm
  · rfl

end Equality

section Finite

/-- The exponent of the unpacked float is within the format. -/
def InRange : UnpackedFloat → Prop
  | .zero _ => True
  | .finite _ _ e _ => (e + 1075).toNat + 1 < 2048
  | .infinity _ | .notANumber => False

theorem InRange.isFinite {a : UnpackedFloat} (inRange : InRange a) : a.isFinite = true := by
  cases a with
  | zero _ => rfl
  | finite _ _ _ _ => rfl
  | infinity _ => exact inRange.elim
  | notANumber => exact inRange.elim

theorem InRange.neg {a : UnpackedFloat} (inRange : InRange a) : InRange a.neg := by
  cases a with
  | zero _ => trivial
  | finite _ _ _ _ => exact inRange
  | infinity _ => exact inRange.elim
  | notANumber => exact inRange.elim

/-- Bits whose exponent field is not full unpack to a finite float. -/
theorem inRange_unpack {bits : BitVec 64}
    (notFull : @unpackExponent .binary64 bits ≠ -1#11) :
    InRange (unpack .binary64 bits) := by
  have field : (@unpackExponent .binary64 bits).toNat < 2047 := by
    have below : (@unpackExponent .binary64 bits).toNat < 2048 := BitVec.isLt _
    have other : (@unpackExponent .binary64 bits).toNat ≠ 2047 := fun full =>
      notFull (BitVec.eq_of_toNat_eq full)
    omega
  have bias : ((Format.exponentBias .binary64 : Nat) : Int) = 1023 := rfl
  simp only [UnpackedFloat.unpack, if_neg notFull]
  split
  · split
    · trivial
    · next zero _ =>
      simp only [InRange, bias, zero]
      decide
  · simp only [InRange, bias]
    omega

/-- The exponent field of a packed finite float is not full. -/
theorem unpackExponent_pack {a : UnpackedFloat} (inRange : InRange a) :
    unpackExponent (pack .binary64 a) ≠ -1#11 := by
  have small (n : Nat) (below : n + 1 < 2048) : BitVec.ofNat 11 n ≠ -1#11 := by
    intro full
    have same := congrArg BitVec.toNat full
    rw [BitVec.toNat_ofNat, Nat.mod_eq_of_lt (by omega)] at same
    have : (-1#11).toNat = 2047 := by decide
    omega
  cases a with
  | zero s =>
    simp only [UnpackedFloat.pack, packedZero]
    rw [unpackExponent_packComponents]
    decide
  | finite s m e pos =>
    have bias : (e + (Format.exponentBias .binary64 : Nat) + (52 : Nat)).toNat =
        (e + 1075).toNat := by
      have : ((Format.exponentBias .binary64 : Nat) : Int) = 1023 := rfl
      omega
    have inRange : (e + 1075).toNat + 1 < 2048 := inRange
    simp only [UnpackedFloat.pack, bias]
    rw [if_neg (by omega)]
    split
    · rw [unpackExponent_packComponents]
      exact small _ inRange
    · rw [unpackExponent_packComponents]
      decide
  | infinity _ => exact inRange.elim
  | notANumber => exact inRange.elim

/-- Packing keeps a float finite. -/
theorem inRange_pack {a : UnpackedFloat} (inRange : InRange a) :
    InRange (Float.Model.pack a).unpack :=
  inRange_unpack (unpackExponent_pack inRange)

theorem toNat_unpackExponent (bits : BitVec 64) :
    (@unpackExponent .binary64 bits).toNat = bits.toNat / 2 ^ 52 % 2 ^ 11 := by
  simp only [unpackExponent, BitVec.toNat_cast, BitVec.extractLsb_toNat, Nat.shiftRight_eq_div_pow]

theorem infinityBits_eq : infinityBits = 2047 * 2 ^ 52 := by decide

theorem inRange_ofBits {bits : Nat} (below : bits < infinityBits) :
    InRange (Float.ofBits (UInt64.ofNat bits)).toModel.unpack := by
  apply inRange_pack
  apply inRange_unpack
  intro full
  have field := congrArg BitVec.toNat full
  have value : (UInt64.ofNat bits).toBitVec.toNat = bits := by
    change (UInt64.ofNat bits).toNat = bits
    rw [infinityBits_eq] at below
    rw [UInt64.toNat_ofNat', Nat.mod_eq_of_lt (by omega)]
  have all : (-1#11).toNat = 2047 := by decide
  rw [toNat_unpackExponent, value, all] at field
  rw [infinityBits_eq] at below
  omega

theorem Ratio.round_le (r : Ratio) : r.round ≤ r.num / r.den + 1 := by
  unfold Ratio.round
  dsimp only
  split <;> omega

theorem gridExponent_ofNat (n : Nat) :
    gridExponent (.ofNat n) = n.log2 - 52 ∨ gridExponent (.ofNat n) = n.log2 - 53 := by
  have one : Nat.log2 1 = 0 := by decide
  have least : leastExponent = -1074 := rfl
  unfold gridExponent
  simp only [Ratio.ofNat, one, least]
  split <;> omega

/-- On its grid a natural number has at most 54 bits. -/
theorem round_scale_ofNat_le (n : Nat) :
    ((Ratio.ofNat n).scale 2 (-gridExponent (.ofNat n))).round ≤ 2 ^ 54 := by
  have grid := gridExponent_ofNat n
  generalize gridExponent (.ofNat n) = e at grid ⊢
  have scaled : n * 2 ^ (-e).toNat < 2 ^ e.toNat * 2 ^ 54 := by
    calc n * 2 ^ (-e).toNat
        < 2 ^ (n.log2 + 1) * 2 ^ (-e).toNat :=
          Nat.mul_lt_mul_of_pos_right Nat.lt_log2_self (Nat.two_pow_pos _)
      _ = 2 ^ (n.log2 + 1 + (-e).toNat) := (Nat.pow_add _ _ _).symm
      _ ≤ 2 ^ (e.toNat + 54) := Nat.pow_le_pow_right (by decide) (by omega)
      _ = _ := Nat.pow_add _ _ _
  have quotient : n * 2 ^ (-e).toNat / (1 * 2 ^ (- -e).toNat) < 2 ^ 54 := by
    rw [Nat.one_mul, Int.neg_neg]
    exact Nat.div_lt_of_lt_mul scaled
  exact Nat.le_trans (Ratio.round_le _) quotient

/-- The nearest float of a natural number of 64 bits is below infinity. -/
theorem nearestBits_lt {n : Nat} (small : n < 2 ^ 64) :
    nearestBits (.ofNat n) < infinityBits := by
  by_cases zero : n = 0
  · subst zero
    decide
  have leading : leadingBit = 2 ^ 52 := rfl
  have least : leastExponent = -1074 := rfl
  have log : n.log2 < 64 := (Nat.log2_lt zero).mpr small
  have grid := gridExponent_ofNat n
  have significand := round_scale_ofNat_le n
  unfold nearestBits
  rw [if_neg (show (Ratio.ofNat n).num ≠ 0 from zero)]
  refine Nat.lt_of_le_of_lt (Nat.min_le_right _ _) ?_
  rw [infinityBits_eq, leading, least]
  omega

theorem isFinite_ofInt {n : Int} (small : n.natAbs < 2 ^ 64) : (ofInt n).isFinite = true := by
  have inRange : InRange (ofNat n.natAbs).toModel.unpack := inRange_ofBits (nearestBits_lt small)
  unfold ofInt
  split
  · exact (inRange_pack inRange.neg).isFinite
  · exact inRange.isFinite

end Finite

end GuardedExpr.Number
