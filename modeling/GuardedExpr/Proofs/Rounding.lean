import Mathlib
import GuardedExpr.Number.Decimal

/-!
# Rounding to the grid of binary64

The bits of magnitudes count the points of a grid whose steps are powers of two
that only grow, so a greater number of bits is a greater magnitude. The bits
that are found for a ratio are those of the nearest point, and of two equally
near points those of the even one. Infinity stands for the first power of two
beyond the format: what is nearer to it than to the greatest finite magnitude
goes to infinity.
-/

namespace GuardedExpr.Number

/-- The rational number that a ratio denotes. -/
def Ratio.value (r : Ratio) : ℚ :=
  r.num / r.den

/-- The rational number that a magnitude denotes. -/
def Magnitude.value (m : Magnitude) : ℚ :=
  m.significand * 2 ^ m.exponent

/-- The magnitude that bits without a sign bit denote. -/
def bitsValue (bits : Nat) : ℚ :=
  (Magnitude.ofBits bits).value

section Grid

variable {bits field significand : Nat}

theorem leadingBit_eq : ((leadingBit : Nat) : ℚ) = 2 ^ (52 : Int) := by
  rw [leadingBit, Nat.pow_eq]
  norm_num

theorem ofBits_grid (upper : significand < 2 * leadingBit)
    (lower : field = 0 ∨ leadingBit ≤ significand) :
    Magnitude.ofBits (field * leadingBit + significand) =
      ⟨significand, leastExponent + field⟩ := by
  have positive : 0 < leadingBit := by decide
  unfold Magnitude.ofBits
  rcases Nat.lt_or_ge significand leadingBit with small | large
  · obtain rfl : field = 0 := by omega
    simp only [Nat.zero_mul, Nat.zero_add, Nat.div_eq_of_lt small, ↓reduceIte,
      Nat.mod_eq_of_lt small, Nat.cast_zero, add_zero]
  · obtain ⟨fraction, rfl⟩ := Nat.exists_eq_add_of_le large
    have small : fraction < leadingBit := by omega
    have same : field * leadingBit + (leadingBit + fraction) =
        fraction + (field + 1) * leadingBit := by ring
    have quotient : (fraction + (field + 1) * leadingBit) / leadingBit = field + 1 := by
      rw [Nat.add_mul_div_right _ _ positive, Nat.div_eq_of_lt small, Nat.zero_add]
    simp only [same, quotient, Nat.add_mul_mod_self_right, Nat.mod_eq_of_lt small,
      Nat.add_one_ne_zero, ↓reduceIte, Nat.add_sub_cancel]

/-- All bits are those of a significand on the grid of an exponent. -/
theorem exists_grid (bits : Nat) : ∃ field significand,
    bits = field * leadingBit + significand ∧ significand < 2 * leadingBit ∧
      (field = 0 ∨ leadingBit ≤ significand) := by
  have positive : 0 < leadingBit := by decide
  have below : bits % leadingBit < leadingBit := Nat.mod_lt _ positive
  have split := Nat.div_add_mod' bits leadingBit
  cases field : bits / leadingBit with
  | zero =>
      rw [field] at split
      exact ⟨0, bits % leadingBit, split.symm, by omega, .inl rfl⟩
  | succ k =>
      rw [field, Nat.add_mul, Nat.one_mul, Nat.add_assoc] at split
      exact ⟨k, leadingBit + bits % leadingBit, split.symm, by omega, .inr (by omega)⟩

/-- A significand may also be twice the leading bit: that is the leading bit on the next grid. -/
theorem bitsValue_grid (upper : significand ≤ 2 * leadingBit)
    (lower : field = 0 ∨ leadingBit ≤ significand) :
    bitsValue (field * leadingBit + significand) = significand * 2 ^ (leastExponent + field) := by
  unfold bitsValue Magnitude.value
  rcases Nat.lt_or_eq_of_le upper with inside | rfl
  · rw [ofBits_grid inside lower]
  · have same : field * leadingBit + 2 * leadingBit = (field + 1) * leadingBit + leadingBit := by
      ring
    have next : leastExponent + ((field + 1 : Nat) : Int) = leastExponent + field + 1 := by
      rw [Nat.cast_succ, add_assoc]
    rw [same, ofBits_grid (by decide) (.inr (Nat.le_refl _)), next, zpow_add_one₀ (by norm_num)]
    push_cast
    ring

/-- From one point of the grid to the next it is one unit of the significand. -/
theorem bitsValue_succ (bits : Nat) :
    bitsValue (bits + 1) = bitsValue bits + 2 ^ (Magnitude.ofBits bits).exponent := by
  obtain ⟨field, significand, rfl, upper, lower⟩ := exists_grid bits
  rw [Nat.add_assoc, bitsValue_grid upper (by omega), bitsValue_grid upper.le lower,
    ofBits_grid upper lower]
  push_cast
  ring

theorem bitsValue_strictMono : StrictMono bitsValue := by
  refine strictMono_nat_of_lt_succ fun bits => ?_
  rw [bitsValue_succ]
  exact lt_add_of_pos_right _ (zpow_pos (by norm_num) _)

theorem bitsValue_zero : bitsValue 0 = 0 := by
  have zero : bitsValue (0 * leadingBit + 0) = (0 : Nat) * 2 ^ (leastExponent + (0 : Nat)) :=
    bitsValue_grid (Nat.zero_le _) (.inl rfl)
  simpa using zero

theorem bitsValue_infinity : bitsValue infinityBits = 2 ^ 1024 := by
  have infinity : bitsValue (2046 * leadingBit + leadingBit) =
      leadingBit * 2 ^ (leastExponent + (2046 : Nat)) :=
    bitsValue_grid (by decide) (.inr (Nat.le_refl _))
  have bits : 2046 * leadingBit + leadingBit = infinityBits := by decide
  have exponent : leastExponent + ((2046 : Nat) : Int) = ((972 : Nat) : Int) := by decide
  rw [bits, exponent, leadingBit_eq, zpow_natCast, zpow_ofNat, ← pow_add] at infinity
  exact infinity

end Grid

/-- **Rounding to nearest.** The number lies between the middles of the point with these bits and its
two neighbours, and on a middle only if the bits are even. -/
structure RoundsTo (q : ℚ) (bits : Nat) : Prop where
  below : ∀ lower, lower + 1 = bits → bitsValue lower + bitsValue bits ≤ 2 * q ∧
    (bitsValue lower + bitsValue bits = 2 * q → Even bits)
  above : 2 * q ≤ bitsValue bits + bitsValue (bits + 1) ∧
    (2 * q = bitsValue bits + bitsValue (bits + 1) → Even bits)

namespace RoundsTo

variable {q : ℚ} {bits other : Nat}

/-- A number rounds to one point only. -/
theorem unique (rounds : RoundsTo q bits) (rounds' : RoundsTo q other) : bits = other := by
  have ordered {a b : Nat} (rounds : RoundsTo q a) (rounds' : RoundsTo q b) : ¬ a < b := by
    intro less
    obtain ⟨lower, rfl⟩ : ∃ lower, b = lower + 1 := ⟨b - 1, by omega⟩
    have first := bitsValue_strictMono.monotone (show a ≤ lower by omega)
    have second := bitsValue_strictMono.monotone (show a + 1 ≤ lower + 1 by omega)
    obtain ⟨above, even⟩ := rounds.above
    obtain ⟨below, even'⟩ := rounds'.below lower rfl
    have same : lower = a := bitsValue_strictMono.injective (by linarith)
    have evenA := even (by linarith)
    have evenB := even' (by linarith)
    subst same
    exact Nat.not_even_iff_odd.mpr evenA.add_one evenB
  exact Nat.le_antisymm (Nat.le_of_not_lt (ordered rounds' rounds))
    (Nat.le_of_not_lt (ordered rounds rounds'))

theorem zero_of_lt (small : 2 * q < 2 ^ leastExponent) : RoundsTo q 0 := by
  have least := bitsValue_succ 0
  rw [bitsValue_zero, zero_add] at least
  have exponent : (Magnitude.ofBits 0).exponent = leastExponent := by decide
  rw [exponent] at least
  refine ⟨nofun, ?_, fun _ => Even.zero⟩
  rw [bitsValue_zero, least, zero_add, zero_add]
  exact small.le

theorem infinity_le_of_le (rounds : RoundsTo q bits) (large : bitsValue infinityBits ≤ q) :
    infinityBits ≤ bits := by
  by_contra finite
  have first := bitsValue_strictMono (Nat.lt_of_not_le finite)
  have second := bitsValue_strictMono.monotone (Nat.succ_le_of_lt (Nat.lt_of_not_le finite))
  have above := rounds.above.1
  linarith

/-- No other point is nearer, and if one is as near, then the bits are even. -/
theorem near (rounds : RoundsTo q bits) (other : Nat) :
    |bitsValue bits - q| ≤ |bitsValue other - q| ∧
      (other ≠ bits → |bitsValue bits - q| = |bitsValue other - q| → Even bits) := by
  rcases Nat.lt_trichotomy other bits with less | rfl | greater
  · obtain ⟨lower, rfl⟩ : ∃ lower, bits = lower + 1 := ⟨bits - 1, by omega⟩
    obtain ⟨below, even⟩ := rounds.below lower rfl
    have step := bitsValue_strictMono (Nat.lt_succ_self lower)
    have beyond := bitsValue_strictMono.monotone (show other ≤ lower by omega)
    rw [abs_of_nonpos (show bitsValue other - q ≤ 0 by linarith)]
    refine ⟨abs_le.mpr ⟨by linarith, by linarith⟩, fun _ same => even ?_⟩
    rcases abs_choice (bitsValue (lower + 1) - q) with right | left
    · linarith
    · linarith
  · exact ⟨le_refl _, fun different => absurd rfl different⟩
  · obtain ⟨above, even⟩ := rounds.above
    have step := bitsValue_strictMono (Nat.lt_succ_self bits)
    have beyond := bitsValue_strictMono.monotone (show bits + 1 ≤ other by omega)
    rw [abs_of_nonneg (show 0 ≤ bitsValue other - q by linarith)]
    refine ⟨abs_le.mpr ⟨by linarith, by linarith⟩, fun _ same => even ?_⟩
    rcases abs_choice (bitsValue bits - q) with right | left
    · linarith
    · linarith

/-- Among the points up to infinity, the bits cut at infinity are the nearest ones. -/
theorem near_of_le (rounds : RoundsTo q bits) (within : other ≤ infinityBits) :
    |bitsValue (min infinityBits bits) - q| ≤ |bitsValue other - q| ∧
      (other ≠ min infinityBits bits →
        |bitsValue (min infinityBits bits) - q| = |bitsValue other - q| →
          Even (min infinityBits bits)) := by
  rcases Nat.lt_or_ge infinityBits bits with beyond | finite
  · rw [Nat.min_eq_left beyond.le]
    obtain ⟨lower, rfl⟩ : ∃ lower, bits = lower + 1 := ⟨bits - 1, by omega⟩
    obtain ⟨below, _⟩ := rounds.below lower rfl
    have first := bitsValue_strictMono.monotone (show infinityBits ≤ lower by omega)
    have second := bitsValue_strictMono.monotone beyond.le
    have third := bitsValue_strictMono.monotone within
    rw [abs_of_nonpos (by linarith), abs_of_nonpos (by linarith)]
    exact ⟨by linarith, fun _ _ => by decide⟩
  · rw [Nat.min_eq_right finite]
    exact rounds.near other

/-- Between a point and the next one, the nearer one is the right one, and on the middle the even
one. -/
theorem of_between (lower : bitsValue bits ≤ q) (upper : q < bitsValue (bits + 1)) :
    (2 * q < bitsValue bits + bitsValue (bits + 1) ∨
      2 * q = bitsValue bits + bitsValue (bits + 1) ∧ Even bits → RoundsTo q bits) ∧
    (bitsValue bits + bitsValue (bits + 1) < 2 * q ∨
      2 * q = bitsValue bits + bitsValue (bits + 1) ∧ ¬ Even bits → RoundsTo q (bits + 1)) := by
  constructor
  · intro nearer
    refine ⟨?_, ?_, ?_⟩
    · rintro previous rfl
      have step := bitsValue_strictMono (Nat.lt_succ_self previous)
      exact ⟨by linarith, fun same => by linarith⟩
    · rcases nearer with nearer | ⟨same, _⟩
      · exact nearer.le
      · exact same.le
    · intro same
      rcases nearer with nearer | ⟨_, even⟩
      · exact absurd same nearer.ne
      · exact even
  · intro nearer
    have step := bitsValue_strictMono (Nat.lt_succ_self (bits + 1))
    refine ⟨?_, by linarith, fun same => by linarith⟩
    intro previous same
    obtain rfl : previous = bits := Nat.succ_injective same
    rcases nearer with nearer | ⟨middle, odd⟩
    · exact ⟨nearer.le, fun same => absurd same nearer.ne⟩
    · exact ⟨middle.ge, fun _ => Nat.even_add_one.mpr odd⟩

end RoundsTo

section Ratios

variable {r : Ratio}

theorem Ratio.den_scale_pos {base : Nat} {exponent : Int} (positive : 0 < base)
    (proper : 0 < r.den) : 0 < (r.scale base exponent).den :=
  Nat.mul_pos proper (Nat.pow_pos positive)

theorem Ratio.value_scale {base : Nat} (exponent : Int) (positive : 0 < base) :
    (r.scale base exponent).value = r.value * (base : ℚ) ^ exponent := by
  have nonzero : (base : ℚ) ≠ 0 := by positivity
  have parts : exponent = (exponent.toNat : Int) - ((-exponent).toNat : Int) := by omega
  unfold Ratio.scale Ratio.value
  conv_rhs => rw [parts, zpow_sub₀ nonzero, zpow_natCast, zpow_natCast]
  simp only [Nat.pow_eq]
  push_cast
  rw [mul_div_mul_comm]

theorem Ratio.den_scale_ofNat_pos {base : Nat} (n : Nat) (exponent : Int) (positive : 0 < base) :
    0 < ((Ratio.ofNat n).scale base exponent).den :=
  Ratio.den_scale_pos positive Nat.one_pos

theorem Ratio.value_scale_ofNat {base : Nat} (n : Nat) (exponent : Int) (positive : 0 < base) :
    ((Ratio.ofNat n).scale base exponent).value = n * (base : ℚ) ^ exponent := by
  rw [Ratio.value_scale _ positive, Ratio.value, Ratio.ofNat, Nat.cast_one, div_one]

/-- Rounding to a natural number goes down or up by what is nearer, and on the middle to even. -/
theorem Ratio.round_spec (proper : 0 < r.den) : ∃ floor : Nat,
    (floor : ℚ) ≤ r.value ∧ r.value < floor + 1 ∧
      (r.round = floor ∧ (2 * r.value < 2 * floor + 1 ∨
          2 * r.value = 2 * floor + 1 ∧ Even floor) ∨
        r.round = floor + 1 ∧ (2 * floor + 1 < 2 * r.value ∨
          2 * r.value = 2 * floor + 1 ∧ ¬ Even floor)) := by
  have den : (0 : ℚ) < r.den := by exact_mod_cast proper
  have below : ((r.num % r.den : Nat) : ℚ) < r.den := by exact_mod_cast Nat.mod_lt _ proper
  have parts : r.value = (r.num / r.den : Nat) + ((r.num % r.den : Nat) : ℚ) / r.den := by
    have split : (r.num : ℚ) = r.den * (r.num / r.den : Nat) + (r.num % r.den : Nat) := by
      exact_mod_cast (Nat.div_add_mod r.num r.den).symm
    rw [Ratio.value, split, add_div, mul_div_cancel_left₀ _ den.ne']
  have fraction : ((r.num % r.den : Nat) : ℚ) / r.den < 1 := (div_lt_one den).mpr below
  have nonnegative : (0 : ℚ) ≤ ((r.num % r.den : Nat) : ℚ) / r.den := by positivity
  refine ⟨r.num / r.den, by linarith, by linarith, ?_⟩
  -- Which side of the middle the fraction lies on is decided by twice the remainder.
  have twice : 2 * (((r.num % r.den : Nat) : ℚ) / r.den) =
      ((2 * (r.num % r.den) : Nat) : ℚ) / r.den := by
    push_cast
    ring
  have even : r.num / r.den % 2 = 0 ↔ Even (r.num / r.den) := Nat.even_iff.symm
  unfold Ratio.round
  rcases Nat.lt_trichotomy (2 * (r.num % r.den)) r.den with less | same | greater
  · have side : ((2 * (r.num % r.den) : Nat) : ℚ) / r.den < 1 :=
      (div_lt_one den).mpr (by exact_mod_cast less)
    refine .inl ⟨by simp [less], .inl ?_⟩
    linarith
  · have side : ((2 * (r.num % r.den) : Nat) : ℚ) / r.den = 1 := by
      rw [same]
      exact div_self den.ne'
    by_cases parity : Even (r.num / r.den)
    · refine .inl ⟨by simp [same, even.mpr parity], .inr ⟨?_, parity⟩⟩
      linarith
    · refine .inr ⟨by simp [same, mt even.mp parity], .inr ⟨?_, parity⟩⟩
      linarith
  · have side : 1 < ((2 * (r.num % r.den) : Nat) : ℚ) / r.den :=
      (one_lt_div den).mpr (by exact_mod_cast greater)
    refine .inr ⟨by simp [greater.not_gt, greater.ne'], .inl ?_⟩
    linarith

/-- The logarithms of the two parts of a ratio leave two powers of two for it. -/
theorem Ratio.value_between (positive : 0 < r.num) (proper : 0 < r.den) :
    (2 : ℚ) ^ ((r.num.log2 : Int) - r.den.log2 - 1) ≤ r.value ∧
      r.value < 2 ^ ((r.num.log2 : Int) - r.den.log2 + 1) := by
  have bounds {n : Nat} (nonzero : 0 < n) :
      (2 : ℚ) ^ (n.log2 : Int) ≤ n ∧ (n : ℚ) < 2 ^ ((n.log2 : Int) + 1) := by
    constructor
    · exact_mod_cast Nat.log2_self_le nonzero.ne'
    · exact_mod_cast Nat.lt_log2_self
  have two : (2 : ℚ) ≠ 0 := two_ne_zero
  have den : (0 : ℚ) < r.den := by exact_mod_cast proper
  obtain ⟨lower, upper⟩ := bounds positive
  obtain ⟨lower', upper'⟩ := bounds proper
  unfold Ratio.value
  constructor
  · rw [le_div_iff₀ den]
    calc (2 : ℚ) ^ ((r.num.log2 : Int) - r.den.log2 - 1) * r.den
        ≤ 2 ^ ((r.num.log2 : Int) - r.den.log2 - 1) * 2 ^ ((r.den.log2 : Int) + 1) := by gcongr
      _ = 2 ^ (r.num.log2 : Int) := by
        rw [← zpow_add₀ two]
        congr 1
        ring
      _ ≤ r.num := lower
  · rw [div_lt_iff₀ den]
    calc (r.num : ℚ) < 2 ^ ((r.num.log2 : Int) + 1) := upper
      _ = 2 ^ ((r.num.log2 : Int) - r.den.log2 + 1) * 2 ^ (r.den.log2 : Int) := by
        rw [← zpow_add₀ two]
        congr 1
        ring
      _ ≤ 2 ^ ((r.num.log2 : Int) - r.den.log2 + 1) * r.den := by gcongr

theorem Ratio.one_le_value_iff (proper : 0 < r.den) : 1 ≤ r.value ↔ r.den ≤ r.num := by
  have den : (0 : ℚ) < r.den := by exact_mod_cast proper
  rw [Ratio.value, one_le_div den, Nat.cast_le]

/-- The leading bit of a positive ratio is that of its grid, but for the least grid. -/
theorem exists_gridExponent (positive : 0 < r.num) (proper : 0 < r.den) : ∃ exponent : Int,
    gridExponent r = max leastExponent exponent ∧
      (2 : ℚ) ^ (exponent + 52) ≤ r.value ∧ r.value < 2 ^ (exponent + 53) := by
  have two : (2 : ℚ) ≠ 0 := two_ne_zero
  obtain ⟨lower, upper⟩ := Ratio.value_between positive proper
  unfold gridExponent
  dsimp only
  generalize (r.num.log2 : Int) - r.den.log2 = gap at *
  have leading : (r.scale 2 (-gap)).den ≤ (r.scale 2 (-gap)).num ↔ (2 : ℚ) ^ gap ≤ r.value := by
    rw [← Ratio.one_le_value_iff (Ratio.den_scale_pos (by decide) proper),
      Ratio.value_scale _ (by decide), Nat.cast_ofNat, zpow_neg, ← div_eq_mul_inv,
      one_le_div (zpow_pos (by norm_num) _)]
  by_cases above : (r.scale 2 (-gap)).den ≤ (r.scale 2 (-gap)).num
  · refine ⟨gap - 52, by rw [if_pos above], ?_, ?_⟩
    · rw [sub_add_cancel]
      exact leading.mp above
    · rw [show gap - 52 + 53 = gap + 1 by ring]
      exact upper
  · refine ⟨gap - 53, by rw [if_neg above], ?_, ?_⟩
    · rw [show gap - 53 + 52 = gap - 1 by ring]
      exact lower
    · rw [sub_add_cancel]
      exact not_le.mp (mt leading.mpr above)

/-- On its grid a positive ratio has 53 bits, or fewer on the least grid. -/
theorem gridExponent_spec (positive : 0 < r.num) (proper : 0 < r.den) :
    leastExponent ≤ gridExponent r ∧
      r.value * 2 ^ (-gridExponent r) < 2 * leadingBit ∧
      (gridExponent r = leastExponent ∨ leadingBit ≤ r.value * 2 ^ (-gridExponent r)) := by
  have two : (2 : ℚ) ≠ 0 := two_ne_zero
  obtain ⟨exponent, grid, lower, upper⟩ := exists_gridExponent positive proper
  rw [leadingBit_eq, grid]
  refine ⟨le_max_left _ _, ?_, ?_⟩
  · calc r.value * 2 ^ (-max leastExponent exponent)
        < 2 ^ (exponent + 53) * 2 ^ (-max leastExponent exponent) :=
          mul_lt_mul_of_pos_right upper (zpow_pos (by norm_num) _)
      _ ≤ 2 ^ (exponent + 53) * 2 ^ (-exponent) := by
          gcongr
          · norm_num
          · exact le_max_right _ _
      _ = 2 * 2 ^ (52 : Int) := by
          rw [← zpow_add₀ two, ← zpow_one_add₀ two]
          congr 1
          ring
  · rcases le_total exponent leastExponent with least | greater
    · exact .inl (max_eq_left least)
    · right
      rw [max_eq_right greater]
      calc (2 : ℚ) ^ (52 : Int) = 2 ^ (exponent + 52) * 2 ^ (-exponent) := by
            rw [← zpow_add₀ two]
            congr 1
            ring
        _ ≤ r.value * 2 ^ (-exponent) := by gcongr

/-- A number between two points of the grid of an exponent rounds as it does in units of that
grid. -/
theorem RoundsTo.of_scaled {q scaled : ℚ} {field floor : Nat}
    (value : q = scaled * 2 ^ (leastExponent + (field : Int))) (below : floor ≤ scaled)
    (above : scaled < floor + 1) (inside : floor < 2 * leadingBit)
    (normal : field = 0 ∨ leadingBit ≤ floor) :
    (2 * scaled < 2 * floor + 1 ∨ 2 * scaled = 2 * floor + 1 ∧ Even floor →
      RoundsTo q (field * leadingBit + floor)) ∧
    (2 * floor + 1 < 2 * scaled ∨ 2 * scaled = 2 * floor + 1 ∧ ¬ Even floor →
      RoundsTo q (field * leadingBit + (floor + 1))) := by
  have point := bitsValue_grid inside.le normal
  have next := bitsValue_grid (Nat.succ_le_of_lt inside) (normal.imp_right Nat.le_succ_of_le)
  have even : Even (field * leadingBit + floor) ↔ Even floor := by
    have leading : Even leadingBit := by decide
    rw [Nat.even_add, iff_true_left (leading.mul_left field)]
  have unit : (0 : ℚ) < 2 ^ (leastExponent + (field : Int)) := zpow_pos (by norm_num) _
  generalize (2 : ℚ) ^ (leastExponent + (field : Int)) = step at *
  have between : bitsValue (field * leadingBit + floor) ≤ q →
      q < bitsValue (field * leadingBit + floor + 1) → _ := RoundsTo.of_between
  have twice : 2 * (scaled * step) = 2 * scaled * step := by ring
  have middle : floor * step + ((floor + 1 : Nat) : ℚ) * step = (2 * floor + 1) * step := by
    push_cast
    ring
  rw [Nat.add_assoc, next, point, value, even, twice, middle, Nat.cast_succ] at between
  rw [value]
  obtain ⟨down, up⟩ := between (mul_le_mul_of_nonneg_right below unit.le)
    (mul_lt_mul_of_pos_right above unit)
  constructor
  · exact fun nearer => down (nearer.imp (fun less => mul_lt_mul_of_pos_right less unit)
      fun same => ⟨congrArg (· * step) same.1, same.2⟩)
  · exact fun nearer => up (nearer.imp (fun less => mul_lt_mul_of_pos_right less unit)
      fun same => ⟨congrArg (· * step) same.1, same.2⟩)

/-- **The bits of a ratio are the nearest ones**, cut at infinity. -/
theorem exists_roundsTo (proper : 0 < r.den) :
    ∃ bits, RoundsTo r.value bits ∧ nearestBits r = min infinityBits bits := by
  rcases Nat.eq_zero_or_pos r.num with zero | positive
  · refine ⟨0, .zero_of_lt ?_, ?_⟩
    · rw [Ratio.value, zero, Nat.cast_zero, zero_div, mul_zero]
      exact zpow_pos (by norm_num) _
    · rw [nearestBits, if_pos zero, Nat.min_zero]
  obtain ⟨least, upper, lower⟩ := gridExponent_spec positive proper
  have proper' : 0 < (r.scale 2 (-gridExponent r)).den := Ratio.den_scale_pos (by decide) proper
  obtain ⟨floor, below, above, choice⟩ := Ratio.round_spec proper'
  rw [nearestBits, if_neg positive.ne']
  dsimp only
  generalize (r.scale 2 (-gridExponent r)).round = rounded at *
  rw [Ratio.value_scale _ (by decide), Nat.cast_ofNat] at below above choice
  generalize gridExponent r = exponent at *
  obtain ⟨field, rfl⟩ : ∃ field : Nat, exponent = leastExponent + field :=
    ⟨(exponent - leastExponent).toNat, by omega⟩
  have distance : (leastExponent + (field : Int) - leastExponent).toNat = field := by omega
  have inside : floor < 2 * leadingBit := by exact_mod_cast below.trans_lt upper
  have normal : field = 0 ∨ leadingBit ≤ floor := by
    rcases lower with least | lower
    · exact .inl (by omega)
    · exact .inr (Nat.le_of_lt_succ (by exact_mod_cast lower.trans_lt above))
  have value : r.value = r.value * 2 ^ (-(leastExponent + (field : Int))) *
      2 ^ (leastExponent + (field : Int)) := by
    rw [mul_assoc, ← zpow_add₀ two_ne_zero, neg_add_cancel, zpow_zero, mul_one]
  obtain ⟨down, up⟩ := RoundsTo.of_scaled value below above inside normal
  rw [distance]
  rcases choice with ⟨rfl, nearer⟩ | ⟨rfl, nearer⟩
  · exact ⟨_, down nearer, rfl⟩
  · exact ⟨_, up nearer, rfl⟩

end Ratios

end GuardedExpr.Number
