import Mathlib
import GuardedExpr.Number.Shortest
import GuardedExpr.Proofs.Nearest

/-!
# Shortest decimals

The interval of a magnitude holds exactly the numbers that round to it, and a
decimal grid has a point in it exactly if one of the two neighbours of the
magnitude lies in it. So the first grid that decides gives a decimal that rounds
to the magnitude, and none with fewer digits does: it would be a point of an
earlier grid, or else a power of ten of the first one would lie between.
-/

namespace GuardedExpr.Number

/-- **The decimal is shortest** for these bits: it rounds to them, it has no trailing zeros, and no
decimal that rounds to them has fewer digits. -/
structure Shortest (bits : Nat) (d : Decimal) : Prop where
  rounds : RoundsTo d.value bits
  trimmed : d.significand % 10 ≠ 0
  fewest : ∀ d' : Decimal, RoundsTo d'.value bits →
    (digitsOf d.significand).length ≤ (digitsOf d'.significand).length

section Interval

variable {p q r : ℚ} {i : RoundingInterval}

/-- The number lies in the interval. -/
def RoundingInterval.Contains (i : RoundingInterval) (q : ℚ) : Prop :=
  if i.closed then i.low ≤ q * i.den ∧ q * i.den ≤ i.high
  else i.low < q * i.den ∧ q * i.den < i.high

theorem RoundingInterval.Contains.between (lower : i.Contains p) (upper : i.Contains r)
    (first : p ≤ q) (second : q ≤ r) : i.Contains q := by
  have first : p * i.den ≤ q * i.den := by gcongr
  have second : q * i.den ≤ r * i.den := by gcongr
  unfold RoundingInterval.Contains at *
  split
  · next closed =>
      rw [if_pos closed] at lower upper
      exact ⟨lower.1.trans first, second.trans upper.2⟩
  · next opened =>
      rw [if_neg opened] at lower upper
      exact ⟨lower.1.trans_le first, second.trans_lt upper.2⟩

end Interval

section Rounding

variable {q : ℚ} {bits field significand : Nat}

/-- What lies strictly between the middles rounds to the point. -/
theorem RoundsTo.of_lt (below : ∀ lower, lower + 1 = bits → bitsValue lower + bitsValue bits < 2 * q)
    (above : 2 * q < bitsValue bits + bitsValue (bits + 1)) : RoundsTo q bits :=
  ⟨fun lower next => ⟨(below lower next).le, fun same => absurd same (below lower next).ne⟩,
    above.le, fun same => absurd same above.ne⟩

/-- A number rounds to a point if it lies between two middles, which belong to even bits. -/
theorem roundsTo_succ_iff {lower : Nat} : RoundsTo q (lower + 1) ↔
    if Even (lower + 1) then
      bitsValue lower + bitsValue (lower + 1) ≤ 2 * q ∧
        2 * q ≤ bitsValue (lower + 1) + bitsValue (lower + 1 + 1)
    else bitsValue lower + bitsValue (lower + 1) < 2 * q ∧
      2 * q < bitsValue (lower + 1) + bitsValue (lower + 1 + 1) := by
  constructor
  · intro rounds
    obtain ⟨below, even⟩ := rounds.below lower rfl
    obtain ⟨above, even'⟩ := rounds.above
    split
    · exact ⟨below, above⟩
    · next odd => exact ⟨below.lt_of_ne (mt even odd), above.lt_of_ne (mt even' odd)⟩
  · intro between
    split at between
    · next even =>
        refine ⟨fun _ next => ?_, between.2, fun _ => even⟩
        obtain rfl := Nat.succ_injective next
        exact ⟨between.1, fun _ => even⟩
    · refine RoundsTo.of_lt (fun _ next => ?_) between.2
      obtain rfl := Nat.succ_injective next
      exact between.1

/-- The step to a point is that of its own grid, but half of it where the grid begins. -/
theorem exponent_pred {lower : Nat} (next : lower + 1 = field * leadingBit + significand)
    (upper : significand < 2 * leadingBit) (normal : field = 0 ∨ leadingBit ≤ significand) :
    (Magnitude.ofBits lower).exponent =
      leastExponent + field - if significand = leadingBit ∧ 0 < field then 1 else 0 := by
  have positive : 0 < leadingBit := by decide
  split
  · next step =>
      obtain ⟨rfl, nonzero⟩ := step
      obtain ⟨k, rfl⟩ := Nat.exists_eq_add_of_lt nonzero
      have same : lower = k * leadingBit + (2 * leadingBit - 1) := by
        have parts : (0 + k + 1) * leadingBit = k * leadingBit + leadingBit := by ring
        omega
      rw [same, ofBits_grid (by omega) (by omega)]
      push_cast
      ring
  · next inside =>
      have nonzero : 0 < significand := by
        rcases normal with rfl | normal
        · omega
        · omega
      have same : lower = field * leadingBit + (significand - 1) := by omega
      rw [same, ofBits_grid (by omega) (by omega), sub_zero]

end Rounding

section Contents

variable {q : ℚ} {bits : Nat}

/-- The middles around a point, in quarters of its step. -/
theorem middles_eq {lower field significand : Nat}
    (next : lower + 1 = field * leadingBit + significand) (upper : significand < 2 * leadingBit)
    (normal : field = 0 ∨ leadingBit ≤ significand) :
    bitsValue lower + bitsValue (lower + 1) =
        2 * (((4 * significand - if significand = leadingBit ∧ 0 < field then 1 else 2 : Nat) : ℚ) *
          2 ^ (leastExponent + (field : Int) - 2)) ∧
      bitsValue (lower + 1) + bitsValue (lower + 1 + 1) =
        2 * (((4 * significand + 2 : Nat) : ℚ) * 2 ^ (leastExponent + (field : Int) - 2)) := by
  have two : (2 : ℚ) ≠ 0 := two_ne_zero
  have down := bitsValue_succ lower
  have up := bitsValue_succ (lower + 1)
  have point := bitsValue_grid upper.le normal
  rw [exponent_pred next upper normal] at down
  rw [next, ofBits_grid upper normal] at up
  rw [← next] at up point
  have nonzero : 0 < significand := by
    have positive : 0 < leadingBit := by decide
    rcases normal with rfl | normal
    · omega
    · omega
  have step : (2 : ℚ) ^ (leastExponent + (field : Int)) =
      4 * 2 ^ (leastExponent + (field : Int) - 2) := by
    rw [zpow_sub₀ two]
    norm_num
    ring
  have half : (2 : ℚ) ^ (leastExponent + (field : Int) - 1) =
      2 * 2 ^ (leastExponent + (field : Int) - 2) := by
    rw [zpow_sub₀ two, zpow_sub₀ two]
    norm_num
    ring
  rw [step] at point up
  split_ifs at down ⊢
  · rw [half] at down
    rw [Nat.cast_sub (by omega)]
    push_cast
    constructor <;> linarith
  · rw [sub_zero, step] at down
    rw [Nat.cast_sub (by omega)]
    push_cast
    constructor <;> linarith

/-- **The interval of a magnitude** holds what rounds to it. -/
theorem contains_interval_iff (positive : 0 < bits) :
    (Magnitude.ofBits bits).interval.Contains q ↔ RoundsTo q bits := by
  obtain ⟨lower, rfl⟩ : ∃ lower, bits = lower + 1 := ⟨bits - 1, by omega⟩
  have even := even_significand_iff (lower + 1)
  obtain ⟨field, significand, same, upper, normal⟩ := exists_grid (lower + 1)
  obtain ⟨down, up⟩ := middles_eq same upper normal
  rw [same, ofBits_grid upper normal, ← same] at even
  rw [roundsTo_succ_iff, down, up, same, ofBits_grid upper normal, ← same]
  unfold Magnitude.interval RoundingInterval.Contains
  dsimp only
  set quarter := (Ratio.ofNat 1).scale 2 (leastExponent + (field : Int) - 2) with quarter_eq
  have den : (0 : ℚ) < quarter.den := by
    exact_mod_cast Ratio.den_scale_ofNat_pos 1 _ (by decide)
  have value : quarter.value = 2 ^ (leastExponent + (field : Int) - 2) := by
    rw [quarter_eq, Ratio.value_scale_ofNat _ _ (by decide), Nat.cast_one, one_mul, Nat.cast_ofNat]
  have step : (significand == leadingBit && decide (leastExponent < leastExponent + (field : Int))) =
      true ↔ significand = leadingBit ∧ 0 < field := by
    simp
  have closed : (significand % 2 == 0) = true ↔ Even (lower + 1) := by
    rw [beq_iff_eq, ← Nat.even_iff, even]
  have le (a : Nat) : ((a * quarter.num : Nat) : ℚ) ≤ q * quarter.den ↔
      2 * (a * quarter.value) ≤ 2 * q := by
    rw [mul_le_mul_iff_right₀ (by norm_num), Ratio.value, ← mul_div_assoc, div_le_iff₀ den,
      Nat.cast_mul]
  have lt (a : Nat) : ((a * quarter.num : Nat) : ℚ) < q * quarter.den ↔
      2 * (a * quarter.value) < 2 * q := by
    rw [mul_lt_mul_iff_right₀ (by norm_num), Ratio.value, ← mul_div_assoc, div_lt_iff₀ den,
      Nat.cast_mul]
  have ge (a : Nat) : q * quarter.den ≤ ((a * quarter.num : Nat) : ℚ) ↔
      2 * q ≤ 2 * (a * quarter.value) := by rw [← not_lt, lt, not_lt]
  have gt (a : Nat) : q * quarter.den < ((a * quarter.num : Nat) : ℚ) ↔
      2 * q < 2 * (a * quarter.value) := by rw [← not_le, le, not_le]
  simp only [step, closed, ← value, le, lt, ge, gt]

end Contents

section Grids

variable {i : RoundingInterval} {tie : Tie} {e : Int} {n : Nat}

/-- The magnitude in its interval. -/
def RoundingInterval.point (i : RoundingInterval) : ℚ :=
  i.value / i.den

section Unit

variable {unit : Ratio}

theorem RoundingInterval.mul_den_eq (value : unit.value = i.den * 10 ^ e) (k : Nat) :
    (k : ℚ) * 10 ^ e * i.den = k * unit.num / unit.den := by
  rw [mul_assoc, mul_comm ((10 : ℚ) ^ e), ← value, Ratio.value, mul_div_assoc]

/-- The test of a multiple of the unit of a grid, in natural numbers. -/
theorem RoundingInterval.inside_iff (proper : 0 < unit.den) (value : unit.value = i.den * 10 ^ e)
    (k : Nat) : (if i.closed then
        decide (i.low * unit.den ≤ k * unit.num) && decide (k * unit.num ≤ i.high * unit.den)
      else decide (i.low * unit.den < k * unit.num) && decide (k * unit.num < i.high * unit.den)) =
      true ↔ i.Contains (k * 10 ^ e) := by
  have den : (0 : ℚ) < unit.den := by exact_mod_cast proper
  unfold RoundingInterval.Contains
  rw [RoundingInterval.mul_den_eq value, le_div_iff₀ den, div_le_iff₀ den, lt_div_iff₀ den,
    div_lt_iff₀ den]
  norm_cast
  split <;> simp

/-- The quotient by the unit of a grid is the neighbour below. -/
theorem RoundingInterval.point_between (proper : 0 < unit.den) (positive : 0 < i.den)
    (value : unit.value = i.den * 10 ^ e) :
    ((i.value * unit.den / unit.num : Nat) : ℚ) * 10 ^ e ≤ i.point ∧
      i.point < ((i.value * unit.den / unit.num + 1 : Nat) : ℚ) * 10 ^ e := by
  have den : (0 : ℚ) < unit.den := by exact_mod_cast proper
  have positive' : (0 : ℚ) < i.den := by exact_mod_cast positive
  have num : 0 < unit.num := by
    have scaled : (0 : ℚ) < unit.num / unit.den := by
      rw [← Ratio.value, value]
      positivity
    exact_mod_cast (div_pos_iff_of_pos_right den).mp scaled
  have above := Nat.lt_mul_div_succ (i.value * unit.den) num
  rw [Nat.mul_comm unit.num] at above
  unfold RoundingInterval.point
  rw [le_div_iff₀ positive', div_lt_iff₀ positive', RoundingInterval.mul_den_eq value,
    RoundingInterval.mul_den_eq value, div_le_iff₀ den, lt_div_iff₀ den]
  exact ⟨by exact_mod_cast Nat.div_mul_le_self _ _, by exact_mod_cast above⟩

end Unit

/-- The two neighbours of the magnitude on a grid are tried, and nothing else. -/
theorem RoundingInterval.nearest?_spec (positive : 0 < i.den) (tie : Tie) (e : Int) :
    ∃ below : Nat, below * (10 : ℚ) ^ e ≤ i.point ∧ i.point < ((below + 1 : Nat) : ℚ) * 10 ^ e ∧
      match i.nearest? tie e with
      | some n => (n = below ∨ n = below + 1) ∧ i.Contains (n * 10 ^ e)
      | none => ¬ i.Contains (below * 10 ^ e) ∧ ¬ i.Contains ((below + 1 : Nat) * 10 ^ e) := by
  have proper := Ratio.den_scale_ofNat_pos i.den e (show 0 < 10 by decide)
  have value := Ratio.value_scale_ofNat i.den e (show 0 < 10 by decide)
  unfold RoundingInterval.nearest?
  dsimp only
  generalize (Ratio.ofNat i.den).scale 10 e = unit at *
  obtain ⟨lower, upper⟩ := RoundingInterval.point_between proper positive value
  generalize i.value * unit.den / unit.num = below at *
  refine ⟨below, lower, upper, ?_⟩
  have first := RoundingInterval.inside_iff proper value below
  have second := RoundingInterval.inside_iff proper value (below + 1)
  generalize (if i.closed then
    decide (i.low * unit.den ≤ below * unit.num) && _ else _) = inside at *
  generalize (if i.closed then
    decide (i.low * unit.den ≤ (below + 1) * unit.num) && _ else _) = inside' at *
  cases inside <;> cases inside'
  · exact ⟨Bool.false_ne_true ∘ first.mpr, Bool.false_ne_true ∘ second.mpr⟩
  · exact ⟨.inr rfl, second.mp rfl⟩
  · exact ⟨.inl rfl, first.mp rfl⟩
  · dsimp only
    split
    · exact ⟨.inl rfl, first.mp rfl⟩
    · exact ⟨.inr rfl, second.mp rfl⟩

theorem RoundingInterval.contains_of_nearest? (proper : 0 < i.den)
    (found : i.nearest? tie e = some n) :
    i.Contains (n * 10 ^ e) ∧ ∃ below : Nat, (below : ℚ) * 10 ^ e ≤ i.point ∧ n ≤ below + 1 := by
  obtain ⟨below, lower, _, inside⟩ := i.nearest?_spec proper tie e
  rw [found] at inside
  exact ⟨inside.2, below, lower, by omega⟩

/-- If a grid has a point in the interval, then one is found. -/
theorem RoundingInterval.not_contains_of_nearest? (proper : 0 < i.den)
    (contains : i.Contains i.point) (missing : i.nearest? tie e = none) (k : Nat) :
    ¬ i.Contains (k * 10 ^ e) := by
  have unit : (0 : ℚ) < 10 ^ e := zpow_pos (by norm_num) _
  obtain ⟨below, lower, upper, inside⟩ := i.nearest?_spec proper tie e
  rw [missing] at inside
  intro there
  rcases Nat.lt_or_ge below k with above | under
  · refine inside.2 (contains.between there upper.le ?_)
    exact mul_le_mul_of_nonneg_right (by exact_mod_cast above) unit.le
  · refine inside.1 (there.between contains ?_ lower)
    exact mul_le_mul_of_nonneg_right (by exact_mod_cast under) unit.le

/-- The leading digit of a number stands at its leading exponent. -/
theorem leadingExponent_spec {num den : Nat} (positive : 0 < num) (proper : 0 < den) :
    (10 : ℚ) ^ leadingExponent num den ≤ num / den ∧
      (num / den : ℚ) < 10 ^ (leadingExponent num den + 1) := by
  have ten : (10 : ℚ) ≠ 0 := by norm_num
  have denPos : (0 : ℚ) < den := by exact_mod_cast proper
  have numPos : (0 : ℚ) < num := by exact_mod_cast positive
  unfold leadingExponent
  split
  · next large =>
      obtain ⟨lower, upper⟩ := digitsOf_bounds (Nat.div_pos large proper)
      have nonempty := length_digitsOf_pos (num / den)
      generalize (digitsOf (num / den)).length = size at *
      obtain ⟨k, rfl⟩ : ∃ k, size = k + 1 := ⟨size - 1, by omega⟩
      rw [Nat.le_div_iff_mul_le proper, Nat.add_sub_cancel] at lower
      rw [Nat.div_lt_iff_lt_mul proper] at upper
      rw [show ((k + 1 : Nat) : Int) - 1 = k by omega, zpow_add_one₀ ten, zpow_natCast, ← pow_succ,
        le_div_iff₀ denPos, div_lt_iff₀ denPos]
      exact ⟨by exact_mod_cast lower, by exact_mod_cast upper⟩
  · next small =>
      have whole : 0 < (den - 1) / num := Nat.div_pos (by omega) positive
      obtain ⟨lower, upper⟩ := digitsOf_bounds whole
      have nonempty := length_digitsOf_pos ((den - 1) / num)
      generalize (digitsOf ((den - 1) / num)).length = size at *
      obtain ⟨k, rfl⟩ : ∃ k, size = k + 1 := ⟨size - 1, by omega⟩
      rw [Nat.le_div_iff_mul_le positive, Nat.add_sub_cancel] at lower
      rw [Nat.div_lt_iff_lt_mul positive] at upper
      rw [show -((k + 1 : Nat) : Int) + 1 = -(k : Int) by omega, zpow_neg, zpow_neg, zpow_natCast,
        zpow_natCast, le_div_iff₀ denPos, div_lt_iff₀ denPos, inv_mul_le_iff₀ (by positivity),
        lt_inv_mul_iff₀ (by positivity)]
      exact ⟨by exact_mod_cast (show den ≤ 10 ^ (k + 1) * num by omega),
        by exact_mod_cast (show 10 ^ k * num < den by omega)⟩

end Grids

section Trimming

variable {significand size : Nat} {exponent : Int}

/-- Trailing zeros go into the exponent. -/
theorem trimZeros_spec (significand : Nat) (exponent : Int) : ∃ kept zeros : Nat,
    Decimal.trimZeros significand exponent = ⟨kept, exponent + zeros⟩ ∧
      significand = kept * 10 ^ zeros ∧ (significand ≠ 0 → kept % 10 ≠ 0) := by
  fun_induction Decimal.trimZeros significand exponent with
  | case1 significand exponent trailing ih =>
      obtain ⟨kept, zeros, trimmed, same, ends⟩ := ih
      refine ⟨kept, zeros + 1, ?_, ?_, fun _ => ends (by omega)⟩
      · rw [trimmed]
        push_cast
        ring_nf
      · rw [pow_succ, ← Nat.mul_assoc, ← same]
        omega
  | case2 significand exponent ends =>
      exact ⟨significand, 0, by simp, by simp, fun nonzero trailing => ends ⟨nonzero, trailing⟩⟩

theorem value_trimZeros (significand : Nat) (exponent : Int) :
    (Decimal.trimZeros significand exponent).value = significand * 10 ^ exponent := by
  obtain ⟨kept, zeros, trimmed, same, _⟩ := trimZeros_spec significand exponent
  rw [trimmed, Decimal.value, same, zpow_add₀ (by norm_num), zpow_natCast]
  push_cast
  ring

theorem trimZeros_mod_ne (nonzero : significand ≠ 0) :
    (Decimal.trimZeros significand exponent).significand % 10 ≠ 0 := by
  obtain ⟨kept, zeros, trimmed, _, ends⟩ := trimZeros_spec significand exponent
  rw [trimmed]
  exact ends nonzero

/-- A power of ten loses all its zeros, so it has no more digits than what is below it. -/
theorem length_trimZeros_le (nonzero : significand ≠ 0) (le : significand ≤ 10 ^ (size + 1)) :
    (digitsOf (Decimal.trimZeros significand exponent).significand).length ≤ size + 1 := by
  obtain ⟨kept, zeros, trimmed, same, ends⟩ := trimZeros_spec significand exponent
  have ends := ends nonzero
  have power : 10 ^ (size + 1) % 10 = 0 := by rw [pow_succ, Nat.mul_mod_left]
  rw [trimmed, length_digitsOf_le_iff (Nat.succ_pos size)]
  change kept < _
  cases zeros with
  | zero =>
      rw [pow_zero, Nat.mul_one] at same
      have other : kept ≠ 10 ^ (size + 1) := fun whole => ends (whole ▸ power)
      omega
  | succ zeros =>
      have more : kept * 10 ≤ significand := by
        rw [same]
        exact Nat.mul_le_mul_left kept (Nat.le_self_pow (Nat.succ_ne_zero zeros) 10)
      omega

end Trimming

section Search

variable {bits : Nat} {tie : Tie}

/-- A grid with 17 digits is fine enough: its unit is less than the step of the magnitude, and less
than half of it where the grid of the format begins. -/
theorem exists_roundsTo_multiple (positive : 0 < bits) {unit : ℚ} (proper : 0 < unit)
    (fine : unit * 10 ^ 16 ≤ bitsValue bits) : ∃ k : Nat, RoundsTo (k * unit) bits := by
  obtain ⟨lower, rfl⟩ : ∃ lower, bits = lower + 1 := ⟨bits - 1, by omega⟩
  obtain ⟨field, significand, same, upper, normal⟩ := exists_grid (lower + 1)
  have down := bitsValue_succ lower
  have up := bitsValue_succ (lower + 1)
  rw [exponent_pred same upper normal] at down
  have value := bitsValue_grid upper.le normal
  rw [same, ofBits_grid upper normal] at up
  rw [← same] at up value
  have step : (0 : ℚ) < 2 ^ (leastExponent + (field : Int)) := zpow_pos (by norm_num) _
  have leading : (leadingBit : ℚ) = 4503599627370496 := by
    rw [leadingBit_eq]
    norm_num
  have bound : (significand : ℚ) < 2 * leadingBit := by exact_mod_cast upper
  have previous := bitsValue_strictMono (Nat.lt_succ_self lower)
  have below : (⌊bitsValue (lower + 1) / unit⌋₊ : ℚ) * unit ≤ bitsValue (lower + 1) := by
    rw [← le_div_iff₀ proper]
    exact Nat.floor_le (div_nonneg (value ▸ by positivity) proper.le)
  have above : bitsValue (lower + 1) < ((⌊bitsValue (lower + 1) / unit⌋₊ : ℚ) + 1) * unit := by
    rw [← div_lt_iff₀ proper]
    exact Nat.lt_floor_add_one _
  generalize ⌊bitsValue (lower + 1) / unit⌋₊ = k at *
  by_cases near : 2 * (((k : ℚ) + 1) * unit) <
      bitsValue (lower + 1) + bitsValue (lower + 1 + 1)
  · refine ⟨k + 1, .of_lt (fun lower' next => ?_) (by exact_mod_cast near)⟩
    obtain rfl := Nat.succ_injective next
    push_cast
    linarith
  · refine ⟨k, .of_lt (fun lower' next => ?_) (by linarith)⟩
    obtain rfl := Nat.succ_injective next
    split_ifs at down with begins
    · rw [begins.1, leading] at value
      linarith
    · rw [sub_zero] at down
      have coarse := mul_lt_mul_of_pos_right bound step
      rw [leading] at coarse
      linarith

theorem exists_findSome?_range {α : Type} {f : Nat → Option α} {size k : Nat} (inside : k < size)
    (hit : f k ≠ none) : ∃ first < size, ∃ a, f first = some a ∧
      (List.range size).findSome? f = some a ∧ ∀ j < first, f j = none := by
  induction size generalizing k with
  | zero => exact absurd inside (Nat.not_lt_zero k)
  | succ size ih =>
      rw [List.range_succ, List.findSome?_append]
      cases earlier : (List.range size).findSome? f with
      | none =>
          have missing := List.findSome?_eq_none_iff.mp earlier
          obtain rfl : k = size := by
            by_contra other
            exact hit (missing k (List.mem_range.mpr (by omega)))
          obtain ⟨a, found⟩ := Option.ne_none_iff_exists'.mp hit
          refine ⟨k, inside, a, found, ?_, fun j less => missing j (List.mem_range.mpr less)⟩
          simp [found]
      | some a =>
          obtain ⟨j, member, found⟩ := List.exists_of_findSome?_eq_some earlier
          obtain ⟨first, less, b, found', same, missing⟩ :=
            ih (List.mem_range.mp member) (by rw [found]; exact Option.some_ne_none a)
          rw [earlier] at same
          exact ⟨first, Nat.lt_succ_of_lt less, b, found', same, missing⟩

theorem Magnitude.point_interval (m : Magnitude) : m.interval.point = m.value := by
  have quarter := Ratio.value_scale_ofNat 1 (m.exponent - 2) (show 0 < 2 by decide)
  rw [Ratio.value, Nat.cast_one, one_mul, Nat.cast_ofNat] at quarter
  unfold RoundingInterval.point Magnitude.interval
  dsimp only
  rw [Nat.cast_mul, mul_div_assoc, quarter, Magnitude.value, zpow_sub₀ two_ne_zero]
  push_cast
  ring

theorem Magnitude.den_interval_pos (m : Magnitude) : 0 < m.interval.den :=
  Ratio.den_scale_ofNat_pos 1 _ (by decide)

theorem roundsTo_bitsValue (bits : Nat) : RoundsTo (bitsValue bits) bits := by
  have step := bitsValue_strictMono (Nat.lt_succ_self bits)
  refine .of_lt (fun lower next => ?_) (by linarith)
  have previous := bitsValue_strictMono (show lower < bits by omega)
  linarith

/-- The first grid with a point that rounds to the magnitude gives the decimal. -/
theorem exists_shortest_eq (positive : 0 < bits) (tie : Tie) :
    ∃ (leading : Int) (extra n : Nat),
      (10 : ℚ) ^ leading ≤ bitsValue bits ∧ bitsValue bits < 10 ^ (leading + 1) ∧
      (Magnitude.ofBits bits).shortest tie = Decimal.trimZeros n (leading - extra) ∧
      RoundsTo (n * 10 ^ (leading - extra)) bits ∧
      (∃ below : Nat, (below : ℚ) * 10 ^ (leading - extra) ≤ bitsValue bits ∧ n ≤ below + 1) ∧
      ∀ j < extra, ∀ k : Nat, ¬ RoundsTo (k * 10 ^ (leading - j)) bits := by
  set i := (Magnitude.ofBits bits).interval with interval
  have proper : 0 < i.den := Magnitude.den_interval_pos _
  have point : i.point = bitsValue bits := Magnitude.point_interval _
  have contains {q : ℚ} : i.Contains q ↔ RoundsTo q bits := contains_interval_iff positive
  have inside : i.Contains i.point := by
    rw [contains, point]
    exact roundsTo_bitsValue bits
  have greater : 0 < i.value := by
    apply Nat.pos_of_ne_zero
    intro zero
    have larger := bitsValue_strictMono positive
    rw [bitsValue_zero, ← point, RoundingInterval.point, zero, Nat.cast_zero, zero_div] at larger
    exact lt_irrefl _ larger
  obtain ⟨lower, upper⟩ := leadingExponent_spec greater proper
  change _ ≤ i.point at lower
  change i.point < _ at upper
  rw [point] at lower upper
  let decimal? (extra : Nat) : Option Decimal :=
    (i.nearest? tie (leadingExponent i.value i.den - extra)).map fun n =>
      Decimal.trimZeros n (leadingExponent i.value i.den - extra)
  have hit : decimal? 16 ≠ none := by
    intro missing
    have fine : (10 : ℚ) ^ (leadingExponent i.value i.den - (16 : Nat)) * 10 ^ 16 ≤
        bitsValue bits := by
      rwa [zpow_sub₀ (by norm_num), zpow_natCast, div_mul_cancel₀ _ (by norm_num)]
    obtain ⟨k, rounds⟩ := exists_roundsTo_multiple positive (zpow_pos (by norm_num) _) fine
    exact i.not_contains_of_nearest? proper inside (Option.map_eq_none_iff.mp missing) k
      (contains.mpr rounds)
  obtain ⟨extra, -, d, mapped, found, earlier⟩ :=
    exists_findSome?_range (show 16 < greatestDigits by decide) hit
  obtain ⟨n, nearest, rfl⟩ := Option.map_eq_some_iff.mp mapped
  obtain ⟨rounds, below⟩ := i.contains_of_nearest? proper nearest
  rw [point] at below
  refine ⟨leadingExponent i.value i.den, extra, n, lower, upper, ?_, contains.mp rounds, below, ?_⟩
  · change ((List.range greatestDigits).findSome? decimal?).getD _ = _
    rw [found, Option.getD_some]
  · intro j less k rounds
    exact i.not_contains_of_nearest? proper inside (Option.map_eq_none_iff.mp (earlier j less)) k
      (contains.mpr rounds)

theorem significand_pos_of_roundsTo (positive : 0 < bits) {d : Decimal}
    (rounds : RoundsTo d.value bits) : 0 < d.significand := by
  apply Nat.pos_of_ne_zero
  intro zero
  have least : RoundsTo d.value 0 := by
    apply RoundsTo.zero_of_lt
    rw [Decimal.value, zero, Nat.cast_zero, zero_mul, mul_zero]
    exact zpow_pos (by norm_num) _
  exact positive.ne' (rounds.unique least)

/-- What rounds to the magnitude has too many digits for the grids without a point: it would be a
point of one of them, or else the power of ten of the first one would lie between. -/
theorem lt_length_of_roundsTo (positive : 0 < bits) {leading : Int} {extra : Nat} {d : Decimal}
    (lower : (10 : ℚ) ^ leading ≤ bitsValue bits)
    (earlier : ∀ j < extra, ∀ k : Nat, ¬ RoundsTo (k * 10 ^ (leading - j)) bits)
    (rounds : RoundsTo d.value bits) : extra < (digitsOf d.significand).length := by
  have ten : (10 : ℚ) ≠ 0 := by norm_num
  have nonempty := length_digitsOf_pos d.significand
  by_contra short
  rcases Int.lt_or_le (leading - extra) d.exponent with coarse | fine
  · refine earlier (extra - 1) (by omega)
      (d.significand * 10 ^ (d.exponent - (leading - extra + 1)).toNat) ?_
    have parts : d.exponent =
        ((d.exponent - (leading - extra + 1)).toNat : Int) + (leading - (extra - 1 : Nat)) := by
      omega
    rw [Decimal.value, parts, zpow_add₀ ten, zpow_natCast, ← mul_assoc] at rounds
    exact_mod_cast rounds
  · have below := (Decimal.value_between (significand_pos_of_roundsTo positive rounds)).2
    have place : d.point ≤ leading := by
      unfold Decimal.point
      omega
    refine earlier 0 (by omega) 1 ?_
    rw [Nat.cast_one, one_mul, Nat.cast_zero, sub_zero]
    rw [← contains_interval_iff positive] at rounds ⊢
    have inside := (contains_interval_iff positive).mpr (roundsTo_bitsValue bits)
    refine rounds.between inside (below.le.trans ?_) lower
    gcongr
    norm_num

/-- **The shortest decimal of a magnitude is shortest.** -/
theorem shortest_spec (positive : 0 < bits) (tie : Tie) :
    Shortest bits ((Magnitude.ofBits bits).shortest tie) := by
  obtain ⟨leading, extra, n, lower, upper, same, rounds, ⟨below, floor, le⟩, earlier⟩ :=
    exists_shortest_eq positive tie
  rw [← value_trimZeros] at rounds
  have nonzero : n ≠ 0 := by
    rintro rfl
    have kept := significand_pos_of_roundsTo positive rounds
    rw [Decimal.trimZeros, dif_neg (by simp)] at kept
    exact lt_irrefl _ kept
  -- The grid has no more than `extra + 1` digits below the next power of ten.
  have room : below < 10 ^ (extra + 1) := by
    have size := floor.trans_lt upper
    have unit : (0 : ℚ) < 10 ^ (leading - (extra : Int)) := zpow_pos (by norm_num) _
    rw [show leading + 1 = ((extra + 1 : Nat) : Int) + (leading - extra) by push_cast; ring,
      zpow_add₀ (by norm_num), zpow_natCast, mul_lt_mul_iff_left₀ unit] at size
    exact_mod_cast size
  rw [same]
  refine ⟨rounds, trimZeros_mod_ne nonzero, fun d' rounds' => ?_⟩
  exact (length_trimZeros_le nonzero (by omega)).trans
    (lt_length_of_roundsTo positive lower earlier rounds')

end Search

end GuardedExpr.Number
