import GuardedExpr.Number.Decimal

/-!
# Shortest decimals

The shortest decimal of a float is the one with the fewest digits among those
that round to this float, and of these the nearest to it. For each number of
digits the two neighbours of the float on that decimal grid decide: if any
point of the grid rounds to the float, so does one of them.
-/

namespace GuardedExpr.Number

/-- Which of two equally near decimals is taken. -/
inductive Tie where
  | toEven
  | up
deriving DecidableEq, Repr

/-- A decimal without trailing zeros in its significand. -/
def Decimal.trimZeros (significand : Nat) (exponent : Int) : Decimal :=
  if h : significand ≠ 0 ∧ significand % 10 = 0 then
    Decimal.trimZeros (significand / 10) (exponent + 1)
  else ⟨significand, exponent⟩
termination_by significand
decreasing_by omega

/-- The decimals that round to a magnitude, as multiples of `1 / den`: those from `low` to `high`,
the ends included when `closed`. The magnitude itself is `value`. -/
structure RoundingInterval where
  low : Nat
  value : Nat
  high : Nat
  den : Nat
  closed : Bool

/-- The interval that rounds to a magnitude. Its lower half is only half as wide where the exponent
of the format steps, and its ends belong to the even significand. -/
def Magnitude.interval (x : Magnitude) : RoundingInterval :=
  let step := x.significand == leadingBit && leastExponent < x.exponent
  let quarter := (Ratio.ofNat 1).scale 2 (x.exponent - 2)
  { low := (4 * x.significand - if step then 1 else 2) * quarter.num
    value := 4 * x.significand * quarter.num
    high := (4 * x.significand + 2) * quarter.num
    den := quarter.den
    closed := x.significand % 2 == 0 }

/-- The exponent of the leading decimal digit of a positive ratio. -/
def leadingExponent (num den : Nat) : Int :=
  if den ≤ num then (digitsOf (num / den)).length - 1
  else -((digitsOf ((den - 1) / num)).length : Int)

/-- The point of the grid of multiples of `10 ^ exponent` that rounds to the magnitude and is
nearest to it, if there is one. -/
def RoundingInterval.nearest? (i : RoundingInterval) (tie : Tie) (exponent : Int) : Option Nat :=
  let unit := (Ratio.ofNat i.den).scale 10 exponent
  let inside (n : Nat) : Bool :=
    if i.closed then i.low * unit.den ≤ n * unit.num && n * unit.num ≤ i.high * unit.den
    else i.low * unit.den < n * unit.num && n * unit.num < i.high * unit.den
  let below := i.value * unit.den / unit.num
  let double := 2 * (i.value * unit.den % unit.num)
  let preferBelow :=
    double < unit.num || (double == unit.num && (tie == .toEven && below % 2 == 0))
  match inside below, inside (below + 1) with
  | true, true => some (if preferBelow then below else below + 1)
  | true, false => some below
  | false, true => some (below + 1)
  | false, false => none

/-- The greatest number of digits that a shortest decimal has. -/
def greatestDigits : Nat := 17

/-- The shortest decimal of a positive magnitude: the first grid that has one decides. The grid of the
greatest number of digits always has one. -/
def Magnitude.shortest (x : Magnitude) (tie : Tie) : Decimal :=
  let interval := x.interval
  let leading := leadingExponent interval.value interval.den
  let found := (List.range greatestDigits).findSome? fun (extra : Nat) =>
    (interval.nearest? tie (leading - extra)).map fun n => Decimal.trimZeros n (leading - extra)
  found.getD ⟨x.significand * Nat.pow 2 x.exponent.toNat, 0⟩

end GuardedExpr.Number
