/-!
# Binary64 magnitudes

A finite magnitude of the binary64 format is `significand * 2 ^ exponent` with
a significand below `2 ^ 53` and an exponent of at least `-1074`. Reading goes
from a float to this pair; rounding goes from a ratio of natural numbers to
the nearest float, where a tie goes to the even significand and a ratio beyond
the greatest finite magnitude goes to infinity.
-/

namespace GuardedExpr.Number

structure Ratio where
  num : Nat
  den : Nat
deriving DecidableEq, Repr

def Ratio.scale (r : Ratio) (base : Nat) (exponent : Int) : Ratio :=
  ⟨r.num * Nat.pow base exponent.toNat, r.den * Nat.pow base (-exponent).toNat⟩

def Ratio.ofNat (n : Nat) : Ratio :=
  ⟨n, 1⟩

/-- A ratio rounded to the nearest natural number, a half to the even neighbour. -/
def Ratio.round (r : Ratio) : Nat :=
  let floor := r.num / r.den
  let double := 2 * (r.num % r.den)
  if double < r.den || (double == r.den && floor % 2 == 0) then floor else floor + 1

/-- A finite binary64 magnitude, `significand * 2 ^ exponent`. -/
structure Magnitude where
  significand : Nat
  exponent : Int
deriving DecidableEq, Repr

/-- The least exponent of the format. -/
def leastExponent : Int := -1074

/-- Significands of magnitudes above the least exponent start here, and end at its double. -/
def leadingBit : Nat := Nat.pow 2 52

/-- The bits of positive infinity; every smaller number is the bits of a finite magnitude. -/
def infinityBits : Nat := 0x7ff * leadingBit

def signBit : Nat := Nat.pow 2 63

/-- The magnitude with these bits, the sign bit left out. -/
def Magnitude.ofBits (bits : Nat) : Magnitude :=
  let field : Nat := bits / leadingBit
  let fraction : Nat := bits % leadingBit
  if field = 0 then ⟨fraction, leastExponent⟩
  else ⟨leadingBit + fraction, leastExponent + (field - 1 : Nat)⟩

/-- The bits of a float without its sign bit. -/
def absBits (x : Float) : Nat :=
  x.toBits.toNat % signBit

def isNegative (x : Float) : Bool :=
  signBit ≤ x.toBits.toNat

/-- The exponent of the binary64 grid around a positive ratio. -/
def gridExponent (r : Ratio) : Int :=
  let gap : Int := r.num.log2 - r.den.log2
  let scaled := r.scale 2 (-gap)
  max leastExponent (if scaled.den ≤ scaled.num then gap - 52 else gap - 53)

/-- The bits of the float nearest to a ratio. -/
def nearestBits (r : Ratio) : Nat :=
  if r.num = 0 then 0
  else
    let exponent := gridExponent r
    let significand := (r.scale 2 (-exponent)).round
    min infinityBits ((exponent - leastExponent).toNat * leadingBit + significand)

/-- The float nearest to a ratio. -/
def ofRatio (r : Ratio) : Float :=
  Float.ofBits (UInt64.ofNat (nearestBits r))

def ofNat (n : Nat) : Float :=
  ofRatio (.ofNat n)

def ofInt (n : Int) : Float :=
  if n < 0 then -ofNat n.natAbs else ofNat n.natAbs

end GuardedExpr.Number
