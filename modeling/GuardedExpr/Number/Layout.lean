import GuardedExpr.Number.Shortest

/-!
# Layouts of numbers

A layout says how the shortest decimal of a float is written: with all its
digits in place while the decimal point stands near them, and otherwise as one
digit, a fraction and a signed exponent.
-/

namespace GuardedExpr.Number

/-- The decisions of a written number format. -/
structure Layout where
  /-- Which of two equally near shortest decimals is written. -/
  tie : Tie
  /-- A point at or before this place, counted from the first digit, makes the exponent written. -/
  leftmost : Int
  /-- A point after this place makes the exponent written. -/
  rightmost : Int
  /-- What follows the digits of a whole number. -/
  wholeTail : List Char
  /-- Negative zero keeps its sign. -/
  signedZero : Bool

/-- The written form of a positive decimal. -/
def Layout.decimal (l : Layout) (d : Decimal) : List Char :=
  let digits := digitsOf d.significand
  let size := digits.length
  let point := size + d.exponent
  if size ≤ point ∧ point ≤ l.rightmost then
    digits ++ List.replicate (point - size).toNat '0' ++ l.wholeTail
  else if 0 < point ∧ point ≤ l.rightmost then
    digits.take point.toNat ++ '.' :: digits.drop point.toNat
  else if l.leftmost < point ∧ point ≤ 0 then
    '0' :: '.' :: (List.replicate (-point).toNat '0' ++ digits)
  else
    let fraction := if size = 1 then [] else '.' :: digits.drop 1
    let sign := if point ≤ 0 then '-' else '+'
    digits.take 1 ++ fraction ++ 'e' :: sign :: digitsOf (point - 1).natAbs

/-- The written form of a float. -/
def Layout.float (l : Layout) (x : Float) : List Char :=
  let sign := if isNegative x then ['-'] else []
  if infinityBits < absBits x then "NaN".toList
  else if absBits x = infinityBits then sign ++ "Infinity".toList
  else if absBits x = 0 then (if l.signedZero then sign else []) ++ '0' :: l.wholeTail
  else sign ++ l.decimal ((Magnitude.ofBits (absBits x)).shortest l.tie)

/-- Numbers of expressions have an exponent from `10 ^ 21` on and below `10 ^ (-6)`, whole numbers
have no point, and zero has no sign. -/
def valueLayout : Layout where
  tie := .up
  leftmost := -6
  rightmost := 21
  wholeTail := []
  signedZero := false

def text (x : Float) : String :=
  String.ofList (valueLayout.float x)

end GuardedExpr.Number
