import GuardedExpr.Number.Decimal
import GuardedExpr.Text.Blank

/-!
# Numbers of texts

The number that a text denotes when an operand has to be a number: blanks at
the two ends do not count, an empty text is zero, and a text that is neither a
signed numeral nor an infinity is not a number.
-/

namespace GuardedExpr.Number

def nan : Float :=
  Float.ofBits 0x7ff8000000000000

def infinity : Float :=
  Float.ofBits (UInt64.ofNat infinityBits)

/-- The float nearest to a numeral with an optional sign. -/
def readSignedNumeral? : List Char → Option Float
  | '-' :: s => (Decimal.read? s).map fun d => -d.toFloat
  | '+' :: s => (Decimal.read? s).map Decimal.toFloat
  | s => (Decimal.read? s).map Decimal.toFloat

/-- The number that a text denotes. -/
def ofText (s : String) : Float :=
  let t := Text.trim s.toList
  if t.isEmpty then 0.0
  else if t = "Infinity".toList ∨ t = "+Infinity".toList then infinity
  else if t = "-Infinity".toList then -infinity
  else (readSignedNumeral? t).getD nan

end GuardedExpr.Number
