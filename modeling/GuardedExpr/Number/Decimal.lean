import GuardedExpr.Number.Binary

/-!
# Decimal numerals

A numeral is digits with at most one point among them, then optionally an
exponent marker `e` or `E`, a sign and digits; at least one digit stands before
the exponent. It denotes `significand * 10 ^ exponent`, and its value is the
float nearest to that.
-/

namespace GuardedExpr.Number

/-- The decimal `significand * 10 ^ exponent`. -/
structure Decimal where
  significand : Nat
  exponent : Int
deriving DecidableEq, Repr

/-- The natural number that a run of decimal digits denotes. -/
def ofDigits (digits : List Char) : Nat :=
  digits.foldl (fun n c => 10 * n + (c.toNat - '0'.toNat)) 0

def digitsOf (n : Nat) : List Char :=
  Nat.toDigits 10 n

/-- The integer that an optional sign and at least one digit denote. -/
def readSigned? (s : List Char) : Option Int :=
  let natural (digits : List Char) : Option Nat :=
    if !digits.isEmpty && digits.all Char.isDigit then some (ofDigits digits) else none
  match s with
  | '+' :: digits => (natural digits).map Int.ofNat
  | '-' :: digits => (natural digits).map fun n => -Int.ofNat n
  | digits => (natural digits).map Int.ofNat

/-- The exponent part of a numeral; an absent one is zero. -/
def readExponent? : List Char → Option Int
  | [] => some 0
  | c :: s => if c = 'e' || c = 'E' then readSigned? s else none

/-- The digits after the point, if a point stands first, and what follows them. -/
def splitFraction : List Char → List Char × List Char
  | '.' :: s => (s.takeWhile Char.isDigit, s.dropWhile Char.isDigit)
  | s => ([], s)

/-- The decimal that a numeral denotes; nothing for a text that is not a numeral. -/
def Decimal.read? (s : List Char) : Option Decimal :=
  let whole := s.takeWhile Char.isDigit
  let (fraction, tail) := splitFraction (s.dropWhile Char.isDigit)
  if whole.isEmpty && fraction.isEmpty then none
  else (readExponent? tail).map fun exponent =>
    ⟨ofDigits (whole ++ fraction), exponent - fraction.length⟩

def Decimal.toRatio (d : Decimal) : Ratio :=
  (Ratio.ofNat d.significand).scale 10 d.exponent

/-- The float nearest to a decimal.

The first two cases only spare the powers of ten: a decimal of at least
`10 ^ 310` is infinite as a float, and one below `10 ^ (-330)` is zero. -/
def Decimal.toFloat (d : Decimal) : Float :=
  let point := (digitsOf d.significand).length + d.exponent
  if d.significand = 0 || point < -330 then Float.ofBits 0
  else if 310 < point then Float.ofBits (UInt64.ofNat infinityBits)
  else ofRatio d.toRatio

end GuardedExpr.Number
