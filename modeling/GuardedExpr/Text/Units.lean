/-!
# UTF-16 code units

A scalar below U+10000 is one unit, any other is a high and a low surrogate.
Lengths and positions of texts count units here, so a position may name one
half of a scalar; such a half reads as the replacement character U+FFFD.
-/

namespace GuardedExpr.Text

def units (c : Char) : List Nat :=
  if c.toNat < 0x10000 then [c.toNat]
  else [0xd800 + (c.toNat - 0x10000) / 0x400, 0xdc00 + (c.toNat - 0x10000) % 0x400]

def unitsOf (s : List Char) : List Nat :=
  s.flatMap units

/-- A surrogate that opens a pair. -/
def isHighSurrogate (n : Nat) : Bool :=
  0xd800 ≤ n && n < 0xdc00

/-- A surrogate that closes a pair. -/
def isLowSurrogate (n : Nat) : Bool :=
  0xdc00 ≤ n && n < 0xe000

/-- The character with this code, if there is one: surrogates and codes above U+10FFFF have none. -/
def scalar? (n : Nat) : Option Char :=
  if n < 0xd800 || (0xdfff < n && n < 0x110000) then some (Char.ofNat n) else none

/-- The code that a pair of surrogates stands for. -/
def pairCode (high low : Nat) : Nat :=
  0x10000 + (high - 0xd800) * 0x400 + (low - 0xdc00)

/-- A single unit read as a character; half of a pair reads as U+FFFD. -/
def unitChar (n : Nat) : Char :=
  (scalar? n).getD '\uFFFD'

/-- A character has one unit or two. -/
theorem length_units (c : Char) : (units c).length = if c.toNat < 0x10000 then 1 else 2 := by
  unfold units
  split <;> rfl

@[simp] theorem unitsOf_nil : unitsOf [] = [] := rfl

@[simp] theorem unitsOf_cons (c : Char) (s : List Char) :
    unitsOf (c :: s) = units c ++ unitsOf s := rfl

end GuardedExpr.Text
