import GuardedExpr.Text.Units

/-!
# Quoted texts

A quoting is a quote character and a spelling of every character between two
of them.
-/

namespace GuardedExpr.Text

/-- A way of writing a text between two quotes. -/
structure Quoting where
  quote : Char
  spell : Char → List Char

def Quoting.write (q : Quoting) (s : List Char) : List Char :=
  q.quote :: (s.flatMap q.spell ++ [q.quote])

/-- The lower case hexadecimal digits of a number, filled with zeros up to a width. -/
def hexDigits (width n : Nat) : List Char :=
  let digits := Nat.toDigits 16 n
  List.replicate (width - digits.length) '0' ++ digits

/-- A UTF-16 unit as a backslash, `u` and four hexadecimal digits. -/
def unitEscape (unit : Nat) : List Char :=
  '\\' :: 'u' :: hexDigits 4 unit

@[simp] theorem Quoting.write_nil (q : Quoting) : q.write [] = [q.quote, q.quote] := rfl

end GuardedExpr.Text
