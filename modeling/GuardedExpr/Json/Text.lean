import GuardedExpr.Json
import GuardedExpr.Number.Layout
import GuardedExpr.Text.Quoted

/-!
# Compact text of documents

The text of a document without any blank between its parts.
-/

namespace GuardedExpr.Json

/-- A control character of a document text, with its short form where it has one. -/
def controlEscape (c : Char) : List Char :=
  match c.toNat with
  | 0x08 => ['\\', 'b']
  | 0x09 => ['\\', 't']
  | 0x0a => ['\\', 'n']
  | 0x0c => ['\\', 'f']
  | 0x0d => ['\\', 'r']
  | n => Text.unitEscape n

/-- Strings of documents escape the quote, the backslash and control characters below the blank. -/
def quoting : Text.Quoting where
  quote := '\x22'
  spell c :=
    if c = '\x22' || c = '\\' then ['\\', c]
    else if c.toNat < 0x20 then controlEscape c
    else [c]

/-- Floats of documents have an exponent from `10 ^ 16` on and below `10 ^ (-5)`; whole ones keep
a point and zero keeps its sign. -/
def floatLayout : Number.Layout where
  tie := .toEven
  leftmost := -5
  rightmost := 16
  wholeTail := ['.', '0']
  signedZero := true

/-- The digits of an integer, after a minus sign if it is negative. -/
def intText (n : Int) : List Char :=
  (if n < 0 then ['-'] else []) ++ Number.digitsOf n.natAbs

mutual

/-- The compact text of a document. -/
def chars : Json → List Char
  | .null => "null".toList
  | .bool b => (if b then "true" else "false").toList
  | .int n => intText n
  | .float x => floatLayout.float x
  | .string s => quoting.write s.toList
  | .array items => '[' :: (itemChars items ++ [']'])
  | .object members => '\x7b' :: (memberChars members ++ ['\x7d'])

/-- The texts of array items, separated by commas. -/
def itemChars : List Json → List Char
  | [] => []
  | [item] => chars item
  | item :: items => chars item ++ ',' :: itemChars items

/-- The texts of object members, separated by commas. -/
def memberChars : List (String × Json) → List Char
  | [] => []
  | [(key, value)] => quoting.write key.toList ++ ':' :: chars value
  | (key, value) :: members =>
    quoting.write key.toList ++ ':' :: (chars value ++ ',' :: memberChars members)

end

/-- The compact text of a document. -/
def text (j : Json) : String :=
  String.ofList (chars j)

end GuardedExpr.Json
