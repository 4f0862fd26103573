import GuardedExpr.Coercion
import GuardedExpr.Text.Printable
import GuardedExpr.Text.Quoted

/-!
# Inspection texts

The texts that show values to a developer. They tell strings from other values
by their quotes, and show of a nested container only what it is.
-/

namespace GuardedExpr.Inspection

/-- Strings keep printable characters; other characters have a short escape or a braced one. -/
def quoting : Text.Quoting where
  quote := '\x22'
  spell c :=
    match c with
    | '\x22' => ['\\', '\x22']
    | '\\' => ['\\', '\\']
    | '\n' => ['\\', 'n']
    | '\r' => ['\\', 'r']
    | '\t' => ['\\', 't']
    | '\x00' => ['\\', '0']
    | c =>
      if Text.isPrintable c then [c]
      else '\\' :: 'u' :: '\x7b' :: (Text.hexDigits 1 c.toNat ++ ['\x7d'])

/-- A string between quotes. -/
def string (s : String) : String :=
  String.ofList (quoting.write s.toList)

/-- Texts in brackets, separated by commas. -/
def list (items : List String) : String :=
  "[" ++ ", ".intercalate items ++ "]"

/-- A value that is not an array. -/
def scalar (h : Heap) : Value → String
  | .string s => string s
  | .object o =>
    "Object \x7b kind: " ++ o.kind.name ++ ", keys: " ++
      list ((h.properties o).keys.map string) ++ " \x7d"
  | .function f => "Function(" ++ f.name ++ ", " ++ f.kind.name ++ ")"
  | v => v.scalarText

/-- A value; arrays inside an array show their length only. -/
def value (h : Heap) : Value → String
  | .array a =>
    list <| (h.items a).toList.map fun item =>
      match item with
      | .array b => "Array(len = " ++ toString (h.items b).size ++ ")"
      | v => scalar h v
  | v => scalar h v

end GuardedExpr.Inspection
