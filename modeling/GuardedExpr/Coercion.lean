import GuardedExpr.Heap.Walk
import GuardedExpr.Number.Layout
import GuardedExpr.Number.OfText

/-!
# Texts and numbers of values

Every value has a text and a number. The text of an array joins the texts of
its items; an array inside itself, `undefined` and `null` count as empty items.
The number of an array with one item is the number of that item's text.
-/

namespace GuardedExpr

/-- The text of a value that is not an array; an array has the empty text here. -/
def Value.scalarText : Value → String
  | undefined => "undefined"
  | null => "null"
  | bool b => if b then "true" else "false"
  | number x => Number.text x
  | string s => s
  | array _ => ""
  | object _ => "[object Object]"
  | function f => "function " ++ f.name ++ "() \x7b [native code] \x7d"

namespace Heap

/-- The texts of the items of an array, separated by commas. The way holds the arrays around it. -/
def joinText (h : Heap) (way : List Container) (a : ArrayRef) : String :=
  if .array a ∈ way then ""
  else
    ",".intercalate <| (h.items a).toList.attach.map fun ⟨v, hv⟩ =>
      match v, hv with
      | .array b, _ => h.joinText (.array a :: way) b
      | v, _ => if v.isNullish then "" else v.scalarText
termination_by unvisited h.containers way
decreasing_by exact unvisited_cons_lt (array_mem_containers ‹_ ∈ (h.items a).toList›) ‹_›

def text (h : Heap) : Value → String
  | .array a => h.joinText [] a
  | v => v.scalarText

def number (h : Heap) : Value → Float
  | .undefined => Number.nan
  | .null => 0.0
  | .bool b => if b then 1.0 else 0.0
  | .number x => x
  | .string s => Number.ofText s
  | .array a =>
    match (h.items a).toList with
    | [] => 0.0
    | [item] => Number.ofText (h.text item)
    | _ => Number.nan
  | .object _ => Number.nan
  | .function _ => Number.nan

end Heap

end GuardedExpr
