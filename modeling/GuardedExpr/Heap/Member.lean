import GuardedExpr.Error
import GuardedExpr.Heap.Walk
import GuardedExpr.Number.Decimal
import GuardedExpr.Text.Units

/-!
# Members

Reading, storing and testing the members of values. Objects have any key,
arrays their length and the decimal texts of indices, strings their length and
single UTF-16 units, functions their name and the reflection functions. Only
objects and arrays take a store.
-/

namespace GuardedExpr

/-- Indices and lengths are below this number. -/
def indexLimit : Nat := Nat.pow 2 64

/-- The index that a key is the decimal text of. -/
def indexOfText? (key : String) : Option Nat :=
  let n := Number.ofDigits key.toList
  if Number.digitsOf n = key.toList ∧ n < indexLimit then some n else none

/-- The items with a value stored at an index; a gap before it is filled with `undefined`. -/
def storeItem (items : Array Value) (i : Nat) (v : Value) : Array Value :=
  (items ++ Array.replicate (i + 1 - items.size) Value.undefined).setIfInBounds i v

/-- The member of a string under a key. -/
def stringMember (s : String) (key : String) : Value :=
  let units := Text.unitsOf s.toList
  if key = "length" then .number (Number.ofNat units.length)
  else
    match (indexOfText? key).bind fun i => units[i]? with
    | some unit => .string (String.singleton (Text.unitChar unit))
    | none => .undefined

/-- The member of an array with these items under a key. -/
def arrayMember (items : Array Value) (key : String) : Value :=
  if key = "length" then .number (Number.ofNat items.size)
  else ((indexOfText? key).bind fun i => items[i]?).getD .undefined

namespace Heap

/-- Reads the member of a value under a key, `undefined` when there is none. Reading a reflection
function makes a new one. -/
def readMember (h : Heap) (v : Value) (key : String) : Value × Heap :=
  match v with
  | .object o => (h.property o key, h)
  | .array a => (arrayMember (h.items a) key, h)
  | .string s => (stringMember s key, h)
  | .function f =>
    match Reflection.ofName? key with
    | some primitive =>
      let (f, h) := h.newReflection primitive
      (.function f, h)
    | none => (if key = "name" then .string f.name else .undefined, h)
  | _ => (.undefined, h)

/-- Stores a value under a key of a container. At the greatest index, the length that the array
needs is no length any more, and the run breaks off. -/
def writeMember (h : Heap) (owner : Value) (key : String) (v : Value) : Except RuntimeError Heap :=
  match owner with
  | .object o => .ok (h.setProperty o key v)
  | .array a =>
    match indexOfText? key with
    | some i =>
      if i + 1 < indexLimit then .ok (h.setItems a (storeItem (h.items a) i v))
      else .error .brokenOff
    | none => .error (.cannotSetProperty key)
  | _ => .error (.cannotSetProperty key)

/-- The value has a member of its own under a key. -/
def owns (h : Heap) (v : Value) (key : String) : Bool :=
  match v with
  | .object o => (h.properties o).contains key
  | .array a => key == "length" || (indexOfText? key).any fun i => i < (h.items a).size
  | _ => false

/-- The property of an object under a key is that very object. -/
def holdsItself (h : Heap) (o : ObjectRef) (key : String) : Bool :=
  match (h.properties o)[key]? with
  | some (.object p) => p == o
  | _ => false

end Heap

end GuardedExpr
