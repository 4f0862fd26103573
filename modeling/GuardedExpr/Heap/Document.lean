import GuardedExpr.Coercion
import GuardedExpr.Json

/-!
# Documents and values

A document becomes a value by making its arrays and objects anew. A value
becomes a document by unrolling it: `undefined` and functions leave objects and
turn into `null` in arrays, as do numbers that are not finite. A value without
an end has no document.
-/

namespace GuardedExpr.Heap

mutual

/-- The value of a document. -/
def ofJson (h : Heap) : Json → Value × Heap
  | .null => (.null, h)
  | .bool b => (.bool b, h)
  | .int n => (.number (Number.ofInt n), h)
  | .float x => (.number x, h)
  | .string s => (.string s, h)
  | .array items =>
    let (vs, h) := h.ofJsonItems items
    let (a, h) := h.newArray vs.toArray
    (.array a, h)
  | .object members =>
    let (ps, h) := h.ofJsonMembers members
    let (o, h) := h.newObject .plain ps
    (.object o, h)

/-- The values of the items of a document. -/
def ofJsonItems (h : Heap) : List Json → List Value × Heap
  | [] => ([], h)
  | item :: items =>
    let (v, h) := h.ofJson item
    let (vs, h) := h.ofJsonItems items
    (v :: vs, h)

/-- The values of the members of a document. -/
def ofJsonMembers (h : Heap) : List (String × Json) → List (String × Value) × Heap
  | [] => ([], h)
  | (key, member) :: members =>
    let (v, h) := h.ofJson member
    let (ps, h) := h.ofJsonMembers members
    ((key, v) :: ps, h)

end

/-- The document of a value met on a way through containers. Nothing at all is the answer to a
container inside itself; no document is the answer to `undefined` and functions. -/
def toJsonOn (h : Heap) (way : List Container) (v : Value) : Option (Option Json) :=
  match v with
  | .undefined | .function _ => some none
  | .null => some (some .null)
  | .bool b => some (some (.bool b))
  | .number x => some (some (if x.isFinite then .float x else .null))
  | .string s => some (some (.string s))
  | .array a =>
    if .array a ∈ way then none
    else do
      let items ← (h.items a).toList.attach.mapM fun ⟨v, _⟩ => h.toJsonOn (.array a :: way) v
      some (some (.array (items.map fun item => item.getD .null)))
  | .object o =>
    if .object o ∈ way then none
    else do
      let members ← (h.properties o).toList.attach.mapM fun ⟨(key, v), _⟩ => do
        let member ← h.toJsonOn (.object o :: way) v
        some (member.map fun j => (key, j))
      some (some (.object (members.filterMap fun member => member)))
termination_by unvisited h.containers way
decreasing_by
  · exact unvisited_cons_lt (array_mem_containers ‹_›) ‹_›
  · exact unvisited_cons_lt (object_mem_containers ‹_›) ‹_›

/-- The document of a value. -/
def toJson (h : Heap) (v : Value) : Option Json :=
  (h.toJsonOn [] v).join

end GuardedExpr.Heap

namespace GuardedExpr

/-- The text of the value of a document, as keys use it. -/
def Json.keyText (j : Json) : String :=
  let (v, h) := Heap.empty.ofJson j
  h.text v

end GuardedExpr
