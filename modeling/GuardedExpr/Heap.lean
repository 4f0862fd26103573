import GuardedExpr.Value
import Std.Data.TreeMap

/-!
# Heaps

A heap holds the contents of arrays and objects. Every reference denotes a
container in every heap: one without stored contents is empty. Identities come
from one counter, for containers and functions alike.
-/

namespace GuardedExpr

/-- The place of an object kind in the order of references. -/
def ObjectKind.rank : ObjectKind → Nat
  | .plain => 0
  | .window => 1
  | .domNode => 2
  | .domWrapper => 3

theorem ObjectKind.rank_inj {a b : ObjectKind} (h : a.rank = b.rank) : a = b := by
  cases a <;> cases b <;> simp_all [rank]

def ArrayRef.order : ArrayRef → ArrayRef → Ordering :=
  compareOn ArrayRef.id

/-- The order of object references, by identity and then by kind. -/
def ObjectRef.order : ObjectRef → ObjectRef → Ordering :=
  compareLex (compareOn ObjectRef.id) (compareOn fun o => o.kind.rank)

instance : Std.TransCmp ArrayRef.order :=
  inferInstanceAs (Std.TransCmp (compareOn ArrayRef.id))

instance : Std.LawfulEqCmp ArrayRef.order where
  eq_of_compare {a b} h := by
    have h : compare a.id b.id = .eq := h
    cases a
    cases b
    simpa using h

instance : Std.TransCmp ObjectRef.order :=
  inferInstanceAs
    (Std.TransCmp (compareLex (compareOn ObjectRef.id) (compareOn fun o : ObjectRef => o.kind.rank)))

instance : Std.LawfulEqCmp ObjectRef.order where
  eq_of_compare {a b} h := by
    have h : (compare a.id b.id).then (compare a.kind.rank b.kind.rank) = .eq := h
    obtain ⟨hid, hrank⟩ := Ordering.then_eq_eq.mp h
    have hid : a.id = b.id := Std.LawfulEqOrd.eq_of_compare hid
    have hkind : a.kind = b.kind := ObjectKind.rank_inj (Std.LawfulEqOrd.eq_of_compare hrank)
    cases a
    cases b
    simp_all

/-- The own properties of an object, in ascending order of their keys. -/
abbrev Properties := Std.TreeMap String Value

/-- The contents of arrays and objects, and the next identity to give out. -/
structure Heap where
  next : Nat
  arrays : Std.TreeMap ArrayRef (Array Value) ArrayRef.order
  objects : Std.TreeMap ObjectRef Properties ObjectRef.order

namespace Heap

def empty : Heap where
  next := 0
  arrays := ∅
  objects := ∅

instance : Inhabited Heap := ⟨empty⟩

def items (h : Heap) (a : ArrayRef) : Array Value :=
  h.arrays[a]?.getD #[]

def properties (h : Heap) (o : ObjectRef) : Properties :=
  h.objects[o]?.getD ∅

/-- The own property of an object under a key, `undefined` when there is none. -/
def property (h : Heap) (o : ObjectRef) (key : String) : Value :=
  (h.properties o)[key]?.getD .undefined

def setItems (h : Heap) (a : ArrayRef) (items : Array Value) : Heap :=
  { h with arrays := h.arrays.insert a items }

def setProperties (h : Heap) (o : ObjectRef) (properties : Properties) : Heap :=
  { h with objects := h.objects.insert o properties }

def setProperty (h : Heap) (o : ObjectRef) (key : String) (v : Value) : Heap :=
  h.setProperties o ((h.properties o).insert key v)

def fresh (h : Heap) : Nat × Heap :=
  (h.next, { h with next := h.next + 1 })

def newArray (h : Heap) (items : Array Value) : ArrayRef × Heap :=
  let (id, h) := h.fresh
  (⟨id⟩, h.setItems ⟨id⟩ items)

/-- Makes an object with these properties, of which a later one replaces an earlier one. -/
def newObject (h : Heap) (kind : ObjectKind) (properties : List (String × Value)) :
    ObjectRef × Heap :=
  let (id, h) := h.fresh
  (⟨id, kind⟩, h.setProperties ⟨id, kind⟩ (Std.TreeMap.ofList properties))

/-- Makes a reflection function; no two are the same function. -/
def newReflection (h : Heap) (primitive : Reflection) : Function × Heap :=
  let (id, h) := h.fresh
  (.reflection id primitive, h)

@[simp] theorem items_setItems_self (h : Heap) (a : ArrayRef) (items : Array Value) :
    (h.setItems a items).items a = items := by
  simp [Heap.items, setItems]

theorem items_setItems_of_ne (h : Heap) {a b : ArrayRef} (items : Array Value) (hne : a ≠ b) :
    (h.setItems a items).items b = h.items b := by
  simp [Heap.items, setItems, Std.TreeMap.getElem?_insert, hne]

@[simp] theorem items_setProperties (h : Heap) (o : ObjectRef) (ps : Properties) (a : ArrayRef) :
    (h.setProperties o ps).items a = h.items a := rfl

@[simp] theorem properties_setItems (h : Heap) (a : ArrayRef) (items : Array Value)
    (o : ObjectRef) : (h.setItems a items).properties o = h.properties o := rfl

@[simp] theorem properties_setProperties_self (h : Heap) (o : ObjectRef) (ps : Properties) :
    (h.setProperties o ps).properties o = ps := by
  simp [Heap.properties, setProperties]

theorem properties_setProperties_of_ne (h : Heap) {o p : ObjectRef} (ps : Properties)
    (hne : o ≠ p) : (h.setProperties o ps).properties p = h.properties p := by
  simp [Heap.properties, setProperties, Std.TreeMap.getElem?_insert, hne]

/-- A stored property is read back, and no other key changes. -/
theorem property_setProperty (h : Heap) (o : ObjectRef) (key key' : String) (v : Value) :
    (h.setProperty o key v).property o key' = if key = key' then v else h.property o key' := by
  simp only [property, setProperty, properties_setProperties_self, Std.TreeMap.getElem?_insert,
    Std.LawfulEqCmp.compare_eq_iff_eq]
  split <;> rfl

end Heap

end GuardedExpr
