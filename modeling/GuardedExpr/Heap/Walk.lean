import GuardedExpr.Heap
import GuardedExpr.Number.Decimal

/-!
# Walks through a heap

A walk enters containers and remembers the way it came. It ends on every heap,
cyclic ones included, because it enters only containers that have contents and
are not on its way yet, and a heap has finitely many of them.
-/

namespace GuardedExpr

/-- An array or an object. -/
inductive Container where
  | array (a : ArrayRef)
  | object (o : ObjectRef)
deriving DecidableEq, Repr

/-- The container that a value refers to. -/
def Value.container? : Value → Option Container
  | .array a => some (.array a)
  | .object o => some (.object o)
  | _ => none

/-- The decimal text of an array index. -/
def indexText (i : Nat) : String :=
  String.ofList (Number.digitsOf i)

namespace Heap

/-- What a container holds, each value under its key: an array under the texts of its indices, an
object in ascending order of its keys. -/
def entries (h : Heap) : Container → List (String × Value)
  | .array a => (h.items a).toList.zipIdx.map fun item => (indexText item.2, item.1)
  | .object o => (h.properties o).toList

/-- The containers with stored contents. -/
def containers (h : Heap) : List Container :=
  h.arrays.keys.map .array ++ h.objects.keys.map .object

/-- An array with an item has stored contents. -/
theorem array_mem_containers {h : Heap} {a : ArrayRef} {v : Value}
    (hv : v ∈ (h.items a).toList) : .array a ∈ h.containers := by
  have ha : a ∈ h.arrays := by
    by_cases ha : a ∈ h.arrays
    · exact ha
    · simp [items, Std.TreeMap.getElem?_eq_none ha] at hv
  simp [containers, ha]

/-- An object with a property has stored contents. -/
theorem object_mem_containers {h : Heap} {o : ObjectRef} {p : String × Value}
    (hp : p ∈ (h.properties o).toList) : .object o ∈ h.containers := by
  have ho : o ∈ h.objects := by
    by_cases ho : o ∈ h.objects
    · exact ho
    · rw [properties, Std.TreeMap.getElem?_eq_none ho] at hp
      exact absurd hp List.not_mem_nil
  simp [containers, ho]

/-- A container with an entry has stored contents. -/
theorem mem_containers {h : Heap} {c : Container} {e : String × Value} (he : e ∈ h.entries c) :
    c ∈ h.containers := by
  cases c with
  | array a =>
    obtain ⟨item, hitem, -⟩ := List.mem_map.mp he
    exact array_mem_containers (List.fst_mem_of_mem_zipIdx hitem)
  | object o => exact object_mem_containers he

/-- All pairs of containers with stored contents. -/
def containerPairs (h : Heap) : List (Container × Container) :=
  h.containers.flatMap fun c => h.containers.map fun d => (c, d)

theorem mem_containerPairs {h : Heap} {c d : Container} :
    (c, d) ∈ h.containerPairs ↔ c ∈ h.containers ∧ d ∈ h.containers := by
  simp [containerPairs]

end Heap

/-- How many members of a list of places are not on the way. -/
def unvisited {α : Type} [DecidableEq α] (places way : List α) : Nat :=
  places.countP fun p => p ∉ way

theorem unvisited_cons {α : Type} [DecidableEq α] (q : α) (places way : List α) :
    unvisited (q :: places) way = unvisited places way + if q ∈ way then 0 else 1 := by
  by_cases hq : q ∈ way <;> simp [unvisited, hq]

/-- A longer way leaves no more places. -/
theorem unvisited_cons_le {α : Type} [DecidableEq α] (places way : List α) (p : α) :
    unvisited places (p :: way) ≤ unvisited places way :=
  List.countP_mono_left fun _ _ h => by simp_all

/-- Entering a place leaves fewer places. -/
theorem unvisited_cons_lt {α : Type} [DecidableEq α] {places way : List α} {p : α}
    (hplace : p ∈ places) (hway : p ∉ way) : unvisited places (p :: way) < unvisited places way := by
  induction places with
  | nil => simp at hplace
  | cons q places ih =>
    have hle := unvisited_cons_le places way p
    rw [unvisited_cons, unvisited_cons]
    rcases List.mem_cons.mp hplace with rfl | hmem
    · rw [if_pos List.mem_cons_self, if_neg hway]
      omega
    · have hlt := ih hmem
      by_cases hq : q ∈ way
      · rw [if_pos (List.mem_cons_of_mem p hq), if_pos hq]
        exact hlt
      · rw [if_neg hq]
        split <;> omega

end GuardedExpr
