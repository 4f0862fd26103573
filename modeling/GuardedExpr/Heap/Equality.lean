import GuardedExpr.Heap.Walk

/-!
# Equality of values

Two containers are equal when they are the same, or of one kind and with equal
contents under equal keys. A pair that is met again inside itself counts as
equal: it is equal if everything else is. Functions are equal only to
themselves, and NaN to nothing.
-/

namespace GuardedExpr

/-- Equality of values that are not containers. -/
def Value.equalScalar : Value → Value → Bool
  | undefined, undefined => true
  | null, null => true
  | bool a, bool b => a == b
  | number x, number y => x == y
  | string s, string t => s == t
  | function f, function g => f.id == g.id
  | _, _ => false

/-- Both are arrays, or objects of one kind. -/
def Container.sameKind : Container → Container → Bool
  | .array _, .array _ => true
  | .object o, .object p => o.kind == p.kind
  | _, _ => false

namespace Heap

/-- Equality of values met on a way through pairs of containers. -/
def equalOn (h : Heap) (way : List (Container × Container)) (x y : Value) : Bool :=
  match x.container?, y.container? with
  | none, none => x.equalScalar y
  | some c, some d =>
    if c = d then true
    else if !c.sameKind d then false
    else if (c, d) ∈ way then true
    else
      (h.entries c).length == (h.entries d).length &&
        ((h.entries c).zip (h.entries d)).attach.all fun ⟨(e, f), _⟩ =>
          e.1 == f.1 && h.equalOn ((c, d) :: way) e.2 f.2
  | _, _ => false
termination_by unvisited h.containerPairs way
decreasing_by
  have hmem := List.of_mem_zip ‹(e, f) ∈ _›
  exact unvisited_cons_lt
    (mem_containerPairs.mpr ⟨mem_containers hmem.1, mem_containers hmem.2⟩) ‹_›

/-- Equality of values. -/
def equal (h : Heap) (x y : Value) : Bool :=
  h.equalOn [] x y

end Heap

end GuardedExpr
