import GuardedExpr.Error
import GuardedExpr.Heap.Member

/-!
# Guards

The checks between an expression and the host. A guard hands its argument back
or fails with a security error: on member names that reach prototypes or
constructors, on values that an expression must not touch, and on functions
that it must not call.
-/

namespace GuardedExpr

/-- The member names that reach prototypes or constructors. -/
def forbiddenNames : List String :=
  ["constructor", "__proto__", "__defineGetter__", "__defineSetter__", "__lookupGetter__",
    "__lookupSetter__"]

/-- An object that the host did not tag is forbidden when it is its own `window` or its own
`constructor`, or when it has the members of a document node or of a wrapper around one. -/
def Heap.looksForbidden? (h : Heap) (o : ObjectRef) : Option Forbidden :=
  let has (key : String) : Bool := (h.property o key).isTruthy
  if h.holdsItself o "window" then some .window
  else if h.holdsItself o "constructor" then some .functionConstructor
  else if has "children" && (has "nodeName" || (has "prop" && has "attr" && has "find")) then
    some .domNode
  else none

/-- Why an expression must not touch a value, if it must not. -/
def Heap.forbidden? (h : Heap) : Value → Option Forbidden
  | .object o =>
    match o.kind with
    | .window => some .window
    | .domNode | .domWrapper => some .domNode
    | .plain => h.looksForbidden? o
  | .function f =>
    match f.kind with
    | .functionConstructor => some .functionConstructor
    | .objectConstructor => some .objectConstructor
    | _ => none
  | _ => none

/-- Why an expression must not call a value, if it must not. -/
def Value.forbiddenCall? : Value → Option Forbidden
  | .function f =>
    match f.kind with
    | .functionConstructor => some .functionConstructor
    | .call | .apply | .bind => some .reflection
    | .native | .objectConstructor => none
  | _ => none

namespace Guard

/-- Hands back a member name that is not forbidden. -/
def name (name : String) : Except SecurityError String :=
  if name ∈ forbiddenNames then .error (.memberName name) else .ok name

/-- Hands back a value that an expression may touch. -/
def object (h : Heap) (v : Value) : Except SecurityError Value :=
  match h.forbidden? v with
  | some what => .error (.object what)
  | none => .ok v

/-- Hands back a value that is no function, or a function that an expression may call. -/
def function (v : Value) : Except SecurityError Value :=
  match v.forbiddenCall? with
  | some what => .error (.function what)
  | none => .ok v

/-- A name passes the guard exactly when it is not forbidden. -/
theorem name_eq_ok_iff {name : String} : Guard.name name = .ok name ↔ name ∉ forbiddenNames := by
  unfold Guard.name
  split <;> simp_all

end Guard

end GuardedExpr
