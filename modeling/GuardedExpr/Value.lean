/-!
# Values

What an expression can produce. Arrays and objects are references into a heap;
functions are values with an identity of their own. An object never changes
its kind and a function never changes at all, so both stand in the reference.
-/

namespace GuardedExpr

/-- What the host says an object is. -/
inductive ObjectKind where
  | plain
  /-- The global object. -/
  | window
  | domNode
  /-- A wrapper around a document node. -/
  | domWrapper
deriving DecidableEq, Repr, Inhabited

/-- What the host says a function is. -/
inductive FunctionKind where
  | native
  /-- The function that makes functions. -/
  | functionConstructor
  /-- The function that makes objects. -/
  | objectConstructor
  | call
  | apply
  | bind
deriving DecidableEq, Repr, Inhabited

/-- The functions that every function has as members, and that act on it. -/
inductive Reflection where
  /-- Calls the function with a receiver and arguments. -/
  | call
  /-- Calls the function with a receiver and the items of an array. -/
  | apply
  /-- Fixes the receiver and the first arguments of the function. -/
  | bind
deriving DecidableEq, Repr

def ObjectKind.name : ObjectKind → String
  | .plain => "Plain"
  | .window => "Global"
  | .domNode => "DomNode"
  | .domWrapper => "DomWrapper"

def ObjectKind.all : List ObjectKind :=
  [.plain, .window, .domNode, .domWrapper]

def FunctionKind.name : FunctionKind → String
  | .native => "Native"
  | .functionConstructor => "Constructor"
  | .objectConstructor => "ObjectConstructor"
  | .call => "Call"
  | .apply => "Apply"
  | .bind => "Bind"

def FunctionKind.all : List FunctionKind :=
  [.native, .functionConstructor, .objectConstructor, .call, .apply, .bind]

/-- The member name of a reflection function, which is its own name too. -/
def Reflection.name : Reflection → String
  | .call => "call"
  | .apply => "apply"
  | .bind => "bind"

def Reflection.kind : Reflection → FunctionKind
  | .call => .call
  | .apply => .apply
  | .bind => .bind

def Reflection.ofKind? : FunctionKind → Option Reflection
  | .call => some .call
  | .apply => some .apply
  | .bind => some .bind
  | _ => none

def Reflection.ofName? (name : String) : Option Reflection :=
  if name = "call" then some .call
  else if name = "apply" then some .apply
  else if name = "bind" then some .bind
  else none

structure ArrayRef where
  id : Nat
deriving DecidableEq, Repr

/-- A reference to an object, with the kind that it always has. -/
structure ObjectRef where
  id : Nat
  kind : ObjectKind
deriving DecidableEq, Repr

/-- A function that the host supplies. -/
structure HostFunction where
  id : Nat
  name : String
  kind : FunctionKind
deriving DecidableEq, Repr

mutual

inductive Value where
  | undefined
  | null
  | bool (b : Bool)
  | number (x : Float)
  | string (s : String)
  | array (a : ArrayRef)
  | object (o : ObjectRef)
  | function (f : Function)

/-- A function: from the host, a reflection function, or another function bound to a receiver and
its first arguments. -/
inductive Function where
  | host (f : HostFunction)
  | reflection (id : Nat) (primitive : Reflection)
  | bound (id : Nat) (target : Function) (receiver : Value) (arguments : List Value)

end

instance : Inhabited Value := ⟨.undefined⟩

namespace Function

def id : Function → Nat
  | host f => f.id
  | reflection id _ => id
  | bound id _ _ _ => id

def name : Function → String
  | host f => f.name
  | reflection _ primitive => primitive.name
  | bound _ target _ _ => "bound " ++ target.name

def kind : Function → FunctionKind
  | host f => f.kind
  | reflection _ primitive => primitive.kind
  | bound _ _ _ _ => .native

end Function

namespace Value

def isUndefined : Value → Bool
  | undefined => true
  | _ => false

def isNullish : Value → Bool
  | undefined | null => true
  | _ => false

def isContainer : Value → Bool
  | array _ | object _ => true
  | _ => false

/-- Every value is truthy but `undefined`, `null`, `false`, zeros, NaN and the empty string. -/
def isTruthy : Value → Bool
  | undefined | null => false
  | bool b => b
  | number x => x != 0.0 && !x.isNaN
  | string s => !s.isEmpty
  | array _ | object _ | function _ => true

def number? : Value → Option Float
  | number x => some x
  | _ => none

def typeName : Value → String
  | undefined => "undefined"
  | null => "null"
  | bool _ => "boolean"
  | number _ => "number"
  | string _ => "string"
  | array _ => "array"
  | object _ => "object"
  | function _ => "function"

/-- The value, or a fallback in place of `undefined`. -/
def getD (v fallback : Value) : Value :=
  if v.isUndefined then fallback else v

end Value

end GuardedExpr
