import GuardedExpr.Access
import GuardedExpr.Context
import GuardedExpr.Expr.Purpose
import GuardedExpr.Guard
import GuardedExpr.Operator

/-!
# Evaluation

The value of an expression, and the place where a value can be stored. Every
member name, every value read, every callee, argument and result passes a
guard on its way. A missing link reads as `undefined`; on the way to a target
it is replaced by an empty object first.
-/

namespace GuardedExpr

/-- What an expression denotes. -/
inductive Place where
  /-- A value that has no place of its own. -/
  | plain (v : Value)
  /-- The member of an owner under a key, and its value if it was read. -/
  | slot (owner : Value) (key : String) (v : Value)

namespace Place

def value : Place → Value
  | plain v => v
  | slot _ _ v => v

/-- The receiver of a call of the value at a place. -/
def receiver : Place → Value
  | plain _ => .undefined
  | slot owner _ _ => owner

end Place

namespace Expr

variable {σ : Type} (access : Access σ)

def guardName (name : String) : Run σ String :=
  Run.guarded (Guard.name name)

/-- The guard on values, in a run: it sees the heap of its moment. -/
def guardObject (v : Value) : Run σ Value := do
  Run.guarded (Guard.object (← Run.heap) v)

def store (place : Place) (v : Value) : Run σ Unit :=
  match place with
  | .plain _ => Run.fail .notAssignable
  | .slot owner key _ => access.write owner key v

/-- Puts an empty object in the place of a missing link of a container. -/
def makeMissing (owner : Value) (key : String) (found : Value) : Run σ Value :=
  if found.isNullish && owner.isContainer then do
    let made ← access.makeObject []
    access.write owner key made
    return made
  else return found

/-- The value of a link: what a truthy owner has under the key, guarded. -/
def readLink (purpose : Purpose) (owner : Value) (key : String) : Run σ Value := do
  let found ← if owner.isTruthy then access.read owner key else pure .undefined
  let found ← if purpose = .make then makeMissing access owner key found else pure found
  guardObject found

/-- The place of a member, read unless it is a target. The name is guarded first. -/
def memberPlace (purpose : Purpose) (owner : Value) (key : String) : Run σ Place := do
  let key ← guardName key
  if purpose = .store then return .slot owner key .undefined
  else return .slot owner key (← readLink access purpose owner key)

variable (context : Context)

mutual

/-- The place that an expression denotes. -/
def locate (purpose : Purpose) : Expr → Run σ Place
  | .program body => return .plain (← body.locate purpose.forBody).value
  | .literal value => return .plain (← Run.onHeap fun h => h.ofJson value)
  | .array elements => return .plain (← access.makeArray (← evalList elements))
  | .object properties => return .plain (← access.makeObject (← evalProperties properties))
  | .self => return .plain context.scope
  | .identifier name => do
    let owner := context.owner (← Run.heap) name
    memberPlace access purpose owner name
  | .member owner name => do
    let owner := (← owner.locate purpose.forOwner).value
    memberPlace access purpose owner name
  | .index owner key _ => do
    let owner := (← owner.locate purpose.forOwner).value
    let key := (← key.locate .read).value
    memberPlace access purpose owner ((← Run.heap).text key)
  | .call callee arguments => do
    let place ← callee.locate .read
    if place.value.isNullish then return .plain .undefined
    match ← Run.guarded (Guard.function place.value) with
    | .function f =>
      let arguments ← evalArguments arguments
      let result ← access.invoke ⟨f, place.receiver, arguments⟩
      return .plain (← guardObject result)
    | _ => Run.fail (.notAFunction callee.calleeText)
  | .assign target value => do
    let place ← target.locate .store
    let value ← guardObject (← value.locate .read).value
    store access place value
    return .plain value
  | .unary operator operand => do
    let operand := (← operand.locate .read).value.getD (.number 0.0)
    return .plain (operator.apply (← Run.heap) operand)

def evalList : List Expr → Run σ (List Value)
  | [] => return []
  | e :: es => do
    let v := (← e.locate .read).value
    return v :: (← evalList es)

/-- The values of arguments, each guarded before the next is evaluated. -/
def evalArguments : List Expr → Run σ (List Value)
  | [] => return []
  | e :: es => do
    let v ← guardObject (← e.locate .read).value
    return v :: (← evalArguments es)

def evalProperties : List (PropertyKey × Expr) → Run σ (List (String × Value))
  | [] => return []
  | (key, e) :: ps => do
    let v := (← e.locate .read).value
    return (key.text, v) :: (← evalProperties ps)

end

def eval (e : Expr) : Run σ Value :=
  return (← e.locate access context .read).value

end Expr

end GuardedExpr
