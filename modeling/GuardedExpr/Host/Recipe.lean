import GuardedExpr.Calling
import GuardedExpr.Coercion

/-!
# Stock host functions

A host whose functions follow a small set of recipes and record every call:
the name of the function and the types of its receiver and its arguments.
-/

namespace GuardedExpr

/-- What a stock function does. -/
inductive Recipe where
  /-- Gives `undefined`. -/
  | nothing
  /-- Gives a fixed value. -/
  | fixed (v : Value)
  /-- Gives its first argument. -/
  | first
  /-- Gives its receiver. -/
  | receiver
  /-- Gives an array of its arguments. -/
  | gather
  /-- Gives the number of its arguments. -/
  | count
  /-- Gives the sum of its arguments. -/
  | sum
  /-- Gives the sum of the member `n` of its receiver and its arguments. -/
  | add
  /-- Reads the member of its receiver that the first argument names. -/
  | get
  /-- Stores the second argument into the member of its receiver that the first one names. -/
  | set
  /-- Gives the texts of its arguments, joined. -/
  | join
  /-- Fails with the text of its first argument. -/
  | throw
  /-- Calls its first argument, with the second one as the receiver and the others as arguments. -/
  | invoke

/-- A recorded call: the name of the function, and the types of its receiver and its arguments. -/
structure CallRecord where
  name : String
  receiver : String
  arguments : List String
deriving DecidableEq, Repr

/-- The recipes of stock functions by identity, and the calls so far, the latest first. -/
structure StockHost where
  recipes : Std.TreeMap Nat Recipe
  calls : List CallRecord

namespace StockHost

/-- A host without functions and calls. -/
def empty : StockHost where
  recipes := ∅
  calls := []

/-- Adds a function. -/
def supply (host : StockHost) (id : Nat) (recipe : Recipe) : StockHost :=
  { host with recipes := host.recipes.insert id recipe }

/-- Records a call. -/
def record (host : StockHost) (call : CallRecord) : StockHost :=
  { host with calls := call :: host.calls }

/-- Forgets the recorded calls. -/
def forgetCalls (host : StockHost) : StockHost :=
  { host with calls := [] }

end StockHost

/-- The sum of a number and the numbers of values, from left to right. -/
def Heap.sum (h : Heap) (start : Float) (vs : List Value) : Float :=
  vs.foldl (fun total v => total + h.number v) start

/-- Follows a recipe. -/
def Recipe.follow (recipe : Recipe) (call : Invocation → Run StockHost Value)
    (receiver : Value) (arguments : List Value) : Run StockHost Value := do
  let argument (i : Nat) : Value := arguments[i]?.getD .undefined
  match recipe with
  | .nothing => return .undefined
  | .fixed v => return v
  | .first => return argument 0
  | .receiver => return receiver
  | .gather => Run.onHeap fun h =>
    let (a, h) := h.newArray arguments.toArray
    (.array a, h)
  | .count => return .number (Number.ofNat arguments.length)
  | .sum => return .number ((← Run.heap).sum 0.0 arguments)
  | .add =>
    let start ← Run.onHeap fun h => h.readMember receiver "n"
    let h ← Run.heap
    return .number (h.sum (h.number start) arguments)
  | .get => Run.onHeap fun h => h.readMember receiver (h.text (argument 0))
  | .set =>
    Run.onHeapOrFail fun h => h.writeMember receiver (h.text (argument 0)) (argument 1)
    return receiver
  | .join =>
    let h ← Run.heap
    return .string (String.join (arguments.map h.text))
  | .throw => Run.fail (.thrown ((← Run.heap).text (argument 0)))
  | .invoke =>
    match argument 0 with
    | .function f => call ⟨f, argument 1, arguments.drop 2⟩
    | v => Run.fail (.notAFunction v.typeName)

/-- The host of stock functions. A function without a recipe gives `undefined`. -/
def stockHost : Host StockHost where
  call call f receiver arguments := do
    let record : CallRecord := ⟨f.name, receiver.typeName, arguments.map Value.typeName⟩
    modify fun world => { world with host := world.host.record record }
    let recipe := (← get).host.recipes[f.id]?.getD .nothing
    recipe.follow call receiver arguments

end GuardedExpr
