import GuardedExpr.Access

/-!
# Calling functions

A host says what its functions do. A bound function calls its target with the
receiver and the first arguments it holds; the reflection functions act on the
function they are called on. Functions may call each other without an end, so
the depth of calls is bounded.
-/

namespace GuardedExpr

/-- What the functions of a host do, given a way to call any function. -/
structure Host (σ : Type) where
  call : (Invocation → Run σ Value) → HostFunction → Value → List Value → Run σ Value

/-- The receiver that the first argument of a reflection function names, and the other arguments. -/
def takeReceiver : List Value → Value × List Value
  | [] => (.undefined, [])
  | receiver :: arguments => (receiver, arguments)

/-- The arguments that an array holds; anything else holds none. -/
def spread (h : Heap) : Option Value → List Value
  | some (.array a) => (h.items a).toList
  | _ => []

/-- The function that a reflection function acts on. -/
def reflected {σ : Type} (primitive : Reflection) : Value → Run σ Function
  | .function f => return f
  | v => Run.fail (.notAFunction (v.typeName ++ "." ++ primitive.name))

/-- Calls a function, at most so deep. -/
def perform {σ : Type} (host : Host σ) : Nat → Invocation → Run σ Value
  | 0, _ => Run.fail .callsTooDeep
  | depth + 1, ⟨function, receiver, arguments⟩ =>
    match function with
    | .host f => host.call (perform host depth) f receiver arguments
    | .bound _ target receiver held => perform host depth ⟨target, receiver, held ++ arguments⟩
    | .reflection _ primitive => do
      let target ← reflected primitive receiver
      let (receiver, rest) := takeReceiver arguments
      match primitive with
      | .call => perform host depth ⟨target, receiver, rest⟩
      | .apply => do
        perform host depth ⟨target, receiver, spread (← Run.heap) rest.head?⟩
      | .bind =>
        Run.onHeap fun h =>
          let (id, h) := h.fresh
          (.function (.bound id target receiver rest), h)

/-- Access to the heap and to the functions of a host, at most so deep. -/
def Access.ofHost {σ : Type} (host : Host σ) (depth : Nat) : Access σ :=
  Access.direct (perform host depth)

end GuardedExpr
