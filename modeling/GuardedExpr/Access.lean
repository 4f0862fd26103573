import GuardedExpr.Heap.Member
import GuardedExpr.Run

/-!
# Access

Everything that an expression asks of the world: to read and to store a member,
to call a function, and to make an array or an object. An evaluation is given
these as a record and reaches members and functions in no other way.
-/

namespace GuardedExpr

/-- A call of a function with a receiver and arguments. -/
structure Invocation where
  function : Function
  receiver : Value
  arguments : List Value

/-- The ways in which an expression reaches the world. -/
structure Access (σ : Type) where
  read : Value → String → Run σ Value
  write : Value → String → Value → Run σ Unit
  invoke : Invocation → Run σ Value
  makeArray : List Value → Run σ Value
  makeObject : List (String × Value) → Run σ Value

/-- Access to the heap itself; calls are left to the host. -/
def Access.direct {σ : Type} (invoke : Invocation → Run σ Value) : Access σ where
  read owner key := Run.onHeap fun h => h.readMember owner key
  write owner key v := Run.onHeapOrFail fun h => h.writeMember owner key v
  invoke := invoke
  makeArray items := Run.onHeap fun h =>
    let (a, h) := h.newArray items.toArray
    (.array a, h)
  makeObject properties := Run.onHeap fun h =>
    let (o, h) := h.newObject .plain properties
    (.object o, h)

end GuardedExpr
