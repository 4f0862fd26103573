import GuardedExpr.Error
import GuardedExpr.Heap

/-!
# Runs

A run changes a world, a heap together with the state of the host, and ends
with a result or an error. What it did to the world before an error stays.
-/

namespace GuardedExpr

/-- A heap, and what the host keeps beside it. -/
structure World (σ : Type) where
  heap : Heap
  host : σ

/-- A computation on a world that may end with an error. -/
abbrev Run (σ α : Type) := ExceptT Error (StateM (World σ)) α

namespace Run

variable {σ α : Type}

/-- How a computation ends from a world, and the world it leaves. -/
def outcome (m : Run σ α) (w : World σ) : Except Error α × World σ :=
  m.run.run w

def heap : Run σ Heap := do
  return (← get).heap

/-- Changes the heap and gives a result. -/
def onHeap (f : Heap → α × Heap) : Run σ α := do
  let world ← get
  let (a, h) := f world.heap
  set { world with heap := h }
  return a

/-- Changes the heap if nothing stands against it. -/
def onHeapOrFail (f : Heap → Except RuntimeError Heap) : Run σ Unit := do
  let world ← get
  match f world.heap with
  | .ok h => set { world with heap := h }
  | .error e => throw (.runtime e)

/-- Ends with the error of a guard, if it has one. -/
def guarded (check : Except SecurityError α) : Run σ α :=
  match check with
  | .ok a => return a
  | .error e => throw (.security e)

def fail (e : RuntimeError) : Run σ α :=
  throw (.runtime e)

@[simp] theorem outcome_pure (a : α) (w : World σ) :
    outcome (pure a : Run σ α) w = (.ok a, w) := rfl

@[simp] theorem outcome_fail (e : RuntimeError) (w : World σ) :
    outcome (fail e : Run σ α) w = (.error (.runtime e), w) := rfl

@[simp] theorem outcome_heap (w : World σ) : outcome heap w = (.ok w.heap, w) := rfl

@[simp] theorem outcome_onHeap (f : Heap → α × Heap) (w : World σ) :
    outcome (onHeap f) w = (.ok (f w.heap).1, { w with heap := (f w.heap).2 }) := rfl

/-- A computation goes on from the world that the one before it left, unless that one failed. -/
theorem outcome_bind {β : Type} (m : Run σ α) (f : α → Run σ β) (w : World σ) :
    outcome (m >>= f) w =
      match outcome m w with
      | (.ok a, w) => outcome (f a) w
      | (.error e, w) => (.error e, w) := by
  simp only [outcome, ExceptT.run_bind, StateT.run_bind]
  rcases m.run.run w with ⟨result, _⟩
  cases result <;> rfl

/-- What ends well has gone through a world between its parts. -/
theorem outcome_bind_eq_ok {β : Type} {m : Run σ α} {f : α → Run σ β} {w w' : World σ} {b : β} :
    outcome (m >>= f) w = (.ok b, w') ↔
      ∃ a v, outcome m w = (.ok a, v) ∧ outcome (f a) v = (.ok b, w') := by
  rw [outcome_bind]
  constructor
  · intro ended
    rcases ran : outcome m w with ⟨_ | a, v⟩
    · simp [ran] at ended
    · rw [ran] at ended
      exact ⟨a, v, rfl, ended⟩
  · rintro ⟨a, v, ran, ended⟩
    rw [ran]
    exact ended

end Run

end GuardedExpr
