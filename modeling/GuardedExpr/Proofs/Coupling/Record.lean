import GuardedExpr.Proofs.Coupling.SameValues
import GuardedExpr.Proofs.Recording

/-!
# Records of evaluations

A recorded evaluation set beside the evaluation itself: they end alike, and what
holds of every step that an evaluation may take holds of every event on the
record. Of the arguments of a call it is known that its operands have just been
evaluated to them.
-/

namespace GuardedExpr

open Run

/-- The step calls a function. -/
def Step.isInvoke : Step → Bool
  | invoke _ => true
  | _ => false

variable {σ : Type} {Safe : Event → Prop}

/-- A recorded run beside the run itself. -/
def Coupling.record (σ : Type) (Safe : Event → Prop) : Coupling Steady (Recorded σ) σ :=
  Coupling.same (RecordedAs Safe) fun _ => True

theorem sameEnd_of_eq {α : Type} {a b : Except Error α} (equal : a = b) :
    SameEnd (fun _ => True) (fun x y => x = y) a b := by
  subst equal
  cases a with
  | ok a => exact .ok rfl
  | error e => exact .error trivial

theorem SameEnd.eq {α : Type} {Fails : Error → Prop} {a b : Except Error α}
    (ended : SameEnd Fails (fun x y => x = y) a b) : a = b := by
  cases ended with
  | ok equal => rw [equal]
  | error fails => rfl

namespace Coupling

/-- A step that is safe where it is taken is put on record. -/
theorem record_step {α : Type} {step : Step} {m : Run σ α} {w : World (Recorded σ)} {w' : World σ}
    (safe : Safe ⟨step, w.heap⟩) (related : RecordedAs Safe w w') :
    (record σ Safe).MatchesAt .steady (Run.recorded step m) m (fun _ a b => a = b) w w' := by
  obtain ⟨rfl, kept⟩ := related
  refine ⟨.steady, le_refl _, ⟨rfl, fun event member => ?_⟩, sameEnd_of_eq rfl⟩
  rcases List.mem_append.mp member with before | last
  · exact kept event before
  · obtain rfl := List.mem_singleton.mp last
    exact safe

/-- What is made without access to the world is not on record. -/
theorem record_onHeap {α : Type} (f : Heap → α × Heap) :
    Alike (RecordedAs Safe : World (Recorded σ) → World σ → Prop) (fun _ => True) (onHeap f)
      (onHeap f) := by
  refine .change fun w w' related => ⟨.steady, le_refl _, ?_⟩
  obtain ⟨rfl, kept⟩ := related
  exact ⟨⟨rfl, kept⟩, rfl⟩

/-- **The record is safe** if the steps that call nothing are, and the calls are made as their
operands say. -/
theorem record_steps {run : Invocation → Run σ Value} {context : Context} {Allowed : Expr → Prop}
    (others : ∀ step heap, step.isInvoke = false → Safe ⟨step, heap⟩)
    (calls : ∀ {callee operands f receiver arguments w}, Allowed (.call callee operands) →
      (∃ u, (Expr.evalArguments (Access.direct run).recorded context operands).outcome u =
        (.ok arguments, w)) → Safe ⟨.invoke ⟨f, receiver, arguments⟩, w.heap⟩) :
    (record σ Safe).Steps context context (Access.direct run).recorded (Access.direct run) Allowed
      True :=
  SameSteps.steps {
    heap := fun related => congrArg World.heap related.1
    array := fun _ => record_onHeap _
    object := fun _ => record_onHeap _
    makeArray := fun _ _ _ => record_step (others _ _ rfl)
    makeObject := fun _ _ _ => record_step (others _ _ rfl)
    read := fun _ _ _ _ => record_step (others _ _ rfl)
    stores := fun _ => trivial
    write := fun _ _ _ _ _ _ => record_step (others _ _ rfl)
    name := fun _ _ => trivial
    guard := fun _ => trivial
    notAssignable := fun _ => trivial
    notCallable := fun _ => trivial
    notAFunction := fun _ => trivial
    invoke := fun called related evaluated => record_step (calls called evaluated) related }

/-- Arguments that a recorded run evaluates are evaluated by the run itself. -/
theorem evalArguments_forget {run : Invocation → Run σ Value} {context : Context}
    {operands : List Expr} {arguments : List Value} {u w : World (Recorded σ)}
    (ran : (Expr.evalArguments (Access.direct run).recorded context operands).outcome u =
      (.ok arguments, w)) :
    (Expr.evalArguments (Access.direct run) context operands).outcome u.forget =
      (.ok arguments, w.forget) := by
  have steps : (record σ fun _ => True).Steps context context (Access.direct run).recorded
      (Access.direct run) (fun _ => True) True :=
    record_steps (fun _ _ _ => trivial) fun _ _ => trivial
  obtain ⟨_, _, ⟨world, _⟩, ended⟩ := steps.evalArguments operands .steady (fun _ _ => trivial) u
    u.forget ⟨rfl, fun _ _ => trivial⟩
  rw [ran] at world ended
  rcases ran' : (Expr.evalArguments (Access.direct run) context operands).outcome u.forget with
    ⟨result, w'⟩
  rw [ran'] at world ended
  cases ended with
  | ok items => rw [forall₂_same_iff.mp items, world]

/-- Recorded runs that match the run end as it does, with safe events only. -/
theorem Matches.runsAs {k : Steady} {m : Run (Recorded σ) Value} {n : Run σ Value}
    (matching : (record σ Safe).Matches k m n (record σ Safe).Held) (w : World σ) :
    RunsAs Safe (fun _ => True) m n w := by
  have related : RecordedAs Safe w.recording w := by
    refine ⟨rfl, fun event member => ?_⟩
    cases member
  obtain ⟨_, _, ⟨world, kept⟩, ended⟩ := matching w.recording w related
  exact ⟨SameEnd.eq ended, world, kept, fun _ _ => trivial⟩

end Coupling

end GuardedExpr
