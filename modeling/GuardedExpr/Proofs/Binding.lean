import GuardedExpr.Calling

/-!
# Bound functions

Binding a function gives another one, which holds a receiver and the first
arguments. Binding that one again holds more arguments after them, and another
receiver that nobody will see. However often a function is bound, and whichever
way the last one is called, the run is a single call of the function itself,
with the receiver it was bound to first and all the arguments in the order in
which they were given.
-/

namespace GuardedExpr

open Run

/-- What a function is bound to at once, and the identity of the bind function that does it. -/
structure Binding where
  binder : Nat
  receiver : Value
  arguments : List Value

variable {σ : Type}

/-- Calls a bind function on a value. -/
def bindTo (host : Host σ) (depth : Nat) (target : Value) (binding : Binding) : Run σ Value :=
  perform host depth
    ⟨.reflection binding.binder .bind, target, binding.receiver :: binding.arguments⟩

/-- Binds a value, binds what this gives, and so on. -/
def bindInTurn (host : Host σ) (depth : Nat) (target : Value) (bindings : List Binding) :
    Run σ Value :=
  bindings.foldlM (bindTo host depth) target

/-- The world after so many identities have been given out. -/
def World.afterFresh (w : World σ) (count : Nat) : World σ :=
  { w with heap := { w.heap with next := w.heap.next + count } }

theorem World.afterFresh_afterFresh (w : World σ) (first second : Nat) :
    (w.afterFresh first).afterFresh second = w.afterFresh (first + second) := by
  unfold afterFresh
  rw [Nat.add_assoc]

/-- To call the function, in any of three ways, is a run that is so many calls away and depends on
the arguments alone. -/
structure Function.CallsOnly (host : Host σ) (g : Function) (away : Nat)
    (called : Nat → List Value → Run σ Value) : Prop where
  direct (depth : Nat) (ignored : Value) (given : List Value) :
    perform host (depth + away) ⟨g, ignored, given⟩ = called depth given
  call (depth id : Nat) (ignored : Value) (given : List Value) :
    perform host (depth + away + 1) ⟨.reflection id .call, .function g, ignored :: given⟩ =
      called depth given
  apply (depth id : Nat) (ignored : Value) (given : ArrayRef) (w : World σ) :
    (perform host (depth + away + 1)
        ⟨.reflection id .apply, .function g, [ignored, .array given]⟩).outcome w =
      (called depth (w.heap.items given).toList).outcome w

section Calls

variable (host : Host σ) (depth : Nat)

/-- A function of the host is called by the host, which may call others less deep. -/
theorem perform_host (f : HostFunction) (receiver : Value) (given : List Value) :
    perform host (depth + 1) ⟨.host f, receiver, given⟩ =
      host.call (perform host depth) f receiver given := by
  rw [perform]

/-- A bound function calls its target, with what it holds before what is given. -/
theorem perform_bound (id : Nat) (target : Function) (receiver ignored : Value)
    (held given : List Value) :
    perform host (depth + 1) ⟨.bound id target receiver held, ignored, given⟩ =
      perform host depth ⟨target, receiver, held ++ given⟩ := by
  rw [perform]

theorem perform_call (id : Nat) (f : Function) (receiver : Value) (given : List Value) :
    perform host (depth + 1) ⟨.reflection id .call, .function f, receiver :: given⟩ =
      perform host depth ⟨f, receiver, given⟩ := by
  rw [perform]
  rfl

/-- The items of the array are taken as they are in the world of the call. -/
theorem outcome_perform_apply (id : Nat) (f : Function) (receiver : Value) (a : ArrayRef)
    (w : World σ) :
    (perform host (depth + 1) ⟨.reflection id .apply, .function f, [receiver, .array a]⟩).outcome
        w =
      (perform host depth ⟨f, receiver, (w.heap.items a).toList⟩).outcome w := by
  rw [perform]
  rfl

theorem outcome_bindTo (f : Function) (binding : Binding) (w : World σ) :
    (bindTo host (depth + 1) (.function f) binding).outcome w =
      (.ok (.function (.bound w.heap.next f binding.receiver binding.arguments)),
        w.afterFresh 1) := by
  unfold bindTo
  rw [perform]
  rfl

/-- Binding in turn gives a function. Its calls are calls of what was bound first, with the first of
the receivers, and with the arguments of all bindings in front. -/
theorem exists_bindInTurn (f : Function) (bindings : List Binding) (w : World σ) :
    ∃ g, (bindInTurn host (depth + 1) (.function f) bindings).outcome w =
        (.ok (.function g), w.afterFresh bindings.length) ∧
      (bindings ≠ [] → g.kind = .native) ∧
      ∀ depth receiver given,
        perform host (depth + bindings.length) ⟨g, receiver, given⟩ =
          perform host depth ⟨f, (bindings.head?.map Binding.receiver).getD receiver,
            bindings.flatMap Binding.arguments ++ given⟩ := by
  induction bindings generalizing f w with
  | nil => exact ⟨f, rfl, fun none => absurd rfl none, fun _ _ _ => rfl⟩
  | cons binding bindings ih =>
      obtain ⟨g, ran, native, calls⟩ :=
        ih (.bound w.heap.next f binding.receiver binding.arguments) (w.afterFresh 1)
      refine ⟨g, ?_, fun _ => ?_, fun depth receiver given => ?_⟩
      · rw [List.length_cons, Nat.add_comm bindings.length, ← World.afterFresh_afterFresh]
        unfold bindInTurn
        rw [List.foldlM_cons]
        exact outcome_bind_eq_ok.mpr ⟨_, _, outcome_bindTo host depth f binding w, ran⟩
      · cases bindings with
        | nil =>
            obtain ⟨same, _⟩ := Prod.mk.inj ran
            cases same
            rfl
        | cons => exact native (List.cons_ne_nil _ _)
      · rw [List.length_cons, Nat.add_comm bindings.length, ← Nat.add_assoc, calls, perform_bound,
          List.flatMap_cons, List.append_assoc]
        rfl

end Calls

/-- What one call runs directly, it runs through the reflection functions too. -/
theorem callsOnly_of_direct {host : Host σ} {g : Function} {away : Nat}
    {called : Nat → List Value → Run σ Value}
    (direct : ∀ depth ignored given,
      perform host (depth + away) ⟨g, ignored, given⟩ = called depth given) :
    g.CallsOnly host away called where
  direct := direct
  call depth id ignored given := by
    rw [perform_call]
    exact direct depth ignored given
  apply depth id ignored given w := by
    rw [outcome_perform_apply]
    exact congrArg (fun run => run.outcome w) (direct depth ignored _)

/-- **A function that is bound in turn is called once.** Whatever the host does, binding a function
at least once gives a native function and changes nothing. Called with anything as a receiver, by
itself, through a call function or through an apply function with the items that an array then has,
it calls the first function, a single time, with the first receiver and with the arguments of all
bindings and of the call in order; and the call ends as this one does. If that function is one of
the host, all that runs is what the host does for it. -/
theorem callsOnly_bindInTurn (host : Host σ) (depth : Nat) (f : Function) (first : Binding)
    (others : List Binding) (w : World σ) :
    let held := (first :: others).flatMap Binding.arguments
    ∃ g, (bindInTurn host (depth + 1) (.function f) (first :: others)).outcome w =
        (.ok (.function g), w.afterFresh (others.length + 1)) ∧
      g.kind = .native ∧
      g.CallsOnly host (others.length + 1)
        (fun depth given => perform host depth ⟨f, first.receiver, held ++ given⟩) ∧
      ∀ hostFunction, f = .host hostFunction →
        g.CallsOnly host (others.length + 2) fun depth given =>
          host.call (perform host depth) hostFunction first.receiver (held ++ given) := by
  intro held
  obtain ⟨g, ran, native, calls⟩ := exists_bindInTurn host depth f (first :: others) w
  refine ⟨g, ran, native (List.cons_ne_nil _ _), ?_, ?_⟩
  · exact callsOnly_of_direct fun depth ignored given => calls depth ignored given
  · rintro hostFunction rfl
    refine callsOnly_of_direct fun depth ignored given => ?_
    have deeper : depth + (others.length + 2) = depth + 1 + (first :: others).length := by
      rw [List.length_cons]
      omega
    rw [deeper, calls, perform_host]
    rfl

end GuardedExpr
