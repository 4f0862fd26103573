import GuardedExpr.Proofs.Coupling.Record
import GuardedExpr.Proofs.HostTags
import GuardedExpr.Proofs.ReadOnly

/-!
# Guarded arguments

The arguments of a call are evaluated in turn, and each passes the guard before
the next is evaluated. The call itself comes after the last of them. In between,
a later operand can make a call or an assignment that gives an earlier argument
the members of something forbidden, and then the function receives it although
it would not pass the guard any more. Nothing else can come between: tags are
for ever, and what only reads leaves the argument as it was.
-/

namespace GuardedExpr

open Run

/-- The operands are evaluated in turn, each in the world that the one before left, and each value
passes the guard in the world that its own evaluation left. -/
inductive Expr.InTurn {σ : Type} (access : Access σ) (context : Context) :
    List Expr → World σ → List (Value × World σ) → World σ → Prop where
  | nil {w : World σ} : InTurn access context [] w [] w
  | cons {e : Expr} {es : List Expr} {w v last : World σ} {place : Place}
      {turns : List (Value × World σ)}
      (ran : (e.locate access context .read).outcome w = (.ok place, v))
      (passed : Guard.object v.heap place.value = .ok place.value)
      (rest : InTurn access context es v turns last) :
      InTurn access context (e :: es) w ((place.value, v) :: turns) last

/-- The names of the members by which the guard knows an object that has no tag. -/
def tellingNames : List String :=
  ["window", "constructor", "children", "nodeName", "prop", "attr", "find"]

/-- The argument passes the guard in a later heap too, or it has changed under a name that tells;
only a call or an assignment in a later operand does that. -/
inductive StillPasses {σ : Type} (turn : Value × World σ) (later : List Expr) (h : Heap) :
    Prop where
  | passes (passed : Guard.object h turn.1 = .ok turn.1)
  | changed {o : ObjectRef} {key : String} (object : turn.1 = .object o)
      (telling : key ∈ tellingNames)
      (differs : h.child? (.object o) (.member key) ≠
        turn.2.heap.child? (.object o) (.member key))
      (cause : o.id < turn.2.heap.next → ∃ node ∈ Expr.nodesOfList later,
        node.isCall = true ∨ node.isAssign = true)

/-- If the event is a call, its arguments are the values of the operands of a call in the
expression: they have passed the guard in turn, and the last of them has just left the heap. -/
def PassedInTurn {σ : Type} (access : Access σ) (context : Context) (e : Expr) (event : Event) :
    Prop :=
  ∀ call, event.step = .invoke call → ∃ callee operands w turns last,
    .call callee operands ∈ e.nodes ∧ Expr.InTurn access context operands w turns last ∧
    call.arguments = turns.map Prod.fst ∧ event.heap = last.heap ∧
    ∀ i turn, turns[i]? = some turn →
      turn.1.isHostTagged = false ∧ StillPasses turn (operands.drop (i + 1)) event.heap

namespace Expr

variable {σ : Type} {access : Access σ} {context : Context} {es : List Expr}
  {w last : World σ} {turns : List (Value × World σ)}

theorem of_outcome_guardObject {v u : Value} {w' : World σ}
    (ran : outcome (guardObject v) w = (.ok u, w')) :
    u = v ∧ w' = w ∧ Guard.object w.heap v = .ok v := by
  rw [outcome_guardObject_eq] at ran
  cases guarded : Guard.object w.heap v with
  | error e =>
      rw [guarded] at ran
      cases ran
  | ok v' =>
      obtain rfl := Guard.eq_of_object guarded
      rw [guarded] at ran
      cases ran
      exact ⟨rfl, rfl, rfl⟩

/-- Arguments that are evaluated are evaluated in turn. -/
theorem inTurn_of_evalArguments {arguments : List Value}
    (ran : outcome (evalArguments access context es) w = (.ok arguments, last)) :
    ∃ turns, InTurn access context es w turns last ∧ arguments = turns.map Prod.fst := by
  induction es generalizing w arguments with
  | nil =>
      rw [evalArguments] at ran
      cases ran
      exact ⟨[], .nil, rfl⟩
  | cons e es ih =>
      rw [evalArguments] at ran
      obtain ⟨place, v, located, goesOn⟩ := outcome_bind_eq_ok.mp ran
      obtain ⟨u, v', guarded, evaluates⟩ := outcome_bind_eq_ok.mp goesOn
      obtain ⟨us, v'', evaluated, ended⟩ := outcome_bind_eq_ok.mp evaluates
      obtain ⟨rfl, rfl, passed⟩ := of_outcome_guardObject guarded
      cases ended
      obtain ⟨turns, inTurn, rfl⟩ := ih evaluated
      exact ⟨_, .cons located passed inTurn, rfl⟩

/-- After a turn, the guard has been passed and the other operands follow. -/
theorem InTurn.after (inTurn : InTurn access context es w turns last) {i : Nat}
    {turn : Value × World σ} (there : turns[i]? = some turn) :
    Guard.object turn.2.heap turn.1 = .ok turn.1 ∧
      InTurn access context (es.drop (i + 1)) turn.2 (turns.drop (i + 1)) last := by
  induction inTurn generalizing i with
  | nil => cases there
  | cons ran passed rest ih =>
      cases i with
      | zero =>
          obtain rfl := Option.some.inj there
          exact ⟨passed, rest⟩
      | succ i => exact ih there

/-- Operands that only read leave the world as it was. -/
theorem InTurn.untouched {run : Invocation → Run σ Value} {before : World σ}
    (inTurn : InTurn (Access.direct run) context es w turns last)
    (reads : ∀ node ∈ nodesOfList es, node.isCall = false ∧ node.isAssign = false)
    (untouched : before.Untouched w) : before.Untouched last := by
  induction inTurn with
  | nil => exact untouched
  | @cons e es w v last place turns ran passed rest ih =>
      have kept := (untouched_keeps run context before).locate e .read (.inl rfl)
        fun node member => reads node (List.mem_append_left _ member)
      have first := (kept w untouched).1
      rw [ran] at first
      exact ih (fun node member => reads node (List.mem_append_right _ member)) first

end Expr

/-- An object is forbidden in a later heap as it was if it holds the same under the names that
tell. -/
theorem Heap.looksForbidden?_congr {h h' : Heap} {o : ObjectRef}
    (same : ∀ key ∈ tellingNames,
      h'.child? (.object o) (.member key) = h.child? (.object o) (.member key)) :
    h'.looksForbidden? o = h.looksForbidden? o := by
  have holds {key : String} (telling : key ∈ tellingNames) :
      h'.holdsItself o key = h.holdsItself o key := by
    have held : (h'.properties o)[key]? = (h.properties o)[key]? := same key telling
    unfold holdsItself
    rw [held]
  have has {key : String} (telling : key ∈ tellingNames) : h'.property o key = h.property o key :=
    congrArg (fun found => found.getD .undefined) (same key telling)
  unfold looksForbidden?
  simp only [holds (by decide : "window" ∈ tellingNames),
    holds (by decide : "constructor" ∈ tellingNames), has (by decide : "children" ∈ tellingNames),
    has (by decide : "nodeName" ∈ tellingNames), has (by decide : "prop" ∈ tellingNames),
    has (by decide : "attr" ∈ tellingNames), has (by decide : "find" ∈ tellingNames)]

theorem Guard.object_congr {h h' : Heap} {v : Value}
    (same : ∀ o, v = .object o → ∀ key ∈ tellingNames,
      h'.child? (.object o) (.member key) = h.child? (.object o) (.member key)) :
    Guard.object h' v = Guard.object h v := by
  have forbidden : h'.forbidden? v = h.forbidden? v := by
    cases v with
    | object o =>
        simp only [Heap.forbidden?, Heap.looksForbidden?_congr (same o rfl)]
    | _ => rfl
  unfold Guard.object
  rw [forbidden]

section Calls

variable {σ : Type} {run : Invocation → Run σ Value} {context : Context}

/-- An argument that has passed the guard passes it still, unless a later operand spoils it. -/
theorem stillPasses_of_inTurn {later : List Expr} {turn : Value × World σ}
    {turns : List (Value × World σ)} {last : World σ}
    (passed : Guard.object turn.2.heap turn.1 = .ok turn.1)
    (rest : Expr.InTurn (Access.direct run) context later turn.2 turns last) :
    StillPasses turn later last.heap := by
  by_cases same : ∀ o, turn.1 = .object o → ∀ key ∈ tellingNames,
      last.heap.child? (.object o) (.member key) = turn.2.heap.child? (.object o) (.member key)
  · exact .passes ((Guard.object_congr same).trans passed)
  · push Not at same
    obtain ⟨o, object, key, telling, differs⟩ := same
    refine .changed object telling differs fun there => ?_
    by_contra none
    have reads : ∀ node ∈ Expr.nodesOfList later, node.isCall = false ∧ node.isAssign = false := by
      simpa only [not_exists, not_and, not_or, Bool.not_eq_true] using none
    have untouched := rest.untouched reads (.refl turn.2)
    exact differs (untouched.changes.kept (.object o) ⟨there, Set.notMem_empty _⟩ (.member key))

theorem passedInTurn_of_evalArguments {e callee : Expr} {operands : List Expr} {f : Function}
    {receiver : Value} {arguments : List Value} {w last : World σ}
    (called : .call callee operands ∈ e.nodes)
    (ran : (Expr.evalArguments (Access.direct run) context operands).outcome w =
      (.ok arguments, last)) :
    PassedInTurn (Access.direct run) context e ⟨.invoke ⟨f, receiver, arguments⟩, last.heap⟩ := by
  intro call same
  obtain rfl := Step.invoke.inj same
  obtain ⟨turns, inTurn, rfl⟩ := Expr.inTurn_of_evalArguments ran
  refine ⟨callee, operands, w, turns, last, called, inTurn, rfl, rfl, fun i turn there => ?_⟩
  obtain ⟨passed, rest⟩ := inTurn.after there
  exact ⟨Guard.isHostTagged_of_object passed, stillPasses_of_inTurn passed rest⟩

/-- **Arguments pass the guard in their turn.** Whatever the host does, every call that evaluating
or assigning makes passes arguments that went through the guard one after the other, each in the
heap that its own evaluation left. None has a tag, and in the heap of the call each passes the guard
still, unless a call or an assignment in a later operand has changed a member that tells. -/
theorem runsAs_passedInTurn (run : Invocation → Run σ Value) (context : Context) (e : Evaluator)
    (w : World σ) :
    RunsAs (PassedInTurn (Access.direct run) context e.body) (fun _ => True)
      (e.eval (Access.direct run).recorded context) (e.eval (Access.direct run) context) w ∧
    ∀ v, RunsAs (PassedInTurn (Access.direct run) context e.body) (fun _ => True)
      (e.assign (Access.direct run).recorded context v)
      (e.assign (Access.direct run) context v) w := by
  have steps : (Coupling.record σ (PassedInTurn (Access.direct run) context e.body)).Steps context
      context (Access.direct run).recorded (Access.direct run) (· ∈ e.body.nodes) True := by
    refine Coupling.record_steps (fun step heap other call same => ?_) fun called evaluated => ?_
    · obtain rfl : step = .invoke call := same
      cases other
    · obtain ⟨u, ran⟩ := evaluated
      exact passedInTurn_of_evalArguments called (Coupling.evalArguments_forget ran)
  refine ⟨(steps.eval e .steady fun _ member => member).runsAs w, fun v => ?_⟩
  exact (steps.assign trivial e (k := .steady) (fun _ _ => rfl) fun _ member => member).runsAs w

end Calls

/-- A function receives an object that the second operand has made its own window. -/
theorem exists_invoke_of_forbidden_argument :
    ∃ (run : Invocation → Run Unit Value) (context : Context) (e : Evaluator) (w : World Unit),
      ∃ event ∈ ((e.eval (Access.direct run).recorded context).outcome
          w.recording).2.host.events,
        ∃ call, event.step = .invoke call ∧ ∃ v ∈ call.arguments,
          Guard.object event.heap v = .error (.object .window) := by
  let run : Invocation → Run Unit Value := fun _ => return .undefined
  let context : Context := ⟨.object ⟨1, .plain⟩, .undefined⟩
  let own : Expr := .assign (.member (.identifier "o") "window") (.identifier "o")
  let e : Evaluator := ⟨"", .call (.identifier "f") [.identifier "o", .array [own]]⟩
  let w : World Unit := ⟨((Heap.empty.newObject .plain []).2.newObject .plain
    [("f", .function (.host ⟨7, "f", .native⟩)), ("o", .object ⟨0, .plain⟩)]).2, ()⟩
  have last : ((e.eval (Access.direct run).recorded context).outcome
      w.recording).2.host.events.getLast?.map
        (fun event => (event.step, Guard.object event.heap (.object ⟨0, .plain⟩))) =
      some (.invoke ⟨.host ⟨7, "f", .native⟩, .object ⟨1, .plain⟩,
        [.object ⟨0, .plain⟩, .array ⟨2⟩]⟩, .error (.object .window)) := by
    cbv
  obtain ⟨event, there, same⟩ := Option.map_eq_some_iff.mp last
  obtain ⟨step, forbidden⟩ := Prod.mk.inj same
  exact ⟨run, context, e, w, event, List.mem_of_getLast? there, _, step, _, List.mem_cons_self,
    forbidden⟩

end GuardedExpr
