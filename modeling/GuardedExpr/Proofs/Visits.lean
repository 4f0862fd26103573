import GuardedExpr.Proofs.Confinement
import GuardedExpr.Proofs.Coupling.Record

/-!
# Visits of calls

What happens at the calls of a tree while it is evaluated: which callee has
which value, and which function is called then. Each visit carries the number of
its node among the nodes of the tree, so that it is known which node of many
alike makes a call. The functions called in these visits are exactly the calls
on the record of the evaluation, in the same order.
-/

namespace GuardedExpr

open Run

/-- What happens at the node of a call. -/
inductive Visit where
  /-- The callee has been evaluated to a value. -/
  | callee (v : Value)
  /-- The function is called, after its arguments. -/
  | invoke (call : Invocation)

/-- Visits in the order of time, each with the number of its node. -/
abbrev Visits := List (Nat × Visit)

def Visit.invocation? : Visit → Option Invocation
  | callee _ => none
  | invoke call => some call

def Step.invocation? : Step → Option Invocation
  | invoke call => some call
  | _ => none

namespace Visits

/-- The visits of a part that has so many nodes before it. -/
def shift (before : Nat) (visits : Visits) : Visits :=
  visits.map fun visit => (before + visit.1, visit.2)

/-- The functions that are called. -/
def invocations (visits : Visits) : List Invocation :=
  visits.filterMap fun visit => visit.2.invocation?

@[simp] theorem shift_nil (before : Nat) : shift before [] = [] := rfl

@[simp] theorem invocations_nil : invocations [] = [] := rfl

theorem invocations_append (visits visits' : Visits) :
    invocations (visits ++ visits') = visits.invocations ++ visits'.invocations :=
  List.filterMap_append

@[simp] theorem invocations_shift (before : Nat) (visits : Visits) :
    (visits.shift before).invocations = visits.invocations := by
  rw [invocations, shift, List.filterMap_map]
  rfl

end Visits

/-- The calls on the record, in the order of time. -/
def World.invocations {σ : Type} (w : World (Recorded σ)) : List Invocation :=
  w.host.events.filterMap fun event => event.step.invocation?

variable {σ α β : Type}

/-- The visits of a part with so many nodes, and then those of what goes on after it. Nothing goes
on after an error. -/
def Run.visitsThen (m : Run σ α) (w : World σ) (size : Nat) (first : Visits)
    (next : α → World σ → Visits) : Visits :=
  first ++
    match m.outcome w with
    | (.ok a, w) => (next a w).shift size
    | (.error _, _) => []

namespace Expr

variable (access : Access σ) (context : Context)

mutual

/-- The visits of the calls of a tree that is evaluated in a world. -/
def visits (purpose : Purpose) : Expr → World σ → Visits
  | .program body, w => body.visits purpose.forBody w
  | .literal _, _ | .self, _ | .identifier _, _ => []
  | .array elements, w => visitsOfList elements w
  | .object properties, w => visitsOfProperties properties w
  | .member owner _, w => owner.visits purpose.forOwner w
  | .index owner key _, w =>
    (owner.locate access context purpose.forOwner).visitsThen w owner.nodes.length
      (owner.visits purpose.forOwner w) fun _ w => key.visits .read w
  | .call callee operands, w =>
    (callee.locate access context .read).visitsThen w callee.nodes.length (callee.visits .read w)
      fun place w =>
        ((nodesOfList operands).length, .callee place.value) ::
          match Guard.function place.value with
          | .ok (.function f) =>
            (evalArguments access context operands).visitsThen w (nodesOfList operands).length
              (visitsOfArguments operands w) fun arguments _ =>
                [(0, .invoke ⟨f, place.receiver, arguments⟩)]
          | _ => []
  | .assign target value, w =>
    (target.locate access context .store).visitsThen w target.nodes.length
      (target.visits .store w) fun _ w => value.visits .read w
  | .unary _ operand, w => operand.visits .read w

def visitsOfList : List Expr → World σ → Visits
  | [], _ => []
  | e :: es, w =>
    (e.locate access context .read).visitsThen w e.nodes.length (e.visits .read w)
      fun _ w => visitsOfList es w

/-- Between two arguments, the first one has to pass the guard. -/
def visitsOfArguments : List Expr → World σ → Visits
  | [], _ => []
  | e :: es, w =>
    (e.locate access context .read).visitsThen w e.nodes.length (e.visits .read w)
      fun place w => (guardObject place.value).visitsThen w 0 [] fun _ w =>
        visitsOfArguments es w

def visitsOfProperties : List (PropertyKey × Expr) → World σ → Visits
  | [], _ => []
  | (_, e) :: ps, w =>
    (e.locate access context .read).visitsThen w e.nodes.length (e.visits .read w)
      fun _ w => visitsOfProperties ps w

end

end Expr

/-- The recorded run ends as the run does, and puts calls on record that are known from the world
before. -/
def Notes (m : Run (Recorded σ) α) (n : Run σ α) (calls : World σ → List Invocation) : Prop :=
  ∀ w, ∃ result after, m.outcome w = (result, after) ∧
    n.outcome w.forget = (result, after.forget) ∧
    after.invocations = w.invocations ++ calls w.forget

namespace Notes

variable {m : Run (Recorded σ) α} {n : Run σ α} {calls : World σ → List Invocation}

theorem pure (a : α) : Notes (Pure.pure a : Run (Recorded σ) α) (Pure.pure a) fun _ => [] :=
  fun w => ⟨.ok a, w, rfl, rfl, (List.append_nil w.invocations).symm⟩

theorem fail (e : Error) : Notes (throw e : Run (Recorded σ) α) (throw e) fun _ => [] :=
  fun w => ⟨.error e, w, rfl, rfl, (List.append_nil w.invocations).symm⟩

theorem guarded (check : Except SecurityError α) :
    Notes (Run.guarded check : Run (Recorded σ) α) (Run.guarded check) fun _ => [] := by
  cases check with
  | ok a => exact .pure a
  | error e => exact .fail (.security e)

theorem heap : Notes (Run.heap : Run (Recorded σ) Heap) Run.heap fun _ => [] :=
  fun w => ⟨.ok w.heap, w, rfl, rfl, (List.append_nil w.invocations).symm⟩

theorem invoke (access : Access σ) (call : Invocation) :
    Notes (access.recorded.invoke call) (access.invoke call) fun _ => [call] := by
  refine fun w => ⟨_, _, rfl, rfl, ?_⟩
  rw [World.invocations, List.filterMap_append]
  rfl

/-- What goes on without a call leaves the calls as they are. -/
theorem then_silent {f : α → Run (Recorded σ) β} {g : α → Run σ β} (first : Notes m n calls)
    (second : ∀ a, Notes (f a) (g a) fun _ => []) : Notes (m >>= f) (n >>= g) calls := by
  intro w
  obtain ⟨result, after, ran, ran', noted⟩ := first w
  rw [outcome_bind, outcome_bind, ran, ran']
  cases result with
  | error e => exact ⟨_, _, rfl, rfl, noted⟩
  | ok a =>
      obtain ⟨result, last, ran, ran', noted'⟩ := second a after
      exact ⟨result, last, ran, ran', by rw [noted', List.append_nil, noted]⟩

/-- What goes on is noted after the first part. -/
theorem visitsThen {f : α → Run (Recorded σ) β} {g : α → Run σ β} {first : World σ → Visits}
    {next : α → World σ → Visits} (size : Nat) (noted : Notes m n fun w => (first w).invocations)
    (rest : ∀ a, Notes (f a) (g a) fun w => (next a w).invocations) :
    Notes (m >>= f) (n >>= g) fun w => (n.visitsThen w size (first w) next).invocations := by
  intro w
  obtain ⟨result, after, ran, ran', noted⟩ := noted w
  simp only [outcome_bind, ran, ran', Run.visitsThen, Visits.invocations_append]
  cases result with
  | error e => exact ⟨_, _, rfl, rfl, by rw [noted, Visits.invocations_nil, List.append_nil]⟩
  | ok a =>
      obtain ⟨result, last, ran, ran', noted'⟩ := rest a after
      refine ⟨result, last, ran, ran', ?_⟩
      rw [noted', noted, Visits.invocations_shift, List.append_assoc]

end Notes

section Silent

/-- The world with a record is the world, and these calls are on the record. -/
def Quiet (calls : List Invocation) (w : World (Recorded σ)) (w' : World σ) : Prop :=
  w.forget = w' ∧ w.invocations = calls

theorem quiet_step {calls : List Invocation} {step : Step} {m : Run σ α}
    (other : step.invocation? = none) :
    Coupling.Alike (Quiet calls) (fun _ => True) (Run.recorded step m) m := by
  intro w w' related
  obtain ⟨rfl, rfl⟩ := related
  refine ⟨.steady, le_refl _, ⟨rfl, ?_⟩, sameEnd_of_eq rfl⟩
  have silent : [(⟨step, w.heap⟩ : Event)].filterMap (fun event => event.step.invocation?) = [] :=
    List.filterMap_cons_none other
  change List.filterMap _ (w.host.events ++ [⟨step, w.heap⟩]) = _
  rw [List.filterMap_append, silent, List.append_nil]
  rfl

theorem quiet_onHeap {calls : List Invocation} (f : Heap → α × Heap) :
    Coupling.Alike (Quiet calls : World (Recorded σ) → World σ → Prop) (fun _ => True) (onHeap f)
      (onHeap f) := by
  refine .change fun w w' related => ⟨.steady, le_refl _, ?_⟩
  obtain ⟨rfl, rfl⟩ := related
  exact ⟨⟨rfl, rfl⟩, rfl⟩

/-- Every step but a call leaves the calls as they are. -/
theorem quiet_steps (access : Access σ) (context : Context) (calls : List Invocation) :
    (Coupling.same (Quiet calls) fun _ => True).Steps context context access.recorded access
      (fun node => node.isCall = false) True :=
  Coupling.SameSteps.steps {
    heap := fun related => congrArg World.heap related.1
    array := fun _ => quiet_onHeap _
    object := fun _ => quiet_onHeap _
    makeArray := fun _ => quiet_step rfl
    makeObject := fun _ => quiet_step rfl
    read := fun _ _ => quiet_step rfl
    stores := fun _ => trivial
    write := fun _ _ _ _ => quiet_step rfl
    name := fun _ _ => trivial
    guard := fun _ => trivial
    notAssignable := fun _ => trivial
    notCallable := fun _ => trivial
    notAFunction := fun _ => trivial
    invoke := fun called => by cases called }

/-- What matches without a call, with the same values on both sides, is silent. -/
theorem Notes.silent {m : Run (Recorded σ) α} {n : Run σ α}
    {Q : List Invocation → Steady → α → α → Prop} (equal : ∀ calls k a b, Q calls k a b → a = b)
    (matching : ∀ calls,
      (Coupling.same (Quiet calls) fun _ => True).Matches .steady m n (Q calls)) :
    Notes m n fun _ => [] := by
  intro w
  obtain ⟨k, _, ⟨world, calls⟩, ended⟩ := matching w.invocations w w.forget ⟨rfl, rfl⟩
  refine ⟨(m.outcome w).1, (m.outcome w).2, rfl, ?_, calls.trans (List.append_nil _).symm⟩
  rw [(ended.imp (equal _ k)).eq, world]

variable (access : Access σ) (context : Context)

theorem notes_memberPlace (purpose : Purpose) (owner : Value) (key : String) :
    Notes (Expr.memberPlace access.recorded purpose owner key)
      (Expr.memberPlace access purpose owner key) fun _ => [] := by
  refine .silent (fun _ k a b reached => ?_) fun calls =>
    (quiet_steps access ⟨.undefined, .undefined⟩ calls).memberPlace (.inr trivial) fun _ => rfl
  cases reached with
  | plain held => exact congrArg Place.plain held
  | slot slot held => exact congr (congrArg (fun owner => Place.slot owner _) slot) held

theorem notes_guardObject (v : Value) :
    Notes (Expr.guardObject v) (Expr.guardObject v : Run σ Value) fun _ => [] :=
  .then_silent .heap fun _ => .guarded _

theorem notes_store (place : Place) (v : Value) :
    Notes (Expr.store access.recorded place v) (Expr.store access place v) fun _ => [] := by
  have reached (calls : List Invocation) :
      (Coupling.same (Quiet calls) fun _ => True : Coupling _ (Recorded σ) σ).Reaches .steady
        place place := by
    cases place with
    | plain v => exact .plain rfl
    | slot owner key v => exact .slot rfl rfl
  exact .silent (fun _ _ _ _ _ => rfl) fun calls =>
    (quiet_steps access ⟨.undefined, .undefined⟩ calls).store trivial (reached calls) rfl

theorem notes_document (value : Json) :
    Notes (Run.onHeap fun h => h.ofJson value)
      (Run.onHeap fun h => h.ofJson value : Run σ Value) fun _ => [] :=
  .silent (fun _ _ _ _ same => same) fun _ => quiet_onHeap _

theorem notes_makeArray (items : List Value) :
    Notes (access.recorded.makeArray items) (access.makeArray items) fun _ => [] :=
  .silent (fun _ _ _ _ same => same) fun _ => quiet_step rfl

theorem notes_makeObject (properties : List (String × Value)) :
    Notes (access.recorded.makeObject properties) (access.makeObject properties) fun _ => [] :=
  .silent (fun _ _ _ _ same => same) fun _ => quiet_step rfl

end Silent

namespace Expr

variable (access : Access σ) (context : Context)

mutual

/-- **The visits are on record.** An evaluation puts the calls of its visits on record, in the same
order, and no others. -/
theorem notes_locate (e : Expr) (purpose : Purpose) :
    Notes (e.locate access.recorded context purpose) (e.locate access context purpose)
      fun w => (e.visits access context purpose w).invocations := by
  cases e with
  | program body =>
      simp only [locate, visits]
      exact (notes_locate body purpose.forBody).then_silent fun place => .pure _
  | literal value =>
      simp only [locate, visits]
      exact (notes_document value).then_silent fun v => .pure _
  | self =>
      simp only [locate, visits]
      exact .pure _
  | identifier name =>
      simp only [locate, visits]
      exact Notes.heap.then_silent fun h => notes_memberPlace access purpose _ name
  | array elements =>
      simp only [locate, visits]
      refine (notes_evalList elements).then_silent fun vs => ?_
      exact (notes_makeArray access vs).then_silent fun v => .pure _
  | object properties =>
      simp only [locate, visits]
      refine (notes_evalProperties properties).then_silent fun ps => ?_
      exact (notes_makeObject access ps).then_silent fun v => .pure _
  | member owner name =>
      simp only [locate, visits]
      exact (notes_locate owner purpose.forOwner).then_silent fun place =>
        notes_memberPlace access purpose place.value name
  | index owner key style =>
      simp only [locate, visits]
      refine (notes_locate owner purpose.forOwner).visitsThen _ fun place => ?_
      refine (notes_locate key .read).then_silent fun keyPlace => ?_
      exact Notes.heap.then_silent fun h => notes_memberPlace access purpose place.value _
  | call callee operands =>
      simp only [locate, visits]
      refine (notes_locate callee .read).visitsThen _ fun place => ?_
      by_cases nullish : place.value.isNullish = true
      · rw [if_pos nullish, if_pos nullish]
        cases value : place.value with
        | undefined | null => exact .pure _
        | _ =>
            rw [value] at nullish
            cases nullish
      · rw [if_neg nullish, if_neg nullish]
        cases Guard.function place.value with
        | error what => exact .fail (.security what)
        | ok v =>
            cases v with
            | function f =>
                refine (notes_evalArguments operands).visitsThen _ fun arguments => ?_
                refine (Notes.invoke access _).then_silent fun result => ?_
                exact (notes_guardObject result).then_silent fun v => .pure _
            | _ => exact .fail (.runtime (.notAFunction callee.calleeText))
  | assign target value =>
      simp only [locate, visits]
      refine (notes_locate target .store).visitsThen _ fun place => ?_
      refine (notes_locate value .read).then_silent fun source => ?_
      refine (notes_guardObject source.value).then_silent fun v => ?_
      exact (notes_store access place v).then_silent fun _ => .pure _
  | unary operator operand =>
      simp only [locate, visits]
      refine (notes_locate operand .read).then_silent fun place => ?_
      exact Notes.heap.then_silent fun h => .pure _

theorem notes_evalList (es : List Expr) :
    Notes (evalList access.recorded context es) (evalList access context es)
      fun w => (visitsOfList access context es w).invocations := by
  cases es with
  | nil =>
      simp only [evalList, visitsOfList]
      exact .pure []
  | cons e es =>
      simp only [evalList, visitsOfList]
      refine (notes_locate e .read).visitsThen _ fun place => ?_
      exact (notes_evalList es).then_silent fun vs => .pure _

theorem notes_evalArguments (es : List Expr) :
    Notes (evalArguments access.recorded context es) (evalArguments access context es)
      fun w => (visitsOfArguments access context es w).invocations := by
  cases es with
  | nil =>
      simp only [evalArguments, visitsOfArguments]
      exact .pure []
  | cons e es =>
      simp only [evalArguments, visitsOfArguments]
      refine (notes_locate e .read).visitsThen _ fun place => ?_
      refine (notes_guardObject place.value).visitsThen _ fun v => ?_
      exact (notes_evalArguments es).then_silent fun vs => .pure _

theorem notes_evalProperties (ps : List (PropertyKey × Expr)) :
    Notes (evalProperties access.recorded context ps) (evalProperties access context ps)
      fun w => (visitsOfProperties access context ps w).invocations := by
  match ps with
  | [] =>
      simp only [evalProperties, visitsOfProperties]
      exact .pure []
  | (key, e) :: ps =>
      simp only [evalProperties, visitsOfProperties]
      refine (notes_locate e .read).visitsThen _ fun place => ?_
      exact (notes_evalProperties ps).then_silent fun vs => .pure _

end

end Expr

theorem Evaluator.notes_eval (access : Access σ) (context : Context) (e : Evaluator) :
    Notes (e.eval access.recorded context) (e.eval access context)
      fun w => (e.body.visits access context .read w).invocations :=
  (Expr.notes_locate access context e.body .read).then_silent fun place => .pure place.value

end GuardedExpr
