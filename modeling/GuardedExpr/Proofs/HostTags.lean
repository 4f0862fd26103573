import Mathlib
import GuardedExpr.Proofs.Agreement.Evaluation
import GuardedExpr.Proofs.Contents
import GuardedExpr.Proofs.Recording

/-!
# Host tags

The host tags what an expression must not touch: the global object, document
nodes and wrappers around them, and the functions that make functions and
objects. If the scope and the locals are not tagged, a tagged value takes no
part in any step of an evaluation, whatever the functions of the host give back
and whatever they leave in the heap.
-/

namespace GuardedExpr

open Run

/-- The host tagged the value as one that no expression may touch. -/
def Value.isHostTagged : Value → Bool
  | object o =>
    match o.kind with
    | .window | .domNode | .domWrapper => true
    | .plain => false
  | function f =>
    match f.kind with
    | .functionConstructor | .objectConstructor => true
    | .native | .call | .apply | .bind => false
  | _ => false

/-- No tagged value takes part in the step, and a function that it calls is a native one. -/
def Step.AvoidsHostTags : Step → Prop
  | read owner _ => owner.isHostTagged = false
  | write owner _ v => owner.isHostTagged = false ∧ v.isHostTagged = false
  | invoke call =>
    call.function.kind = .native ∧ call.receiver.isHostTagged = false ∧
      ∀ v ∈ call.arguments, v.isHostTagged = false
  | makeArray items => ∀ v ∈ items, v.isHostTagged = false
  | makeObject properties => ∀ p ∈ properties, p.2.isHostTagged = false

/-- A scalar has no tag. -/
theorem Value.isHostTagged_of_isScalar {v : Value} (scalar : v.isScalar = true) :
    v.isHostTagged = false := by
  cases v with
  | array _ => rfl
  | object _ => cases scalar
  | function _ => cases scalar
  | _ => rfl

/-- What passes the guard has no tag. -/
theorem Guard.isHostTagged_of_object {h : Heap} {v : Value} (passed : Guard.object h v = .ok v) :
    v.isHostTagged = false := by
  unfold Guard.object at passed
  cases forbidden : h.forbidden? v with
  | some what =>
      rw [forbidden] at passed
      cases passed
  | none =>
      cases v with
      | object o =>
          unfold Heap.forbidden? at forbidden
          unfold Value.isHostTagged
          cases kind : o.kind <;> simp [kind] at forbidden ⊢
      | function f =>
          unfold Heap.forbidden? at forbidden
          unfold Value.isHostTagged
          cases kind : f.kind <;> simp [kind] at forbidden ⊢
      | _ => rfl

/-- A function without a tag that may be called is a native one. -/
theorem Guard.kind_of_function {f : Function} (passed : Guard.function (.function f) =
    .ok (.function f)) (untagged : (Value.function f).isHostTagged = false) : f.kind = .native := by
  unfold Guard.function Value.forbiddenCall? at passed
  unfold Value.isHostTagged at untagged
  cases kind : f.kind <;> simp [kind] at passed untagged ⊢

/-- A recorded run beside the run itself, on values without tags. -/
def untagged (σ : Type) : Bond Steady (Recorded σ) σ where
  Rel _ := RecordedAs fun event => event.step.AvoidsHostTags
  Held _ v := v.isHostTagged = false
  Found _ _ := True
  Slot _ owner _ := owner.isHostTagged = false

theorem untagged_receiver {σ : Type} {k : Steady} {place : Place}
    (reached : (untagged σ).Reaches k place) : place.receiver.isHostTagged = false := by
  cases place with
  | plain v => rfl
  | slot owner key v => exact reached.1

theorem untagged_allocates (σ : Type) : (untagged σ).Allocates where
  mono _ held := held
  scalar scalar := Value.isHostTagged_of_isScalar scalar
  array _ := .unrecorded fun _ => rfl
  object _ := .unrecorded fun _ => rfl

/-- Every step avoids the tags, by what it is given and not by what it finds. -/
theorem untagged_carries {σ : Type} (run : Invocation → Run σ Value) {context : Context}
    (scope : context.scope.isHostTagged = false) (locals : context.locals.isHostTagged = false) :
    (untagged σ).Carries context (Access.direct run).recorded (Access.direct run)
      fun _ => True where
  toAllocates := untagged_allocates σ
  found _ := trivial
  slot_mono _ slot := slot
  slot held _ := held
  self _ _ := scope
  owner := by
    intro k w w' name related _
    obtain ⟨rfl, _⟩ := related
    refine ⟨rfl, ?_⟩
    change (context.owner w.heap name).isHostTagged = false
    unfold Context.owner
    split
    · exact locals
    · exact scope
  text := by
    intro k w w' v related _
    obtain ⟨rfl, _⟩ := related
    rfl
  number := by
    intro k w w' v related _
    obtain ⟨rfl, _⟩ := related
    rfl
  guard := by
    intro k w w' v related _
    obtain ⟨rfl, _⟩ := related
    exact ⟨rfl, Guard.isHostTagged_of_object⟩
  read slot := .recorded (fun _ => slot) fun _ _ _ => trivial
  write slot held := .recorded (fun _ => ⟨slot, held⟩) fun _ _ _ => trivial
  makeArray held := by
    refine .recorded (fun _ => held) fun w a made => ?_
    obtain rfl := Except.ok.inj made
    rfl
  makeObject held := by
    refine .recorded (fun _ => held) fun w a made => ?_
    obtain rfl := Except.ok.inj made
    rfl
  invoke := by
    intro k place f arguments callee operands _ reached called passed held
    have callable : (Value.function f).isHostTagged = false := called ▸ reached.held
    refine .recorded (fun _ => ?_) fun _ _ _ => trivial
    exact ⟨Guard.kind_of_function passed callable, untagged_receiver reached, held⟩

/-- Every entry that the later heap adds has no tag. -/
def AddsUntagged (h h' : Heap) : Prop :=
  ∀ c, ∀ entry ∈ h'.entries c, entry ∈ h.entries c ∨ entry.2.isHostTagged = false

/-- The making of a document beside itself. -/
def addsUntagged (h : Heap) : Bond Steady Unit Unit where
  Rel := Diagonal fun _ => AddsUntagged h
  Held _ v := v.isHostTagged = false
  Found _ v := v.isHostTagged = false
  Slot _ _ _ := True

theorem addsUntagged_allocates (h : Heap) : (addsUntagged h).Allocates where
  mono _ held := held
  scalar scalar := Value.isHostTagged_of_isScalar scalar
  array {k items} held := by
    change Agree (Diagonal fun _ => AddsUntagged h) k _ _ _
    refine .change fun h' kept => ?_
    refine ⟨k, le_refl k, fun c entry member => ?_, rfl⟩
    by_cases new : c = .array (h'.newArray items.toArray).1
    · subst new
      exact .inr (held entry.2 (List.mem_toArray.mp (Heap.mem_of_mem_entries_newArray member)))
    · rw [Heap.makeArray, Heap.entries_newArray_of_ne h' _ new] at member
      exact kept c entry member
  object {k properties} held := by
    change Agree (Diagonal fun _ => AddsUntagged h) k _ _ _
    refine .change fun h' kept => ?_
    refine ⟨k, le_refl k, fun c entry member => ?_, rfl⟩
    by_cases new : c = .object (h'.newObject .plain properties).1
    · subst new
      exact .inr (held entry (Heap.mem_of_mem_entries_newObject member))
    · rw [Heap.makeObject, Heap.entries_newObject_of_ne h' _ _ new] at member
      exact kept c entry member

/-- The value of a document has no tag, nor has anything that it adds to the heap. -/
theorem Heap.ofJson_untagged (h : Heap) (value : Json) :
    (h.ofJson value).1.isHostTagged = false ∧ AddsUntagged h (h.ofJson value).2 := by
  have agree := (addsUntagged_allocates h).document .steady value
  obtain ⟨_, _, ⟨_, kept⟩, _, held⟩ :=
    agree ⟨h, ()⟩ ⟨h, ()⟩ ⟨rfl, fun c entry member => .inl member⟩
  exact ⟨held _ rfl, kept⟩

/-- **Tagged values take no part.** With a scope and locals that are not tagged, whatever the host
does when it is called, evaluating and assigning reach the world only by steps that no tagged value
takes part in, call native functions only and give a value that is not tagged. Literals too add
nothing that is tagged. -/
theorem runsAs_avoidsHostTags {σ : Type} (run : Invocation → Run σ Value) (context : Context)
    (scope : context.scope.isHostTagged = false) (locals : context.locals.isHostTagged = false)
    (e : Evaluator) (w : World σ) :
    RunsAs (fun event => event.step.AvoidsHostTags) (fun v => v.isHostTagged = false)
      (e.eval (Access.direct run).recorded context) (e.eval (Access.direct run) context) w ∧
    (∀ v, RunsAs (fun event => event.step.AvoidsHostTags) (fun v => v.isHostTagged = false)
      (e.assign (Access.direct run).recorded context v)
      (e.assign (Access.direct run) context v) w) ∧
    ∀ h value, (Heap.ofJson h value).1.isHostTagged = false ∧
      AddsUntagged h (Heap.ofJson h value).2 := by
  have carries := untagged_carries run scope locals
  refine ⟨?_, fun v => ?_, Heap.ofJson_untagged⟩
  · exact .of_agree (carries.eval e .steady fun _ _ => trivial) (fun _ _ held => held) w
  · exact .of_agree (carries.assign e (k := .steady) (fun _ _ => trivial) fun _ _ => trivial)
      (fun _ _ held => held) w

/-- A function puts the global object into the scope, where the expression then reads it in vain. -/
theorem runsAs_avoidsHostTags_planted :
    ∃ (plant : Invocation → Run Unit Value) (context : Context) (e : Evaluator) (w : World Unit),
      context.scope.isHostTagged = false ∧ context.locals.isHostTagged = false ∧
      RunsAs (fun event => event.step.AvoidsHostTags) (fun v => v.isHostTagged = false)
        (e.eval (Access.direct plant).recorded context) (e.eval (Access.direct plant) context) w ∧
      ((e.eval (Access.direct plant) context).outcome w).1 =
        .error (.security (.object .window)) ∧
      ((e.eval (Access.direct plant) context).outcome w).2.heap.property ⟨0, .plain⟩ "w" =
        .object ⟨1, .window⟩ := by
  let plant : Invocation → Run Unit Value := fun _ => do
    Run.onHeapOrFail fun h => h.writeMember (.object ⟨0, .plain⟩) "w" (.object ⟨1, .window⟩)
    return .undefined
  let context : Context := ⟨.object ⟨0, .plain⟩, .undefined⟩
  let e : Evaluator := ⟨"", .array [.call (.identifier "f") [], .identifier "w"]⟩
  let w : World Unit :=
    ⟨(Heap.empty.newObject .plain [("f", .function (.host ⟨7, "f", .native⟩))]).2, ()⟩
  refine ⟨plant, context, e, w, rfl, rfl, ?_, ?_, ?_⟩
  · exact (runsAs_avoidsHostTags plant context rfl rfl e w).1
  · cbv
  · cbv

end GuardedExpr
