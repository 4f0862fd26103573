import GuardedExpr.Evaluator
import GuardedExpr.Proofs.Coupling

/-!
# Coupled evaluations

Whether two evaluations of one expression match is a matter of the steps they
take. If what both hold looks the same to them, and if reading, storing, calling
and making match wherever an evaluation may take these steps, then every
expression evaluates to matching ends, for every purpose. An expression that
does not assign is read without a store.
-/

namespace GuardedExpr

namespace Expr

mutual

/-- All nodes of the tree, each after the nodes inside it, from left to right. -/
def nodes : Expr → List Expr
  | program body => body.nodes ++ [program body]
  | literal value => [literal value]
  | array elements => nodesOfList elements ++ [array elements]
  | object properties => nodesOfProperties properties ++ [object properties]
  | identifier name => [identifier name]
  | self => [self]
  | member owner name => owner.nodes ++ [member owner name]
  | index owner key style => owner.nodes ++ key.nodes ++ [index owner key style]
  | call callee arguments => callee.nodes ++ nodesOfList arguments ++ [call callee arguments]
  | assign target value => target.nodes ++ value.nodes ++ [assign target value]
  | unary operator operand => operand.nodes ++ [unary operator operand]

/-- All nodes of the expressions in a list. -/
def nodesOfList : List Expr → List Expr
  | [] => []
  | e :: es => e.nodes ++ nodesOfList es

/-- All nodes of the property values. -/
def nodesOfProperties : List (PropertyKey × Expr) → List Expr
  | [] => []
  | (_, e) :: ps => e.nodes ++ nodesOfProperties ps

end

/-- The tree is one of its nodes. -/
theorem self_mem_nodes (e : Expr) : e ∈ e.nodes := by
  cases e <;> simp [nodes]

end Expr

/-- A member under a forbidden name has no place. -/
theorem Expr.memberPlace_of_forbidden {σ : Type} {access : Access σ} {purpose : Purpose}
    {owner : Value} {name : String} (forbidden : name ∈ forbiddenNames) :
    memberPlace access purpose owner name = throw (.security (.memberName name)) := by
  unfold memberPlace guardName Guard.name
  rw [if_pos forbidden]
  rfl

/-- The guard on values changes nothing. -/
theorem Expr.outcome_guardObject_eq {σ : Type} (v : Value) (w : World σ) :
    (guardObject v).outcome w = ((Guard.object w.heap v).mapError .security, w) := by
  change Run.outcome (Run.guarded (Guard.object w.heap v)) w = _
  cases Guard.object w.heap v <;> rfl

namespace UnaryOperator

theorem isScalar_apply (operator : UnaryOperator) (h : Heap) (v : Value) :
    (operator.apply h v).isScalar = true := by
  cases operator <;> rfl

end UnaryOperator

namespace Guard

theorem eq_of_object {h : Heap} {v v' : Value} (passed : Guard.object h v = .ok v') : v = v' := by
  unfold Guard.object at passed
  split at passed
  · cases passed
  · exact Except.ok.inj passed

end Guard

open Run

/-- Values of one number and one truth give an operator one result. -/
theorem UnaryOperator.apply_eq (operator : UnaryOperator) {h h' : Heap} {v v' : Value}
    (number : h.number v = h'.number v') (truth : v.isTruthy = v'.isTruthy) :
    operator.apply h v = operator.apply h' v' := by
  cases operator with
  | plus => exact congrArg Value.number number
  | minus => exact congrArg (fun x => Value.number (-x)) number
  | not => exact congrArg (fun b => Value.bool !b) truth

namespace Coupling

variable {κ σ τ : Type} [Preorder κ]

/-- The places are ones that two evaluations may stand at side by side. -/
inductive Reaches (coupling : Coupling κ σ τ) (k : κ) : Place → Place → Prop where
  | plain {v v' : Value} (held : coupling.Held k v v') : Reaches coupling k (.plain v) (.plain v')
  | slot {owner owner' v v' : Value} {key : String} (slot : coupling.Slot k owner owner' key)
      (held : coupling.Held k v v') : Reaches coupling k (.slot owner key v) (.slot owner' key v')

theorem Reaches.held {coupling : Coupling κ σ τ} {k : κ} {place place' : Place}
    (reached : coupling.Reaches k place place') : coupling.Held k place.value place'.value := by
  cases reached with
  | plain held => exact held
  | slot slot held => exact held

/-- The values are the same, or both are containers. -/
def LookAlike (v v' : Value) : Prop :=
  v = v' ∨ v.isContainer = true ∧ v'.isContainer = true

namespace LookAlike

variable {v v' : Value}

theorem isTruthy_eq (alike : LookAlike v v') : v.isTruthy = v'.isTruthy := by
  rcases alike with rfl | ⟨left, right⟩
  · rfl
  · cases v <;> cases left <;> cases v' <;> cases right <;> rfl

theorem isNullish_eq (alike : LookAlike v v') : v.isNullish = v'.isNullish := by
  rcases alike with rfl | ⟨left, right⟩
  · rfl
  · cases v <;> cases left <;> cases v' <;> cases right <;> rfl

theorem isUndefined_eq (alike : LookAlike v v') : v.isUndefined = v'.isUndefined := by
  rcases alike with rfl | ⟨left, right⟩
  · rfl
  · cases v <;> cases left <;> cases v' <;> cases right <;> rfl

theorem isContainer_eq (alike : LookAlike v v') : v.isContainer = v'.isContainer := by
  rcases alike with rfl | ⟨left, right⟩
  · rfl
  · rw [left, right]

end LookAlike

/-- **The steps match.** Wherever an evaluation of allowed nodes may take a step, both sides take it
alike, and what they hold afterwards are again values that they may hold for each other. Stores are
among the steps only if they are allowed. -/
structure Steps (coupling : Coupling κ σ τ) (context context' : Context) (access : Access σ)
    (access' : Access τ) (Allowed : Expr → Prop) (Stores : Prop) : Prop
    extends coupling.Allocates where
  found : ∀ {k v v'}, coupling.Held k v v' → coupling.Found k v v'
  alike : ∀ {k v v'}, coupling.Found k v v' → LookAlike v v'
  slot_alike : ∀ {k owner owner' key}, coupling.Slot k owner owner' key → LookAlike owner owner'
  slot_mono : ∀ {k l owner owner' key}, k ≤ l → coupling.Slot k owner owner' key →
    coupling.Slot l owner owner' key
  slot : ∀ {k owner owner' key}, coupling.Held k owner owner' → key ∉ forbiddenNames →
    coupling.Slot k owner owner' key
  self : ∀ {k w w'}, coupling.Rel k w w' → Allowed .self →
    coupling.Held k context.scope context'.scope
  owner : ∀ {k w w' name}, coupling.Rel k w w' → Allowed (.identifier name) →
    name ∉ forbiddenNames →
    coupling.Slot k (context.owner w.heap name) (context'.owner w'.heap name) name
  text : ∀ {k w w' v v'}, coupling.Rel k w w' → coupling.Held k v v' →
    w.heap.text v = w'.heap.text v'
  number : ∀ {k w w' v v'}, coupling.Rel k w w' → coupling.Held k v v' →
    w.heap.number v = w'.heap.number v'
  name : ∀ {name}, name ∈ forbiddenNames → coupling.Fails (.security (.memberName name))
  guard : ∀ {k w w' v v'}, coupling.Rel k w w' → coupling.Found k v v' →
    SameEnd coupling.Fails (coupling.Held k) ((Guard.object w.heap v).mapError .security)
      ((Guard.object w'.heap v').mapError .security)
  read : ∀ {k owner owner' key}, coupling.Slot k owner owner' key →
    coupling.Matches k (access.read owner key) (access'.read owner' key) coupling.Found
  makeArray : ∀ {k items items'}, List.Forall₂ (coupling.Held k) items items' →
    coupling.Matches k (access.makeArray items) (access'.makeArray items') coupling.Held
  makeObject : ∀ {k properties properties'},
    List.Forall₂ (SameEntry (coupling.Held k)) properties properties' →
    coupling.Matches k (access.makeObject properties) (access'.makeObject properties')
      coupling.Held
  stores : ∀ {target value}, Allowed (.assign target value) → Stores
  write : Stores → ∀ {k owner owner' key v v'}, coupling.Slot k owner owner' key →
    coupling.Held k v v' →
    coupling.Matches k (access.write owner key v) (access'.write owner' key v') fun _ _ _ => True
  notAssignable : Stores → coupling.Fails (.runtime .notAssignable)
  notCallable : ∀ {callee operands what}, Allowed (.call callee operands) →
    coupling.Fails (.security (.function what))
  notAFunction : ∀ {callee operands}, Allowed (.call callee operands) →
    coupling.Fails (.runtime (.notAFunction callee.calleeText))
  /-- The heap of the moment is the one that the last argument left. -/
  invoke : ∀ {k place place' f arguments arguments' callee operands w w'},
    Allowed (.call callee operands) → coupling.Reaches k place place' →
    place.value = .function f → place'.value = .function f →
    Guard.function (.function f) = .ok (.function f) →
    List.Forall₂ (coupling.Held k) arguments arguments' → coupling.Rel k w w' →
    (∃ u, (Expr.evalArguments access context operands).outcome u = (.ok arguments, w)) →
    coupling.MatchesAt k (access.invoke ⟨f, place.receiver, arguments⟩)
      (access'.invoke ⟨f, place'.receiver, arguments'⟩) coupling.Found w w'

namespace Steps

variable {coupling : Coupling κ σ τ} {context context' : Context} {access : Access σ}
  {access' : Access τ} {Allowed : Expr → Prop} {Stores : Prop}
  (steps : coupling.Steps context context' access access' Allowed Stores)

include steps

theorem held_alike {k : κ} {v v' : Value} (held : coupling.Held k v v') : LookAlike v v' :=
  steps.alike (steps.found held)

theorem held_getD {k : κ} {v v' : Value} (held : coupling.Held k v v') :
    coupling.Held k (v.getD (.number 0.0)) (v'.getD (.number 0.0)) := by
  unfold Value.getD
  rw [(steps.held_alike held).isUndefined_eq]
  split
  · exact steps.scalar rfl
  · exact held

theorem reaches_mono {k l : κ} {place place' : Place} (le : k ≤ l)
    (reached : coupling.Reaches k place place') : coupling.Reaches l place place' := by
  cases reached with
  | plain held => exact .plain (steps.mono le held)
  | slot slot held => exact .slot (steps.slot_mono le slot) (steps.mono le held)

theorem guardObject {k : κ} {v v' : Value} (found : coupling.Found k v v') :
    coupling.Matches k (Expr.guardObject v) (Expr.guardObject v') coupling.Held :=
  .withHeap fun _ _ related => .guarded (steps.guard related found)

theorem makeMissing (stores : Stores) {k : κ} {owner owner' found found' : Value} {key : String}
    (slot : coupling.Slot k owner owner' key) (isFound : coupling.Found k found found') :
    coupling.Matches k (Expr.makeMissing access owner key found)
      (Expr.makeMissing access' owner' key found') coupling.Found := by
  have missing := (steps.alike isFound).isNullish_eq
  have owners := (steps.slot_alike slot).isContainer_eq
  refine .ite (by rw [missing, owners]) (fun _ => ?_) (fun _ => .pure isFound)
  refine (steps.makeObject .nil).bind fun l le made made' held => ?_
  refine (steps.write stores (steps.slot_mono le slot) held).bind fun l' le' _ _ _ => ?_
  exact .pure (steps.found (steps.mono le' held))

/-- A link of what is reached for each other has values that are held for each other, once they have
passed the guard. -/
theorem readLink {k : κ} {purpose : Purpose} (reads : purpose = .make → Stores)
    {owner owner' : Value} {key : String} (slot : coupling.Slot k owner owner' key) :
    coupling.Matches k (Expr.readLink access purpose owner key)
      (Expr.readLink access' purpose owner' key) coupling.Held := by
  have made (l : κ) (le : k ≤ l) (found found' : Value) (isFound : coupling.Found l found found') :
      coupling.Matches l
        (if purpose = .make then do Expr.guardObject (← Expr.makeMissing access owner key found)
          else do Expr.guardObject (← pure found))
        (if purpose = .make then do Expr.guardObject (← Expr.makeMissing access' owner' key found')
          else do Expr.guardObject (← pure found')) coupling.Held := by
    refine .ite Iff.rfl (fun makes => ?_) (fun _ => (Matches.pure isFound).bind
      fun _ _ found found' isFound => steps.guardObject isFound)
    have missing := steps.makeMissing (reads makes) (steps.slot_mono le slot) isFound
    exact missing.bind fun l' _ found found' isFound => steps.guardObject isFound
  have owners := (steps.slot_alike slot).isTruthy_eq
  refine .ite (by rw [owners]) (fun _ => (steps.read slot).bind made) (fun _ => ?_)
  exact (Matches.pure (steps.found (steps.scalar rfl))).bind made

/-- The name of a member is guarded, and a name that is not forbidden reaches a place. -/
theorem memberPlace {k : κ} {purpose : Purpose} (reads : purpose = .read ∨ Stores)
    {owner owner' : Value} {key : String}
    (slot : key ∉ forbiddenNames → coupling.Slot k owner owner' key) :
    coupling.Matches k (Expr.memberPlace access purpose owner key)
      (Expr.memberPlace access' purpose owner' key) coupling.Reaches := by
  by_cases named : key ∈ forbiddenNames
  · rw [Expr.memberPlace_of_forbidden named, Expr.memberPlace_of_forbidden named]
    exact .fail (steps.name named)
  · have passes : (Expr.guardName key : Run σ String) = Pure.pure key ∧
        (Expr.guardName key : Run τ String) = Pure.pure key := by
      unfold Expr.guardName
      rw [Guard.name_eq_ok_iff.mpr named]
      exact ⟨rfl, rfl⟩
    unfold Expr.memberPlace
    rw [passes.1, passes.2, pure_bind, pure_bind]
    refine .ite Iff.rfl (fun _ => .pure (.slot (slot named) (steps.scalar rfl))) (fun _ => ?_)
    have makes (make : purpose = .make) : Stores := reads.resolve_left (by rw [make]; decide)
    refine (steps.readLink makes (slot named)).bind fun _ le v v' held => ?_
    exact .pure (.slot (steps.slot_mono le (slot named)) held)

theorem store (stores : Stores) {k : κ} {place place' : Place} {v v' : Value}
    (reached : coupling.Reaches k place place') (held : coupling.Held k v v') :
    coupling.Matches k (Expr.store access place v) (Expr.store access' place' v')
      fun _ _ _ => True := by
  cases reached with
  | plain _ => exact .fail (steps.notAssignable stores)
  | slot slot _ => exact steps.write stores slot held

omit steps in
theorem forOwner_reads {purpose : Purpose} (reads : purpose = .read ∨ Stores) :
    purpose.forOwner = .read ∨ Stores := by
  rcases reads with rfl | stores
  · exact .inl rfl
  · exact .inr stores

omit steps in
theorem forBody_reads {purpose : Purpose} (reads : purpose = .read ∨ Stores) :
    purpose.forBody = .read ∨ Stores := by
  rcases reads with rfl | stores
  · exact .inl rfl
  · exact .inr stores

/-- The callee has passed the guard on functions, or both sides fail. -/
theorem guardFunction {callee : Expr} {operands : List Expr}
    (allowed : Allowed (.call callee operands)) {k : κ} {v v' : Value}
    (held : coupling.Held k v v') :
    coupling.Matches k (Run.guarded (Guard.function v)) (Run.guarded (Guard.function v'))
      fun _ u u' => u = v ∧ u' = v' ∧ Guard.function v = .ok v := by
  refine .guarded ?_
  rcases steps.held_alike held with rfl | ⟨left, right⟩
  · unfold Guard.function
    cases v.forbiddenCall? with
    | some what => exact .error (steps.notCallable allowed)
    | none => exact .ok ⟨rfl, rfl, rfl⟩
  · have passes (u : Value) (container : u.isContainer = true) : Guard.function u = .ok u := by
      cases u <;> cases container <;> rfl
    rw [passes v left, passes v' right]
    exact .ok ⟨rfl, rfl, rfl⟩

mutual

/-- **Expressions of allowed nodes match.** By induction on the expression: every node is the steps
that it takes itself, between the evaluations of its parts. -/
theorem locate (e : Expr) (purpose : Purpose) (reads : purpose = .read ∨ Stores) (k : κ)
    (allowed : ∀ node ∈ e.nodes, Allowed node) :
    coupling.Matches k (e.locate access context purpose) (e.locate access' context' purpose)
      coupling.Reaches := by
  cases e with
  | program body =>
      rw [Expr.locate, Expr.locate]
      have inner := locate body purpose.forBody (forBody_reads reads) k fun node inside =>
        allowed node (by simp [Expr.nodes, inside])
      exact inner.bind fun l _ place place' reached => .pure (.plain reached.held)
  | literal value =>
      rw [Expr.locate, Expr.locate]
      exact (steps.document k value).bind fun l _ v v' held => .pure (.plain held)
  | array elements =>
      rw [Expr.locate, Expr.locate]
      have inner := evalList elements k fun node inside =>
        allowed node (by simp [Expr.nodes, inside])
      refine inner.bind fun l _ vs vs' held => ?_
      exact (steps.makeArray held).bind fun l' _ v v' held => .pure (.plain held)
  | object properties =>
      rw [Expr.locate, Expr.locate]
      have inner := evalProperties properties k fun node inside =>
        allowed node (by simp [Expr.nodes, inside])
      refine inner.bind fun l _ ps ps' held => ?_
      exact (steps.makeObject held).bind fun l' _ v v' held => .pure (.plain held)
  | self =>
      rw [Expr.locate, Expr.locate]
      intro w w' related
      have held := steps.self related (allowed .self (Expr.self_mem_nodes .self))
      exact Matches.pure (.plain held) w w' related
  | identifier name =>
      rw [Expr.locate, Expr.locate]
      refine .withHeap fun w w' related => ?_
      by_cases named : name ∈ forbiddenNames
      · rw [Expr.memberPlace_of_forbidden named, Expr.memberPlace_of_forbidden named]
        exact .fail (steps.name named)
      · have slot := steps.owner related (allowed _ (Expr.self_mem_nodes _)) named
        exact steps.memberPlace reads fun _ => slot
  | member owner name =>
      rw [Expr.locate, Expr.locate]
      have inner := locate owner purpose.forOwner (forOwner_reads reads) k fun node inside =>
        allowed node (by simp [Expr.nodes, inside])
      exact inner.bind fun l _ place place' reached =>
        steps.memberPlace reads (steps.slot reached.held)
  | index owner key style =>
      rw [Expr.locate, Expr.locate]
      have inner := locate owner purpose.forOwner (forOwner_reads reads) k fun node inside =>
        allowed node (by simp [Expr.nodes, inside])
      refine inner.bind fun l _ place place' reached => ?_
      have keyed := locate key .read (.inl rfl) l fun node inside =>
        allowed node (by simp [Expr.nodes, inside])
      refine keyed.bind fun l' le keyPlace keyPlace' keyReached => .withHeap fun w w' related => ?_
      rw [← steps.text related keyReached.held]
      exact steps.memberPlace reads (steps.slot (steps.mono le reached.held))
  | call callee arguments =>
      rw [Expr.locate, Expr.locate]
      have called := allowed _ (Expr.self_mem_nodes _)
      have inner := locate callee .read (.inl rfl) k fun node inside =>
        allowed node (by simp [Expr.nodes, inside])
      refine inner.bind fun l _ place place' reached => ?_
      have alike := steps.held_alike reached.held
      refine .ite (by rw [alike.isNullish_eq]) (fun _ => .pure (.plain (steps.scalar rfl))) ?_
      refine fun _ => (steps.guardFunction called reached.held).bind fun l' le v v' passed => ?_
      obtain ⟨rfl, rfl, passed⟩ := passed
      rcases alike with same | ⟨container, container'⟩
      · rw [← same]
        cases function : place.value with
        | function f =>
            have operands := evalArguments arguments l' fun node inside =>
              allowed node (by simp [Expr.nodes, inside])
            refine operands.bind_at fun m le' vs vs' w w' held related evaluated => ?_
            have invoked := steps.invoke called (steps.reaches_mono (le_trans le le') reached)
              function (same ▸ function) (function ▸ passed) held related evaluated
            refine invoked.bind fun m' _ result result' v v' found related _ => ?_
            have guarded := steps.guardObject found
            exact (guarded.bind fun _ _ _ _ held => .pure (.plain held)) v v' related
        | _ => exact .fail (steps.notAFunction called)
      · cases value : place.value with
        | array _ | object _ =>
            cases value' : place'.value with
            | array _ | object _ => exact .fail (steps.notAFunction called)
            | _ =>
                rw [value'] at container'
                cases container'
        | _ =>
            rw [value] at container
            cases container
  | assign target value =>
      rw [Expr.locate, Expr.locate]
      have stores := steps.stores (allowed _ (Expr.self_mem_nodes _))
      have inner := locate target .store (.inr stores) k fun node inside =>
        allowed node (by simp [Expr.nodes, inside])
      refine inner.bind fun l _ place place' reached => ?_
      have stored := locate value .read (.inl rfl) l fun node inside =>
        allowed node (by simp [Expr.nodes, inside])
      refine stored.bind fun l' le source source' sourceReached => ?_
      refine (steps.guardObject (steps.found sourceReached.held)).bind fun l'' le' v v' held => ?_
      refine (steps.store stores (steps.reaches_mono (le_trans le le') reached) held).bind ?_
      exact fun m le'' _ _ _ => .pure (.plain (steps.mono le'' held))
  | unary operator operand =>
      rw [Expr.locate, Expr.locate]
      have inner := locate operand .read (.inl rfl) k fun node inside =>
        allowed node (by simp [Expr.nodes, inside])
      refine inner.bind fun l _ place place' reached => .withHeap fun w w' related => ?_
      have held := steps.held_getD reached.held
      rw [operator.apply_eq (steps.number related held) (steps.held_alike held).isTruthy_eq]
      exact .pure (.plain (steps.scalar (operator.isScalar_apply _ _)))

theorem evalList (es : List Expr) (k : κ)
    (allowed : ∀ node ∈ Expr.nodesOfList es, Allowed node) :
    coupling.Matches k (Expr.evalList access context es) (Expr.evalList access' context' es)
      fun l => List.Forall₂ (coupling.Held l) := by
  cases es with
  | nil =>
      rw [Expr.evalList, Expr.evalList]
      exact .pure .nil
  | cons e es =>
      rw [Expr.evalList, Expr.evalList]
      have first := locate e .read (.inl rfl) k fun node inside =>
        allowed node (by simp [Expr.nodesOfList, inside])
      refine first.bind fun l _ place place' reached => ?_
      have rest := evalList es l fun node inside =>
        allowed node (by simp [Expr.nodesOfList, inside])
      exact rest.bind fun l' le vs vs' held => .pure (.cons (steps.mono le reached.held) held)

theorem evalArguments (es : List Expr) (k : κ)
    (allowed : ∀ node ∈ Expr.nodesOfList es, Allowed node) :
    coupling.Matches k (Expr.evalArguments access context es)
      (Expr.evalArguments access' context' es) fun l => List.Forall₂ (coupling.Held l) := by
  cases es with
  | nil =>
      rw [Expr.evalArguments, Expr.evalArguments]
      exact .pure .nil
  | cons e es =>
      rw [Expr.evalArguments, Expr.evalArguments]
      have first := locate e .read (.inl rfl) k fun node inside =>
        allowed node (by simp [Expr.nodesOfList, inside])
      refine first.bind fun l _ place place' reached => ?_
      refine (steps.guardObject (steps.found reached.held)).bind fun l' _ v v' passed => ?_
      have rest := evalArguments es l' fun node inside =>
        allowed node (by simp [Expr.nodesOfList, inside])
      exact rest.bind fun l'' le vs vs' held => .pure (.cons (steps.mono le passed) held)

theorem evalProperties (ps : List (PropertyKey × Expr)) (k : κ)
    (allowed : ∀ node ∈ Expr.nodesOfProperties ps, Allowed node) :
    coupling.Matches k (Expr.evalProperties access context ps)
      (Expr.evalProperties access' context' ps)
      fun l => List.Forall₂ (SameEntry (coupling.Held l)) := by
  match ps with
  | [] =>
      rw [Expr.evalProperties, Expr.evalProperties]
      exact .pure .nil
  | (key, e) :: ps =>
      rw [Expr.evalProperties, Expr.evalProperties]
      have first := locate e .read (.inl rfl) k fun node inside =>
        allowed node (by simp [Expr.nodesOfProperties, inside])
      refine first.bind fun l _ place place' reached => ?_
      have rest := evalProperties ps l fun node inside =>
        allowed node (by simp [Expr.nodesOfProperties, inside])
      exact rest.bind fun l' le vs vs' held =>
        .pure (.cons ⟨rfl, steps.mono le reached.held⟩ held)

end

/-- What two evaluators give are values that are held for each other. -/
theorem eval (e : Evaluator) (k : κ) (allowed : ∀ node ∈ e.body.nodes, Allowed node) :
    coupling.Matches k (e.eval access context) (e.eval access' context') coupling.Held :=
  (steps.locate e.body .read (.inl rfl) k allowed).bind fun _ _ _ _ reached => .pure reached.held

theorem assign (stores : Stores) (e : Evaluator) {v v' : Value} {k : κ}
    (found : ∀ l, k ≤ l → coupling.Found l v v')
    (allowed : ∀ node ∈ e.body.nodes, Allowed node) :
    coupling.Matches k (e.assign access context v) (e.assign access' context' v')
      coupling.Held := by
  refine .ite Iff.rfl (fun _ => ?_) (fun _ => .fail (steps.notAssignable stores))
  refine (steps.locate e.body .store (.inr stores) k allowed).bind fun l le _ _ reached => ?_
  refine (steps.guardObject (found l le)).bind fun l' le' u u' held => ?_
  refine (steps.store stores (steps.reaches_mono le' reached) held).bind fun m le'' _ _ _ => ?_
  exact .pure (steps.mono le'' held)

end Steps

end Coupling

end GuardedExpr
