import GuardedExpr.Proofs.Coupling.Evaluation

/-!
# Evaluations on the same values

Two evaluations that hold the same values in worlds with one heap are coupled
already by the steps in which they reach the world. An evaluation set beside
itself is such a pair, with an invariant: what every step keeps is kept by every
run, and a run fails only in the ways in which its steps may fail. A call may use
that the arguments it passes are the ones that its operands have just been
evaluated to.
-/

namespace GuardedExpr

open Run

namespace Access

variable {σ : Type} (run : Invocation → Run σ Value)

theorem direct_read (owner : Value) (key : String) :
    (direct run).read owner key = Run.onHeap fun h => h.readMember owner key := rfl

theorem direct_makeArray (items : List Value) :
    (direct run).makeArray items = Run.onHeap fun h => h.makeArray items := rfl

theorem direct_makeObject (properties : List (String × Value)) :
    (direct run).makeObject properties = Run.onHeap fun h => h.makeObject properties := rfl

end Access

namespace Coupling

variable {σ τ α : Type}

/-- Two runs that hold the same values. -/
def same (Rel : World σ → World τ → Prop) (Fails : Error → Prop) : Coupling Steady σ τ where
  Rel _ := Rel
  Fails := Fails
  Held _ v v' := v = v'
  Found _ v v' := v = v'
  Slot _ owner owner' _ := owner = owner'

/-- From coupled worlds, the runs give one result, or fail with one error of the kind. -/
def Alike (Rel : World σ → World τ → Prop) (Fails : Error → Prop) (m : Run σ α) (n : Run τ α) :
    Prop :=
  (same Rel Fails).Matches .steady m n fun _ a b => a = b

theorem forall₂_same_iff {vs vs' : List Value} : List.Forall₂ (· = ·) vs vs' ↔ vs = vs' := by
  rw [List.forall₂_eq_eq_eq]

theorem forall₂_sameEntry_eq {ps ps' : List (String × Value)}
    (entries : List.Forall₂ (SameEntry (· = ·)) ps ps') : ps = ps' := by
  have equal : List.Forall₂ (· = ·) ps ps' := entries.imp fun _ _ entry => Prod.ext entry.1 entry.2
  rwa [List.forall₂_eq_eq_eq] at equal

/-- **The steps are alike.** With the same arguments, both sides reach the world alike. Stores are
among the steps only if they are allowed. -/
structure SameSteps (Rel : World σ → World τ → Prop) (Fails : Error → Prop) (context : Context)
    (access : Access σ) (access' : Access τ) (Allowed : Expr → Prop) (Stores : Prop) : Prop where
  heap : ∀ {w w'}, Rel w w' → w.heap = w'.heap
  array : ∀ items, Alike Rel Fails (onHeap fun h => h.makeArray items)
    (onHeap fun h => h.makeArray items)
  object : ∀ properties, Alike Rel Fails (onHeap fun h => h.makeObject properties)
    (onHeap fun h => h.makeObject properties)
  makeArray : ∀ items, Alike Rel Fails (access.makeArray items) (access'.makeArray items)
  makeObject : ∀ properties, Alike Rel Fails (access.makeObject properties)
    (access'.makeObject properties)
  read : ∀ owner key, Alike Rel Fails (access.read owner key) (access'.read owner key)
  stores : ∀ {target value}, Allowed (.assign target value) → Stores
  write : Stores → ∀ owner key v, Alike Rel Fails (access.write owner key v)
    (access'.write owner key v)
  name : ∀ name ∈ forbiddenNames, Fails (.security (.memberName name))
  guard : ∀ what, Fails (.security (.object what))
  notAssignable : Stores → Fails (.runtime .notAssignable)
  notCallable : ∀ {callee operands what}, Allowed (.call callee operands) →
    Fails (.security (.function what))
  notAFunction : ∀ {callee operands}, Allowed (.call callee operands) →
    Fails (.runtime (.notAFunction callee.calleeText))
  invoke : ∀ {callee operands f receiver arguments w w'}, Allowed (.call callee operands) →
    Rel w w' →
    (∃ u, (Expr.evalArguments access context operands).outcome u = (.ok arguments, w)) →
    (same Rel Fails).MatchesAt .steady (access.invoke ⟨f, receiver, arguments⟩)
      (access'.invoke ⟨f, receiver, arguments⟩) (fun _ a b => a = b) w w'

/-- Steps that are alike match. -/
theorem SameSteps.steps {Rel : World σ → World τ → Prop} {Fails : Error → Prop}
    {context : Context} {access : Access σ} {access' : Access τ} {Allowed : Expr → Prop}
    {Stores : Prop} (alike : SameSteps Rel Fails context access access' Allowed Stores) :
    (same Rel Fails).Steps context context access access' Allowed Stores where
  mono _ equal := equal
  scalar _ := rfl
  array items := forall₂_same_iff.mp items ▸ alike.array _
  object properties := forall₂_sameEntry_eq properties ▸ alike.object _
  found equal := equal
  alike equal := .inl equal
  slot_alike equal := .inl equal
  slot_mono _ equal := equal
  slot equal _ := equal
  self _ _ := rfl
  owner related _ _ := by
    rw [alike.heap related]
    rfl
  text related equal := by rw [alike.heap related, equal]
  number related equal := by rw [alike.heap related, equal]
  name named := alike.name _ named
  guard {k w w' v v'} related equal := by
    rw [← alike.heap related, ← equal]
    unfold Guard.object
    cases w.heap.forbidden? v with
    | some what => exact .error (alike.guard what)
    | none => exact .ok rfl
  read {k owner owner' key} equal := by
    rw [← equal]
    exact alike.read owner key
  makeArray items := forall₂_same_iff.mp items ▸ alike.makeArray _
  makeObject properties := forall₂_sameEntry_eq properties ▸ alike.makeObject _
  stores := alike.stores
  write stores {k owner owner' key v v'} equal held w w' related := by
    obtain ⟨l, le, coupled, ended⟩ := alike.write stores owner key v w w' related
    rw [← equal, ← held]
    exact ⟨l, le, coupled, ended.imp fun _ _ _ => trivial⟩
  notAssignable := alike.notAssignable
  notCallable := alike.notCallable
  notAFunction := alike.notAFunction
  invoke {k place place' f arguments arguments' callee operands w w'} called reached _ _ _ items
      related evaluated := by
    have receivers : place.receiver = place'.receiver := by
      cases reached with
      | plain _ => rfl
      | slot equal _ => exact equal
    rw [← receivers, ← forall₂_same_iff.mp items]
    exact alike.invoke called related evaluated

end Coupling

variable {σ α : Type} {Inv : World σ → Prop} {Fails : Error → Prop} {m : Run σ α}

/-- Wherever the invariant holds, the run leaves it so, and it fails only with errors of a kind. -/
def Run.Keeps (Inv : World σ → Prop) (Fails : Error → Prop) (m : Run σ α) : Prop :=
  ∀ w, Inv w → Inv (m.outcome w).2 ∧ ∀ e, (m.outcome w).1 = .error e → Fails e

/-- A change of the heap does not fail. -/
theorem Run.Keeps.onHeap {f : Heap → α × Heap}
    (keeps : ∀ w, Inv w → Inv { w with heap := (f w.heap).2 }) :
    Keeps Inv Fails (onHeap f) := by
  intro w inv
  rw [outcome_onHeap]
  exact ⟨keeps w inv, fun e failed => by cases failed⟩

/-- A world beside itself, as long as the invariant holds. -/
def World.Alone (Inv : World σ → Prop) (w w' : World σ) : Prop :=
  w = w' ∧ Inv w

theorem Run.Keeps.matchesAt {w : World σ}
    (keeps : Inv (m.outcome w).2 ∧ ∀ e, (m.outcome w).1 = .error e → Fails e) :
    (Coupling.same (World.Alone Inv) Fails).MatchesAt .steady m m (fun _ a b => a = b) w w := by
  refine ⟨.steady, le_refl _, ⟨rfl, keeps.1⟩, ?_⟩
  cases ended : (m.outcome w).1 with
  | ok a => exact .ok rfl
  | error e => exact .error (keeps.2 e ended)

theorem Run.Keeps.alike (keeps : Keeps Inv Fails m) :
    Coupling.Alike (World.Alone Inv) Fails m m := by
  intro w w' related
  obtain ⟨rfl, inv⟩ := related
  exact Keeps.matchesAt (keeps w inv)

/-- A run that matches itself as long as the invariant holds keeps it. -/
theorem Run.keeps_of_matches {Q : Steady → α → α → Prop}
    (matching : (Coupling.same (World.Alone Inv) Fails).Matches .steady m m Q) :
    Keeps Inv Fails m := by
  intro w inv
  obtain ⟨_, _, coupled, ended⟩ := matching w w ⟨rfl, inv⟩
  refine ⟨coupled.2, fun e failed => ?_⟩
  change SameEnd Fails _ _ _ at ended
  rw [failed] at ended
  cases ended with
  | error fails => exact fails

/-- **The steps keep the invariant.** Stores are among the steps only if they are allowed. -/
structure Access.Keeps (access : Access σ) (context : Context) (Inv : World σ → Prop)
    (Fails : Error → Prop) (Allowed : Expr → Prop) (Stores : Prop) : Prop where
  array : ∀ items, Run.Keeps Inv Fails (onHeap fun h => h.makeArray items)
  object : ∀ properties, Run.Keeps Inv Fails (onHeap fun h => h.makeObject properties)
  makeArray : ∀ items, Run.Keeps Inv Fails (access.makeArray items)
  makeObject : ∀ properties, Run.Keeps Inv Fails (access.makeObject properties)
  read : ∀ owner key, Run.Keeps Inv Fails (access.read owner key)
  stores : ∀ {target value}, Allowed (.assign target value) → Stores
  write : Stores → ∀ owner key v, Run.Keeps Inv Fails (access.write owner key v)
  name : ∀ name ∈ forbiddenNames, Fails (.security (.memberName name))
  guard : ∀ what, Fails (.security (.object what))
  notAssignable : Stores → Fails (.runtime .notAssignable)
  notCallable : ∀ {callee operands what}, Allowed (.call callee operands) →
    Fails (.security (.function what))
  notAFunction : ∀ {callee operands}, Allowed (.call callee operands) →
    Fails (.runtime (.notAFunction callee.calleeText))
  invoke : ∀ {callee operands f receiver arguments w}, Allowed (.call callee operands) → Inv w →
    (∃ u, (Expr.evalArguments access context operands).outcome u = (.ok arguments, w)) →
    Inv ((access.invoke ⟨f, receiver, arguments⟩).outcome w).2 ∧
      ∀ e, ((access.invoke ⟨f, receiver, arguments⟩).outcome w).1 = .error e → Fails e

namespace Access.Keeps

variable {access : Access σ} {context : Context} {Allowed : Expr → Prop} {Stores : Prop}

/-- Steps that keep the invariant match themselves. -/
theorem steps (keeps : access.Keeps context Inv Fails Allowed Stores) :
    (Coupling.same (World.Alone Inv) Fails).Steps context context access access Allowed Stores :=
  Coupling.SameSteps.steps {
    heap := fun related => congrArg World.heap related.1
    array := fun items => (keeps.array items).alike
    object := fun properties => (keeps.object properties).alike
    makeArray := fun items => (keeps.makeArray items).alike
    makeObject := fun properties => (keeps.makeObject properties).alike
    read := fun owner key => (keeps.read owner key).alike
    stores := keeps.stores
    write := fun stores owner key v => (keeps.write stores owner key v).alike
    name := keeps.name
    guard := keeps.guard
    notAssignable := keeps.notAssignable
    notCallable := keeps.notCallable
    notAFunction := keeps.notAFunction
    invoke := by
      intro callee operands f receiver arguments w w' called related evaluated
      obtain ⟨rfl, inv⟩ := related
      exact Run.Keeps.matchesAt (keeps.invoke called inv evaluated) }

/-- What every step keeps is kept by every evaluation of a node. -/
theorem locate (keeps : access.Keeps context Inv Fails Allowed Stores) (e : Expr)
    (purpose : Purpose) (reads : purpose = .read ∨ Stores)
    (allowed : ∀ node ∈ e.nodes, Allowed node) :
    Run.Keeps Inv Fails (e.locate access context purpose) :=
  keeps_of_matches (keeps.steps.locate e purpose reads .steady allowed)

/-- What every step keeps is kept by every evaluation. -/
theorem eval (keeps : access.Keeps context Inv Fails Allowed Stores) (e : Evaluator)
    (allowed : ∀ node ∈ e.body.nodes, Allowed node) :
    Run.Keeps Inv Fails (e.eval access context) :=
  keeps_of_matches (keeps.steps.eval e .steady allowed)

end Access.Keeps

end GuardedExpr
