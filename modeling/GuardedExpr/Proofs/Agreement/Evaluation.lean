import GuardedExpr.Proofs.Agreement
import GuardedExpr.Proofs.Coupling.Evaluation

/-!
# Evaluations that agree

Whether two evaluations of one expression agree is a matter of the steps they
take. If reading, storing, calling and making agree wherever an evaluation may
take these steps, with values that it may hold there, then every expression
evaluates to the same end on both sides. The steps are those of a coupling with
the same values on both sides, and the induction on expressions is its own.
-/

namespace GuardedExpr

namespace Bond

open Run GuardedExpr.Expr

variable {κ σ τ : Type} [Preorder κ]

/-- The place is one that an evaluation may stand at. -/
def Reaches (bond : Bond κ σ τ) (k : κ) : Place → Prop
  | .plain v => bond.Held k v
  | .slot owner key v => bond.Slot k owner key ∧ bond.Held k v

theorem Reaches.held {bond : Bond κ σ τ} {k : κ} {place : Place} (reached : bond.Reaches k place) :
    bond.Held k place.value := by
  cases place with
  | plain v => exact reached
  | slot owner key v => exact reached.2

/-- **The steps agree.** Wherever an evaluation of allowed nodes may take a step, both sides take it
alike, and what they hold afterwards is again something that they may hold. -/
structure Carries (bond : Bond κ σ τ) (context : Context) (access : Access σ) (access' : Access τ)
    (Allowed : Expr → Prop) : Prop extends bond.Allocates where
  found : ∀ {k v}, bond.Held k v → bond.Found k v
  slot_mono : ∀ {k l owner key}, k ≤ l → bond.Slot k owner key → bond.Slot l owner key
  slot : ∀ {k owner key}, bond.Held k owner → key ∉ forbiddenNames → bond.Slot k owner key
  self : ∀ {k w w'}, bond.Rel k w w' → Allowed .self → bond.Held k context.scope
  owner : ∀ {k w w' name}, bond.Rel k w w' → name ∉ forbiddenNames →
    context.owner w.heap name = context.owner w'.heap name ∧
      bond.Slot k (context.owner w.heap name) name
  text : ∀ {k w w' v}, bond.Rel k w w' → bond.Held k v → w.heap.text v = w'.heap.text v
  number : ∀ {k w w' v}, bond.Rel k w w' → bond.Held k v → w.heap.number v = w'.heap.number v
  guard : ∀ {k w w' v}, bond.Rel k w w' → bond.Found k v →
    Guard.object w.heap v = Guard.object w'.heap v ∧
      (Guard.object w.heap v = .ok v → bond.Held k v)
  read : ∀ {k owner key}, bond.Slot k owner key →
    Agree bond.Rel k (access.read owner key) (access'.read owner key) bond.Found
  write : ∀ {k owner key v}, bond.Slot k owner key → bond.Held k v →
    Agree bond.Rel k (access.write owner key v) (access'.write owner key v) fun _ _ => True
  makeArray : ∀ {k items}, (∀ v ∈ items, bond.Held k v) →
    Agree bond.Rel k (access.makeArray items) (access'.makeArray items) bond.Held
  makeObject : ∀ {k properties}, (∀ p ∈ properties, bond.Held k p.2) →
    Agree bond.Rel k (access.makeObject properties) (access'.makeObject properties) bond.Held
  invoke : ∀ {k place f arguments callee operands}, Allowed (.call callee operands) →
    bond.Reaches k place → place.value = .function f →
    Guard.function (.function f) = .ok (.function f) → (∀ v ∈ arguments, bond.Held k v) →
    Agree bond.Rel k (access.invoke ⟨f, place.receiver, arguments⟩)
      (access'.invoke ⟨f, place.receiver, arguments⟩) bond.Found

namespace Carries

variable {bond : Bond κ σ τ} {context : Context} {access : Access σ} {access' : Access τ}
  {Allowed : Expr → Prop} (carries : bond.Carries context access access' Allowed)

include carries

/-- Steps that agree match, with the same values on both sides. -/
theorem steps : bond.coupling.Steps context context access access' Allowed True where
  toAllocates := carries.couples
  found held := ⟨carries.found held.1, held.2⟩
  alike found := .inl found.2
  slot_alike slot := .inl slot.2
  slot_mono le slot := ⟨carries.slot_mono le slot.1, slot.2⟩
  slot held allowed := ⟨carries.slot held.1 allowed, held.2⟩
  self related allowed := ⟨carries.self related allowed, rfl⟩
  owner related _ allowed :=
    have ⟨same, slot⟩ := carries.owner related allowed
    ⟨slot, same⟩
  text related held := held.2 ▸ carries.text related held.1
  number related held := held.2 ▸ carries.number related held.1
  name _ := trivial
  guard {k w w' v v'} related found := by
    obtain ⟨found, rfl⟩ := found
    obtain ⟨same, held⟩ := carries.guard related found
    rw [← same]
    cases passed : Guard.object w.heap v with
    | error e => exact .error trivial
    | ok u =>
        obtain rfl := Guard.eq_of_object passed
        exact .ok ⟨held passed, rfl⟩
  read slot := by
    obtain ⟨slot, rfl⟩ := slot
    exact matches_iff_agree.mpr (carries.read slot)
  makeArray both := by
    obtain ⟨held, rfl⟩ := forall₂_held.mp both
    exact matches_iff_agree.mpr (carries.makeArray held)
  makeObject both := by
    obtain ⟨held, rfl⟩ := forall₂_heldEntry.mp both
    exact matches_iff_agree.mpr (carries.makeObject held)
  stores _ := trivial
  write _ {k owner owner' key v v'} slot held := by
    obtain ⟨slot, rfl⟩ := slot
    obtain ⟨held, rfl⟩ := held
    intro w w' related
    obtain ⟨l, le, coupled, ended⟩ :=
      matches_iff_agree.mpr (carries.write slot held) w w' related
    exact ⟨l, le, coupled, ended.imp fun _ _ _ => trivial⟩
  notAssignable _ := trivial
  notCallable _ := trivial
  notAFunction _ := trivial
  invoke {k place place' f arguments arguments' callee operands w w'} called reached function _
      passed both related _ := by
    obtain ⟨held, rfl⟩ := forall₂_held.mp both
    obtain ⟨reached, receivers⟩ : bond.Reaches k place ∧ place.receiver = place'.receiver := by
      cases reached with
      | plain value => exact ⟨value.1, rfl⟩
      | slot slot value => exact ⟨⟨slot.1, value.1⟩, slot.2⟩
    rw [← receivers]
    exact matches_iff_agree.mpr (carries.invoke called reached function passed held) w w' related

/-- What an evaluator gives is something that may be held. -/
theorem eval (e : Evaluator) (k : κ) (allowed : ∀ node ∈ e.body.nodes, Allowed node) :
    Agree bond.Rel k (e.eval access context) (e.eval access' context) bond.Held :=
  matches_iff_agree.mp (carries.steps.eval e k allowed)

theorem assign (e : Evaluator) {v : Value} {k : κ} (found : ∀ l, k ≤ l → bond.Found l v)
    (allowed : ∀ node ∈ e.body.nodes, Allowed node) :
    Agree bond.Rel k (e.assign access context v) (e.assign access' context v) bond.Held :=
  matches_iff_agree.mp
    (carries.steps.assign trivial e (fun l le => ⟨found l le, rfl⟩) allowed)

end Carries

end Bond

end GuardedExpr
