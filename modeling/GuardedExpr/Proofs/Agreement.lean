import GuardedExpr.Proofs.Coupling

/-!
# Runs that agree

Two runs agree from a stage if they end the same way from all worlds that are
related at that stage, and leave worlds that are related at the same or a later
one. Agreement is a coupling in which both sides hold the same values. A run may
also be set against itself, with worlds related to themselves as long as an
invariant holds of them.
-/

namespace GuardedExpr.Run

variable {κ σ τ α β : Type} [Preorder κ] {Rel : κ → World σ → World τ → Prop}

theorem outcome_onHeapOrFail (f : Heap → Except RuntimeError Heap) (w : World σ) :
    outcome (onHeapOrFail f) w =
      match f w.heap with
      | .ok h => (.ok (), { w with heap := h })
      | .error e => (.error (.runtime e), w) := by
  unfold onHeapOrFail
  rw [outcome_bind]
  change outcome (match f w.heap with
    | .ok h => set { w with heap := h }
    | .error e => throw (.runtime e)) w = _
  cases f w.heap <;> rfl

/-- The runs end the same way, in worlds that are related at a stage where the property holds of a
result. -/
def Agree (Rel : κ → World σ → World τ → Prop) (k : κ) (m : Run σ α) (n : Run τ α)
    (Q : κ → α → Prop) : Prop :=
  ∀ w w', Rel k w w' → ∃ l, k ≤ l ∧ Rel l (m.outcome w).2 (n.outcome w').2 ∧
    (m.outcome w).1 = (n.outcome w').1 ∧ ∀ a, (m.outcome w).1 = .ok a → Q l a

/-- Relates a world to itself as long as the invariant holds of its heap. -/
def Diagonal (Inv : κ → Heap → Prop) (k : κ) (w w' : World σ) : Prop :=
  w = w' ∧ Inv k w.heap

namespace Agree

variable {Inv : κ → Heap → Prop} {k : κ} {P : κ → α → Prop}

/-- A change of the heap agrees with itself if it keeps the invariant. -/
theorem change {f : Heap → α × Heap}
    (keeps : ∀ h, Inv k h → ∃ l, k ≤ l ∧ Inv l (f h).2 ∧ P l (f h).1) :
    Agree (Diagonal Inv) k (onHeap f : Run σ α) (onHeap f) P := by
  intro w w' related
  obtain ⟨rfl, inv⟩ := related
  obtain ⟨l, le, kept, holds⟩ := keeps w.heap inv
  refine ⟨l, le, ⟨rfl, kept⟩, rfl, ?_⟩
  intro a same
  obtain rfl := Except.ok.inj same
  exact holds

theorem changeOrFail {f : Heap → Except RuntimeError Heap} {P : κ → Unit → Prop}
    (keeps : ∀ h h', Inv k h → f h = .ok h' → ∃ l, k ≤ l ∧ Inv l h' ∧ P l ()) :
    Agree (Diagonal Inv) k (onHeapOrFail f : Run σ Unit) (onHeapOrFail f) P := by
  intro w w' related
  obtain ⟨rfl, inv⟩ := related
  cases changed : f w.heap with
  | error e =>
      have ended : (onHeapOrFail f).outcome w = (.error (.runtime e), w) := by
        rw [outcome_onHeapOrFail, changed]
      rw [ended]
      exact ⟨k, le_refl k, ⟨rfl, inv⟩, rfl, fun a failed => by cases failed⟩
  | ok h =>
      have ended : (onHeapOrFail f).outcome w = (.ok (), { w with heap := h }) := by
        rw [outcome_onHeapOrFail, changed]
      rw [ended]
      obtain ⟨l, le, kept, holds⟩ := keeps w.heap h inv changed
      exact ⟨l, le, ⟨rfl, kept⟩, rfl, fun _ _ => holds⟩

end Agree

/-- Relates two worlds by their heaps. -/
def Paired (R : κ → Heap → Heap → Prop) (k : κ) (w : World σ) (w' : World τ) : Prop :=
  R k w.heap w'.heap

namespace Agree

variable {R : κ → Heap → Heap → Prop} {k : κ}

/-- Changes of two heaps agree if they give the same and leave the heaps related. -/
theorem changeBoth {f g : Heap → α × Heap} {P : κ → α → Prop}
    (keeps : ∀ h h', R k h h' →
      ∃ l, k ≤ l ∧ R l (f h).2 (g h').2 ∧ (f h).1 = (g h').1 ∧ P l (f h).1) :
    Agree (Paired R) k (onHeap f : Run σ α) (onHeap g : Run τ α) P := by
  intro w w' related
  obtain ⟨l, le, kept, same, holds⟩ := keeps w.heap w'.heap related
  refine ⟨l, le, kept, congrArg Except.ok same, ?_⟩
  intro a ended
  obtain rfl := Except.ok.inj ended
  exact holds

theorem changeBothOrFail {f g : Heap → Except RuntimeError Heap} {P : κ → Unit → Prop}
    (keeps : ∀ h h', R k h h' → (∃ e, f h = .error e ∧ g h' = .error e) ∨
      ∃ l m m', k ≤ l ∧ f h = .ok m ∧ g h' = .ok m' ∧ R l m m' ∧ P l ()) :
    Agree (Paired R) k (onHeapOrFail f : Run σ Unit) (onHeapOrFail g : Run τ Unit) P := by
  intro w w' related
  rw [outcome_onHeapOrFail, outcome_onHeapOrFail]
  rcases keeps w.heap w'.heap related with
    ⟨e, failed, failed'⟩ | ⟨l, m, m', le, done, done', kept, holds⟩
  · rw [failed, failed']
    exact ⟨k, le_refl k, related, rfl, fun _ ended => by cases ended⟩
  · rw [done, done']
    exact ⟨l, le, kept, rfl, fun _ _ => holds⟩

end Agree

end GuardedExpr.Run

namespace GuardedExpr

/-- What binds the worlds of two evaluations to each other. -/
structure Bond (κ σ τ : Type) [Preorder κ] where
  /-- The worlds that are related at a stage. -/
  Rel : κ → World σ → World τ → Prop
  /-- The values that an evaluation holds at a stage. -/
  Held : κ → Value → Prop
  /-- The values that have not passed the guard yet. -/
  Found : κ → Value → Prop
  /-- The members that an evaluation reaches at a stage. -/
  Slot : κ → Value → String → Prop

namespace Bond

variable {κ σ τ : Type} [Preorder κ] {bond : Bond κ σ τ}

/-- Scalars are held, what is held stays so, and new containers hold what is held. -/
structure Allocates (bond : Bond κ σ τ) : Prop where
  mono : ∀ {k l v}, k ≤ l → bond.Held k v → bond.Held l v
  scalar : ∀ {k v}, v.isScalar = true → bond.Held k v
  array : ∀ {k items}, (∀ v ∈ items, bond.Held k v) →
    Run.Agree bond.Rel k (Run.onHeap fun h => h.makeArray items)
      (Run.onHeap fun h => h.makeArray items) bond.Held
  object : ∀ {k properties}, (∀ p ∈ properties, bond.Held k p.2) →
    Run.Agree bond.Rel k (Run.onHeap fun h => h.makeObject properties)
      (Run.onHeap fun h => h.makeObject properties) bond.Held

/-- Both sides hold the same values, and any error may make both fail. -/
def coupling (bond : Bond κ σ τ) : Coupling κ σ τ where
  Rel := bond.Rel
  Fails _ := True
  Held k v v' := bond.Held k v ∧ v = v'
  Found k v v' := bond.Found k v ∧ v = v'
  Slot k owner owner' key := bond.Slot k owner key ∧ owner = owner'

/-- Two ends with the same values are one end. -/
theorem sameEnd_iff {α : Type} {Q : α → Prop} {a b : Except Error α} :
    SameEnd (fun _ => True) (fun x y => Q x ∧ x = y) a b ↔ a = b ∧ ∀ x, a = .ok x → Q x := by
  constructor
  · intro ended
    cases ended with
    | ok both =>
        obtain ⟨holds, rfl⟩ := both
        exact ⟨rfl, fun _ same => Except.ok.inj same ▸ holds⟩
    | error => exact ⟨rfl, fun _ same => by cases same⟩
  · intro ended
    obtain ⟨rfl, holds⟩ := ended
    cases a with
    | ok x => exact .ok ⟨holds x rfl, rfl⟩
    | error e => exact .error trivial

/-- Runs agree exactly if they match with the same values on both sides. -/
theorem matches_iff_agree {α : Type} {k : κ} {m : Run σ α} {n : Run τ α} {Q : κ → α → Prop} :
    bond.coupling.Matches k m n (fun l a b => Q l a ∧ a = b) ↔ Run.Agree bond.Rel k m n Q := by
  constructor
  · intro matching w w' related
    obtain ⟨l, le, coupled, ended⟩ := matching w w' related
    exact ⟨l, le, coupled, sameEnd_iff.mp ended⟩
  · intro agree w w' related
    obtain ⟨l, le, coupled, ended⟩ := agree w w' related
    exact ⟨l, le, coupled, sameEnd_iff.mpr ended⟩

theorem forall₂_held {k : κ} {vs vs' : List Value} :
    List.Forall₂ (bond.coupling.Held k) vs vs' ↔ (∀ v ∈ vs, bond.Held k v) ∧ vs = vs' := by
  change List.Forall₂ (fun v v' => bond.Held k v ∧ v = v') vs vs' ↔ _
  rw [List.forall₂_and_left, List.forall₂_eq_eq_eq]

theorem forall₂_heldEntry {k : κ} {ps ps' : List (String × Value)} :
    List.Forall₂ (SameEntry (bond.coupling.Held k)) ps ps' ↔
      (∀ p ∈ ps, bond.Held k p.2) ∧ ps = ps' := by
  have entry : SameEntry (bond.coupling.Held k) = fun p p' => bond.Held k p.2 ∧ p = p' := by
    funext p p'
    refine propext ⟨fun both => ⟨both.2.1, Prod.ext both.1 both.2.2⟩, fun both => ?_⟩
    obtain ⟨held, rfl⟩ := both
    exact ⟨rfl, held, rfl⟩
  rw [entry, List.forall₂_and_left, List.forall₂_eq_eq_eq]

namespace Allocates

theorem couples (allocates : bond.Allocates) : bond.coupling.Allocates where
  mono le held := ⟨allocates.mono le held.1, held.2⟩
  scalar scalar := ⟨allocates.scalar scalar, rfl⟩
  array both := by
    obtain ⟨held, rfl⟩ := forall₂_held.mp both
    exact matches_iff_agree.mpr (allocates.array held)
  object both := by
    obtain ⟨held, rfl⟩ := forall₂_heldEntry.mp both
    exact matches_iff_agree.mpr (allocates.object held)

/-- Making the value of a document agrees with itself. -/
theorem document (allocates : bond.Allocates) (k : κ) (value : Json) :
    Run.Agree bond.Rel k (Run.onHeap fun h => h.ofJson value)
      (Run.onHeap fun h => h.ofJson value) bond.Held :=
  matches_iff_agree.mp (allocates.couples.document k value)

end Allocates

end Bond

end GuardedExpr
