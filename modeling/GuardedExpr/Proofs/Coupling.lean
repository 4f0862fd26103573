import GuardedExpr.Expr.Eval
import GuardedExpr.Proofs.Contents
import Mathlib.Data.List.Forall2
import Mathlib.Order.Basic

/-!
# Coupled runs

A coupling says which worlds two evaluations stand in side by side, which values
they hold for each other, and with which errors they may fail. Two runs match if
they lead from coupled worlds to coupled worlds and end with values for each
other or with one error. Their values need not be the same: an array that one
side has made stands for the array that the other side has made.
-/

namespace GuardedExpr

/-- Both runs give results in the relation, or both fail with one error of a kind. -/
inductive SameEnd {α β : Type} (Fails : Error → Prop) (Q : α → β → Prop) :
    Except Error α → Except Error β → Prop where
  | ok {a : α} {b : β} (related : Q a b) : SameEnd Fails Q (.ok a) (.ok b)
  | error {e : Error} (fails : Fails e) : SameEnd Fails Q (.error e) (.error e)

/-- The one stage of runs about whose values nothing is learnt on the way. -/
inductive Steady where
  | steady

instance : Preorder Steady where
  le _ _ := True
  le_refl _ := trivial
  le_trans _ _ _ _ _ := trivial

theorem SameEnd.imp {α β : Type} {Fails : Error → Prop} {Q Q' : α → β → Prop} {a : Except Error α}
    {b : Except Error β} (ended : SameEnd Fails Q a b) (weaker : ∀ a b, Q a b → Q' a b) :
    SameEnd Fails Q' a b := by
  cases ended with
  | ok related => exact .ok (weaker _ _ related)
  | error fails => exact .error fails

/-- What couples two evaluations. Stages let what is known of values grow as they go on. -/
structure Coupling (κ σ τ : Type) [Preorder κ] where
  /-- The worlds that stand side by side at a stage. -/
  Rel : κ → World σ → World τ → Prop
  /-- The errors that both may fail with. -/
  Fails : Error → Prop
  /-- The values that are held for each other at a stage. -/
  Held : κ → Value → Value → Prop
  /-- The values that have not passed the guard yet. -/
  Found : κ → Value → Value → Prop
  /-- The members that are reached for each other at a stage. -/
  Slot : κ → Value → Value → String → Prop

namespace Coupling

open Run

variable {κ σ τ α β γ δ : Type} [Preorder κ] {coupling : Coupling κ σ τ}

/-- From these worlds, the runs end alike in worlds coupled at the same or a later stage. -/
def MatchesAt (coupling : Coupling κ σ τ) (k : κ) (m : Run σ α) (n : Run τ β)
    (Q : κ → α → β → Prop) (w : World σ) (w' : World τ) : Prop :=
  ∃ l, k ≤ l ∧ coupling.Rel l (m.outcome w).2 (n.outcome w').2 ∧
    SameEnd coupling.Fails (Q l) (m.outcome w).1 (n.outcome w').1

/-- The runs match from all worlds that are coupled at the stage. -/
def Matches (coupling : Coupling κ σ τ) (k : κ) (m : Run σ α) (n : Run τ β)
    (Q : κ → α → β → Prop) : Prop :=
  ∀ w w', coupling.Rel k w w' → coupling.MatchesAt k m n Q w w'

theorem MatchesAt.bind {k : κ} {m : Run σ α} {n : Run τ β} {P : κ → α → β → Prop}
    {Q : κ → γ → δ → Prop} {f : α → Run σ γ} {g : β → Run τ δ} {w : World σ} {w' : World τ}
    (first : coupling.MatchesAt k m n P w w')
    (second : ∀ l, k ≤ l → ∀ a b v v', P l a b → coupling.Rel l v v' →
      (∃ u, m.outcome u = (.ok a, v)) → coupling.MatchesAt l (f a) (g b) Q v v') :
    coupling.MatchesAt k (m >>= f) (n >>= g) Q w w' := by
  obtain ⟨l, le, coupled, ended⟩ := first
  unfold MatchesAt
  rw [outcome_bind, outcome_bind]
  rcases ran : outcome m w with ⟨result, v⟩
  rcases ran' : outcome n w' with ⟨result', v'⟩
  rw [ran, ran'] at coupled ended
  cases ended with
  | error fails => exact ⟨l, le, coupled, .error fails⟩
  | ok holds =>
      obtain ⟨l', le', coupled, ended⟩ := second l le _ _ v v' holds coupled ⟨w, ran⟩
      exact ⟨l', le_trans le le', coupled, ended⟩

namespace Matches

variable {k : κ} {m : Run σ α} {n : Run τ β} {P : κ → α → β → Prop} {Q : κ → γ → δ → Prop}

theorem pure {a : α} {b : β} (holds : P k a b) :
    coupling.Matches k (Pure.pure a) (Pure.pure b) P :=
  fun _ _ related => ⟨k, le_refl k, related, .ok holds⟩

theorem fail {e : Error} (fails : coupling.Fails e) :
    coupling.Matches k (throw e : Run σ α) (throw e : Run τ β) P :=
  fun _ _ related => ⟨k, le_refl k, related, .error fails⟩

/-- Runs that match go on to match, from the worlds that the first parts end in. -/
theorem bind_at {f : α → Run σ γ} {g : β → Run τ δ} (first : coupling.Matches k m n P)
    (second : ∀ l, k ≤ l → ∀ a b w w', P l a b → coupling.Rel l w w' →
      (∃ u, m.outcome u = (.ok a, w)) → coupling.MatchesAt l (f a) (g b) Q w w') :
    coupling.Matches k (m >>= f) (n >>= g) Q :=
  fun w w' related => (first w w' related).bind second

theorem bind {f : α → Run σ γ} {g : β → Run τ δ} (first : coupling.Matches k m n P)
    (second : ∀ l, k ≤ l → ∀ a b, P l a b → coupling.Matches l (f a) (g b) Q) :
    coupling.Matches k (m >>= f) (n >>= g) Q :=
  first.bind_at fun l le a b w w' holds related _ => second l le a b holds w w' related

/-- Runs that look at their heaps match if they do so for all heaps that may stand there. -/
theorem withHeap {f : Heap → Run σ γ} {g : Heap → Run τ δ}
    (each : ∀ w w', coupling.Rel k w w' → coupling.Matches k (f w.heap) (g w'.heap) Q) :
    coupling.Matches k (Run.heap >>= f) (Run.heap >>= g) Q :=
  fun w w' related => each w w' related w w' related

/-- Changes of the heaps match if they give what matches and leave the worlds coupled. -/
theorem change {f : Heap → γ × Heap} {g : Heap → δ × Heap}
    (keeps : ∀ w w', coupling.Rel k w w' → ∃ l, k ≤ l ∧
      coupling.Rel l { w with heap := (f w.heap).2 } { w' with heap := (g w'.heap).2 } ∧
      Q l (f w.heap).1 (g w'.heap).1) : coupling.Matches k (onHeap f) (onHeap g) Q := by
  intro w w' related
  obtain ⟨l, le, coupled, holds⟩ := keeps w w' related
  exact ⟨l, le, coupled, .ok holds⟩

theorem guarded {check : Except SecurityError α} {check' : Except SecurityError β}
    (same : SameEnd coupling.Fails (P k) (check.mapError .security)
      (check'.mapError .security)) :
    coupling.Matches k (Run.guarded check) (Run.guarded check') P := by
  cases check with
  | ok a =>
      cases check' with
      | ok b =>
          cases same with
          | ok holds => exact pure holds
      | error e => cases same
  | error e =>
      cases check' with
      | ok b => cases same
      | error e' =>
          cases same with
          | error fails => exact fail fails

theorem ite {p q : Prop} [Decidable p] [Decidable q] {m₁ m₂ : Run σ α} {n₁ n₂ : Run τ β}
    (same : p ↔ q) (yes : p → coupling.Matches k m₁ n₁ P)
    (no : ¬ p → coupling.Matches k m₂ n₂ P) :
    coupling.Matches k (if p then m₁ else m₂) (if q then n₁ else n₂) P := by
  by_cases holds : p
  · rw [if_pos holds, if_pos (same.mp holds)]
    exact yes holds
  · rw [if_neg holds, if_neg fun other => holds (same.mpr other)]
    exact no holds

end Matches

/-- Scalars are held for themselves, what is held stays so, and containers that are made of what is
held are held for each other. -/
structure Allocates (coupling : Coupling κ σ τ) : Prop where
  mono : ∀ {k l v v'}, k ≤ l → coupling.Held k v v' → coupling.Held l v v'
  scalar : ∀ {k v}, v.isScalar = true → coupling.Held k v v
  array : ∀ {k items items'}, List.Forall₂ (coupling.Held k) items items' →
    coupling.Matches k (onHeap fun h => h.makeArray items) (onHeap fun h => h.makeArray items')
      coupling.Held
  object : ∀ {k properties properties'},
    List.Forall₂ (SameEntry (coupling.Held k)) properties properties' →
    coupling.Matches k (onHeap fun h => h.makeObject properties)
      (onHeap fun h => h.makeObject properties') coupling.Held

namespace Allocates

mutual

/-- The values that are made of one document are held for each other. -/
theorem document (allocates : coupling.Allocates) (k : κ) :
    ∀ value : Json, coupling.Matches k (onHeap fun h => h.ofJson value)
      (onHeap fun h => h.ofJson value) coupling.Held
  | .null | .bool _ | .int _ | .float _ | .string _ => .pure (allocates.scalar rfl)
  | .array items => by
      -- By unfolding, making the items and then the array is making the value.
      have made := (allocates.documentItems k items).bind fun l _ vs vs' held =>
        allocates.array held
      exact made
  | .object members => by
      have made := (allocates.documentMembers k members).bind fun l _ ps ps' held =>
        allocates.object held
      exact made

theorem documentItems (allocates : coupling.Allocates) (k : κ) :
    ∀ items : List Json, coupling.Matches k (onHeap fun h => h.ofJsonItems items)
      (onHeap fun h => h.ofJsonItems items) fun l => List.Forall₂ (coupling.Held l)
  | [] => .pure .nil
  | item :: items => by
      have made := (allocates.document k item).bind fun l _ v v' held =>
        (allocates.documentItems l items).bind fun l' le vs vs' rest =>
          .pure (a := v :: vs) (b := v' :: vs')
            (P := fun l => List.Forall₂ (coupling.Held l)) (.cons (allocates.mono le held) rest)
      exact made

theorem documentMembers (allocates : coupling.Allocates) (k : κ) :
    ∀ members : List (String × Json), coupling.Matches k (onHeap fun h => h.ofJsonMembers members)
      (onHeap fun h => h.ofJsonMembers members) fun l => List.Forall₂ (SameEntry (coupling.Held l))
  | [] => .pure .nil
  | (key, member) :: members => by
      have made := (allocates.document k member).bind fun l _ v v' held =>
        (allocates.documentMembers l members).bind fun l' le ps ps' rest =>
          .pure (a := (key, v) :: ps) (b := (key, v') :: ps')
            (P := fun l => List.Forall₂ (SameEntry (coupling.Held l)))
            (.cons ⟨rfl, allocates.mono le held⟩ rest)
      exact made

end

end Allocates

end Coupling

end GuardedExpr
