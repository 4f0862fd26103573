import GuardedExpr.Proofs.Confinement
import GuardedExpr.Proofs.Unrolling

/-!
# Copies

Two heaps in which containers that were made stand for each other, one to one,
with contents that stand for each other. Nothing that an expression learns of a
value tells a container from the one that stands for it: its text and its
number, what a guard says about it and what its members are.
-/

namespace GuardedExpr

/-- The scalars are the same, or the arrays or objects are a pair. -/
inductive Value.StandsFor (pairs : Set (Container × Container)) : Value → Value → Prop where
  | scalar {v : Value} (scalar : v.isScalar = true) : StandsFor pairs v v
  | array {a a' : ArrayRef} (pair : (Container.array a, Container.array a') ∈ pairs) :
      StandsFor pairs (.array a) (.array a')
  | object {o o' : ObjectRef} (pair : (Container.object o, Container.object o') ∈ pairs) :
      StandsFor pairs (.object o) (.object o')

theorem Value.StandsFor.mono {pairs pairs' : Set (Container × Container)} {v v' : Value}
    (subset : pairs ⊆ pairs') (stands : v.StandsFor pairs v') : v.StandsFor pairs' v' := by
  cases stands with
  | scalar scalar => exact .scalar scalar
  | array pair => exact .array (subset pair)
  | object pair => exact .object (subset pair)

theorem optionRel_mono {α β : Type} {R S : α → β → Prop} (weaker : ∀ a b, R a b → S a b)
    {a : Option α} {b : Option β} (related : Option.Rel R a b) : Option.Rel S a b := by
  cases related with
  | none => exact .none
  | some related => exact .some (weaker _ _ related)

theorem Value.MadeBetween.since {before middle after : Heap} {v : Value}
    (made : v.MadeBetween middle after) (le : before.next ≤ middle.next) :
    v.MadeBetween before after := by
  unfold MadeBetween at made ⊢
  split at made
  · exact ⟨Nat.le_trans le made.1, made.2⟩
  · exact ⟨made.1, Nat.le_trans le made.2.1, made.2.2⟩
  · exact ⟨Nat.le_trans le made.1, made.2⟩
  · exact made

theorem optionRel_getD {α β : Type} {R : α → β → Prop} {a : Option α} {b : Option β} {c : α} {d : β}
    (related : Option.Rel R a b) (otherwise : R c d) : R (a.getD c) (b.getD d) := by
  cases related with
  | none => exact otherwise
  | some related => exact related

/-- Maps that agree on related members of a list make one list. -/
theorem map_eq_map_of_forall₂ {α β γ : Type} {R : α → β → Prop} {l : List α} {m : List β}
    {f : α → γ} {g : β → γ} (related : List.Forall₂ R l m)
    (same : ∀ a ∈ l, ∀ b, R a b → f a = g b) : l.map f = m.map g := by
  induction related with
  | nil => rfl
  | cons first _ ih =>
      rw [List.map_cons, List.map_cons, same _ List.mem_cons_self _ first,
        ih fun a inside => same a (List.mem_cons_of_mem _ inside)]

/-- Lists that are related place by place, where they have places. -/
theorem forall₂_of_getElem? {α β : Type} {R : α → β → Prop} {l : List α} {m : List β}
    (related : ∀ i : Nat, Option.Rel R l[i]? m[i]?) : List.Forall₂ R l m := by
  induction l generalizing m with
  | nil =>
      cases m with
      | nil => exact .nil
      | cons b m => cases related 0
  | cons a l ih =>
      cases m with
      | nil => cases related 0
      | cons b m =>
          cases related 0 with
          | some first => exact .cons first (ih fun i => related (i + 1))

theorem getElem?_of_forall₂ {α β : Type} {R : α → β → Prop} {l : List α} {m : List β}
    (related : List.Forall₂ R l m) (i : Nat) : Option.Rel R l[i]? m[i]? := by
  induction related generalizing i with
  | nil => exact .none
  | cons first _ ih =>
      cases i with
      | zero => exact .some first
      | succ i => exact ih i

/-- Related properties added to related ones are related. -/
theorem getElem?_insertMany_of_forall₂ {R : Value → Value → Prop} {ps ps' : List (String × Value)}
    (related : List.Forall₂ (SameEntry R) ps ps') {properties properties' : Properties}
    (before : ∀ key : String, Option.Rel R properties[key]? properties'[key]?) (key : String) :
    Option.Rel R (properties.insertMany ps)[key]? (properties'.insertMany ps')[key]? := by
  induction related generalizing properties properties' with
  | nil => exact before key
  | cons first _ ih =>
      rw [Std.TreeMap.insertMany_cons, Std.TreeMap.insertMany_cons]
      refine ih fun key => ?_
      rw [Std.TreeMap.getElem?_insert, Std.TreeMap.getElem?_insert, ← first.1]
      split
      · exact .some first.2
      · exact before key

namespace Heap

/-- The containers of every pair were made since two heaps, belong to no other pair and hold what
stands for each other. -/
structure Copies (before before' : Heap) (pairs : Set (Container × Container)) (h h' : Heap) :
    Prop where
  grows : before.next ≤ h.next
  grows' : before'.next ≤ h'.next
  made : ∀ c c', (c, c') ∈ pairs → c.value.MadeBetween before h
  made' : ∀ c c', (c, c') ∈ pairs → c'.value.MadeBetween before' h'
  unique : ∀ c c' d', (c, c') ∈ pairs → (c, d') ∈ pairs → c' = d'
  unique' : ∀ c d c', (c, c') ∈ pairs → (d, c') ∈ pairs → c = d
  contents : ∀ c c', (c, c') ∈ pairs → ∀ slot,
    Option.Rel (Value.StandsFor pairs) (h.child? c slot) (h'.child? c' slot)

/-- What was made between two heaps has an identity that was given out between them. -/
theorem id_of_madeBetween {before after : Heap} {c : Container}
    (made : c.value.MadeBetween before after) : before.next ≤ c.id ∧ c.id < after.next := by
  cases c with
  | array a => exact made
  | object o => exact ⟨made.2.1, made.2.2⟩

namespace Copies

variable {before before' h h' m m' : Heap} {pairs : Set (Container × Container)}

/-- At the start, nothing has been made. -/
theorem start (h h' : Heap) : Copies h h' ∅ h h' where
  grows := Nat.le_refl _
  grows' := Nat.le_refl _
  made _ _ member := member.elim
  made' _ _ member := member.elim
  unique _ _ _ member := member.elim
  unique' _ _ _ member := member.elim
  contents _ _ member := member.elim

/-- Two new containers become a pair if they are made of what stands for each other. -/
theorem make (copies : Copies before before' pairs h h') {c c' : Container}
    (changed : ChangedWithin ∅ h m) (changed' : ChangedWithin ∅ h' m')
    (new : c.value.MadeBetween h m) (new' : c'.value.MadeBetween h' m')
    (contents : ∀ slot, Option.Rel (Value.StandsFor pairs) (m.child? c slot) (m'.child? c' slot)) :
    Copies before before' (insert (c, c') pairs) m m' := by
  have subset : pairs ⊆ insert (c, c') pairs := Set.subset_insert _ _
  have old {d d' : Container} (member : (d, d') ∈ pairs) : d ≠ c ∧ d' ≠ c' := by
    have made := (id_of_madeBetween (copies.made d d' member)).2
    have made' := (id_of_madeBetween (copies.made' d d' member)).2
    constructor
    · rintro rfl
      exact Nat.not_lt.mpr (id_of_madeBetween new).1 made
    · rintro rfl
      exact Nat.not_lt.mpr (id_of_madeBetween new').1 made'
  have kept {h m : Heap} (changed : ChangedWithin ∅ h m) {d : Container} (there : d.id < h.next)
      (slot : Slot) : m.child? d slot = h.child? d slot :=
    changed.kept d ⟨there, Set.notMem_empty _⟩ slot
  exact {
    grows := Nat.le_trans copies.grows changed.grows
    grows' := Nat.le_trans copies.grows' changed'.grows
    made := by
      rintro d d' (same | member)
      · obtain ⟨rfl, rfl⟩ := Prod.mk.inj same
        exact new.since copies.grows
      · exact (copies.made d d' member).mono changed.grows
    made' := by
      rintro d d' (same | member)
      · obtain ⟨rfl, rfl⟩ := Prod.mk.inj same
        exact new'.since copies.grows'
      · exact (copies.made' d d' member).mono changed'.grows
    unique := by
      rintro d d' e' (same | member) (same' | member')
      · exact (Prod.mk.inj same).2.trans (Prod.mk.inj same').2.symm
      · exact absurd (Prod.mk.inj same).1 (old member').1
      · exact absurd (Prod.mk.inj same').1 (old member).1
      · exact copies.unique d d' e' member member'
    unique' := by
      rintro d e d' (same | member) (same' | member')
      · exact (Prod.mk.inj same).1.trans (Prod.mk.inj same').1.symm
      · exact absurd (Prod.mk.inj same).2 (old member').2
      · exact absurd (Prod.mk.inj same').2 (old member).2
      · exact copies.unique' d e d' member member'
    contents := by
      rintro d d' (same | member) slot
      · obtain ⟨rfl, rfl⟩ := Prod.mk.inj same
        exact optionRel_mono (fun _ _ => .mono subset) (contents slot)
      · rw [kept changed (id_of_madeBetween (copies.made d d' member)).2,
          kept changed' (id_of_madeBetween (copies.made' d d' member)).2]
        exact optionRel_mono (fun _ _ => .mono subset) (copies.contents d d' member slot) }

section Contents

variable (copies : Copies before before' pairs h h')

include copies

/-- The items of arrays that stand for each other stand for each other. -/
theorem items {a a' : ArrayRef} (member : (Container.array a, Container.array a') ∈ pairs) :
    List.Forall₂ (Value.StandsFor pairs) (h.items a).toList (h'.items a').toList := by
  apply forall₂_of_getElem?
  intro i
  have held := copies.contents _ _ member (.item i)
  simpa only [Array.getElem?_toList, child?] using held

theorem property {o o' : ObjectRef} (member : (Container.object o, Container.object o') ∈ pairs)
    (key : String) : (h.property o key).StandsFor pairs (h'.property o' key) := by
  exact optionRel_getD (copies.contents _ _ member (.member key)) (.scalar rfl)

omit copies in
/-- Items that stand for each other have one text if the arrays among them do. -/
theorem itemText_eq {way way' : List Container} {v v' : Value} (stands : v.StandsFor pairs v')
    (arrays : ∀ a a', v = .array a → (Container.array a, Container.array a') ∈ pairs →
      h.joinText way a = h'.joinText way' a') : h.itemText way v = h'.itemText way' v' := by
  cases stands with
  | scalar scalar =>
      cases v with
      | array a => cases scalar
      | _ => rfl
  | array pair => exact arrays _ _ rfl pair
  | object pair => rfl

/-- Arrays that stand for each other have one text, by induction on the way to them. -/
theorem joinText_eq (way : List Container) (a : ArrayRef) (way' : List Container) (a' : ArrayRef)
    (member : (Container.array a, Container.array a') ∈ pairs)
    (ways : ∀ c c', (c, c') ∈ pairs → (c ∈ way ↔ c' ∈ way')) :
    h.joinText way a = h'.joinText way' a' := by
  induction way, a using Heap.joinText.induct h generalizing way' a' with
  | case1 way a met => rw [joinText, joinText, if_pos met, if_pos ((ways _ _ member).mp met)]
  | case2 way a new ih =>
      have new' : .array a' ∉ way' := fun met => new ((ways _ _ member).mpr met)
      have longer : ∀ c c', (c, c') ∈ pairs →
          (c ∈ Container.array a :: way ↔ c' ∈ Container.array a' :: way') := by
        intro c c' pair
        have same : c = .array a ↔ c' = .array a' := by
          constructor
          · rintro rfl
            exact copies.unique _ _ _ pair member
          · rintro rfl
            exact copies.unique' _ _ _ pair member
        rw [List.mem_cons, List.mem_cons, same, ways c c' pair]
      rw [joinText_of_not_mem new, joinText_of_not_mem new']
      apply congrArg
      refine map_eq_map_of_forall₂ (copies.items member) fun v inside v' stands => ?_
      refine itemText_eq stands fun b b' same pair => ?_
      exact ih b (same ▸ inside) _ b' pair longer

theorem text_eq {v v' : Value} (stands : v.StandsFor pairs v') : h.text v = h'.text v' := by
  cases stands with
  | scalar scalar =>
      cases v with
      | array a => cases scalar
      | _ => rfl
  | array pair => exact copies.joinText_eq [] _ [] _ pair fun _ _ _ => by simp
  | object pair => rfl

theorem number_eq {v v' : Value} (stands : v.StandsFor pairs v') : h.number v = h'.number v' := by
  cases stands with
  | scalar scalar =>
      cases v with
      | array a => cases scalar
      | _ => rfl
  | array pair =>
      have items := copies.items pair
      unfold Heap.number
      dsimp only
      generalize (h.items _).toList = l at items
      generalize (h'.items _).toList = l' at items
      cases items with
      | nil => rfl
      | cons first rest =>
          cases rest with
          | nil => exact congrArg Number.ofText (copies.text_eq first)
          | cons _ _ => rfl
  | object pair => rfl

/-- An object holds itself exactly if the one that stands for it does. -/
theorem holdsItself_eq {o o' : ObjectRef}
    (pair : (Container.object o, Container.object o') ∈ pairs) (key : String) :
    h.holdsItself o key = h'.holdsItself o' key := by
  have held := copies.contents _ _ pair (.member key)
  unfold holdsItself
  simp only [child?] at held
  generalize (h.properties o)[key]? = found at held
  generalize (h'.properties o')[key]? = found' at held
  cases held with
  | none => rfl
  | some stands =>
      cases stands with
      | scalar scalar =>
          rename_i v
          cases v with
          | object p => cases scalar
          | _ => rfl
      | array pair => rfl
      | @object p p' inner =>
          have same : p = o ↔ p' = o' := by
            constructor
            · rintro rfl
              exact Container.object.inj (copies.unique _ _ _ inner pair)
            · rintro rfl
              exact Container.object.inj (copies.unique' _ _ _ inner pair)
          exact decide_eq_decide.mpr same

omit copies in
theorem isTruthy_eq {v v' : Value} (stands : v.StandsFor pairs v') : v.isTruthy = v'.isTruthy := by
  cases stands <;> rfl

/-- The guard says one thing of both. -/
theorem forbidden?_eq {v v' : Value} (stands : v.StandsFor pairs v') :
    h.forbidden? v = h'.forbidden? v' := by
  cases stands with
  | scalar scalar =>
      cases v with
      | object o => cases scalar
      | _ => rfl
  | array pair => rfl
  | @object o o' pair =>
      have truthy (key : String) := isTruthy_eq (copies.property pair key)
      have kind : o.kind = .plain := (copies.made _ _ pair).1
      have kind' : o'.kind = .plain := (copies.made' _ _ pair).1
      simp only [Heap.forbidden?, kind, kind', looksForbidden?, copies.holdsItself_eq pair, truthy]

/-- Under every key, values that stand for each other have members that do, and reading them makes
nothing. -/
theorem readMember {v v' : Value} (stands : v.StandsFor pairs v') (key : String) :
    (h.readMember v key).2 = h ∧ (h'.readMember v' key).2 = h' ∧
      (h.readMember v key).1.StandsFor pairs (h'.readMember v' key).1 := by
  cases stands with
  | scalar scalar =>
      cases v with
      | string s => exact ⟨rfl, rfl, .scalar (isScalar_stringMember s key)⟩
      | array a => cases scalar
      | object o => cases scalar
      | function f => cases scalar
      | _ => exact ⟨rfl, rfl, .scalar rfl⟩
  | @array a a' pair =>
      refine ⟨rfl, rfl, ?_⟩
      change (arrayMember (h.items a) key).StandsFor pairs (arrayMember (h'.items a') key)
      unfold arrayMember
      by_cases length : key = "length"
      · have size := (copies.items pair).length_eq
        rw [Array.length_toList, Array.length_toList] at size
        rw [if_pos length, if_pos length, size]
        exact .scalar rfl
      · rw [if_neg length, if_neg length]
        cases indexOfText? key with
        | none => exact .scalar rfl
        | some i => exact optionRel_getD (copies.contents _ _ pair (.item i)) (.scalar rfl)
  | object pair => exact ⟨rfl, rfl, copies.property pair key⟩

/-- New arrays of items that stand for each other are a pair. -/
theorem makeArray {items items' : List Value}
    (held : List.Forall₂ (Value.StandsFor pairs) items items') :
    Copies before before' (insert (.array ⟨h.next⟩, .array ⟨h'.next⟩) pairs)
      (h.makeArray items).2 (h'.makeArray items').2 := by
  refine copies.make (h.changedWithin_newArray _) (h'.changedWithin_newArray _)
    ⟨Nat.le_refl _, Nat.lt_succ_self _⟩ ⟨Nat.le_refl _, Nat.lt_succ_self _⟩ fun slot => ?_
  cases slot with
  | item i =>
      have own (h : Heap) (items : List Value) :
          (h.makeArray items).2.child? (.array ⟨h.next⟩) (.item i) = items[i]? := by
        simp [Heap.makeArray, child?, items_newArray]
      rw [own, own]
      exact getElem?_of_forall₂ held i
  | member key => exact .none

/-- New objects with properties that stand for each other are a pair. -/
theorem makeObject {properties properties' : List (String × Value)}
    (held : List.Forall₂ (SameEntry (Value.StandsFor pairs)) properties properties') :
    Copies before before' (insert (.object ⟨h.next, .plain⟩, .object ⟨h'.next, .plain⟩) pairs)
      (h.makeObject properties).2 (h'.makeObject properties').2 := by
  refine copies.make (h.changedWithin_newObject _) (h'.changedWithin_newObject _)
    ⟨rfl, Nat.le_refl _, Nat.lt_succ_self _⟩ ⟨rfl, Nat.le_refl _, Nat.lt_succ_self _⟩ fun slot => ?_
  cases slot with
  | item i => exact .none
  | member key =>
      have own (h : Heap) (properties : List (String × Value)) :
          (h.makeObject properties).2.child? (.object ⟨h.next, .plain⟩) (.member key) =
            (Std.TreeMap.ofList properties : Properties)[key]? := by
        simp [Heap.makeObject, child?, properties_newObject]
      rw [own, own]
      simp only [Std.TreeMap.ofList_eq_insertMany_empty]
      refine getElem?_insertMany_of_forall₂ held (fun key => ?_) key
      rw [Std.TreeMap.getElem?_emptyc]
      exact .none

end Contents

end Copies

end Heap

end GuardedExpr
