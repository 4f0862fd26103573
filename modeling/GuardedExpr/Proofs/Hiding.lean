import GuardedExpr.Guard
import GuardedExpr.Proofs.Contents

/-!
# Hidden properties

Two heaps that differ only in properties that are hidden from a reader. Every
change that is no store of a hidden property does the same to both heaps, gives
the same, and leaves in each heap what was hidden there.
-/

namespace GuardedExpr.Heap

/-- The heaps are the same but for the hidden properties of objects. -/
structure AlikeBut (Hidden : ObjectRef → String → Prop) (h h' : Heap) : Prop where
  next : h.next = h'.next
  items : ∀ a, h.items a = h'.items a
  properties : ∀ o key, ¬ Hidden o key → (h.properties o)[key]? = (h'.properties o)[key]?

/-- Objects that were there before still hold the same in hidden properties. -/
structure KeepsHidden (Hidden : ObjectRef → String → Prop) (before h : Heap) : Prop where
  grows : before.next ≤ h.next
  kept : ∀ (o : ObjectRef) key, o.id < before.next → Hidden o key →
    (h.properties o)[key]? = (before.properties o)[key]?

variable {Hidden : ObjectRef → String → Prop} {h h' m m' l : Heap}

theorem holdsItself_congr {o : ObjectRef} {key : String}
    (same : (h.properties o)[key]? = (h'.properties o)[key]?) :
    h.holdsItself o key = h'.holdsItself o key := by
  unfold holdsItself
  rw [same]

namespace AlikeBut

variable (alike : h.AlikeBut Hidden h')

include alike

theorem property {o : ObjectRef} {key : String} (shown : ¬ Hidden o key) :
    h.property o key = h'.property o key := by
  unfold Heap.property
  rw [alike.properties o key shown]

theorem owns {v : Value} {key : String} (shown : ∀ o, v = .object o → ¬ Hidden o key) :
    h.owns v key = h'.owns v key := by
  cases v with
  | object o =>
      have same := congrArg Option.isSome (alike.properties o key (shown o rfl))
      simpa only [Heap.owns, ← Std.TreeMap.isSome_getElem?_eq_contains] using same
  | array a =>
      unfold Heap.owns
      simp only [alike.items a]
  | _ => rfl

/-- The guard looks at seven names of an object. -/
theorem looksForbidden? {o : ObjectRef}
    (itself : h.holdsItself o "constructor" = h'.holdsItself o "constructor")
    (shown : ∀ key, key ∉ forbiddenNames → ¬ Hidden o key) :
    h.looksForbidden? o = h'.looksForbidden? o := by
  have window : h.holdsItself o "window" = h'.holdsItself o "window" :=
    holdsItself_congr (alike.properties o "window" (shown _ (by decide)))
  unfold Heap.looksForbidden?
  rw [window, itself]
  simp only [alike.property (shown "children" (by decide)),
    alike.property (shown "nodeName" (by decide)), alike.property (shown "prop" (by decide)),
    alike.property (shown "attr" (by decide)), alike.property (shown "find" (by decide))]

theorem forbidden? {v : Value}
    (itself : ∀ o, v = .object o →
      h.holdsItself o "constructor" = h'.holdsItself o "constructor")
    (shown : ∀ o key, v = .object o → key ∉ forbiddenNames → ¬ Hidden o key) :
    h.forbidden? v = h'.forbidden? v := by
  cases v with
  | object o =>
      unfold Heap.forbidden?
      simp only [alike.looksForbidden? (itself o rfl) fun key => shown o key rfl]
  | _ => rfl

theorem readMember {owner : Value} {key : String}
    (shown : ∀ o, owner = .object o → ¬ Hidden o key) :
    (h.readMember owner key).1 = (h'.readMember owner key).1 ∧
      (h.readMember owner key).2.AlikeBut Hidden (h'.readMember owner key).2 := by
  cases owner with
  | object o => exact ⟨alike.property (shown o rfl), alike⟩
  | array a =>
      refine ⟨?_, alike⟩
      simp only [Heap.readMember, alike.items a]
  | function f =>
      unfold Heap.readMember
      cases Reflection.ofName? key with
      | none => exact ⟨rfl, alike⟩
      | some primitive =>
          refine ⟨?_, congrArg (· + 1) alike.next, alike.items, alike.properties⟩
          exact congrArg (fun id => Value.function (.reflection id primitive)) alike.next
  | _ => exact ⟨rfl, alike⟩

theorem setProperty (o : ObjectRef) (key : String) (v : Value) :
    (h.setProperty o key v).AlikeBut Hidden (h'.setProperty o key v) where
  next := alike.next
  items := alike.items
  properties p key' shown := by
    rw [getElem?_properties_setProperty, getElem?_properties_setProperty,
      alike.properties p key' shown]

theorem setItems (a : ArrayRef) (items : Array Value) :
    (h.setItems a items).AlikeBut Hidden (h'.setItems a items) where
  next := alike.next
  items b := by
    by_cases same : a = b
    · subst same
      rw [items_setItems_self, items_setItems_self]
    · rw [items_setItems_of_ne h items same, items_setItems_of_ne h' items same, alike.items b]
  properties := alike.properties

theorem makeArray (items : List Value) :
    (h.makeArray items).1 = (h'.makeArray items).1 ∧
      (h.makeArray items).2.AlikeBut Hidden (h'.makeArray items).2 := by
  refine ⟨congrArg (fun id => Value.array ⟨id⟩) alike.next, congrArg (· + 1) alike.next, ?_,
    alike.properties⟩
  intro a
  simp only [Heap.makeArray, items_newArray, alike.next, alike.items a]

theorem makeObject (properties : List (String × Value)) :
    (h.makeObject properties).1 = (h'.makeObject properties).1 ∧
      (h.makeObject properties).2.AlikeBut Hidden (h'.makeObject properties).2 := by
  refine ⟨congrArg (fun id => Value.object ⟨id, .plain⟩) alike.next, congrArg (· + 1) alike.next,
    alike.items, ?_⟩
  intro o key shown
  simp only [Heap.makeObject, properties_newObject, alike.next]
  split
  · rfl
  · exact alike.properties o key shown

/-- A store fails on both sides or on neither. -/
theorem writeMember (owner : Value) (key : String) (v : Value) :
    (∃ e, h.writeMember owner key v = .error e ∧ h'.writeMember owner key v = .error e) ∨
      ∃ m m', h.writeMember owner key v = .ok m ∧ h'.writeMember owner key v = .ok m' ∧
        m.AlikeBut Hidden m' := by
  cases owner with
  | object o => exact .inr ⟨_, _, rfl, rfl, alike.setProperty o key v⟩
  | array a =>
      simp only [Heap.writeMember]
      cases indexOfText? key with
      | none => exact .inl ⟨_, rfl, rfl⟩
      | some i =>
          by_cases inRange : i + 1 < indexLimit
          · simp only [if_pos inRange, alike.items a]
            exact .inr ⟨_, _, rfl, rfl, alike.setItems a _⟩
          · simp only [if_neg inRange]
            exact .inl ⟨_, rfl, rfl⟩
  | _ => exact .inl ⟨_, rfl, rfl⟩

end AlikeBut

namespace KeepsHidden

theorem refl (h : Heap) : h.KeepsHidden Hidden h where
  grows := Nat.le_refl _
  kept _ _ _ _ := rfl

theorem trans (first : h.KeepsHidden Hidden m) (second : m.KeepsHidden Hidden l) :
    h.KeepsHidden Hidden l where
  grows := Nat.le_trans first.grows second.grows
  kept o key old hidden := by
    have still : o.id < m.next := Nat.lt_of_lt_of_le old first.grows
    exact (second.kept o key still hidden).trans (first.kept o key old hidden)

theorem readMember (h : Heap) (owner : Value) (key : String) :
    h.KeepsHidden Hidden (h.readMember owner key).2 := by
  rcases h.readMember_cases owner key with ⟨same, _⟩ | ⟨primitive, made⟩
  · rw [same]
    exact .refl h
  · rw [made]
    exact ⟨Nat.le_succ _, fun _ _ _ _ => rfl⟩

theorem makeArray (h : Heap) (items : List Value) :
    h.KeepsHidden Hidden (h.makeArray items).2 :=
  ⟨Nat.le_succ _, fun _ _ _ _ => rfl⟩

theorem makeObject (h : Heap) (properties : List (String × Value)) :
    h.KeepsHidden Hidden (h.makeObject properties).2 where
  grows := Nat.le_succ _
  kept o key old _ := by
    have older : o ≠ ⟨h.next, .plain⟩ := by
      rintro rfl
      exact Nat.lt_irrefl _ old
    simp only [Heap.makeObject, properties_newObject, if_neg older]

/-- A store keeps what is hidden unless it is a store of that. -/
theorem writeMember {owner v : Value} {key : String}
    (shown : ∀ o, owner = .object o → ¬ Hidden o key)
    (stored : h.writeMember owner key v = .ok m) : h.KeepsHidden Hidden m where
  grows := Nat.le_of_eq (entries_writeMember stored).1.symm
  kept o name _ hidden := by
    rcases getElem?_properties_of_writeMember stored o name with same | ⟨here, rfl, _⟩
    · exact same
    · exact absurd hidden (shown o here)

end KeepsHidden

/-- The heaps came from two heaps, each with what was hidden in it, and are the same but for
that. -/
structure Concealed (Hidden : ObjectRef → String → Prop) (before before' h h' : Heap) :
    Prop where
  alike : h.AlikeBut Hidden h'
  kept : before.KeepsHidden Hidden h
  kept' : before'.KeepsHidden Hidden h'

namespace Concealed

variable {before before' : Heap} (concealed : Concealed Hidden before before' h h')

include concealed

theorem step (alike : m.AlikeBut Hidden m') (kept : h.KeepsHidden Hidden m)
    (kept' : h'.KeepsHidden Hidden m') : Concealed Hidden before before' m m' :=
  ⟨alike, concealed.kept.trans kept, concealed.kept'.trans kept'⟩

theorem readMember {owner : Value} {key : String}
    (shown : ∀ o, owner = .object o → ¬ Hidden o key) :
    (h.readMember owner key).1 = (h'.readMember owner key).1 ∧
      Concealed Hidden before before' (h.readMember owner key).2 (h'.readMember owner key).2 := by
  obtain ⟨same, alike⟩ := concealed.alike.readMember shown
  exact ⟨same, concealed.step alike (.readMember h owner key) (.readMember h' owner key)⟩

theorem makeArray (items : List Value) :
    (h.makeArray items).1 = (h'.makeArray items).1 ∧
      Concealed Hidden before before' (h.makeArray items).2 (h'.makeArray items).2 := by
  obtain ⟨same, alike⟩ := concealed.alike.makeArray items
  exact ⟨same, concealed.step alike (.makeArray h items) (.makeArray h' items)⟩

theorem makeObject (properties : List (String × Value)) :
    (h.makeObject properties).1 = (h'.makeObject properties).1 ∧
      Concealed Hidden before before' (h.makeObject properties).2
        (h'.makeObject properties).2 := by
  obtain ⟨same, alike⟩ := concealed.alike.makeObject properties
  exact ⟨same, concealed.step alike (.makeObject h properties) (.makeObject h' properties)⟩

theorem writeMember {owner : Value} {key : String}
    (shown : ∀ o, owner = .object o → ¬ Hidden o key) (v : Value) :
    (∃ e, h.writeMember owner key v = .error e ∧ h'.writeMember owner key v = .error e) ∨
      ∃ m m', h.writeMember owner key v = .ok m ∧ h'.writeMember owner key v = .ok m' ∧
        Concealed Hidden before before' m m' := by
  rcases concealed.alike.writeMember owner key v with failed | ⟨m, m', stored, stored', alike⟩
  · exact .inl failed
  · refine .inr ⟨m, m', stored, stored', ?_⟩
    exact concealed.step alike (.writeMember shown stored) (.writeMember shown stored')

end Concealed

end GuardedExpr.Heap
