import Mathlib
import GuardedExpr.Guard
import GuardedExpr.Proofs.Floats
import GuardedExpr.Proofs.PathUpdate
import GuardedExpr.Proofs.Unfolding

/-!
# Documents laid out in a heap

A value unrolls to a document within a set of identities when its containers are
among these and no container is met twice: the children of a container lie in
parts that are disjoint and do not contain it. A store into one part leaves all
others as they are, so what a chain of stores does to the heap is what an update
does to the document.
-/

namespace GuardedExpr

theorem Value.isUndefined_eq_false_iff {v : Value} : v.isUndefined = false ↔ v ≠ .undefined := by
  cases v <;> simp [isUndefined]

def Container.id : Container → Nat
  | array a => a.id
  | object o => o.id

/-- The slot that a key names in a container. -/
def Container.slot? : Container → String → Option Slot
  | array _, key => (indexOfText? key).map .item
  | object _, key => some (.member key)

/-- Where the content of the slot stands in a list of the items. -/
def Slot.itemIndex? : Slot → Option Nat
  | item i => some i
  | member _ => none

/-- Where the content of the slot stands in a list of the members with these keys. -/
def Slot.memberIndex? (keys : List String) : Slot → Option Nat
  | item _ => none
  | member key => keys.idxOf? key

/-- The container is of the kind that the document is made as. -/
inductive Json.Fits : Json → Container → Prop where
  | array (items : List Json) (a : ArrayRef) : Fits (.array items) (.array a)
  | object {members : List (String × Json)} (sorted : members.Pairwise fun m n => m.1 < n.1)
      (id : Nat) : Fits (.object members) (.object ⟨id, .plain⟩)

/-- A key names one slot in a document and in a container of its kind. -/
theorem Json.Fits.slot?_eq {j : Json} {c : Container} (fits : j.Fits c) (key : String) :
    j.slot? key = c.slot? key := by
  cases fits <;> rfl

theorem Json.Fits.putChild {j : Json} {c : Container} (fits : j.Fits c) (slot : Slot)
    (child : Json) : (j.putChild slot child).Fits c := by
  cases fits with
  | array items a => cases slot <;> exact .array _ a
  | object sorted id =>
      cases slot with
      | item i => exact .object sorted id
      | member key => exact .object (sorted_insertMember sorted key child) id

namespace Heap

/-- What a container holds in a slot. -/
def child? (h : Heap) : Container → Slot → Option Value
  | .array a, .item i => (h.items a)[i]?
  | .object o, .member key => (h.properties o)[key]?
  | _, _ => none

def putChild (h : Heap) : Container → Slot → Value → Heap
  | .array a, .item i, v => h.setItems a (storeItem (h.items a) i v)
  | .object o, .member key, v => h.setProperty o key v
  | _, _, _ => h

section Changes

/-- The heaps hold the same in the containers with these identities. -/
def SameOn (ids : Set Nat) (h h' : Heap) : Prop :=
  ∀ c : Container, c.id ∈ ids → ∀ slot, h'.child? c slot = h.child? c slot

/-- The heap changed within these identities and at new ones. -/
structure ChangedWithin (ids : Set Nat) (h h' : Heap) : Prop where
  grows : h.next ≤ h'.next
  kept : SameOn (Set.Iio h.next \ ids) h h'

/-- The container holds a value in a slot, and otherwise what it held; a gap before the slot is
filled with `undefined`. -/
def Puts (h h' : Heap) (c : Container) (slot : Slot) (v : Value) : Prop :=
  ∀ other, h'.child? c other =
    if other = slot then some v
    else if other.isBefore slot then (h.child? c other).or (some .undefined)
    else h.child? c other

variable {h m h' : Heap} {ids ids' : Set Nat} {j : Json} {c : Container} {key : String}
  {slot : Slot} {v : Value}

/-- Containers with the same in every slot have the same entries. -/
theorem entries_eq_of_child? (same : ∀ slot, h'.child? c slot = h.child? c slot) :
    h'.entries c = h.entries c := by
  cases c with
  | array a =>
      have items : h'.items a = h.items a := Array.ext_getElem? fun i => same (.item i)
      rw [entries, entries, items]
  | object o =>
      refine eq_of_mem_iff_of_ascending (sorted_entries_object h' o) (sorted_entries_object h o) ?_
      intro key v
      have property : (h'.properties o)[key]? = (h.properties o)[key]? := same (.member key)
      rw [mem_entries_object, mem_entries_object, property]

theorem SameOn.trans (first : SameOn ids h m) (second : SameOn ids m h') : SameOn ids h h' :=
  fun c member slot => (second c member slot).trans (first c member slot)

theorem SameOn.mono (subset : ids ⊆ ids') (same : SameOn ids' h h') : SameOn ids h h' :=
  fun c member => same c (subset member)

theorem ChangedWithin.refl (ids : Set Nat) (h : Heap) : ChangedWithin ids h h :=
  ⟨Nat.le_refl _, fun _ _ _ => rfl⟩

theorem ChangedWithin.mono (subset : ids ⊆ ids') (changed : ChangedWithin ids h h') :
    ChangedWithin ids' h h' :=
  ⟨changed.grows, changed.kept.mono (Set.sdiff_subset_sdiff_right subset)⟩

/-- Changes one after the other: the second may also be at what the first made. -/
theorem ChangedWithin.trans (first : ChangedWithin ids h m) (second : ChangedWithin ids' m h')
    (made : ids' ⊆ ids ∪ Set.Ici h.next) : ChangedWithin ids h h' := by
  refine ⟨Nat.le_trans first.grows second.grows, first.kept.trans (second.kept.mono ?_)⟩
  rintro id ⟨old, other⟩
  refine ⟨Nat.lt_of_lt_of_le old first.grows, fun member => ?_⟩
  rcases made member with same | new
  · exact other same
  · exact Nat.not_lt.mpr new old

theorem changedWithin_newArray (h : Heap) (items : Array Value) :
    ChangedWithin ∅ h (h.newArray items).2 := by
  refine ⟨Nat.le_succ _, ?_⟩
  rintro (a | o) ⟨old, _⟩ slot
  · have other : a ≠ ⟨h.next⟩ := by
      rintro rfl
      exact Nat.lt_irrefl _ old
    cases slot <;> simp [child?, items_newArray, other]
  · cases slot <;> rfl

theorem changedWithin_newObject (h : Heap) (ps : List (String × Value)) :
    ChangedWithin ∅ h (h.newObject .plain ps).2 := by
  refine ⟨Nat.le_succ _, ?_⟩
  rintro (a | o) ⟨old, _⟩ slot
  · cases slot <;> rfl
  · have other : o ≠ ⟨h.next, .plain⟩ := by
      rintro rfl
      exact Nat.lt_irrefl _ old
    cases slot <;> simp [child?, properties_newObject, other]

theorem child?_putChild_of_ne (h : Heap) {c d : Container} (other : d ≠ c) (slot : Slot)
    (v : Value) (slot' : Slot) : (h.putChild c slot v).child? d slot' = h.child? d slot' := by
  cases c with
  | array a =>
      cases slot with
      | item i =>
          cases d with
          | array b =>
              have different : a ≠ b := fun same => other (congrArg Container.array same.symm)
              cases slot' <;> simp [putChild, child?, items_setItems_of_ne _ _ different]
          | object p => cases slot' <;> rfl
      | member key => rfl
  | object o =>
      cases slot with
      | item i => rfl
      | member key =>
          cases d with
          | array b => cases slot' <;> rfl
          | object p =>
              have different : p ≠ o := fun same => other (congrArg Container.object same)
              cases slot' <;>
                simp [putChild, child?, getElem?_properties_setProperty, different]

theorem next_putChild (h : Heap) (c : Container) (slot : Slot) (v : Value) :
    (h.putChild c slot v).next = h.next := by
  cases c <;> cases slot <;> rfl

theorem changedWithin_putChild (h : Heap) (c : Container) (slot : Slot) (v : Value) :
    ChangedWithin {c.id} h (h.putChild c slot v) := by
  refine ⟨Nat.le_of_eq (next_putChild h c slot v).symm, ?_⟩
  rintro d ⟨_, other⟩ slot'
  exact child?_putChild_of_ne h (fun same => other (congrArg Container.id same)) slot v slot'

theorem getElem?_storeItem (items : Array Value) (i k : Nat) (v : Value) :
    (storeItem items i v)[k]? =
      if k = i then some v
      else if k < i then items[k]?.or (some .undefined) else items[k]? := by
  have stored : (storeItem items i v).toList =
      (items.toList ++
        List.replicate (i + 1 - items.toList.length) Value.undefined).set i v := by
    simp [storeItem]
  rw [← Array.getElem?_toList, stored, Json.getElem?_set_filled]
  simp only [Array.getElem?_toList]

theorem puts_putChild_of_slot? (named : c.slot? key = some slot) (v : Value) :
    Puts h (h.putChild c slot v) c slot v := by
  intro other
  cases c with
  | array a =>
      obtain ⟨i, _, rfl⟩ := Option.map_eq_some_iff.mp named
      cases other with
      | item k => simpa [Slot.isBefore, putChild, child?] using getElem?_storeItem (h.items a) i k v
      | member key => simp [child?, Slot.isBefore]
  | object o =>
      obtain rfl : Slot.member key = slot := Option.some.inj named
      cases other with
      | item k => simp [child?, Slot.isBefore]
      | member key' =>
          simp [Slot.isBefore, putChild, child?, getElem?_properties_setProperty]

theorem puts_putChild (fits : j.Fits c) (named : j.slot? key = some slot) (v : Value) :
    Puts h (h.putChild c slot v) c slot v :=
  puts_putChild_of_slot? (fits.slot?_eq key ▸ named) v

/-- What a slot holds already is put there by leaving it. -/
theorem puts_of_child? (there : h.child? c slot = some v) : Puts h h c slot v := by
  intro other
  by_cases same : other = slot
  · rw [if_pos same, same, there]
  · rw [if_neg same]
    by_cases before : other.isBefore slot = true
    · rw [if_pos before]
      cases c with
      | array a =>
          cases slot with
          | item i =>
              cases other with
              | item k =>
                  obtain ⟨within, _⟩ := Array.getElem?_eq_some_iff.mp there
                  have less : k < i := of_decide_eq_true before
                  simp [child?, Nat.lt_trans less within]
              | member key => cases before
          | member key => cases there
      | object o =>
          cases slot with
          | item i => cases there
          | member key => cases other <;> cases before
    · rw [if_neg before]

end Changes

section Layout

/-- The container is laid out like the document, with its children in disjoint parts beside it. No
guard stands against it, because it lacks `children`. -/
structure LaidOut (h : Heap) (j : Json) (c : Container) (ids : Set Nat) (part : Slot → Set Nat) :
    Prop where
  fits : j.Fits c
  slots : ∀ slot, (j.child? slot).isSome = (h.child? c slot).isSome
  given : ∀ key, h.child? c (.member key) ≠ some .undefined
  childless : h.child? c (.member "children") = none
  own : c.id ∈ ids
  beside : ∀ slot, part slot ⊆ ids \ {c.id}
  apart : ∀ slot slot', slot ≠ slot' → Disjoint (part slot) (part slot')

/-- The value unrolls to the document, with its containers among the identities and none of them met
twice. In an array, `undefined` stands for `null` where a store left a gap. -/
inductive Unrolls (h : Heap) : Json → Value → Set Nat → Prop where
  | null {ids : Set Nat} : h.Unrolls .null .null ids
  | gap {ids : Set Nat} : h.Unrolls .null .undefined ids
  | bool {ids : Set Nat} (b : Bool) : h.Unrolls (.bool b) (.bool b) ids
  | int {ids : Set Nat} (n : Int) (finite : (Number.ofInt n).isFinite = true) :
      h.Unrolls (.int n) (.number (Number.ofInt n)) ids
  | float {ids : Set Nat} (x : Float) (finite : x.isFinite = true) :
      h.Unrolls (.float x) (.number x) ids
  | string {ids : Set Nat} (s : String) : h.Unrolls (.string s) (.string s) ids
  | container {j : Json} {c : Container} {v : Value} {ids : Set Nat} {part : Slot → Set Nat}
      (refers : v.container? = some c) (laid : h.LaidOut j c ids part)
      (children : ∀ slot j' v', j.child? slot = some j' → h.child? c slot = some v' →
        h.Unrolls j' v' (part slot)) : h.Unrolls j v ids

/-- A container is laid out like the document, and its children unroll in their parts. -/
structure Parted (h : Heap) (j : Json) (c : Container) (ids : Set Nat) (part : Slot → Set Nat) :
    Prop extends h.LaidOut j c ids part where
  children : ∀ slot j' v', j.child? slot = some j' → h.child? c slot = some v' →
    h.Unrolls j' v' (part slot)

variable {h h' : Heap} {j j' : Json} {v v' : Value} {c : Container} {ids ids' new : Set Nat}
  {part : Slot → Set Nat} {slot : Slot} {key : String}

/-- What is held in a slot stands for a child in it. -/
theorem LaidOut.exists_child (laid : h.LaidOut j c ids part) (held : h.child? c slot = some v) :
    ∃ j', j.child? slot = some j' := by
  rw [← Option.isSome_iff_exists, laid.slots, held, Option.isSome_some]

/-- A child in a slot has something held for it. -/
theorem LaidOut.exists_held (laid : h.LaidOut j c ids part) (child : j.child? slot = some j') :
    ∃ v, h.child? c slot = some v := by
  rw [← Option.isSome_iff_exists, ← laid.slots, child, Option.isSome_some]

theorem Parted.unrolls (parted : h.Parted j c ids part) : h.Unrolls j c.value ids :=
  .container (Value.container?_eq_some.mpr rfl) parted.toLaidOut parted.children

theorem Unrolls.mono (unrolls : h.Unrolls j v ids) (subset : ids ⊆ ids') :
    h.Unrolls j v ids' := by
  cases unrolls with
  | null => exact .null
  | gap => exact .gap
  | bool b => exact .bool b
  | int n finite => exact .int n finite
  | float x finite => exact .float x finite
  | string s => exact .string s
  | container refers laid children =>
      refine .container refers { laid with own := subset laid.own, beside := ?_ } children
      exact fun slot => (laid.beside slot).trans (Set.sdiff_subset_sdiff_left subset)

/-- **A layout depends on its own part of the heap alone.** -/
theorem Unrolls.frame (unrolls : h.Unrolls j v ids) (same : SameOn ids h h') :
    h'.Unrolls j v ids := by
  induction unrolls with
  | null => exact .null
  | gap => exact .gap
  | bool b => exact .bool b
  | int n finite => exact .int n finite
  | float x finite => exact .float x finite
  | string s => exact .string s
  | container refers laid children ih =>
      have here := same _ laid.own
      refine .container refers { laid with slots := ?_, given := ?_, childless := ?_ } ?_
      · intro slot
        rw [here]
        exact laid.slots slot
      · intro key
        rw [here]
        exact laid.given key
      · rw [here]
        exact laid.childless
      · intro slot j' v' child found
        rw [here] at found
        have inside := (laid.beside slot).trans Set.sdiff_subset
        exact ih slot j' v' child found (same.mono inside)

/-- A layout stays through changes beside it. -/
theorem Unrolls.frame_of_changed {changes : Set Nat} (unrolls : h.Unrolls j v ids)
    (below : ids ⊆ Set.Iio h.next) (beside : Disjoint ids changes)
    (changed : ChangedWithin changes h h') : h'.Unrolls j v ids := by
  apply unrolls.frame
  apply changed.kept.mono
  exact fun id inside => ⟨below inside, Set.disjoint_left.mp beside inside⟩

theorem Unrolls.isNullish_iff (unrolls : h.Unrolls j v ids) : v.isNullish = true ↔ j = .null := by
  cases unrolls with
  | null | gap => simp [Value.isNullish]
  | bool | int | float | string => simp [Value.isNullish]
  | container refers laid children =>
      obtain rfl := Value.container?_eq_some.mp refers
      cases laid.fits with
      | array items a => simp [Value.isNullish, Container.value]
      | object sorted id => simp [Value.isNullish, Container.value]

theorem Unrolls.own (unrolls : h.Unrolls j v ids) (refers : v.container? = some c) :
    c.id ∈ ids := by
  cases unrolls with
  | container refers' laid children =>
      obtain rfl := Option.some.inj (refers.symm.trans refers')
      exact laid.own
  | _ => cases refers

/-- No object in a layout holds itself. -/
theorem LaidOut.holdsItself_eq_false {o : ObjectRef} (laid : h.LaidOut j (.object o) ids part)
    (children : ∀ slot j' v', j.child? slot = some j' → h.child? (.object o) slot = some v' →
      h.Unrolls j' v' (part slot)) (key : String) : h.holdsItself o key = false := by
  unfold holdsItself
  split
  · next p found =>
      have found : h.child? (.object o) (.member key) = some (.object p) := found
      obtain ⟨j', child⟩ := laid.exists_child found
      have inside : p.id ∈ part (.member key) :=
        (children _ j' _ child found).own (c := .object p) rfl
      have different : p.id ≠ o.id := (laid.beside _ inside).2
      exact beq_false_of_ne fun same => different (congrArg ObjectRef.id same)
  · rfl

/-- What unrolls to a document passes the guard. -/
theorem Unrolls.forbidden?_eq_none (unrolls : h.Unrolls j v ids) : h.forbidden? v = none := by
  cases unrolls with
  | container refers laid children =>
      obtain rfl := Value.container?_eq_some.mp refers
      have childless := laid.childless
      cases laid.fits with
      | array items a => rfl
      | object sorted id =>
          have absent : h.property ⟨id, .plain⟩ "children" = .undefined := by
            unfold property
            rw [show (h.properties ⟨id, .plain⟩)["children"]? = none from childless]
            rfl
          simp [Container.value, forbidden?, looksForbidden?, absent, Value.isTruthy,
            laid.holdsItself_eq_false children]
  | _ => rfl

/-- What unrolls is a scalar without slots, or a container that is laid out. -/
theorem Unrolls.scalar_or_container (unrolls : h.Unrolls j v ids) :
    (v.isScalar = true ∧ ∀ key, j.slot? key = none) ∨
      ∃ c part, v = c.value ∧ h.Parted j c ids part := by
  cases unrolls with
  | container refers laid children =>
      exact .inr ⟨_, _, Value.container?_eq_some.mp refers, laid, children⟩
  | _ => exact .inl ⟨rfl, fun key => rfl⟩

/-- What a container has under a key is what it holds in the slot that the key names. -/
theorem readMember_of_slot? (named : c.slot? key = some slot) :
    h.readMember c.value key = ((h.child? c slot).getD .undefined, h) := by
  cases c with
  | array a =>
      obtain ⟨i, indexed, rfl⟩ := Option.map_eq_some_iff.mp named
      have other : key ≠ "length" := by
        rintro rfl
        cases indexed
      simp [Container.value, readMember, arrayMember, other, indexed, child?]
  | object o =>
      obtain rfl : Slot.member key = slot := Option.some.inj named
      rfl

theorem writeMember_of_slot? (named : c.slot? key = some slot) (v : Value) :
    h.writeMember c.value key v =
      if slot.inRange then .ok (h.putChild c slot v) else .error .brokenOff := by
  cases c with
  | array a =>
      obtain ⟨i, indexed, rfl⟩ := Option.map_eq_some_iff.mp named
      simp [Container.value, writeMember, indexed, Heap.putChild, Slot.inRange]
  | object o =>
      obtain rfl : Slot.member key = slot := Option.some.inj named
      rfl

theorem writeMember_of_slot?_eq_none (none : c.slot? key = none) (v : Value) :
    h.writeMember c.value key v = .error (.cannotSetProperty key) := by
  cases c with
  | array a =>
      have indexed : indexOfText? key = .none := Option.map_eq_none_iff.mp none
      simp [Container.value, writeMember, indexed]
  | object o => cases none

/-- A store that is not refused puts the value into a slot that the key names. -/
theorem exists_slot?_of_writeMember {owner : Value} (stored : h.writeMember owner key v = .ok h') :
    ∃ c slot, owner = c.value ∧ c.slot? key = some slot ∧ slot.inRange = true ∧
      h' = h.putChild c slot v := by
  obtain ⟨c, rfl⟩ : ∃ c : Container, owner = c.value := by
    cases owner with
    | array a => exact ⟨.array a, rfl⟩
    | object o => exact ⟨.object o, rfl⟩
    | _ => cases stored
  cases named : c.slot? key with
  | none =>
      rw [writeMember_of_slot?_eq_none named] at stored
      cases stored
  | some slot =>
      rw [writeMember_of_slot? named] at stored
      split at stored
      · next inRange => exact ⟨c, slot, rfl, named, inRange, (Except.ok.inj stored).symm⟩
      · cases stored

theorem readMember_of_fits (fits : j.Fits c) (named : j.slot? key = some slot) :
    h.readMember c.value key = ((h.child? c slot).getD .undefined, h) :=
  readMember_of_slot? (fits.slot?_eq key ▸ named)

theorem writeMember_of_fits (fits : j.Fits c) (named : j.slot? key = some slot)
    (inRange : slot.inRange = true) (v : Value) :
    h.writeMember c.value key v = .ok (h.putChild c slot v) :=
  (writeMember_of_slot? (fits.slot?_eq key ▸ named) v).trans (if_pos inRange)

/-- A container without a slot under the key is an array: it has at most its length there, and
takes no store. -/
theorem readMember_of_no_slot (fits : j.Fits c) (none : j.slot? key = none) :
    (h.readMember c.value key).2 = h ∧ (h.readMember c.value key).1.isScalar = true := by
  cases fits with
  | array items a =>
      have indexed : indexOfText? key = .none := Option.map_eq_none_iff.mp none
      refine ⟨rfl, ?_⟩
      simp only [Container.value, readMember, arrayMember, indexed]
      split <;> rfl
  | object sorted id => cases none

theorem writeMember_of_no_slot (fits : j.Fits c) (none : j.slot? key = none) (v : Value) :
    h.writeMember c.value key v = .error (.cannotSetProperty key) :=
  writeMember_of_slot?_eq_none (fits.slot?_eq key ▸ none) v

end Layout

section PutChild

variable {h h' : Heap} {j j' : Json} {v' : Value} {c : Container} {ids new : Set Nat}
  {part : Slot → Set Nat} {slot : Slot} {key : String} (laid : h.LaidOut j c ids part)
  (named : j.slot? key = some slot) (put : Puts h h' c slot v')

include laid

/-- The parts of the other children are in the rest of the layout. -/
theorem LaidOut.part_subset {other : Slot} (different : other ≠ slot) :
    part other ⊆ (ids \ part slot) \ {c.id} := by
  intro id inside
  obtain ⟨member, other⟩ := laid.beside _ inside
  exact ⟨⟨member, Set.disjoint_left.mp (laid.apart _ _ different) inside⟩, other⟩

include named put

/-- After a child is put, a slot holds the child, or what it held, or fills a gap. -/
theorem LaidOut.child?_cases {other : Slot} {k : Json} {w : Value}
    (there : (j.putChild slot j').child? other = some k) (found : h'.child? c other = some w) :
    (other = slot ∧ k = j' ∧ w = v') ∨ (other ≠ slot ∧ k = .null ∧ w = .undefined) ∨
      (other ≠ slot ∧ j.child? other = some k ∧ h.child? c other = some w) := by
  rw [Json.child?_putChild named] at there
  rw [put other] at found
  by_cases same : other = slot
  · rw [if_pos same] at there found
    exact .inl ⟨same, (Option.some.inj there).symm, (Option.some.inj found).symm⟩
  · rw [if_neg same] at there found
    by_cases before : other.isBefore slot = true
    · rw [if_pos before] at there found
      cases hold : j.child? other with
      | none =>
          have empty : h.child? c other = none := by
            simpa [hold] using (laid.slots other).symm
          rw [hold, Option.none_or] at there
          rw [empty, Option.none_or] at found
          exact .inr (.inl ⟨same, (Option.some.inj there).symm, (Option.some.inj found).symm⟩)
      | some k' =>
          obtain ⟨w', holds⟩ := laid.exists_held hold
          rw [hold, Option.some_or] at there
          rw [holds, Option.some_or] at found
          exact .inr (.inr ⟨same, there, holds.trans found⟩)
    · rw [if_neg before] at there found
      exact .inr (.inr ⟨same, there, found⟩)

variable (allowed : key ≠ "children") (given : v' ≠ .undefined)
  (disjoint : Disjoint new (ids \ part slot))

include allowed given disjoint

theorem LaidOut.putChild : h'.LaidOut (j.putChild slot j') c (ids ∪ new)
    (Function.update part slot new) where
  fits := laid.fits.putChild slot j'
  slots other := by
    rw [Json.child?_putChild named, put other]
    split
    · rfl
    · split
      · cases j.child? other <;> cases h.child? c other <;> rfl
      · exact laid.slots other
  given key' := by
    rw [put]
    split
    · simpa using given
    · exact laid.given key'
  childless := by
    have other : Slot.member "children" ≠ slot := by
      rintro rfl
      cases laid.fits with
      | array items a => simp [Json.slot?] at named
      | object sorted id => simp [Json.slot?, allowed] at named
    rw [put, if_neg other]
    exact laid.childless
  own := .inl laid.own
  beside other := by
    have outside : c.id ∉ new := fun inside =>
      Set.disjoint_left.mp disjoint inside ⟨laid.own, fun here => (laid.beside _ here).2 rfl⟩
    by_cases same : other = slot
    · rw [same, Function.update_self]
      exact fun id inside => ⟨.inr inside, fun here => outside (here ▸ inside)⟩
    · rw [Function.update_of_ne same]
      exact fun id inside => ⟨.inl (laid.beside _ inside).1, (laid.beside _ inside).2⟩
  apart other other' different := by
    have rest {slot'} (different : slot' ≠ slot) : Disjoint new (part slot') :=
      disjoint.mono_right ((laid.part_subset different).trans Set.sdiff_subset)
    by_cases same : other = slot
    · have different' : other' ≠ slot := fun same' => different (same.trans same'.symm)
      rw [same, Function.update_self, Function.update_of_ne different']
      exact rest different'
    · rw [Function.update_of_ne same]
      by_cases same' : other' = slot
      · rw [same', Function.update_self]
        exact (rest same).symm
      · rw [Function.update_of_ne same']
        exact laid.apart other other' different

end PutChild

/-- **Putting a child into a layout is putting it into the document.** The rest of the layout is as
it was. -/
theorem Parted.putChild {h h' : Heap} {j j' : Json} {v' : Value} {c : Container}
    {ids new : Set Nat} {part : Slot → Set Nat} {slot : Slot} {key : String}
    (parted : h.Parted j c ids part) (named : j.slot? key = some slot) (allowed : key ≠ "children")
    (put : Puts h h' c slot v') (kept : SameOn ((ids \ part slot) \ {c.id}) h h')
    (child : h'.Unrolls j' v' new) (given : v' ≠ .undefined)
    (disjoint : Disjoint new (ids \ part slot)) :
    h'.Parted (j.putChild slot j') c (ids ∪ new) (Function.update part slot new) where
  toLaidOut := parted.toLaidOut.putChild named put allowed given disjoint
  children := by
    intro other k w there found
    rcases parted.child?_cases named put there found with
      ⟨rfl, rfl, rfl⟩ | ⟨_, rfl, rfl⟩ | ⟨different, there, found⟩
    · rw [Function.update_self]
      exact child
    · exact .gap
    · rw [Function.update_of_ne different]
      exact (parted.children other k w there found).frame
        (kept.mono (parted.part_subset different))

section ToDocument

variable {h : Heap}

theorem LaidOut.size_eq {items : List Json} {a : ArrayRef} {ids : Set Nat} {part : Slot → Set Nat}
    (laid : h.LaidOut (.array items) (.array a) ids part) :
    (h.items a).size = items.length := by
  have left := laid.slots (.item items.length)
  have right := laid.slots (.item (h.items a).size)
  simp [Json.child?, child?] at left right
  omega

theorem LaidOut.mem_keys_iff {members : List (String × Json)} {o : ObjectRef} {ids : Set Nat}
    {part : Slot → Set Nat} (laid : h.LaidOut (.object members) (.object o) ids part)
    (sorted : members.Pairwise fun m n => m.1 < n.1) (key : String) :
    key ∈ (h.entries (.object o)).map Prod.fst ↔ key ∈ members.map Prod.fst := by
  have slots : (members.lookup key).isSome = ((h.properties o)[key]?).isSome :=
    laid.slots (.member key)
  rw [mem_keys_entries_object, Std.TreeMap.mem_iff_isSome_getElem?, ← slots,
    Option.isSome_iff_exists]
  simp [Json.lookup_eq_some_iff sorted]

/-- In an array, a gap turns into `null`. -/
theorem Unrolls.getD_null {j : Json} {v : Value} {ids : Set Nat} (unrolls : h.Unrolls j v ids) :
    (if v.isUndefined then none else some j.asFloats).getD .null = j.asFloats := by
  by_cases undefined : v = .undefined
  · subst undefined
    rw [unrolls.isNullish_iff.mp rfl]
    rfl
  · rw [Value.isUndefined_eq_false_iff.mpr undefined]
    rfl

/-- **A layout unfolds to a tree of its document**, which has `undefined` in gaps. -/
theorem Unrolls.unfolds {j : Json} {v : Value} {ids : Set Nat} (unrolls : h.Unrolls j v ids) :
    ∃ tree, h.Unfolds v tree ∧ tree.json? = if v.isUndefined then none else some j.asFloats := by
  induction unrolls with
  | null | gap | bool | string => exact ⟨_, .leaf rfl, rfl⟩
  | int n finite => exact unfolds_float finite
  | float x finite => exact unfolds_float finite
  | @container j c v ids part refers laid children ih =>
      obtain rfl := Value.container?_eq_some.mp refers
      cases laid.fits with
      | array items a =>
          refine unfolds_array_of_documents (forall₂_iff_getElem?.mpr ⟨laid.size_eq, ?_⟩)
          intro i v item holds child
          rw [Array.getElem?_toList] at holds
          obtain ⟨tree, unfolds, document⟩ := ih (.item i) item v child holds
          refine ⟨tree, unfolds, ?_⟩
          rw [document, (children (.item i) item v child holds).getD_null]
      | @object members sorted id =>
          refine unfolds_object_of_documents ((forall₂_sameEntry_iff (h.sorted_entries_object _)
            sorted).mpr ⟨laid.mem_keys_iff sorted, ?_⟩)
          intro key v j held listed
          have holds : h.child? (.object ⟨id, .plain⟩) (.member key) = some v :=
            mem_entries_object.mp held
          have given : v ≠ .undefined := by
            rintro rfl
            exact laid.given key holds
          have child := (Json.lookup_eq_some_iff sorted).mpr listed
          simpa [Value.isUndefined_eq_false_iff.mpr given] using ih (.member key) j v child holds

/-- A layout is a document, unless it is a gap. -/
theorem Unrolls.toJson {j : Json} {v : Value} {ids : Set Nat} (unrolls : h.Unrolls j v ids)
    (given : v ≠ .undefined) : h.toJson v = some j.asFloats := by
  obtain ⟨tree, unfolds, document⟩ := unrolls.unfolds
  rw [unfolds.toJson_eq, document, Value.isUndefined_eq_false_iff.mpr given]
  rfl

end ToDocument

section OfDocument

/-- The value was made from the document, at new identities only. -/
structure Made (h h' : Heap) (j : Json) (v : Value) : Prop where
  changed : ChangedWithin ∅ h h'
  unrolls : h'.Unrolls j v (Set.Ico h.next h'.next)
  given : v ≠ .undefined

/-- The values were made one after the other from the documents, each at identities of its own. -/
structure MadeAll (h h' : Heap) (items : List Json) (vs : List Value)
    (part : Nat → Set Nat) : Prop where
  changed : ChangedWithin ∅ h h'
  places : ∀ i : Nat, (items[i]?).isSome = (vs[i]?).isSome
  new : ∀ i, part i ⊆ Set.Ico h.next h'.next
  apart : ∀ i k, i ≠ k → Disjoint (part i) (part k)
  each : ∀ (i : Nat) item v, items[i]? = some item → vs[i]? = some v →
    h'.Unrolls item v (part i) ∧ v ≠ .undefined

variable {h m h' : Heap}

theorem MadeAll.nil (h : Heap) : MadeAll h h [] [] fun _ => ∅ where
  changed := .refl ∅ h
  places _ := rfl
  new _ := Set.empty_subset _
  apart _ _ _ := Set.disjoint_empty _
  each _ _ _ found := by cases found

theorem MadeAll.cons {j : Json} {v : Value} {items : List Json} {vs : List Value}
    {part : Nat → Set Nat} (first : Made h m j v) (rest : MadeAll m h' items vs part) :
    MadeAll h h' (j :: items) (v :: vs)
      fun | 0 => Set.Ico h.next m.next | i + 1 => part i where
  changed := first.changed.trans rest.changed (Set.empty_subset _)
  places
    | 0 => rfl
    | i + 1 => rest.places i
  new
    | 0 => Set.Ico_subset_Ico_right rest.changed.grows
    | i + 1 => (rest.new i).trans (Set.Ico_subset_Ico_left first.changed.grows)
  apart
    | 0, 0, different => absurd rfl different
    | 0, k + 1, _ => (Set.Ico_disjoint_Ico_same).mono_right (rest.new k)
    | i + 1, 0, _ => ((Set.Ico_disjoint_Ico_same).mono_right (rest.new i)).symm
    | i + 1, k + 1, different => rest.apart i k fun same => different (congrArg (· + 1) same)
  each
    | 0, _, _, rfl, rfl =>
        ⟨first.unrolls.frame_of_changed (fun _ inside => inside.2) (Set.disjoint_empty _)
          rest.changed, first.given⟩
    | i + 1, item, w, found, found' => rest.each i item w found found'

/-- A new container that holds the values made, each in the slot that its index stands for, is made
from the document whose children they are made from. -/
theorem Made.container {items : List Json} {vs : List Value} {part : Nat → Set Nat}
    (all : MadeAll h m items vs part) {j : Json} {c : Container} {v : Value}
    (index : Slot → Option Nat)
    (injective : ∀ slot slot' i, index slot = some i → index slot' = some i → slot = slot')
    (refers : v.container? = some c) (fits : j.Fits c)
    (childless : index (.member "children") = none)
    (id : c.id = m.next) (changed : ChangedWithin ∅ m h') (next : h'.next = m.next + 1)
    (children : ∀ slot, j.child? slot = (index slot).bind fun i => items[i]?)
    (holds : ∀ slot, h'.child? c slot = (index slot).bind fun i => vs[i]?) : Made h h' j v := by
  have grows := all.changed.grows
  have given : v ≠ .undefined := by
    rintro rfl
    cases refers
  let parts (slot : Slot) : Set Nat := (index slot).elim ∅ part
  have partsOf {slot i} (indexed : index slot = some i) : parts slot = part i := by
    simp only [parts, indexed, Option.elim_some]
  have laid : h'.LaidOut j c (Set.Ico h.next h'.next) parts := by
    refine ⟨fits, ?_, ?_, ?_, ?_, ?_, ?_⟩
    · intro slot
      rw [children, holds]
      cases index slot with
      | none => rfl
      | some i => exact all.places i
    · intro key undefined
      rw [holds] at undefined
      obtain ⟨i, _, undefined⟩ := Option.bind_eq_some_iff.mp undefined
      have place := all.places i
      rw [undefined, Option.isSome_some] at place
      obtain ⟨item, found⟩ := Option.isSome_iff_exists.mp place
      exact (all.each i item _ found undefined).2 rfl
    · rw [holds, childless]
      rfl
    · rw [id, next]
      exact ⟨grows, Nat.lt_succ_self _⟩
    · intro slot
      cases indexed : index slot with
      | none => simp [parts, indexed]
      | some i =>
          rw [partsOf indexed, id, next]
          intro id inside
          obtain ⟨least, below⟩ := all.new i inside
          exact ⟨⟨least, Nat.lt_succ_of_lt below⟩, Nat.ne_of_lt below⟩
    · intro slot slot' different
      cases indexed : index slot with
      | none => simp [parts, indexed]
      | some i =>
          cases indexed' : index slot' with
          | none => simp [parts, indexed']
          | some k =>
              rw [partsOf indexed, partsOf indexed']
              apply all.apart
              rintro rfl
              exact different (injective slot slot' i indexed indexed')
  refine ⟨all.changed.trans changed (Set.empty_subset _), .container refers laid ?_, given⟩
  intro slot j' v' child found
  rw [children] at child
  rw [holds] at found
  obtain ⟨i, indexed, child⟩ := Option.bind_eq_some_iff.mp child
  rw [indexed, Option.bind_some] at found
  rw [partsOf indexed]
  have below : part i ⊆ Set.Iio m.next := fun id inside => (all.new i inside).2
  exact (all.each i j' v' child found).1.frame_of_changed below (Set.disjoint_empty _) changed

theorem Made.array {items : List Json} {vs : List Value} {part : Nat → Set Nat}
    (all : MadeAll h m items vs part) :
    Made h (m.newArray vs.toArray).2 (.array items) (.array (m.newArray vs.toArray).1) := by
  have found : (m.newArray vs.toArray).2.items ⟨m.next⟩ = vs.toArray := by
    rw [items_newArray, if_pos rfl]
  refine .container (c := .array ⟨m.next⟩) all Slot.itemIndex? ?_ rfl (.array items _) rfl rfl
    (changedWithin_newArray m vs.toArray) rfl ?_ ?_
  · rintro (i | key) (k | key') n same same'
    · exact congrArg Slot.item (Option.some.inj (same.trans same'.symm))
    · cases same'
    · cases same
    · cases same
  · rintro (i | key) <;> rfl
  · rintro (i | key)
    · simp [child?, found, Slot.itemIndex?]
    · rfl

theorem getElem?_ofList {ps : List (String × Value)}
    (sorted : ps.Pairwise fun p q => p.1 < q.1) (key : String) :
    (Std.TreeMap.ofList ps)[key]? = ps.lookup key := by
  cases found : ps.lookup key with
  | some v =>
      refine Std.TreeMap.getElem?_ofList_of_mem Std.ReflCmp.compare_self (sorted.imp ?_)
        (Json.mem_of_lookup found)
      intro p q less same
      rw [Std.LawfulEqCmp.eq_of_compare same] at less
      exact String.lt_irrefl _ less
  | none =>
      apply Std.TreeMap.getElem?_ofList_of_contains_eq_false
      rw [List.lookup_eq_none_iff] at found
      simp only [List.contains_eq_mem, List.mem_map, decide_eq_false_iff_not]
      rintro ⟨p, there, rfl⟩
      simpa using found p there

theorem Made.object {members : List (String × Json)} {ps : List (String × Value)}
    {part : Nat → Set Nat} (sorted : members.Pairwise fun m n => m.1 < n.1)
    (childless : "children" ∉ members.map Prod.fst)
    (keys : ps.map Prod.fst = members.map Prod.fst)
    (all : MadeAll h m (members.map Prod.snd) (ps.map Prod.snd) part) :
    Made h (m.newObject .plain ps).2 (.object members)
      (.object (m.newObject .plain ps).1) := by
  have ascending : ps.Pairwise fun p q => p.1 < q.1 := by
    rw [← List.pairwise_map (f := Prod.fst), keys, List.pairwise_map]
    exact sorted
  have found : (m.newObject .plain ps).2.properties ⟨m.next, .plain⟩ = Std.TreeMap.ofList ps := by
    rw [properties_newObject, if_pos rfl]
  refine .container (c := .object ⟨m.next, .plain⟩) all (Slot.memberIndex? (members.map Prod.fst))
    ?_ rfl (.object sorted _) ?_ rfl (changedWithin_newObject m ps) rfl ?_ ?_
  · rintro (i | key) (k | key') n same same'
    · cases same
    · cases same
    · cases same'
    · obtain ⟨_, rfl, _⟩ := List.idxOf?_eq_some_iff.mp same
      obtain ⟨_, rfl, _⟩ := List.idxOf?_eq_some_iff.mp same'
      rfl
  · exact List.idxOf?_eq_none_iff.mpr childless
  · rintro (i | key)
    · rfl
    · exact Json.lookup_eq_idxOf?_bind key members
  · rintro (i | key)
    · rfl
    · simp only [child?, found, getElem?_ofList ascending, Slot.memberIndex?]
      rw [Json.lookup_eq_idxOf?_bind, keys]

theorem keys_ofJsonMembers (h : Heap) (members : List (String × Json)) :
    (h.ofJsonMembers members).1.map Prod.fst = members.map Prod.fst := by
  induction members generalizing h with
  | nil => rfl
  | cons member members ih => exact congrArg (member.1 :: ·) (ih _)

mutual

/-- **A document becomes a layout of itself**, at new identities. -/
theorem made_ofJson (h : Heap) (j : Json) (document : j.IsDocument)
    (childless : "children" ∉ j.keys) : Made h (h.ofJson j).2 j (h.ofJson j).1 :=
  match j with
  | .null => ⟨.refl ∅ h, .null, nofun⟩
  | .bool b => ⟨.refl ∅ h, .bool b, nofun⟩
  | .int n => by
      cases document with
      | int n least below => exact ⟨.refl ∅ h, .int n (Number.isFinite_ofInt (by omega)), nofun⟩
  | .float x => by
      cases document with
      | float x finite => exact ⟨.refl ∅ h, .float x finite, nofun⟩
  | .string s => ⟨.refl ∅ h, .string s, nofun⟩
  | .array items => by
      cases document with
      | array items each =>
          obtain ⟨part, all⟩ := madeAll_ofJsonItems h items each childless
          exact .array all
  | .object members => by
      cases document with
      | object members sorted each =>
          obtain ⟨part, all⟩ := madeAll_ofJsonMembers h members each childless
          have plain : "children" ∉ members.map Prod.fst := fun there =>
            childless (Json.mem_keysOfMembers there)
          exact .object sorted plain (keys_ofJsonMembers h members) all

theorem madeAll_ofJsonItems (h : Heap) (items : List Json)
    (documents : ∀ item ∈ items, item.IsDocument)
    (childless : "children" ∉ Json.keysOfItems items) :
    ∃ part, MadeAll h (h.ofJsonItems items).2 items (h.ofJsonItems items).1 part :=
  match items with
  | [] => ⟨_, .nil h⟩
  | item :: items => by
      obtain ⟨first, rest⟩ := List.forall_mem_cons.mp documents
      rw [Json.keysOfItems, List.mem_append, not_or] at childless
      have made := made_ofJson h item first childless.1
      obtain ⟨part, all⟩ := madeAll_ofJsonItems (h.ofJson item).2 items rest childless.2
      exact ⟨_, .cons made all⟩

theorem madeAll_ofJsonMembers (h : Heap) (members : List (String × Json))
    (documents : ∀ member ∈ members, member.2.IsDocument)
    (childless : "children" ∉ Json.keysOfMembers members) :
    ∃ part, MadeAll h (h.ofJsonMembers members).2 (members.map Prod.snd)
      ((h.ofJsonMembers members).1.map Prod.snd) part :=
  match members with
  | [] => ⟨_, .nil h⟩
  | (key, member) :: members => by
      obtain ⟨first, rest⟩ := List.forall_mem_cons.mp documents
      rw [Json.keysOfMembers, List.mem_cons, List.mem_append, not_or, not_or] at childless
      have made := made_ofJson h member first childless.2.1
      obtain ⟨part, all⟩ := madeAll_ofJsonMembers (h.ofJson member).2 members rest childless.2.2
      exact ⟨_, .cons made all⟩

end

end OfDocument

section Links

variable {h m h' : Heap} {j j' : Json} {v : Value} {c : Container} {ids new : Set Nat}
  {part : Slot → Set Nat} {slot : Slot} {key : String}

/-- The slot holds what a chain goes on into: the child that was there, or an empty object that was
put in the place of a missing one. -/
structure Linked (h m : Heap) (j : Json) (c : Container) (part : Slot → Set Nat) (slot : Slot)
    (v : Value) (new : Set Nat) : Prop where
  unrolls : m.Unrolls (Json.link (j.child? slot)) v new
  given : v ≠ .undefined
  puts : Puts h m c slot v
  changed : ChangedWithin {c.id} h m
  within : new ⊆ part slot ∪ Set.Ico h.next m.next
  kept : ChangedWithin ∅ h m ∨ Json.link (j.child? slot) = .object []

/-- A child that is not missing is gone into as it is. -/
theorem Parted.linked_of_found (parted : h.Parted j c ids part) (found : h.child? c slot = some v)
    (there : v.isNullish = false) : Linked h h j c part slot v (part slot) := by
  obtain ⟨j', child⟩ := parted.exists_child found
  have unrolls := parted.children slot j' v child found
  have other : j' ≠ .null := by
    intro null
    rw [unrolls.isNullish_iff.mpr null] at there
    cases there
  have same : Json.link (j.child? slot) = j' := by
    rw [child]
    cases j' with
    | null => exact absurd rfl other
    | _ => rfl
  refine ⟨same ▸ unrolls, ?_, puts_of_child? found, .refl _ h, Set.subset_union_left, ?_⟩
  · rintro rfl
    cases there
  · exact .inl (.refl ∅ h)

/-- An empty object is put in the place of a missing child. -/
theorem Parted.linked_of_missing (parted : h.Parted j c ids part) (below : ids ⊆ Set.Iio h.next)
    (named : j.slot? key = some slot)
    (missing : ((h.child? c slot).getD .undefined).isNullish = true) :
    Linked h ((h.newObject .plain []).2.putChild c slot (.object (h.newObject .plain []).1)) j c
      part slot (.object (h.newObject .plain []).1) (Set.Ico h.next (h.next + 1)) := by
  have made : Made h (h.newObject .plain []).2 (.object []) (.object (h.newObject .plain []).1) :=
    .object .nil List.not_mem_nil rfl (.nil h)
  have old : c.id < h.next := below parted.own
  have same : Json.link (j.child? slot) = .object [] := by
    cases child : j.child? slot with
    | none => rfl
    | some j' =>
        obtain ⟨v', found⟩ := parted.exists_held child
        rw [found, Option.getD_some] at missing
        rw [(parted.children slot j' v' child found).isNullish_iff.mp missing]
        rfl
  have changed := changedWithin_putChild (h.newObject .plain []).2 c slot
    (.object (h.newObject .plain []).1)
  have beside : Disjoint (Set.Ico h.next (h.next + 1)) {c.id} :=
    Set.disjoint_singleton_right.mpr fun inside => Nat.not_lt.mpr inside.1 old
  have laid := made.unrolls.frame_of_changed (fun _ inside => inside.2) beside changed
  refine ⟨same ▸ laid, nofun, ?_, ?_, ?_, .inr same⟩
  · intro other
    have same := made.changed.kept c ⟨old, Set.notMem_empty _⟩ other
    have put := puts_putChild (h := (h.newObject .plain []).2) parted.fits named
      (.object (h.newObject .plain []).1) other
    rw [put, same]
  · exact (made.changed.mono (Set.empty_subset _)).trans changed Set.subset_union_left
  · rw [next_putChild]
    exact Set.subset_union_right

theorem Linked.below (linked : Linked h m j c part slot v new) (parted : h.Parted j c ids part)
    (below : ids ⊆ Set.Iio h.next) : new ⊆ Set.Iio m.next := by
  intro id member
  rcases linked.within member with inside | made
  · exact Nat.lt_of_lt_of_le (below (parted.beside slot inside).1) linked.changed.grows
  · exact made.2

/-- **One step of a chain in the heap is one step in the document.** When the child that a chain
goes on into comes to unroll to another document, within its part and at new identities, the
container unrolls to the document with that child. -/
theorem Linked.unrolls_putChild (linked : Linked h m j c part slot v new)
    (parted : h.Parted j c ids part) (below : ids ⊆ Set.Iio h.next)
    (named : j.slot? key = some slot) (allowed : key ≠ "children")
    (after : ChangedWithin new m h')
    (unrolls : h'.Unrolls j' v (new ∪ Set.Ico m.next h'.next)) :
    h'.child? c slot = some v ∧ ChangedWithin ids h h' ∧
      h'.Unrolls (j.putChild slot j') c.value (ids ∪ Set.Ico h.next h'.next) := by
  have old : c.id < h.next := below parted.own
  have outside : c.id ∉ new := by
    intro inside
    rcases linked.within inside with inside | ⟨least, _⟩
    · exact (parted.beside slot inside).2 rfl
    · exact Nat.not_lt.mpr least old
  have here (other : Slot) : h'.child? c other = m.child? c other :=
    after.kept c ⟨Nat.lt_of_lt_of_le old linked.changed.grows, outside⟩ other
  have put : Puts h h' c slot v := fun other => (here other).trans (linked.puts other)
  have inside : part slot ∪ {c.id} ⊆ ids := by
    rintro id (inside | rfl)
    · exact (parted.beside slot inside).1
    · exact parted.own
  have changed : ChangedWithin (part slot ∪ {c.id}) h h' := by
    refine (linked.changed.mono Set.subset_union_right).trans after ?_
    intro id member
    exact (linked.within member).imp .inl fun new => new.1
  have disjoint : Disjoint (new ∪ Set.Ico m.next h'.next) (ids \ part slot) := by
    rw [Set.disjoint_left]
    rintro id (member | later) ⟨mine, elsewhere⟩
    · rcases linked.within member with inside | made
      · exact elsewhere inside
      · exact Nat.not_lt.mpr made.1 (below mine)
    · exact Nat.not_lt.mpr (Nat.le_trans linked.changed.grows later.1) (below mine)
  have rest : (ids \ part slot) \ {c.id} ⊆ Set.Iio h.next \ (part slot ∪ {c.id}) := by
    rintro id ⟨⟨mine, elsewhere⟩, other⟩
    exact ⟨below mine, fun here => here.elim elsewhere other⟩
  have whole := parted.putChild named allowed put (changed.kept.mono rest) unrolls linked.given
    disjoint
  refine ⟨(put slot).trans (if_pos rfl), changed.mono inside, whole.unrolls.mono ?_⟩
  rintro id (mine | member | later)
  · exact .inl mine
  · rcases linked.within member with mine | made
    · exact .inl (inside (.inl mine))
    · exact .inr ⟨made.1, Nat.lt_of_lt_of_le made.2 after.grows⟩
  · exact .inr ⟨Nat.le_trans linked.changed.grows later.1, later.2⟩

end Links

end Heap

end GuardedExpr
