import Mathlib
import GuardedExpr.Heap.Document
import GuardedExpr.Heap.Member

/-!
# Updates of documents along a path

What it means, for documents alone, to store a value under a chain of keys. A
document holds each child in a slot: an array under the canonical text of an
index, an object under any key. The update replaces the child in the slot of the
first key by its own update along the rest, and a child that is missing or `null`
counts as an empty object.
-/

namespace GuardedExpr

/-- Where a container holds a child. -/
inductive Slot where
  /-- At an index of an array. -/
  | item (i : Nat)
  /-- Under a key of an object. -/
  | member (key : String)
deriving DecidableEq

/-- A store at the one slot fills the other, which is earlier in the same array. -/
def Slot.isBefore : Slot → Slot → Bool
  | item i, item j => i < j
  | _, _ => false

/-- An array with an item in the slot has a length that is in range. -/
def Slot.inRange : Slot → Bool
  | item i => i + 1 < indexLimit
  | member _ => true

namespace Json

/-- The document is a scalar. -/
def isScalar : Json → Bool
  | array _ | object _ => false
  | _ => true

/-- A document as texts denote it: the members of every object stand in ascending order of their
keys, integers have 64 bits and floats are finite. -/
inductive IsDocument : Json → Prop where
  | null : IsDocument .null
  | bool (b : Bool) : IsDocument (.bool b)
  | int (n : Int) (least : -2 ^ 63 ≤ n) (below : n < 2 ^ 64) : IsDocument (.int n)
  | float (x : Float) (finite : x.isFinite = true) : IsDocument (.float x)
  | string (s : String) : IsDocument (.string s)
  | array (items : List Json) (each : ∀ item ∈ items, IsDocument item) : IsDocument (.array items)
  | object (members : List (String × Json)) (sorted : members.Pairwise fun m n => m.1 < n.1)
      (each : ∀ member ∈ members, IsDocument member.2) : IsDocument (.object members)

mutual

/-- The keys of all objects of a document. -/
def keys : Json → List String
  | .array items => keysOfItems items
  | .object members => keysOfMembers members
  | _ => []

def keysOfItems : List Json → List String
  | [] => []
  | item :: items => item.keys ++ keysOfItems items

def keysOfMembers : List (String × Json) → List String
  | [] => []
  | (key, member) :: members => key :: (member.keys ++ keysOfMembers members)

end

theorem mem_keysOfMembers {key : String} {members : List (String × Json)}
    (there : key ∈ members.map Prod.fst) : key ∈ keysOfMembers members := by
  induction members with
  | nil => cases there
  | cons member members ih =>
      rcases List.mem_cons.mp there with rfl | later
      · exact List.mem_cons_self
      · exact List.mem_cons_of_mem _ (List.mem_append_right _ (ih later))

mutual

/-- The document with every number as a float. -/
def asFloats : Json → Json
  | .int n => .float (Number.ofInt n)
  | .array items => .array (itemsAsFloats items)
  | .object members => .object (membersAsFloats members)
  | j => j

def itemsAsFloats : List Json → List Json
  | [] => []
  | item :: items => item.asFloats :: itemsAsFloats items

def membersAsFloats : List (String × Json) → List (String × Json)
  | [] => []
  | (key, member) :: members => (key, member.asFloats) :: membersAsFloats members

end

/-- The slot that a key names in a document. -/
def slot? : Json → String → Option Slot
  | .array _, key => (indexOfText? key).map .item
  | .object _, key => some (.member key)
  | _, _ => none

def child? : Json → Slot → Option Json
  | .array items, .item i => items[i]?
  | .object members, .member key => members.lookup key
  | _, _ => none

/-- Items with one stored at an index; a gap before it is filled with `null`. -/
def setItem (items : List Json) (i : Nat) (item : Json) : List Json :=
  (items ++ List.replicate (i + 1 - items.length) Json.null).set i item

def putChild : Json → Slot → Json → Json
  | .array items, .item i, child => .array (setItem items i child)
  | .object members, .member key, child => .object (insertMember key child members)
  | j, _, _ => j

/-- The document that a chain goes on into: an empty object in place of a missing one. -/
def link : Option Json → Json
  | none | some .null => .object []
  | some j => j

/-- The document with a value stored under a chain of keys, if every parent on the way can hold a
child under its key. -/
def update? : Json → List String → Json → Option Json
  | _, [], value => some value
  | j, key :: keys, value => do
    let slot ← j.slot? key
    let child ← (link (j.child? slot)).update? keys value
    return j.putChild slot child

/-- The lengths that an update along a chain of keys gives to arrays are in range. -/
def staysInRange : Json → List String → Bool
  | _, [] => true
  | j, key :: keys =>
    match j.slot? key with
    | none => true
    | some slot => slot.inRange && (link (j.child? slot)).staysInRange keys

section Lookup

variable {α : Type} {members : List (String × α)}

theorem lookup_cons_eq_ite (key : String) (member : String × α) :
    (member :: members).lookup key =
      if key = member.1 then some member.2 else members.lookup key := by
  rw [List.lookup_cons]
  by_cases same : key = member.1
  · rw [if_pos same, beq_iff_eq.mpr same]
  · rw [if_neg same, beq_false_of_ne same]

theorem mem_of_lookup {key : String} {value : α} (found : members.lookup key = some value) :
    (key, value) ∈ members := by
  induction members with
  | nil => cases found
  | cons member members ih =>
      rw [lookup_cons_eq_ite] at found
      split at found
      · next same =>
          obtain rfl := Option.some.inj found
          exact List.mem_cons.mpr (.inl (Prod.ext same rfl))
      · exact List.mem_cons_of_mem _ (ih found)

/-- Under ascending keys, every member is found. -/
theorem lookup_eq_some_iff (sorted : members.Pairwise fun m n => m.1 < n.1) {key : String}
    {value : α} : members.lookup key = some value ↔ (key, value) ∈ members := by
  refine ⟨mem_of_lookup, fun there => ?_⟩
  induction members with
  | nil => cases there
  | cons member members ih =>
      obtain ⟨least, sorted⟩ := List.pairwise_cons.mp sorted
      rw [lookup_cons_eq_ite]
      rcases List.mem_cons.mp there with rfl | later
      · exact if_pos rfl
      · have other : key ≠ member.1 := by
          rintro rfl
          exact String.lt_irrefl _ (least (member.1, value) later)
        rw [if_neg other]
        exact ih sorted later

/-- What is found under a key stands where the key stands. -/
theorem lookup_eq_idxOf?_bind (key : String) (members : List (String × α)) :
    members.lookup key =
      ((members.map Prod.fst).idxOf? key).bind fun i => (members.map Prod.snd)[i]? := by
  induction members with
  | nil => rfl
  | cons member members ih =>
      rw [lookup_cons_eq_ite, List.map_cons, List.idxOf?_cons, ih]
      by_cases same : key = member.1
      · simp [same]
      · rw [if_neg same, if_neg fun equal => same (beq_iff_eq.mp equal).symm]
        cases (members.map Prod.fst).idxOf? key <;> rfl

end Lookup

section Members

variable {members : List (String × Json)}

theorem lookup_insertMember (key key' : String) (value : Json) :
    (insertMember key value members).lookup key' =
      if key' = key then some value else members.lookup key' := by
  induction members with
  | nil => exact lookup_cons_eq_ite key' (key, value)
  | cons member members ih =>
      obtain ⟨k, v⟩ := member
      unfold insertMember
      cases order : compare key k with
      | lt => exact lookup_cons_eq_ite key' (key, value)
      | eq =>
          obtain rfl := Std.LawfulEqCmp.eq_of_compare order
          simp only [lookup_cons_eq_ite]
          split <;> rfl
      | gt =>
          have other : key ≠ k := by
            rintro rfl
            simp [Std.ReflOrd.compare_self] at order
          simp only [lookup_cons_eq_ite, ih]
          by_cases here : key' = k
          · simp [here, Ne.symm other]
          · simp [here]

theorem mem_insertMember {key : String} {value : Json} {member : String × Json}
    (there : member ∈ insertMember key value members) : member.1 = key ∨ member ∈ members := by
  induction members with
  | nil => simp_all [insertMember]
  | cons m members ih =>
      obtain ⟨k, v⟩ := m
      unfold insertMember at there
      split at there
      · rcases List.mem_cons.mp there with rfl | there
        · exact .inl rfl
        · exact .inr there
      · rcases List.mem_cons.mp there with rfl | there
        · exact .inl rfl
        · exact .inr (List.mem_cons_of_mem _ there)
      · rcases List.mem_cons.mp there with rfl | there
        · exact .inr List.mem_cons_self
        · exact (ih there).imp_right (List.mem_cons_of_mem _)

theorem sorted_insertMember (sorted : members.Pairwise fun m n => m.1 < n.1) (key : String)
    (value : Json) : (insertMember key value members).Pairwise fun m n => m.1 < n.1 := by
  induction members with
  | nil => exact List.pairwise_singleton _ _
  | cons m members ih =>
      obtain ⟨k, v⟩ := m
      obtain ⟨least, sorted⟩ := List.pairwise_cons.mp sorted
      unfold insertMember
      cases order : compare key k with
      | lt =>
          have less : key < k := compareOfLessAndEq_eq_lt.mp order
          refine List.pairwise_cons.mpr ⟨?_, List.pairwise_cons.mpr ⟨least, sorted⟩⟩
          intro m there
          rcases List.mem_cons.mp there with rfl | there
          · exact less
          · exact String.lt_trans less (least m there)
      | eq =>
          obtain rfl := Std.LawfulEqCmp.eq_of_compare order
          exact List.pairwise_cons.mpr ⟨least, (List.pairwise_cons.mp sorted).2⟩
      | gt =>
          have reversed : compare k key = .lt := Std.OrientedCmp.lt_of_gt order
          have less : k < key := compareOfLessAndEq_eq_lt.mp reversed
          refine List.pairwise_cons.mpr ⟨?_, ih sorted⟩
          intro m there
          rcases mem_insertMember there with same | there
          · exact same ▸ less
          · exact least m there

end Members

/-- An item is found where it is stored; the filler is found between the items and it. -/
theorem getElem?_set_filled {α : Type} (items : List α) (filler : α) (i k : Nat) (item : α) :
    ((items ++ List.replicate (i + 1 - items.length) filler).set i item)[k]? =
      if k = i then some item
      else if k < i then (items[k]?).or (some filler) else items[k]? := by
  rw [List.getElem?_set, List.getElem?_append, List.getElem?_replicate]
  by_cases here : k = i
  · subst here
    rw [if_pos rfl, if_pos rfl, if_pos (by simp; omega)]
  · rw [if_neg (Ne.symm here), if_neg here]
    by_cases within : k < items.length
    · simp [within]
    · by_cases before : k < i
      · simp [within, before]
        omega
      · rw [if_neg within, if_neg before, if_neg (by omega)]
        exact (List.getElem?_eq_none (by omega)).symm

/-- A child is found where it is put. No other child is lost, and those put before it are `null`. -/
theorem child?_putChild {j : Json} {key : String} {slot : Slot} (named : j.slot? key = some slot)
    (child : Json) (other : Slot) : (j.putChild slot child).child? other =
      if other = slot then some child
      else if other.isBefore slot then (j.child? other).or (some .null) else j.child? other := by
  cases j with
  | array items =>
      obtain ⟨i, _, rfl⟩ := Option.map_eq_some_iff.mp named
      cases other with
      | item k => simpa [Slot.isBefore, putChild, child?, setItem] using
            getElem?_set_filled items .null i k child
      | member key => simp [putChild, child?, Slot.isBefore]
  | object members =>
      obtain rfl : Slot.member key = slot := Option.some.inj named
      cases other with
      | item k => simp [putChild, child?, Slot.isBefore]
      | member key' =>
          simpa [Slot.isBefore, putChild, child?] using lookup_insertMember key key' child
  | _ => cases named

theorem update?_cons_of_slot {j : Json} {key : String} {slot : Slot}
    (named : j.slot? key = some slot) (keys : List String) (value : Json) :
    j.update? (key :: keys) value =
      ((link (j.child? slot)).update? keys value).map (j.putChild slot) := by
  rw [update?, named, Option.map_eq_bind]
  rfl

theorem update?_cons_of_no_slot {j : Json} {key : String} (none : j.slot? key = .none)
    (keys : List String) (value : Json) : j.update? (key :: keys) value = .none := by
  rw [update?, none]
  rfl

theorem staysInRange_cons {j : Json} {key : String} {slot : Slot}
    (named : j.slot? key = some slot) (keys : List String) :
    j.staysInRange (key :: keys) = (slot.inRange && (link (j.child? slot)).staysInRange keys) := by
  rw [staysInRange, named]

/-- A chain can always be stored into an empty object. -/
theorem isSome_update?_nil (keys : List String) (value : Json) :
    ((object []).update? keys value).isSome = true := by
  induction keys with
  | nil => rfl
  | cons key keys ih =>
      obtain ⟨child, updated⟩ := Option.isSome_iff_exists.mp ih
      have named : (object []).slot? key = some (.member key) := rfl
      rw [update?_cons_of_slot named]
      simp [child?, link, updated]

end Json

end GuardedExpr
