import GuardedExpr.Heap.Document
import GuardedExpr.Heap.Member
import Mathlib.Data.List.Nodup
import Mathlib.Data.List.Sort
import Mathlib.Data.String.Basic

/-!
# Contents of containers

What a change of a heap does to the entries of its containers. Every change is
at one container: storing a member adds at most that member and fills a gap
before it, and making a container gives it the entries it is made of.
-/

namespace GuardedExpr

/-- The value is neither a container nor a function. -/
def Value.isScalar : Value → Bool
  | array _ | object _ | function _ => false
  | _ => true

/-- The value that refers to a container. -/
def Container.value : Container → Value
  | .array a => .array a
  | .object o => .object o

theorem Value.container?_eq_some {v : Value} {c : Container} :
    v.container? = some c ↔ v = c.value := by
  cases v <;> cases c <;> simp [container?, Container.value]

section Entries

variable {α β : Type}

/-- The entries have one key and related values. -/
def SameEntry (R : α → β → Prop) (e : String × α) (f : String × β) : Prop :=
  e.1 = f.1 ∧ R e.2 f.2

/-- Two lists are related when they have one length and are related place by place. -/
theorem forall₂_iff_getElem? {R : α → β → Prop} {l : List α} {m : List β} :
    List.Forall₂ R l m ↔ l.length = m.length ∧
      ∀ (i : Nat) a b, l[i]? = some a → m[i]? = some b → R a b := by
  rw [List.forall₂_iff_get]
  constructor
  · rintro ⟨length, related⟩
    refine ⟨length, ?_⟩
    intro i a b found found'
    obtain ⟨left, rfl⟩ := List.getElem?_eq_some_iff.mp found
    obtain ⟨right, rfl⟩ := List.getElem?_eq_some_iff.mp found'
    exact related i left right
  · rintro ⟨length, related⟩
    refine ⟨length, ?_⟩
    intro i left right
    exact related i _ _ (List.getElem?_eq_getElem left) (List.getElem?_eq_getElem right)

/-- What is related through a third thing at every place is related through a third list. -/
theorem exists_between {γ : Type} {R : α → β → Prop} {S : β → γ → Prop} {l : List α} {m : List γ}
    (all : List.Forall₂ (fun a c => ∃ b, R a b ∧ S b c) l m) :
    ∃ bs, List.Forall₂ R l bs ∧ List.Forall₂ S bs m := by
  induction all with
  | nil => exact ⟨[], .nil, .nil⟩
  | cons first _ ih =>
      obtain ⟨b, left, right⟩ := first
      obtain ⟨bs, lefts, rights⟩ := ih
      exact ⟨b :: bs, .cons left lefts, .cons right rights⟩

/-- Every entry of one list is related to one of the other. -/
theorem exists_of_forall₂ {R : α → β → Prop} {l : List α} {m : List β} (all : List.Forall₂ R l m)
    {a : α} (member : a ∈ l) : ∃ b, R a b := by
  obtain ⟨i, place⟩ := List.mem_iff_getElem?.mp member
  obtain ⟨within, _⟩ := List.getElem?_eq_some_iff.mp place
  obtain ⟨length, related⟩ := forall₂_iff_getElem?.mp all
  exact ⟨_, related i a _ place (List.getElem?_eq_getElem (length ▸ within))⟩

/-- Where one list has an entry, another with the same keys has one too. -/
theorem exists_getElem?_of_map_eq {l : List (String × α)} {m : List (String × β)}
    (keys : l.map Prod.fst = m.map Prod.fst) {i : Nat} {e : String × α} (place : l[i]? = some e) :
    ∃ f, m[i]? = some f := by
  obtain ⟨within, _⟩ := List.getElem?_eq_some_iff.mp place
  have size : l.length = m.length := by simpa using congrArg List.length keys
  exact ⟨_, List.getElem?_eq_getElem (size ▸ within)⟩

theorem fst_eq_of_map_eq {l : List (String × α)} {m : List (String × β)}
    (keys : l.map Prod.fst = m.map Prod.fst) {i : Nat} {e : String × α} {f : String × β}
    (place : l[i]? = some e) (place' : m[i]? = some f) : e.1 = f.1 := by
  have there := congrArg (fun keys => keys[i]?) keys
  simpa [List.getElem?_map, place, place'] using there

theorem map_fst_eq_of_sameEntry {R : α → β → Prop} {l : List (String × α)} {m : List (String × β)}
    (related : List.Forall₂ (SameEntry R) l m) : l.map Prod.fst = m.map Prod.fst := by
  rw [← List.forall₂_eq_eq_eq, List.forall₂_map_left_iff, List.forall₂_map_right_iff]
  exact related.imp fun e f same => same.1

/-- Under ascending keys, lists with the same entries are the same. -/
theorem eq_of_mem_iff_of_ascending {l m : List (String × α)}
    (left : l.Pairwise fun e f => e.1 < f.1) (right : m.Pairwise fun e f => e.1 < f.1)
    (same : ∀ key a, (key, a) ∈ l ↔ (key, a) ∈ m) : l = m := by
  have irreflexive : Std.Irrefl fun e f : String × α => e.1 < f.1 := ⟨fun e => lt_irrefl e.1⟩
  have antisymmetric : Std.Antisymm fun e f : String × α => e.1 < f.1 :=
    ⟨fun _ _ less more => absurd more (lt_asymm less)⟩
  exact left.eq_of_mem_iff right fun e => same e.1 e.2

/-- Under ascending keys, entries are related in order exactly if the keys are the same and what is
under one key is related. -/
theorem forall₂_sameEntry_iff {R : α → β → Prop} {l : List (String × α)} {m : List (String × β)}
    (left : l.Pairwise fun e f => e.1 < f.1) (right : m.Pairwise fun e f => e.1 < f.1) :
    List.Forall₂ (SameEntry R) l m ↔ (∀ key, key ∈ l.map Prod.fst ↔ key ∈ m.map Prod.fst) ∧
      ∀ key a b, (key, a) ∈ l → (key, b) ∈ m → R a b := by
  constructor
  · intro related
    refine ⟨fun key => by rw [map_fst_eq_of_sameEntry related], ?_⟩
    intro key a b there there'
    obtain ⟨i, place⟩ := List.mem_iff_getElem?.mp there
    obtain ⟨⟨key', b'⟩, place'⟩ := exists_getElem?_of_map_eq (map_fst_eq_of_sameEntry related) place
    obtain ⟨rfl, values⟩ : key = key' ∧ R a b' :=
      (forall₂_iff_getElem?.mp related).2 i _ _ place place'
    have nodup : (m.map Prod.fst).Nodup :=
      (List.pairwise_map.mpr right).imp fun less => ne_of_lt less
    obtain ⟨-, rfl⟩ := Prod.mk.inj
      (List.inj_on_of_nodup_map nodup there' (List.mem_of_getElem? place') rfl)
    exact values
  · rintro ⟨keys, related⟩
    have sameKeys : l.map Prod.fst = m.map Prod.fst :=
      (List.pairwise_map.mpr left).eq_of_mem_iff (List.pairwise_map.mpr right) keys
    rw [forall₂_iff_getElem?]
    constructor
    · simpa using congrArg List.length sameKeys
    · intro i e f place place'
      have same := fst_eq_of_map_eq sameKeys place place'
      refine ⟨same, related e.1 e.2 f.2 (List.mem_of_getElem? place) ?_⟩
      rw [same]
      exact List.mem_of_getElem? place'

end Entries

/-- An index is found from its own text, and from no other. -/
theorem indexOfText?_eq_some_iff {key : String} {i : Nat} :
    indexOfText? key = some i ↔ key = indexText i ∧ i < indexLimit := by
  have back (i : Nat) : Number.ofDigits (indexText i).toList = i := by
    rw [indexText, String.toList_ofList]
    exact Nat.ofDigitChars_ten_toDigits
  constructor
  · intro found
    unfold indexOfText? at found
    dsimp only at found
    split at found
    · next canonical =>
        obtain rfl := Option.some.inj found
        refine ⟨?_, canonical.2⟩
        rw [indexText, canonical.1, String.ofList_toList]
    · cases found
  · rintro ⟨rfl, below⟩
    unfold indexOfText?
    dsimp only
    rw [back, if_pos ⟨(String.toList_ofList).symm, below⟩]

namespace Heap

theorem mem_entries_array {h : Heap} {a : ArrayRef} {key : String} {v : Value} :
    (key, v) ∈ h.entries (.array a) ↔ ∃ i : Nat, indexText i = key ∧ (h.items a)[i]? = some v := by
  simp only [entries, List.mem_map, Prod.mk.injEq, Prod.exists, List.mk_mem_zipIdx_iff_getElem?,
    Array.getElem?_toList]
  constructor
  · rintro ⟨v, i, found, rfl, rfl⟩
    exact ⟨i, rfl, found⟩
  · rintro ⟨i, rfl, found⟩
    exact ⟨v, i, found, rfl, rfl⟩

theorem mem_entries_object {h : Heap} {o : ObjectRef} {key : String} {v : Value} :
    (key, v) ∈ h.entries (.object o) ↔ (h.properties o)[key]? = some v :=
  Std.TreeMap.mem_toList_iff_getElem?_eq_some

theorem sorted_entries_object (h : Heap) (o : ObjectRef) :
    (h.entries (.object o)).Pairwise fun e f => e.1 < f.1 := by
  have ascending : (h.properties o).keys.Pairwise (· < ·) := by
    apply Std.TreeMap.ordered_keys.imp
    intro k l less
    exact compareOfLessAndEq_eq_lt.mp less
  rw [← Std.TreeMap.map_fst_toList_eq_keys] at ascending
  exact List.pairwise_map.mp ascending

theorem mem_keys_entries_object {h : Heap} {o : ObjectRef} {key : String} :
    key ∈ (h.entries (.object o)).map Prod.fst ↔ key ∈ h.properties o := by
  rw [entries, Std.TreeMap.map_fst_toList_eq_keys, Std.TreeMap.mem_keys]

theorem entries_setItems_of_ne (h : Heap) {a : ArrayRef} (items : Array Value) {c : Container}
    (other : c ≠ .array a) : (h.setItems a items).entries c = h.entries c := by
  cases c with
  | array b =>
      have different : a ≠ b := fun same => other (congrArg Container.array same.symm)
      rw [entries, entries, items_setItems_of_ne h items different]
  | object o => rfl

theorem entries_setProperties_of_ne (h : Heap) {o : ObjectRef} (ps : Properties) {c : Container}
    (other : c ≠ .object o) : (h.setProperties o ps).entries c = h.entries c := by
  cases c with
  | array a => rfl
  | object p =>
      have different : o ≠ p := fun same => other (congrArg Container.object same.symm)
      rw [entries, entries, properties_setProperties_of_ne h ps different]

/-- What is read under a key is an entry under that key, unless it is a scalar. -/
theorem property_eq_or_mem (h : Heap) (o : ObjectRef) (key : String) :
    h.property o key = .undefined ∨ (key, h.property o key) ∈ h.entries (.object o) := by
  unfold property
  cases found : (h.properties o)[key]? with
  | none => exact .inl rfl
  | some v => exact .inr (mem_entries_object.mpr found)

end Heap

/-- An item is read under the text of its index, and only there. -/
theorem arrayMember_eq_or_exists (items : Array Value) (key : String) :
    (arrayMember items key = .number (Number.ofNat items.size)) ∨
      arrayMember items key = .undefined ∨
      ∃ i : Nat, indexText i = key ∧ items[i]? = some (arrayMember items key) := by
  unfold arrayMember
  split
  · exact .inl rfl
  · refine .inr ?_
    cases indexed : indexOfText? key with
    | none => exact .inl rfl
    | some i =>
        rw [Option.bind_some]
        cases found : items[i]? with
        | none => exact .inl rfl
        | some v => exact .inr ⟨i, (indexOfText?_eq_some_iff.mp indexed).1.symm, found⟩

/-- An item after a store was there before, or fills a gap, or is what was stored. -/
theorem mem_storeItem {items : Array Value} {i j : Nat} {v item : Value}
    (found : (storeItem items i v)[j]? = some item) :
    items[j]? = some item ∨ item = .undefined ∨ i = j ∧ item = v := by
  unfold storeItem at found
  rw [Array.getElem?_setIfInBounds] at found
  split at found
  · next same =>
      split at found
      · exact .inr (.inr ⟨same, (Option.some.inj found).symm⟩)
      · cases found
  · rw [Array.getElem?_append] at found
    split at found
    · exact .inl found
    · rw [Array.getElem?_replicate] at found
      split at found
      · exact .inr (.inl (Option.some.inj found).symm)
      · cases found

namespace Heap

/-- A store into an array that ends well stores an item. -/
theorem exists_index_of_writeMember {h h' : Heap} {a : ArrayRef} {key : String} {v : Value}
    (stored : h.writeMember (.array a) key v = .ok h') :
    ∃ i, indexOfText? key = some i ∧ h' = h.setItems a (storeItem (h.items a) i v) := by
  unfold writeMember at stored
  cases indexed : indexOfText? key with
  | none => simp [indexed] at stored
  | some i =>
      simp only [indexed] at stored
      split at stored
      · exact ⟨i, rfl, (Except.ok.inj stored).symm⟩
      · cases stored

/-- **A store changes one container.** Its entries are those that were there, the stored one, and
`undefined` in a gap. -/
theorem entries_writeMember {h h' : Heap} {owner v : Value} {key : String}
    (stored : h.writeMember owner key v = .ok h') :
    h'.next = h.next ∧ ∃ c : Container, c.value = owner ∧
      (∀ d, d ≠ c → h'.entries d = h.entries d) ∧
      ∀ key' v', (key', v') ∈ h'.entries c →
        (key', v') ∈ h.entries c ∨ v' = .undefined ∨ key' = key ∧ v' = v := by
  cases owner with
  | object o =>
      obtain rfl := Except.ok.inj stored
      refine ⟨rfl, .object o, rfl, fun d => h.entries_setProperties_of_ne _, ?_⟩
      intro key' v' member
      have found := mem_entries_object.mp member
      rw [setProperty, properties_setProperties_self, Std.TreeMap.getElem?_insert] at found
      by_cases same : key = key'
      · rw [if_pos (Std.LawfulEqCmp.compare_eq_iff_eq.mpr same)] at found
        exact .inr (.inr ⟨same.symm, (Option.some.inj found).symm⟩)
      · rw [if_neg fun equal => same (Std.LawfulEqCmp.compare_eq_iff_eq.mp equal)] at found
        exact .inl (mem_entries_object.mpr found)
  | array a =>
      obtain ⟨i, indexed, rfl⟩ := exists_index_of_writeMember stored
      refine ⟨rfl, .array a, rfl, fun d => h.entries_setItems_of_ne _, ?_⟩
      intro key' v' member
      obtain ⟨j, rfl, found⟩ := mem_entries_array.mp member
      rw [items_setItems_self] at found
      rcases mem_storeItem found with there | gap | ⟨rfl, rfl⟩
      · exact .inl (mem_entries_array.mpr ⟨j, rfl, there⟩)
      · exact .inr (.inl gap)
      · exact .inr (.inr ⟨(indexOfText?_eq_some_iff.mp indexed).1.symm, rfl⟩)
  | _ => cases stored

/-- What the values of some entries have in common, they have after a store, if the stored value has
it and `undefined` does. -/
theorem forall_entries_of_writeMember {h h' : Heap} {owner v : Value} {key : String}
    {Counts : Container → String → Prop} {Good : Value → Prop}
    (before : ∀ c key w, Counts c key → (key, w) ∈ h.entries c → Good w) (gap : Good .undefined)
    (stored : Good v) (written : h.writeMember owner key v = .ok h') (c : Container)
    (key' : String) (w : Value) (counts : Counts c key') (held : (key', w) ∈ h'.entries c) :
    Good w := by
  obtain ⟨_, d, _, others, contents⟩ := entries_writeMember written
  by_cases same : c = d
  · subst same
    rcases contents key' w held with old | rfl | ⟨_, rfl⟩
    · exact before c key' w counts old
    · exact gap
    · exact stored
  · rw [others c same] at held
    exact before c key' w counts held

theorem getElem?_properties_setProperty (h : Heap) (o p : ObjectRef) (key key' : String)
    (v : Value) : ((h.setProperty o key v).properties p)[key']? =
      if p = o ∧ key' = key then some v else (h.properties p)[key']? := by
  by_cases same : p = o
  · subst same
    rw [setProperty, properties_setProperties_self, Std.TreeMap.getElem?_insert]
    simp only [Std.LawfulEqCmp.compare_eq_iff_eq, true_and, eq_comm (a := key)]
  · rw [setProperty, properties_setProperties_of_ne h _ (Ne.symm same), if_neg fun h => same h.1]

/-- A store changes no property but the one that is stored. -/
theorem getElem?_properties_of_writeMember {h h' : Heap} {owner v : Value} {key : String}
    (stored : h.writeMember owner key v = .ok h') (o : ObjectRef) (name : String) :
    (h'.properties o)[name]? = (h.properties o)[name]? ∨
      owner = .object o ∧ name = key ∧ (h'.properties o)[name]? = some v := by
  cases owner with
  | object p =>
      obtain rfl := Except.ok.inj stored
      rw [getElem?_properties_setProperty]
      split
      · next here => exact .inr ⟨here.1 ▸ rfl, here.2, rfl⟩
      · exact .inl rfl
  | array a =>
      obtain ⟨i, _, rfl⟩ := exists_index_of_writeMember stored
      exact .inl rfl
  | _ => cases stored

theorem items_newArray (h : Heap) (items : Array Value) (a : ArrayRef) :
    (h.newArray items).2.items a = if a = ⟨h.next⟩ then items else h.items a := by
  by_cases same : a = ⟨h.next⟩
  · rw [if_pos same, same]
    exact items_setItems_self _ _ _
  · rw [if_neg same]
    exact items_setItems_of_ne _ _ (Ne.symm same)

theorem properties_newObject (h : Heap) (kind : ObjectKind) (ps : List (String × Value))
    (o : ObjectRef) : (h.newObject kind ps).2.properties o =
      if o = ⟨h.next, kind⟩ then Std.TreeMap.ofList ps else h.properties o := by
  by_cases same : o = ⟨h.next, kind⟩
  · rw [if_pos same, same]
    exact properties_setProperties_self _ _ _
  · rw [if_neg same]
    exact properties_setProperties_of_ne _ _ (Ne.symm same)

/-- Makes an array that holds the items. -/
def makeArray (h : Heap) (items : List Value) : Value × Heap :=
  (.array (h.newArray items.toArray).1, (h.newArray items.toArray).2)

/-- Makes an object that holds the properties. -/
def makeObject (h : Heap) (properties : List (String × Value)) : Value × Heap :=
  (.object (h.newObject .plain properties).1, (h.newObject .plain properties).2)

theorem entries_newArray_of_ne (h : Heap) (items : Array Value) {c : Container}
    (other : c ≠ .array (h.newArray items).1) : (h.newArray items).2.entries c = h.entries c :=
  entries_setItems_of_ne _ items other

theorem entries_newObject_of_ne (h : Heap) (kind : ObjectKind) (ps : List (String × Value))
    {c : Container} (other : c ≠ .object (h.newObject kind ps).1) :
    (h.newObject kind ps).2.entries c = h.entries c :=
  entries_setProperties_of_ne _ _ other

/-- The entries of a new array are its items. -/
theorem mem_of_mem_entries_newArray {h : Heap} {items : Array Value} {key : String} {v : Value}
    (member : (key, v) ∈ (h.newArray items).2.entries (.array (h.newArray items).1)) :
    v ∈ items := by
  obtain ⟨i, _, found⟩ := mem_entries_array.mp member
  rw [newArray, items_setItems_self] at found
  exact Array.mem_of_getElem? found

theorem mem_of_getElem?_insertMany {ps : List (String × Value)} {properties : Properties}
    {key : String} {v : Value} (found : (properties.insertMany ps)[key]? = some v) :
    properties[key]? = some v ∨ (key, v) ∈ ps := by
  induction ps generalizing properties with
  | nil => exact .inl found
  | cons p ps ih =>
      rw [Std.TreeMap.insertMany_cons] at found
      rcases ih found with there | member
      · rw [Std.TreeMap.getElem?_insert] at there
        by_cases same : p.1 = key
        · rw [if_pos (Std.LawfulEqCmp.compare_eq_iff_eq.mpr same)] at there
          obtain rfl := Option.some.inj there
          exact .inr (List.mem_cons.mpr (.inl (Prod.ext same.symm rfl)))
        · rw [if_neg fun equal => same (Std.LawfulEqCmp.compare_eq_iff_eq.mp equal)] at there
          exact .inl there
      · exact .inr (List.mem_cons_of_mem p member)

/-- The entries of a new object are its properties. -/
theorem mem_of_mem_entries_newObject {h : Heap} {kind : ObjectKind} {ps : List (String × Value)}
    {key : String} {v : Value}
    (member : (key, v) ∈ (h.newObject kind ps).2.entries (.object (h.newObject kind ps).1)) :
    (key, v) ∈ ps := by
  have found := mem_entries_object.mp member
  rw [newObject, properties_setProperties_self, Std.TreeMap.ofList_eq_insertMany_empty] at found
  rcases mem_of_getElem?_insertMany found with there | member
  · rw [Std.TreeMap.getElem?_emptyc] at there
    cases there
  · exact member

/-- The text of an item of an array, with the arrays around it on the way. -/
def itemText (h : Heap) (way : List Container) : Value → String
  | .array a => h.joinText way a
  | v => if v.isNullish then "" else v.scalarText

theorem joinText_of_not_mem {h : Heap} {way : List Container} {a : ArrayRef}
    (new : .array a ∉ way) : h.joinText way a =
      ",".intercalate ((h.items a).toList.map (h.itemText (.array a :: way))) := by
  rw [joinText, if_neg new]
  apply congrArg
  refine Eq.trans (List.map_congr_left ?_) List.attach_map_val
  rintro ⟨v, member⟩ _
  cases v <;> rfl

/-- The text of a value depends on the items of arrays alone. -/
theorem joinText_congr {h h' : Heap} (same : ∀ a, h.items a = h'.items a) (way : List Container)
    (a : ArrayRef) : h.joinText way a = h'.joinText way a := by
  induction way, a using Heap.joinText.induct h with
  | case1 way a met => rw [joinText, joinText, if_pos met, if_pos met]
  | case2 way a new ih =>
      rw [joinText_of_not_mem new, joinText_of_not_mem new, ← same a]
      apply congrArg
      apply List.map_congr_left
      intro v member
      cases v with
      | array b => exact ih b member
      | _ => rfl

theorem text_congr {h h' : Heap} (same : ∀ a, h.items a = h'.items a) (v : Value) :
    h.text v = h'.text v := by
  cases v with
  | array a => exact joinText_congr same [] a
  | _ => rfl

theorem number_congr {h h' : Heap} (same : ∀ a, h.items a = h'.items a) (v : Value) :
    h.number v = h'.number v := by
  cases v with
  | array a =>
      simp only [number, ← same a]
      cases (h.items a).toList with
      | nil => rfl
      | cons item items =>
          cases items with
          | nil => exact congrArg Number.ofText (text_congr same item)
          | cons _ _ => rfl
  | _ => rfl

theorem isScalar_stringMember (s key : String) : (stringMember s key).isScalar = true := by
  unfold stringMember
  dsimp only
  split
  · rfl
  · split <;> rfl

/-- **A read finds an entry.** What is found under a key is a scalar or an entry under that key, and
nothing changes; or it is a reflection function, made for this read. -/
theorem readMember_cases (h : Heap) (owner : Value) (key : String) :
    ((h.readMember owner key).2 = h ∧ ((h.readMember owner key).1.isScalar = true ∨
      ∃ c : Container, c.value = owner ∧ (key, (h.readMember owner key).1) ∈ h.entries c)) ∨
    ∃ primitive, h.readMember owner key =
      (.function (.reflection h.next primitive), { h with next := h.next + 1 }) := by
  cases owner with
  | object o =>
      refine .inl ⟨rfl, ?_⟩
      rcases h.property_eq_or_mem o key with absent | member
      · exact .inl (congrArg Value.isScalar absent)
      · exact .inr ⟨.object o, rfl, member⟩
  | array a =>
      refine .inl ⟨rfl, ?_⟩
      rcases arrayMember_eq_or_exists (h.items a) key with length | absent | ⟨i, text, found⟩
      · exact .inl (congrArg Value.isScalar length)
      · exact .inl (congrArg Value.isScalar absent)
      · exact .inr ⟨.array a, rfl, mem_entries_array.mpr ⟨i, text, found⟩⟩
  | string s =>
      exact .inl ⟨rfl, .inl (isScalar_stringMember s key)⟩
  | function f =>
      unfold readMember
      cases named : Reflection.ofName? key with
      | some primitive => exact .inr ⟨primitive, rfl⟩
      | none =>
          refine .inl ⟨rfl, .inl ?_⟩
          change (if key = "name" then Value.string f.name else Value.undefined).isScalar = true
          split <;> rfl
  | _ => exact .inl ⟨rfl, .inl rfl⟩

section Leads

variable {h h' : Heap} {v w : Value} {c d : Container}

/-- The value is the container, or holds it at some depth. -/
inductive Leads (h : Heap) : Value → Container → Prop where
  | here {v : Value} {c : Container} (refers : v.container? = some c) : h.Leads v c
  | through {v w : Value} {c d : Container} {key : String} (refers : v.container? = some c)
      (held : (key, w) ∈ h.entries c) (leads : h.Leads w d) : h.Leads v d

/-- Only a container leads anywhere. -/
theorem not_leads_of_container?_eq_none (plain : v.container? = none) : ¬ h.Leads v c := by
  intro leads
  cases leads with
  | here refers =>
      rw [plain] at refers
      cases refers
  | through refers =>
      rw [plain] at refers
      cases refers

/-- A value leads only to what heaps agree on that hold the same wherever it leads. -/
theorem Leads.of_frame (leads : h'.Leads v d)
    (same : ∀ c, h.Leads v c → h'.entries c = h.entries c) : h.Leads v d := by
  induction leads with
  | here refers => exact .here refers
  | through refers held leads ih =>
      rw [same _ (.here refers)] at held
      exact .through refers held (ih fun c there => same c (.through refers held there))

/-- The container holds itself at some depth. -/
def Cyclic (h : Heap) (c : Container) : Prop :=
  ∃ key v, (key, v) ∈ h.entries c ∧ h.Leads v c

end Leads

end Heap

end GuardedExpr
