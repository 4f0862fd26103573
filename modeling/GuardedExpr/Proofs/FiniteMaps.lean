import GuardedExpr.Proofs.ChainAssignment

/-!
# Containers as finite maps

Whatever is stored into a container, and in whatever order, reading a key gives
what was stored under it last. A key has a slot of its own: in an object every
text is one, in an array the text of an index is. A store under any other key
of an array fails and changes nothing. The length of an array lies outside the
map: it is no key that can be stored under, and grows with the indices that are.
-/

namespace GuardedExpr

open Run

namespace Container

/-- The key is one that the container stores under. -/
def Accepts : Container → String → Prop
  | array _, key => ∃ i < indexLimit, key = indexText i
  | object _, _ => True

/-- The key tells how many items the container has. -/
def IsLength : Container → String → Prop
  | array _, key => key = "length"
  | object _, _ => False

variable {c : Container} {key key' : String} {slot : Slot}

theorem accepts_iff : c.Accepts key ↔ ∃ slot, c.slot? key = some slot := by
  cases c with
  | object o => exact iff_of_true trivial ⟨.member key, rfl⟩
  | array a =>
      constructor
      · intro accepted
        obtain ⟨i, below, rfl⟩ := accepted
        have indexed := indexOfText?_eq_some_iff.mpr ⟨rfl, below⟩
        exact ⟨.item i, congrArg (Option.map Slot.item) indexed⟩
      · intro named
        obtain ⟨slot, named⟩ := named
        obtain ⟨i, indexed, _⟩ := Option.map_eq_some_iff.mp named
        obtain ⟨same, below⟩ := indexOfText?_eq_some_iff.mp indexed
        exact ⟨i, below, same⟩

/-- A slot that a key names is in range, unless an array takes it for its greatest index. -/
theorem inRange_of_slot? (named : c.slot? key = some slot)
    (spared : ∀ a, c = .array a → key ≠ indexText (indexLimit - 1)) : slot.inRange = true := by
  cases c with
  | object o =>
      obtain rfl := Option.some.inj named
      rfl
  | array a =>
      obtain ⟨i, indexed, rfl⟩ := Option.map_eq_some_iff.mp named
      obtain ⟨rfl, below⟩ := indexOfText?_eq_some_iff.mp indexed
      have notLast : i ≠ indexLimit - 1 := fun last => spared a rfl (congrArg indexText last)
      exact decide_eq_true (by omega)

/-- No two keys name one slot. -/
theorem slot?_injective (named : c.slot? key = some slot) (named' : c.slot? key' = some slot) :
    key = key' := by
  cases c with
  | object o =>
      obtain rfl := Option.some.inj named
      exact (Slot.member.inj (Option.some.inj named')).symm
  | array a =>
      obtain ⟨i, indexed, rfl⟩ := Option.map_eq_some_iff.mp named
      obtain ⟨j, indexed', same⟩ := Option.map_eq_some_iff.mp named'
      obtain rfl := Slot.item.inj same
      rw [(indexOfText?_eq_some_iff.mp indexed).1, (indexOfText?_eq_some_iff.mp indexed').1]

/-- A key without a slot that is not that of the length holds nothing. -/
theorem readMember_of_no_slot (h : Heap) (none : c.slot? key = none) (other : ¬c.IsLength key) :
    (h.readMember c.value key).1 = .undefined := by
  cases c with
  | object o => cases none
  | array a =>
      have indexed : indexOfText? key = .none := Option.map_eq_none_iff.mp none
      have notLength : key ≠ "length" := other
      change arrayMember (h.items a) key = .undefined
      unfold arrayMember
      rw [if_neg notLength, indexed]
      rfl

end Container

theorem indexText_injective : Function.Injective indexText := by
  intro i j same
  have digits : Number.digitsOf i = Number.digitsOf j := String.ofList_injective same
  calc i = Nat.ofDigitChars 10 (Number.digitsOf i) 0 := Nat.ofDigitChars_ten_toDigits.symm
    _ = Nat.ofDigitChars 10 (Number.digitsOf j) 0 := by rw [digits]
    _ = j := Nat.ofDigitChars_ten_toDigits

theorem size_storeItem (items : Array Value) (i : Nat) (v : Value) :
    (storeItem items i v).size = max items.size (i + 1) := by
  unfold storeItem
  rw [Array.size_setIfInBounds, Array.size_append, Array.size_replicate]
  omega

namespace Heap

variable {c : Container} {key key' : String} {slot : Slot}

/-- A stored value is read under its key, and every other key has what it had. -/
theorem readMember_putChild (h : Heap) (named : c.slot? key = some slot) (v : Value)
    (other : ¬c.IsLength key') :
    ((h.putChild c slot v).readMember c.value key').1 =
      if key' = key then v else (h.readMember c.value key').1 := by
  cases named' : c.slot? key' with
  | none =>
      have different : key' ≠ key := by
        rintro rfl
        rw [named] at named'
        cases named'
      rw [if_neg different, Container.readMember_of_no_slot _ named' other,
        Container.readMember_of_no_slot _ named' other]
  | some slot' =>
      rw [readMember_of_slot? named', readMember_of_slot? named',
        puts_putChild_of_slot? named v slot']
      by_cases same : key' = key
      · subst same
        obtain rfl := Option.some.inj (named.symm.trans named')
        rw [if_pos rfl, if_pos rfl]
        rfl
      · have apart : slot' ≠ slot := by
          rintro rfl
          exact same (Container.slot?_injective named' named)
        rw [if_neg apart, if_neg same]
        split
        · cases h.child? c slot' <;> rfl
        · rfl

/-- An array has its length and the texts of the indices below it. -/
theorem owns_array_iff (h : Heap) (a : ArrayRef) (key : String) :
    h.owns (.array a) key = true ↔
      key = "length" ∨ ∃ i < (h.items a).size, i < indexLimit ∧ key = indexText i := by
  simp only [owns, Bool.or_eq_true, beq_iff_eq, Option.any_eq_true, decide_eq_true_eq,
    indexOfText?_eq_some_iff]
  apply or_congr_right
  constructor
  · intro found
    obtain ⟨i, ⟨same, below⟩, within⟩ := found
    exact ⟨i, within, below, same⟩
  · intro found
    obtain ⟨i, within, below, same⟩ := found
    exact ⟨i, ⟨same, below⟩, within⟩

/-- An object has the keys of its entries. -/
theorem owns_object_iff (h : Heap) (o : ObjectRef) (key : String) :
    h.owns (.object o) key = true ↔ ∃ v, (key, v) ∈ h.entries (.object o) := by
  simp only [owns, mem_entries_object]
  rw [Std.TreeMap.contains_eq_isSome_getElem?, Option.isSome_iff_exists]

theorem owns_setProperty_iff (h : Heap) (o : ObjectRef) (key key' : String) (v : Value) :
    (h.setProperty o key v).owns (.object o) key' = true ↔
      h.owns (.object o) key' = true ∨ key' = key := by
  simp only [owns, setProperty, properties_setProperties_self, Std.TreeMap.contains_insert,
    Bool.or_eq_true, beq_iff_eq, Std.LawfulEqCmp.compare_eq_iff_eq]
  rw [or_comm, eq_comm (a := key)]

/-- The second heap is the first one after stores into a container, none of which fails. -/
inductive Stores (c : Container) : List (String × Value) → Heap → Heap → Prop where
  | nil {h : Heap} : Stores c [] h h
  | cons {key : String} {v : Value} {slot : Slot} {taken : List (String × Value)} {h h' : Heap}
      (named : c.slot? key = some slot) (inRange : slot.inRange = true)
      (rest : Stores c taken (h.putChild c slot v) h') :
      Stores c ((key, v) :: taken) h h'

/-- The size of the array is the greatest of what it was and of what each index that was stored
under needs. -/
def Lengthens (a : ArrayRef) (taken : List (String × Value)) (h h' : Heap) : Prop :=
  IsGreatest ({(h.items a).size} ∪ {n | ∃ i v, (indexText i, v) ∈ taken ∧ n = i + 1})
    (h'.items a).size

namespace Stores

variable {taken : List (String × Value)} {h h' : Heap}

/-- **The last store under a key is what it reads.** -/
theorem readMember (stored : Stores c taken h h') (other : ¬c.IsLength key) :
    (h'.readMember c.value key).1 =
      (taken.reverse.lookup key).getD (h.readMember c.value key).1 := by
  induction stored with
  | nil => rfl
  | @cons first v slot taken h h' named _ rest ih =>
      rw [ih, readMember_putChild h named v other, List.reverse_cons, List.lookup_append,
        Json.lookup_cons_eq_ite]
      cases taken.reverse.lookup key with
      | some u => rfl
      | none => split <;> rfl

theorem owns_iff {o : ObjectRef} (stored : Stores (.object o) taken h h') :
    h'.owns (.object o) key = true ↔
      h.owns (.object o) key = true ∨ ∃ v, (key, v) ∈ taken := by
  generalize same : Container.object o = c at stored
  induction stored with
  | nil => simp
  | @cons first v slot taken h h' named _ rest ih =>
      subst same
      obtain rfl : Slot.member first = slot := Option.some.inj named
      rw [ih]
      change (h.setProperty o first v).owns (.object o) key = true ∨ _ ↔ _
      rw [owns_setProperty_iff, or_assoc]
      apply or_congr_right
      simp [List.mem_cons, exists_or]

/-- The size of an array after stores is the greatest that any of them needs. -/
theorem lengthens {a : ArrayRef} (stored : Stores (.array a) taken h h') :
    Lengthens a taken h h' := by
  generalize same : Container.array a = c at stored
  induction stored with
  | nil =>
      refine ⟨.inl rfl, fun n member => ?_⟩
      rcases member with rfl | ⟨_, _, none, _⟩
      · exact Nat.le_refl _
      · cases none
  | @cons key v slot taken h h' named _ rest ih =>
      subst same
      obtain ⟨i, indexed, rfl⟩ := Option.map_eq_some_iff.mp named
      obtain ⟨rfl, below⟩ := indexOfText?_eq_some_iff.mp indexed
      obtain ⟨member, greatest⟩ := ih
      have size : ((h.putChild (.array a) (.item i) v).items a).size =
          max (h.items a).size (i + 1) := by
        rw [putChild, items_setItems_self, size_storeItem]
      rw [size] at member greatest
      constructor
      · rcases member with same | ⟨j, u, there, same⟩
        · rcases Nat.le_total (h.items a).size (i + 1) with le | le
          · exact .inr ⟨i, v, List.mem_cons_self, same.trans (Nat.max_eq_right le)⟩
          · exact .inl (same.trans (Nat.max_eq_left le))
        · exact .inr ⟨j, u, List.mem_cons_of_mem _ there, same⟩
      · have first := greatest (.inl rfl)
        intro n member
        rcases member with rfl | ⟨j, u, there, rfl⟩
        · exact Nat.le_trans (Nat.le_max_left _ _) first
        · rcases List.mem_cons.mp there with here | later
          · obtain rfl := indexText_injective (Prod.mk.inj here).1
            exact Nat.le_trans (Nat.le_max_right _ _) first
          · exact greatest (.inr ⟨j, u, later, rfl⟩)

theorem accepts (stored : Stores c taken h h') {v : Value} (member : (key, v) ∈ taken) :
    c.Accepts key := by
  induction stored with
  | nil => cases member
  | cons named _ rest ih =>
      rcases List.mem_cons.mp member with here | later
      · cases here
        exact Container.accepts_iff.mpr ⟨_, named⟩
      · exact ih later

end Stores

end Heap

section Runs

variable {σ : Type}

/-- Stores into a container, one store after the other, and goes on after one that fails: the stores
that succeed, and the world in the end. -/
def Access.storeEach (access : Access σ) (c : Container) :
    List (String × Value) → World σ → List (String × Value) × World σ
  | [], w => ([], w)
  | (key, v) :: stores, w =>
    match (access.write c.value key v).outcome w with
    | (.ok _, w) => ((key, v) :: (storeEach access c stores w).1, (storeEach access c stores w).2)
    | (.error _, w) => storeEach access c stores w

variable (run : Invocation → Run σ Value) {c : Container} {key : String} {slot : Slot}

theorem outcome_write_of_slot? (named : c.slot? key = some slot) (inRange : slot.inRange = true)
    (v : Value) (w : World σ) : ((Access.direct run).write c.value key v).outcome w =
      (.ok (), { w with heap := w.heap.putChild c slot v }) := by
  rw [Expr.outcome_write, Heap.writeMember_of_slot? named, if_pos inRange]

theorem outcome_write_of_not_inRange (named : c.slot? key = some slot)
    (outside : ¬slot.inRange = true) (v : Value) (w : World σ) :
    ((Access.direct run).write c.value key v).outcome w = (.error (.runtime .brokenOff), w) := by
  rw [Expr.outcome_write, Heap.writeMember_of_slot? named, if_neg outside]

theorem outcome_write_of_no_slot (none : c.slot? key = none) (v : Value) (w : World σ) :
    ((Access.direct run).write c.value key v).outcome w =
      (.error (.runtime (.cannotSetProperty key)), w) := by
  rw [Expr.outcome_write, Heap.writeMember_of_slot?_eq_none none]

/-- What is left in the end is what the stores that succeed leave. -/
theorem stores_storeEach (c : Container) (stores : List (String × Value)) (w : World σ) :
    Heap.Stores c ((Access.direct run).storeEach c stores w).1 w.heap
      ((Access.direct run).storeEach c stores w).2.heap ∧
    ((Access.direct run).storeEach c stores w).1 ⊆ stores := by
  induction stores generalizing w with
  | nil => exact ⟨.nil, List.Subset.refl _⟩
  | cons store stores ih =>
      obtain ⟨key, v⟩ := store
      unfold Access.storeEach
      cases named : c.slot? key with
      | none =>
          rw [outcome_write_of_no_slot run named]
          obtain ⟨stored, subset⟩ := ih w
          exact ⟨stored, List.subset_cons_of_subset _ subset⟩
      | some slot =>
          by_cases inRange : slot.inRange = true
          · rw [outcome_write_of_slot? run named inRange]
            obtain ⟨stored, subset⟩ := ih { w with heap := w.heap.putChild c slot v }
            exact ⟨.cons named inRange stored, List.cons_subset_cons _ subset⟩
          · rw [outcome_write_of_not_inRange run named inRange]
            obtain ⟨stored, subset⟩ := ih w
            exact ⟨stored, List.subset_cons_of_subset _ subset⟩

/-- A container through a sequence of stores, some of which may fail. -/
structure ActsAsMap (access : Access σ) (c : Container) (stores : List (String × Value))
    (w : World σ) : Prop where
  apart {key key' : String} {slot : Slot} (named : c.slot? key = some slot)
    (named' : c.slot? key' = some slot) : key = key'
  /-- No store is promised at the greatest index of an array, which has no length for it. -/
  succeeds {key : String} (accepted : c.Accepts key)
    (spared : ∀ a, c = .array a → key ≠ indexText (indexLimit - 1)) (v : Value) (u : World σ) :
    ((access.write c.value key v).outcome u).1 = .ok ()
  refuses {key : String} (refused : ¬c.Accepts key) (v : Value) (u : World σ) :
    (access.write c.value key v).outcome u = (.error (.runtime (.cannotSetProperty key)), u)
  /-- What is read is the value of the last store that succeeded under the key, or what was read
  before them all. -/
  reads {key : String} (other : ¬c.IsLength key) :
    ((access.storeEach c stores w).2.heap.readMember c.value key).1 =
      ((access.storeEach c stores w).1.reverse.lookup key).getD (w.heap.readMember c.value key).1
  ownEntries {o : ObjectRef} (kind : c = .object o) (key : String) (u : World σ) :
    u.heap.owns (.object o) key = true ↔ ∃ v, (key, v) ∈ u.heap.entries (.object o)
  ownKeys {o : ObjectRef} (kind : c = .object o) (key : String) :
    (access.storeEach c stores w).2.heap.owns (.object o) key = true ↔
      w.heap.owns (.object o) key = true ∨ ∃ v, (key, v) ∈ (access.storeEach c stores w).1
  lengthens {a : ArrayRef} (kind : c = .array a) :
    Heap.Lengthens a (access.storeEach c stores w).1 w.heap (access.storeEach c stores w).2.heap
  length {a : ArrayRef} (kind : c = .array a) :
    ((access.storeEach c stores w).2.heap.readMember (.array a) "length").1 =
      .number (Number.ofNat ((access.storeEach c stores w).2.heap.items a).size)
  ownIndices {a : ArrayRef} (kind : c = .array a) (key : String) :
    (access.storeEach c stores w).2.heap.owns (.array a) key = true ↔
      key = "length" ∨ ∃ i < ((access.storeEach c stores w).2.heap.items a).size,
        i < indexLimit ∧ key = indexText i
  /-- Without a store at the greatest index, an array keeps fewer items than there are indices. -/
  fits {a : ArrayRef} (kind : c = .array a) (before : (w.heap.items a).size < indexLimit)
    (spared : ∀ store ∈ stores, store.1 ≠ indexText (indexLimit - 1)) :
    ((access.storeEach c stores w).2.heap.items a).size < indexLimit

/-- **Containers are finite maps.** Whatever is stored into an object or an array, under whatever
keys and in whatever order, each key reads what was last stored under it, and otherwise what it read
before. An object takes every key, an array the texts of indices and no other; a store that is
refused changes nothing. An object owns the keys of its entries, which are those it had and those
stored under; an array owns its length and the indices below it, and the length is the greatest that
it was or that a stored index needs. -/
theorem actsAsMap_direct (run : Invocation → Run σ Value) (c : Container)
    (stores : List (String × Value)) (w : World σ) :
    ActsAsMap (Access.direct run) c stores w := by
  obtain ⟨stored, subset⟩ := stores_storeEach run c stores w
  constructor
  case apart => exact Container.slot?_injective
  case succeeds =>
    intro key accepted spared v u
    obtain ⟨slot, named⟩ := Container.accepts_iff.mp accepted
    rw [outcome_write_of_slot? run named (Container.inRange_of_slot? named spared)]
  case refuses =>
    intro key refused v u
    have none : c.slot? key = none := by
      by_contra named
      exact refused (Container.accepts_iff.mpr (Option.ne_none_iff_exists'.mp named))
    exact outcome_write_of_no_slot run none v u
  case reads => exact fun other => stored.readMember other
  case ownEntries => exact fun _ key u => u.heap.owns_object_iff _ key
  case ownKeys =>
    rintro o rfl key
    exact stored.owns_iff
  case lengthens =>
    rintro a rfl
    exact stored.lengthens
  case length => exact fun _ => rfl
  case ownIndices => exact fun _ key => Heap.owns_array_iff _ _ key
  case fits =>
    rintro a rfl before spared
    obtain ⟨size | ⟨i, v, there, size⟩, _⟩ := stored.lengthens
    · exact Nat.lt_of_le_of_lt (Nat.le_of_eq size) before
    · obtain ⟨j, below, same⟩ := stored.accepts there
      obtain rfl := indexText_injective same
      have other := spared _ (subset there)
      have notLast : i ≠ indexLimit - 1 := fun last => other (congrArg indexText last)
      omega

end Runs

end GuardedExpr
