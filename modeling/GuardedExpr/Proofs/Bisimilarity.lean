import Mathlib
import GuardedExpr.Heap.Equality
import GuardedExpr.Proofs.Contents
import GuardedExpr.Proofs.Floats

/-!
# Equality is bisimilarity

Equality of values is the greatest relation under which related scalars are
equal, related functions are one function, and related containers are one
container or have the same shape and related contents. The walk takes a pair
that it meets again for related: a pair that is related once it is assumed to be
related is related without the assumption, so nothing is lost when the walk
forgets its way.
-/

namespace GuardedExpr

namespace Heap

section Shape

/-- Both are equal scalars, or one function, or one container, or containers of one kind and shape
whose contents are related. -/
inductive Matches (h : Heap) (R : Value → Value → Prop) : Value → Value → Prop where
  | undefined : h.Matches R .undefined .undefined
  | null : h.Matches R .null .null
  | bool (b : Bool) : h.Matches R (.bool b) (.bool b)
  | number {x y : Float} (equal : (x == y) = true) : h.Matches R (.number x) (.number y)
  | string (s : String) : h.Matches R (.string s) (.string s)
  | function {f g : Function} (identity : f.id = g.id) : h.Matches R (.function f) (.function g)
  | sameArray (a : ArrayRef) : h.Matches R (.array a) (.array a)
  | sameObject (o : ObjectRef) : h.Matches R (.object o) (.object o)
  | arrays {a b : ArrayRef} (sizes : (h.items a).size = (h.items b).size)
      (items : ∀ (i : Nat) v w, (h.items a)[i]? = some v → (h.items b)[i]? = some w → R v w) :
      h.Matches R (.array a) (.array b)
  | objects {o p : ObjectRef} (kinds : o.kind = p.kind)
      (keys : ∀ key, key ∈ h.properties o ↔ key ∈ h.properties p)
      (properties : ∀ (key : String) v w, (h.properties o)[key]? = some v →
        (h.properties p)[key]? = some w → R v w) :
      h.Matches R (.object o) (.object p)

/-- Related values match, up to the relation itself. -/
def IsBisimulation (h : Heap) (R : Value → Value → Prop) : Prop :=
  ∀ x y, R x y → h.Matches R x y

variable {h : Heap} {R S : Value → Value → Prop}

theorem Matches.mono (mono : ∀ v w, R v w → S v w) {x y : Value} (same : h.Matches R x y) :
    h.Matches S x y := by
  cases same with
  | undefined => exact .undefined
  | null => exact .null
  | bool b => exact .bool b
  | number equal => exact .number equal
  | string s => exact .string s
  | function identity => exact .function identity
  | sameArray a => exact .sameArray a
  | sameObject o => exact .sameObject o
  | arrays sizes items =>
      exact .arrays sizes fun i v w found found' => mono v w (items i v w found found')
  | objects kinds keys properties =>
      exact .objects kinds keys fun key v w found found' =>
        mono v w (properties key v w found found')

theorem Matches.symm {x y : Value} (same : h.Matches R x y) :
    h.Matches (fun v w => R w v) y x := by
  cases same with
  | undefined => exact .undefined
  | null => exact .null
  | bool b => exact .bool b
  | number equal => exact .number (Number.beq_symm equal)
  | string s => exact .string s
  | function identity => exact .function identity.symm
  | sameArray a => exact .sameArray a
  | sameObject o => exact .sameObject o
  | arrays sizes items =>
      exact .arrays sizes.symm fun i v w found found' => items i w v found' found
  | objects kinds keys properties =>
      exact .objects kinds.symm (fun key => (keys key).symm) fun key v w found found' =>
        properties key w v found' found

/-- What matches through a third value holds values that are related through a third, or directly
where the third value is one of the two. -/
theorem Matches.trans {x y z : Value} (first : h.Matches R x y) (second : h.Matches S y z) :
    h.Matches (fun v w => R v w ∨ S v w ∨ ∃ u, R v u ∧ S u w) x z := by
  have left (v w : Value) (related : R v w) : R v w ∨ S v w ∨ ∃ u, R v u ∧ S u w := .inl related
  have right (v w : Value) (related : S v w) : R v w ∨ S v w ∨ ∃ u, R v u ∧ S u w :=
    .inr (.inl related)
  cases first with
  | undefined | null | bool _ | string _ | sameArray _ | sameObject _ => exact second.mono right
  | number equal =>
      cases second with
      | number equal' => exact .number (Number.beq_trans equal equal')
  | function identity =>
      cases second with
      | function identity' => exact .function (identity.trans identity')
  | arrays sizes items =>
      cases second with
      | sameArray =>
          exact .arrays sizes fun i v w found found' => left v w (items i v w found found')
      | arrays sizes' items' =>
          refine .arrays (sizes.trans sizes') fun i v w found found'' => .inr (.inr ?_)
          obtain ⟨within, _⟩ := Array.getElem?_eq_some_iff.mp found
          have found' := Array.getElem?_eq_getElem (sizes ▸ within)
          exact ⟨_, items i v _ found found', items' i _ w found' found''⟩
  | objects kinds keys properties =>
      cases second with
      | sameObject =>
          exact .objects kinds keys fun key v w found found' =>
            left v w (properties key v w found found')
      | objects kinds' keys' properties' =>
          refine .objects (kinds.trans kinds') (fun key => (keys key).trans (keys' key))
            fun key v w found found'' => .inr (.inr ?_)
          have there := (keys key).mp (Std.TreeMap.mem_iff_isSome_getElem?.mpr (by rw [found]; rfl))
          have found' := Std.TreeMap.getElem?_eq_some_getElem there
          exact ⟨_, properties key v _ found found', properties' key _ w found' found''⟩

theorem getElem?_entries_array (a : ArrayRef) (i : Nat) :
    (h.entries (.array a))[i]? = ((h.items a)[i]?).map fun v => (indexText i, v) := by
  simp [entries, Option.map_map, Function.comp_def]

/-- The entries of two arrays are related when their items are. -/
theorem forall₂_entries_array {a b : ArrayRef} :
    List.Forall₂ (SameEntry R) (h.entries (.array a)) (h.entries (.array b)) ↔
      (h.items a).size = (h.items b).size ∧
        ∀ (i : Nat) v w, (h.items a)[i]? = some v → (h.items b)[i]? = some w → R v w := by
  have size (a : ArrayRef) : (h.entries (.array a)).length = (h.items a).size := by
    simp [entries]
  rw [forall₂_iff_getElem?, size, size]
  refine and_congr_right fun _ => forall_congr' fun i => ?_
  rw [getElem?_entries_array, getElem?_entries_array]
  cases (h.items a)[i]? <;> cases (h.items b)[i]? <;> simp [SameEntry]

/-- The entries of two objects are related when the objects have the same keys and related values
under them. -/
theorem forall₂_entries_object {o p : ObjectRef} :
    List.Forall₂ (SameEntry R) (h.entries (.object o)) (h.entries (.object p)) ↔
      (∀ key, key ∈ h.properties o ↔ key ∈ h.properties p) ∧
        ∀ (key : String) v w, (h.properties o)[key]? = some v →
          (h.properties p)[key]? = some w → R v w := by
  rw [forall₂_sameEntry_iff (h.sorted_entries_object o) (h.sorted_entries_object p)]
  simp only [mem_keys_entries_object, mem_entries_object]

/-- Two containers match when they are one, or of one kind and with matching entries. -/
theorem matches_value_iff {c d : Container} : h.Matches R c.value d.value ↔
    c = d ∨ c.sameKind d = true ∧ List.Forall₂ (SameEntry R) (h.entries c) (h.entries d) := by
  constructor
  · intro same
    cases c with
    | array a =>
        cases d with
        | array b =>
            rw [forall₂_entries_array]
            cases same with
            | sameArray => exact .inl rfl
            | arrays sizes items => exact .inr ⟨rfl, sizes, items⟩
        | object p => cases same
    | object o =>
        cases d with
        | array b => cases same
        | object p =>
            rw [forall₂_entries_object]
            cases same with
            | sameObject => exact .inl rfl
            | objects kinds keys properties =>
                exact .inr ⟨beq_iff_eq.mpr kinds, keys, properties⟩
  · rintro (rfl | ⟨kinds, contents⟩)
    · cases c with
      | array a => exact .sameArray a
      | object o => exact .sameObject o
    · cases c with
      | array a =>
          cases d with
          | array b =>
              obtain ⟨sizes, items⟩ := forall₂_entries_array.mp contents
              exact .arrays sizes items
          | object p => cases kinds
      | object o =>
          cases d with
          | array b => cases kinds
          | object p =>
              obtain ⟨keys, properties⟩ := forall₂_entries_object.mp contents
              exact .objects (beq_iff_eq.mp kinds) keys properties

end Shape

section Walk

variable {h : Heap} {way : List (Container × Container)} {x y : Value} {c d : Container}

/-- What holds of the contents of two containers with the pair on the way holds of the pair. -/
theorem walk_induction (h : Heap) {motive : List (Container × Container) → Value → Value → Prop}
    (scalar : ∀ way x y, x.container? = none ∨ y.container? = none → motive way x y)
    (container : ∀ way c d, (c ≠ d → c.sameKind d = true → (c, d) ∉ way →
      ∀ e f, (e, f) ∈ (h.entries c).zip (h.entries d) → motive ((c, d) :: way) e.2 f.2) →
      motive way c.value d.value)
    (way : List (Container × Container)) (x y : Value) : motive way x y := by
  have entered {way x y c d} (left : x.container? = some c) (right : y.container? = some d)
      (contents : c ≠ d → c.sameKind d = true → (c, d) ∉ way →
        ∀ e f, (e, f) ∈ (h.entries c).zip (h.entries d) → motive ((c, d) :: way) e.2 f.2) :
      motive way x y := by
    rw [Value.container?_eq_some.mp left, Value.container?_eq_some.mp right]
    exact container way c d contents
  induction way, x, y using equalOn.induct h with
  | case1 way x y right left => exact scalar way x y (.inl left)
  | case2 way x y c right left => exact entered left right fun different => absurd rfl different
  | case3 way x y c d right left _ kinds =>
      exact entered left right fun _ same => absurd kinds (by simp [same])
  | case4 way x y c d right left _ _ met => exact entered left right fun _ _ new => absurd met new
  | case5 way x y c d right left _ _ _ ih => exact entered left right fun _ _ _ => ih
  | case6 way x y scalars containers =>
      apply scalar
      cases left : x.container? with
      | none => exact .inl rfl
      | some c =>
          cases right : y.container? with
          | none => exact .inr rfl
          | some d => exact (containers c d left right).elim

/-- The walk compares containers by their entries, with the pair itself taken for equal. -/
theorem equalOn_value_iff : h.equalOn way c.value d.value = true ↔
    c = d ∨ c.sameKind d = true ∧ ((c, d) ∈ way ∨
      List.Forall₂ (SameEntry fun v w => h.equalOn ((c, d) :: way) v w = true)
        (h.entries c) (h.entries d)) := by
  rw [equalOn, Value.container?_eq_some.mpr rfl, Value.container?_eq_some.mpr rfl,
    List.forall₂_iff_zip]
  by_cases same : c = d
  · simp [same]
  by_cases kinds : c.sameKind d = true
  · by_cases met : (c, d) ∈ way
    · simp [same, kinds, met]
    · simp [same, kinds, met, SameEntry]
  · simp [same, kinds]

/-- The walk compares by value where it cannot go on. -/
theorem equalOn_scalar_iff {R : Value → Value → Prop}
    (scalar : x.container? = none ∨ y.container? = none) :
    h.equalOn way x y = true ↔ h.Matches R x y := by
  have walked : h.equalOn way x y = x.equalScalar y := by
    rw [equalOn]
    cases x <;> cases y <;> simp [Value.container?, Value.equalScalar] at scalar ⊢
  rw [walked]
  constructor
  · intro equal
    unfold Value.equalScalar at equal
    split at equal
    · exact .undefined
    · exact .null
    · exact beq_iff_eq.mp equal ▸ .bool _
    · exact .number equal
    · exact beq_iff_eq.mp equal ▸ .string _
    · exact .function (beq_iff_eq.mp equal)
    · cases equal
  · intro same
    cases same with
    | undefined | null => rfl
    | bool b => exact beq_self_eq_true b
    | number equal => exact equal
    | string s => exact beq_self_eq_true s
    | function identity => exact beq_iff_eq.mpr identity
    | sameArray | sameObject | arrays | objects => simp [Value.container?] at scalar

/-- **Related values are equal.** The walk finds no difference between values that are related by a
bisimulation, whatever is on its way. -/
theorem equalOn_of_isBisimulation {R : Value → Value → Prop} (bisimulation : h.IsBisimulation R)
    (way : List (Container × Container)) (x y : Value) (related : R x y) :
    h.equalOn way x y = true := by
  induction way, x, y using walk_induction h with
  | scalar way x y scalar => exact (equalOn_scalar_iff scalar).mpr (bisimulation x y related)
  | container way c d ih =>
      rw [equalOn_value_iff]
      rcases matches_value_iff.mp (bisimulation _ _ related) with same | ⟨kinds, contents⟩
      · exact .inl same
      by_cases same : c = d
      · exact .inl same
      by_cases met : (c, d) ∈ way
      · exact .inr ⟨kinds, .inl met⟩
      obtain ⟨length, contents⟩ := List.forall₂_iff_zip.mp contents
      refine .inr ⟨kinds, .inr (List.forall₂_iff_zip.mpr ⟨length, ?_⟩)⟩
      intro e f member
      obtain ⟨key, values⟩ := contents member
      exact ⟨key, ih same kinds met e f member values⟩

/-- The pair of values is a pair of containers on the way. -/
def OnWay (way : List (Container × Container)) (x y : Value) : Prop :=
  ∃ c d, (c, d) ∈ way ∧ x = c.value ∧ y = d.value

/-- The values are related by what is a bisimulation once the pairs on the way count as related. -/
def RelatedBeside (h : Heap) (way : List (Container × Container)) (x y : Value) : Prop :=
  ∃ R : Value → Value → Prop,
    (∀ v w, R v w → h.Matches (fun v w => R v w ∨ OnWay way v w) v w) ∧ R x y

theorem RelatedBeside.of_matches (same : h.Matches (fun _ _ => False) x y) :
    h.RelatedBeside way x y :=
  ⟨h.Matches fun _ _ => False, fun _ _ same => same.mono fun _ _ never => never.elim, same⟩

/-- **A pair may assume itself.** Containers that are related once they count as related are related
without that. -/
theorem RelatedBeside.of_matches_cons
    (same : h.Matches (fun v w => h.RelatedBeside ((c, d) :: way) v w ∨ OnWay ((c, d) :: way) v w)
      c.value d.value) : h.RelatedBeside way c.value d.value := by
  let R v w := h.RelatedBeside ((c, d) :: way) v w ∨ v = c.value ∧ w = d.value
  have assumed {v w} (onWay : OnWay ((c, d) :: way) v w) : R v w ∨ OnWay way v w := by
    obtain ⟨c', d', met, left, right⟩ := onWay
    rcases List.mem_cons.mp met with here | earlier
    · cases here
      exact .inl (.inr ⟨left, right⟩)
    · exact .inr ⟨c', d', earlier, left, right⟩
  refine ⟨R, ?_, .inr ⟨rfl, rfl⟩⟩
  rintro v w (⟨S, closed, related⟩ | ⟨rfl, rfl⟩)
  · apply (closed v w related).mono
    rintro v w (related | onWay)
    · exact .inl (.inl ⟨S, closed, related⟩)
    · exact assumed onWay
  · apply same.mono
    rintro v w (related | onWay)
    · exact .inl (.inl related)
    · exact assumed onWay

/-- **Equal values are related**, with the pairs on the way. -/
theorem relatedBeside_of_equalOn (way : List (Container × Container)) (x y : Value)
    (equal : h.equalOn way x y = true) : h.RelatedBeside way x y ∨ OnWay way x y := by
  induction way, x, y using walk_induction h with
  | scalar way x y scalar => exact .inl (.of_matches ((equalOn_scalar_iff scalar).mp equal))
  | container way c d ih =>
      by_cases same : c = d
      · exact .inl (.of_matches (matches_value_iff.mpr (.inl same)))
      by_cases met : (c, d) ∈ way
      · exact .inr ⟨c, d, met, rfl, rfl⟩
      rcases equalOn_value_iff.mp equal with same' | ⟨kinds, met' | contents⟩
      · exact absurd same' same
      · exact absurd met' met
      obtain ⟨length, contents⟩ := List.forall₂_iff_zip.mp contents
      refine .inl (.of_matches_cons (matches_value_iff.mpr (.inr ⟨kinds, ?_⟩)))
      refine List.forall₂_iff_zip.mpr ⟨length, ?_⟩
      intro e f member
      obtain ⟨key, values⟩ := contents member
      exact ⟨key, ih same kinds met e f member values⟩

end Walk

section Equality

variable {h : Heap} {x y z : Value}

theorem equal_of_isBisimulation {R : Value → Value → Prop} (bisimulation : h.IsBisimulation R)
    (related : R x y) : h.equal x y = true :=
  equalOn_of_isBisimulation bisimulation [] x y related

theorem isBisimulation_equal : h.IsBisimulation fun x y => h.equal x y = true := by
  intro x y equal
  rcases relatedBeside_of_equalOn [] x y equal with ⟨R, closed, related⟩ | ⟨c, d, met, _⟩
  · have bisimulation : h.IsBisimulation R := by
      intro v w related
      apply (closed v w related).mono
      rintro v w (related | ⟨c, d, met, _⟩)
      · exact related
      · cases met
    exact (bisimulation x y related).mono fun v w => equal_of_isBisimulation bisimulation
  · cases met

theorem equal_of_matches (same : h.Matches (fun _ _ => False) x y) : h.equal x y = true :=
  equal_of_isBisimulation (fun _ _ same => same.mono fun _ _ never => never.elim) same

theorem equal_symm (equal : h.equal x y = true) : h.equal y x = true :=
  equal_of_isBisimulation (R := fun x y => h.equal y x = true)
    (fun _ _ equal => (isBisimulation_equal _ _ equal).symm) equal

theorem equal_trans (first : h.equal x y = true) (second : h.equal y z = true) :
    h.equal x z = true := by
  let R x z := h.equal x z = true ∨ ∃ y, h.equal x y = true ∧ h.equal y z = true
  have bisimulation : h.IsBisimulation R := by
    rintro x z (equal | ⟨y, first, second⟩)
    · exact (isBisimulation_equal x z equal).mono fun v w => .inl
    · apply ((isBisimulation_equal x y first).trans (isBisimulation_equal y z second)).mono
      rintro v w (equal | equal | through)
      · exact .inl equal
      · exact .inl equal
      · exact .inr through
  exact equal_of_isBisimulation bisimulation (.inr ⟨y, first, second⟩)

theorem equal_self_iff : h.equal x x = true ↔ ∀ f, x = .number f → f.isNaN = false := by
  constructor
  · rintro equal f rfl
    cases isBisimulation_equal _ _ equal with
    | number equal => exact (Number.beq_iff.mp equal).1
  · intro number
    apply equal_of_matches
    cases x with
    | undefined => exact .undefined
    | null => exact .null
    | bool b => exact .bool b
    | number f => exact .number (Number.beq_self (number f rfl))
    | string s => exact .string s
    | array a => exact .sameArray a
    | object o => exact .sameObject o
    | function f => exact .function rfl

end Equality

end Heap

/-- **Equality is the greatest bisimulation.** On every heap, with cycles and shared containers,
equality is a bisimulation and holds of whatever any bisimulation relates. Hence it is symmetric and
transitive, and every value but NaN equals itself. -/
theorem isGreatest_equal (h : Heap) :
    IsGreatest {R | h.IsBisimulation R} (fun x y => h.equal x y = true) ∧
      (∀ x y, h.equal x y = true → h.equal y x = true) ∧
      (∀ x y z, h.equal x y = true → h.equal y z = true → h.equal x z = true) ∧
      ∀ x, h.equal x x = true ↔ ∀ f, x = .number f → f.isNaN = false := by
  refine ⟨⟨Heap.isBisimulation_equal, ?_⟩, fun x y => Heap.equal_symm,
    fun x y z => Heap.equal_trans, fun x => Heap.equal_self_iff⟩
  intro R bisimulation x y related
  exact Heap.equal_of_isBisimulation bisimulation related

/-- Two objects, each of which holds itself. -/
def selfHolders : Heap :=
  (Heap.empty.setProperty ⟨0, .plain⟩ "me" (.object ⟨0, .plain⟩)).setProperty
    ⟨1, .plain⟩ "me" (.object ⟨1, .plain⟩)

theorem isGreatest_equal_selfHolders :
    selfHolders.equal (.object ⟨0, .plain⟩) (.object ⟨1, .plain⟩) = true := by
  let R (x y : Value) := x = .object ⟨0, .plain⟩ ∧ y = .object ⟨1, .plain⟩
  have bisimulation : selfHolders.IsBisimulation R := by
    have unset (o : ObjectRef) (key : String) : (Heap.empty.properties o)[key]? = none := rfl
    have found (o : ObjectRef) (key : String) : (selfHolders.properties o)[key]? =
        if o = ⟨1, .plain⟩ ∧ key = "me" then some (.object ⟨1, .plain⟩)
        else if o = ⟨0, .plain⟩ ∧ key = "me" then some (.object ⟨0, .plain⟩) else none := by
      simp only [selfHolders, Heap.getElem?_properties_setProperty, unset]
    rintro x y ⟨rfl, rfl⟩
    refine .objects rfl ?_ ?_
    · intro key
      simp [Std.TreeMap.mem_iff_isSome_getElem?, found]
    · intro key v w
      simp only [found]
      by_cases me : key = "me"
      · simpa [me, R] using fun left right => ⟨left.symm, right.symm⟩
      · simp [me]
  exact (isGreatest_equal selfHolders).1.2 bisimulation _ _ ⟨rfl, rfl⟩

end GuardedExpr
