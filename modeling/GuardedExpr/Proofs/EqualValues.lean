import GuardedExpr.Proofs.Bisimilarity
import GuardedExpr.Proofs.Unfolding

/-!
# Equal values look alike

Equal values cannot be told apart by their types, truth, documents, texts and
numbers, but for the signs of zeros. If a value unfolds to a tree, every value
that equals it unfolds to a tree of the same shape, whose leaves are equal; where
the walks of the document and of the text do not meet themselves, they give what
the tree gives.
-/

namespace GuardedExpr

namespace Number

/-- The number, without a sign if it is zero. -/
def unsigned (x : Float) : Float :=
  if x == 0.0 then 0.0 else x

theorem text_eq_of_beq {x y : Float} (equal : (x == y) = true) : text x = text y :=
  eq_of_beq text (by decide) equal

end Number

namespace Json

mutual

/-- The document with all zeros without a sign. -/
def unsigned : Json → Json
  | .float x => .float (Number.unsigned x)
  | .array items => .array (unsignedItems items)
  | .object members => .object (unsignedMembers members)
  | j => j

def unsignedItems : List Json → List Json
  | [] => []
  | item :: items => item.unsigned :: unsignedItems items

def unsignedMembers : List (String × Json) → List (String × Json)
  | [] => []
  | (key, member) :: members => (key, member.unsigned) :: unsignedMembers members

end

end Json

namespace Unfolding

mutual

/-- The text of the tree among the items of an array. -/
def itemText : Unfolding → String
  | leaf v => if v.isNullish then "" else v.scalarText
  | array items => ",".intercalate (itemTexts items)
  | object _ => "[object Object]"

def itemTexts : List Unfolding → List String
  | [] => []
  | item :: items => item.itemText :: itemTexts items

end

theorem itemTexts_eq_map (items : List Unfolding) : itemTexts items = items.map itemText := by
  induction items with
  | nil => rfl
  | cons item items ih => rw [itemTexts, ih, List.map_cons]

/-- The trees have one document, up to the signs of zeros, and one text if the functions in them
have one name each. -/
structure Alike (Named : Prop) (t t' : Unfolding) : Prop where
  document : t.json?.map Json.unsigned = t'.json?.map Json.unsigned
  text : Named → t.itemText = t'.itemText

variable {Named : Prop} {items items' : List Unfolding}
  {members members' : List (String × Unfolding)}

theorem Alike.refl (t : Unfolding) : Alike Named t t :=
  ⟨rfl, fun _ => rfl⟩

theorem Alike.mono {Named' : Prop} {t t' : Unfolding} (imp : Named' → Named)
    (alike : Alike Named t t') : Alike Named' t t' :=
  ⟨alike.document, fun named => alike.text (imp named)⟩

/-- Where one has no document, neither has the other. -/
theorem Alike.getD {t t' : Unfolding} (alike : Alike Named t t') :
    (t.json?.getD .null).unsigned = (t'.json?.getD .null).unsigned := by
  have document := congrArg (fun j => j.getD (Json.unsigned .null)) alike.document
  rwa [Option.getD_map, Option.getD_map] at document

theorem alike_array (all : List.Forall₂ (Alike Named) items items') :
    Alike Named (.array items) (.array items') where
  document := by
    have documents : Json.unsignedItems (jsonOfItems items) =
        Json.unsignedItems (jsonOfItems items') := by
      induction all with
      | nil => rfl
      | cons first _ ih => simp only [jsonOfItems, Json.unsignedItems, first.getD, ih]
    simp only [json?, Option.map_some, Json.unsigned, documents]
  text named := by
    have texts : itemTexts items = itemTexts items' := by
      induction all with
      | nil => rfl
      | cons first _ ih => simp only [itemTexts, first.text named, ih]
    simp only [itemText, texts]

theorem alike_object (all : List.Forall₂ (SameEntry (Alike Named)) members members') :
    Alike Named (.object members) (.object members') where
  document := by
    have documents : Json.unsignedMembers (jsonOfMembers members) =
        Json.unsignedMembers (jsonOfMembers members') := by
      induction all with
      | nil => rfl
      | @cons m m' _ _ first _ ih =>
          obtain ⟨key, t⟩ := m
          obtain ⟨key', t'⟩ := m'
          obtain ⟨rfl, alike⟩ := first
          have document := alike.document
          simp only [jsonOfMembers]
          cases found : t.json? <;> cases found' : t'.json? <;> rw [found, found'] at document
          · exact ih
          · cases document
          · cases document
          · simp only [Json.unsignedMembers, ih, Option.some.inj document]
    simp only [json?, Option.map_some, Json.unsigned, documents]
  text _ := rfl

end Unfolding

/-- Lists that are related to a third one place by place are related through its elements. -/
theorem forall₂_through {α β γ : Type} {R : α → β → Prop} {S : α → γ → Prop} {l : List α}
    {m : List β} {n : List γ} (left : List.Forall₂ R l m) (right : List.Forall₂ S l n) :
    List.Forall₂ (fun b c => b ∈ m ∧ ∃ a ∈ l, R a b ∧ S a c) m n := by
  induction left generalizing n with
  | nil =>
      cases right
      exact .nil
  | cons first rest ih =>
      cases right with
      | cons first' rest' =>
          refine .cons ⟨List.mem_cons_self, _, List.mem_cons_self, first, first'⟩ ?_
          refine (ih rest').imp fun b c through => ?_
          obtain ⟨there, a, member, both⟩ := through
          exact ⟨List.mem_cons_of_mem _ there, a, List.mem_cons_of_mem _ member, both⟩

namespace Heap

/-- The value is the function, or holds it at some depth. -/
inductive Holds (h : Heap) (f : Function) : Value → Prop where
  | here : h.Holds f (.function f)
  | through {v w : Value} {c : Container} {key : String} (refers : v.container? = some c)
      (held : (key, w) ∈ h.entries c) (holds : h.Holds f w) : h.Holds f v

/-- In the two values, one identity is one function: each is given out once. -/
def IdentifiesFunctions (h : Heap) (x y : Value) : Prop :=
  ∀ f g, h.Holds f x → h.Holds g y → f.id = g.id → f = g

/-- The values cannot be told apart, but for the signs of zeros. Without a cycle, this goes for
their texts and numbers too. -/
structure LooksAlike (h : Heap) (x y : Value) : Prop where
  typeName : x.typeName = y.typeName
  isTruthy : x.isTruthy = y.isTruthy
  document : (h.toJson x).map Json.unsigned = (h.toJson y).map Json.unsigned
  text : (∀ c, h.Leads x c → ¬ h.Cyclic c) → h.IdentifiesFunctions x y → h.text x = h.text y
  number : (∀ c, h.Leads x c → ¬ h.Cyclic c) → h.IdentifiesFunctions x y →
    Number.Agree (h.number x) (h.number y)

variable {h : Heap} {x y v w : Value} {c d : Container} {key key' : String}

theorem IdentifiesFunctions.through (identifies : h.IdentifiesFunctions x y)
    (refers : x.container? = some c) (held : (key, v) ∈ h.entries c)
    (refers' : y.container? = some d) (held' : (key', w) ∈ h.entries d) :
    h.IdentifiesFunctions v w := by
  intro f g holds holds'
  exact identifies f g (.through refers held holds) (.through refers' held' holds')

section Trees

variable {way : List Container} {tree : Unfolding}

/-- The text of an item is that of its tree, if it does not lead back to the way. -/
theorem Unfolds.itemText_eq (unfolds : h.Unfolds v tree) (free : ∀ c ∈ way, ¬ h.Leads v c) :
    h.itemText way v = tree.itemText := by
  induction unfolds generalizing way with
  | @leaf v plain =>
      cases v with
      | array a => cases plain
      | _ => rfl
  | @array a items size each ih =>
      have here : ∀ e ∈ h.entries (.array a), ∀ c ∈ .array a :: way, ¬ h.Leads e.2 c := by
        intro e held c met leads
        have through : h.Leads (.array a) c := .through rfl held leads
        rcases List.mem_cons.mp met with rfl | met
        · exact (Unfolds.array size each).not_cyclic through ⟨e.1, e.2, held, leads⟩
        · exact free c met through
      have new : .array a ∉ way := fun met => free _ met (.here rfl)
      have texts : (h.entries (.array a)).map (fun e => h.itemText (.array a :: way) e.2) =
          items.map Unfolding.itemText := by
        rw [← List.forall₂_eq_eq_eq, List.forall₂_map_left_iff, List.forall₂_map_right_iff,
          forall₂_iff_getElem?]
        refine ⟨size, fun i e item place found => ?_⟩
        exact ih i e item place found (here e (List.mem_of_getElem? place))
      change h.joinText way a = _
      rw [joinText_of_not_mem new, ← entries_array_map_snd, List.map_map, Unfolding.itemText,
        Unfolding.itemTexts_eq_map, ← texts]
      rfl
  | object => rfl

theorem Unfolds.itemText_nil (unfolds : h.Unfolds v tree) : h.itemText [] v = tree.itemText :=
  unfolds.itemText_eq fun _ met => absurd met List.not_mem_nil

theorem text_eq_itemText (value : v.isNullish = false) : h.text v = h.itemText [] v := by
  cases v with
  | undefined => cases value
  | null => cases value
  | _ => rfl

/-- Equal scalars are trees that look alike. -/
theorem alike_leaf {R : Value → Value → Prop} (plain : x.container? = none)
    (same : h.Matches R x y) :
    Unfolding.Alike (h.IdentifiesFunctions x y) (.leaf x) (.leaf y) := by
  cases same with
  | undefined => exact .refl _
  | null => exact .refl _
  | bool b => exact .refl _
  | number equal =>
      constructor
      · let document (x : Float) := (Unfolding.leaf (.number x)).json?.map Json.unsigned
        exact Number.eq_of_beq document rfl equal
      · intro _
        exact Number.text_eq_of_beq equal
  | string s => exact .refl _
  | @function f g identity =>
      refine ⟨rfl, fun identifies => ?_⟩
      rw [identifies f g .here .here identity]
  | sameArray => cases plain
  | sameObject => cases plain
  | arrays => cases plain
  | objects => cases plain

/-- Whatever equals the value unfolds to a tree that is like this one. -/
def UnfoldsLike (h : Heap) (x : Value) (tree : Unfolding) : Prop :=
  ∀ y, h.equal x y = true →
    ∃ tree', h.Unfolds y tree' ∧ tree.Alike (h.IdentifiesFunctions x y) tree'

/-- The functions in entries are among those in the containers. -/
theorem UnfoldsLike.entry {e f : String × Value} (like : h.UnfoldsLike e.2 tree)
    (same : h.equal e.2 f.2 = true) (refers : x.container? = some c) (held : e ∈ h.entries c)
    (refers' : y.container? = some d) (held' : f ∈ h.entries d) :
    ∃ tree', h.Unfolds f.2 tree' ∧ tree.Alike (h.IdentifiesFunctions x y) tree' := by
  obtain ⟨tree', unfolds, alike⟩ := like f.2 same
  exact ⟨tree', unfolds, alike.mono fun identifies => identifies.through refers held refers' held'⟩

/-- **What equals a value unfolds like it.** By induction on its tree. -/
theorem Unfolds.like (unfolds : h.Unfolds x tree) : h.UnfoldsLike x tree := by
  induction unfolds with
  | leaf plain =>
      intro y equal
      have same := isBisimulation_equal _ y equal
      refine ⟨.leaf y, .leaf ?_, alike_leaf plain same⟩
      cases same <;> first | rfl | cases plain
  | @array a items size each ih =>
      intro y equal
      cases isBisimulation_equal _ y equal with
      | sameArray => exact ⟨.array items, .array size each, .refl _⟩
      | @arrays _ b sizes related =>
          have equals := forall₂_entries_array.mpr ⟨sizes, related⟩
          have like : List.Forall₂ (fun e item => h.UnfoldsLike e.2 item) (h.entries (.array a))
              items := forall₂_iff_getElem?.mpr ⟨size, ih⟩
          have each' : List.Forall₂ (fun f item => ∃ item', h.Unfolds f.2 item' ∧
              item.Alike (h.IdentifiesFunctions (.array a) (.array b)) item')
              (h.entries (.array b)) items := by
            refine (forall₂_through equals like).imp fun f item through => ?_
            obtain ⟨held', e, held, same, like⟩ := through
            exact like.entry same.2 rfl held rfl held'
          obtain ⟨items', unfolds', alike⟩ := exists_between each'
          exact ⟨.array items', unfolds_array_of_forall₂ unfolds',
            Unfolding.alike_array alike.flip⟩
  | @object o members keys each ih =>
      intro y equal
      cases isBisimulation_equal _ y equal with
      | sameObject => exact ⟨.object members, .object keys each, .refl _⟩
      | @objects _ p kinds names related =>
          have equals := forall₂_entries_object.mpr ⟨names, related⟩
          have like : List.Forall₂ (SameEntry h.UnfoldsLike) (h.entries (.object o)) members := by
            refine forall₂_iff_getElem?.mpr ⟨by simpa using congrArg List.length keys, ?_⟩
            intro i e m place found
            exact ⟨fst_eq_of_map_eq keys place found, ih i e m place found⟩
          have each' : List.Forall₂ (fun f m => ∃ m', SameEntry h.Unfolds f m' ∧
              SameEntry (Unfolding.Alike (h.IdentifiesFunctions (.object o) (.object p))) m m')
              (h.entries (.object p)) members := by
            refine (forall₂_through equals like).imp fun f m through => ?_
            obtain ⟨held', e, held, same, key, like⟩ := through
            obtain ⟨tree', unfolds', alike⟩ :=
              like.entry (x := .object o) (y := .object p) same.2 rfl held rfl held'
            exact ⟨(f.1, tree'), ⟨rfl, unfolds'⟩, key.symm.trans same.1, alike⟩
          obtain ⟨members', unfolds', alike⟩ := exists_between each'
          exact ⟨.object members', unfolds_object_of_forall₂ unfolds',
            Unfolding.alike_object alike.flip⟩

end Trees

section Equal

/-- What equals a value that unfolds does so too. -/
theorem exists_unfolds_of_equal (equal : h.equal x y = true)
    (unfolding : ∃ tree, h.Unfolds x tree) : ∃ tree, h.Unfolds y tree := by
  obtain ⟨tree, unfolds⟩ := unfolding
  obtain ⟨tree', unfolds', _⟩ := unfolds.like y equal
  exact ⟨tree', unfolds'⟩

/-- A value has a document when what equals it has one, and the documents are equal up to the signs
of zeros. -/
theorem document_eq_of_equal (equal : h.equal x y = true) :
    (h.toJson x).map Json.unsigned = (h.toJson y).map Json.unsigned := by
  have endless {v : Value} (none : ¬ ∃ tree, h.Unfolds v tree) : h.toJson v = .none := by
    rcases unfolds_or_cyclic h v with ⟨tree, unfolds, _⟩ | ⟨none', _⟩
    · exact absurd ⟨tree, unfolds⟩ none
    · exact none'
  by_cases unfolding : ∃ tree, h.Unfolds x tree
  · obtain ⟨tree, unfolds⟩ := unfolding
    obtain ⟨tree', unfolds', alike⟩ := unfolds.like y equal
    rw [unfolds.toJson_eq, unfolds'.toJson_eq, alike.document]
  · have endless' : ¬ ∃ tree, h.Unfolds y tree := fun unfolding' =>
      unfolding (exists_unfolds_of_equal (equal_symm equal) unfolding')
    rw [endless unfolding, endless endless']

/-- Without a cycle, equal values have one text. -/
theorem text_eq_of_equal (equal : h.equal x y = true)
    (acyclic : ∀ c, h.Leads x c → ¬ h.Cyclic c) (identifies : h.IdentifiesFunctions x y) :
    h.text x = h.text y := by
  have same := isBisimulation_equal x y equal
  cases value : x.isNullish with
  | true => cases same <;> first | rfl | cases value
  | false =>
      have value' : y.isNullish = false := by
        cases same <;> first | rfl | cases value
      obtain ⟨tree, unfolds⟩ := (exists_unfolds_iff h x).mpr acyclic
      obtain ⟨tree', unfolds', alike⟩ := unfolds.like y equal
      rw [text_eq_itemText value, text_eq_itemText value', unfolds.itemText_nil,
        unfolds'.itemText_nil, alike.text identifies]

/-- Arrays with equal items have numbers that agree: there is no item, or many, or the numbers are
those of one text. -/
theorem number_agree_of_arrays {a b : ArrayRef} (sizes : (h.items a).size = (h.items b).size)
    (texts : ∀ v w, (h.items a).toList = [v] → (h.items b).toList = [w] → h.text v = h.text w) :
    Number.Agree (h.number (.array a)) (h.number (.array b)) := by
  have lengths : (h.items a).toList.length = (h.items b).toList.length := sizes
  unfold number
  rcases left : (h.items a).toList with _ | ⟨v, _ | ⟨v', vs⟩⟩ <;>
    rcases right : (h.items b).toList with _ | ⟨w, _ | ⟨w', ws⟩⟩ <;>
    simp only [left, right, List.length_nil, List.length_cons] at lengths ⊢
  · exact .refl _
  · omega
  · omega
  · omega
  · rw [texts v w left right]
    exact .refl _
  · omega
  · omega
  · omega
  · exact .refl _

theorem number_agree_of_equal (equal : h.equal x y = true)
    (acyclic : ∀ c, h.Leads x c → ¬ h.Cyclic c) (identifies : h.IdentifiesFunctions x y) :
    Number.Agree (h.number x) (h.number y) := by
  cases isBisimulation_equal x y equal with
  | undefined | null | bool _ | string _ | sameArray _ | sameObject _ => exact .refl _
  | number same => exact .inl same
  | function _ => exact .refl _
  | objects => exact .refl _
  | @arrays a b sizes related =>
      refine number_agree_of_arrays sizes fun v w only only' => ?_
      have held {a : ArrayRef} {v : Value} (only : (h.items a).toList = [v]) :
          h.entries (.array a) = [(indexText 0, v)] := by
        rw [entries, only]
        rfl
      have equals := forall₂_entries_array.mpr ⟨sizes, related⟩
      rw [held only, held only'] at equals
      obtain ⟨⟨_, equal⟩, _⟩ := List.forall₂_cons.mp equals
      have there : (indexText 0, v) ∈ h.entries (.array a) := held only ▸ List.mem_singleton_self _
      have there' : (indexText 0, w) ∈ h.entries (.array b) :=
        held only' ▸ List.mem_singleton_self _
      exact text_eq_of_equal equal (fun c leads => acyclic c (.through rfl there leads))
        (identifies.through rfl there rfl there')

end Equal

end Heap

/-- **Equal values look alike.** On every heap, with cycles and shared containers, values that are
equal have one type and one truth value, and both have no document or they have one up to the signs
of zeros. If a value leads to no cycle and no identity stands for two functions, what equals it has
its text and its number. -/
theorem looksAlike_of_equal (h : Heap) (x y : Value) (equal : h.equal x y = true) :
    h.LooksAlike x y where
  typeName := by
    cases Heap.isBisimulation_equal x y equal <;> rfl
  isTruthy := by
    cases Heap.isBisimulation_equal x y equal with
    | number same => exact Number.eq_of_beq (fun x => (Value.number x).isTruthy) rfl same
    | _ => rfl
  document := Heap.document_eq_of_equal equal
  text := Heap.text_eq_of_equal equal
  number := Heap.number_agree_of_equal equal

/-- Two lists of one zero each, with either sign, have different documents and one text. -/
theorem looksAlike_of_equal_zeros :
    ∃ (h : Heap) (x y : Value), h.equal x y = true ∧ h.LooksAlike x y ∧
      h.toJson x = some (.array [.float 0.0]) ∧ h.toJson y = some (.array [.float (-0.0)]) ∧
      h.text x = h.text y ∧ Number.Agree (h.number x) (h.number y) := by
  let h : Heap := (Heap.empty.setItems ⟨0⟩ #[.number 0.0]).setItems ⟨1⟩ #[.number (-0.0)]
  let x : Value := .array ⟨0⟩
  let y : Value := .array ⟨1⟩
  have items : h.items ⟨0⟩ = #[.number 0.0] := by
    simp only [h, Heap.items_setItems_of_ne _ _ (by decide : (⟨1⟩ : ArrayRef) ≠ ⟨0⟩),
      Heap.items_setItems_self]
  have items' : h.items ⟨1⟩ = #[.number (-0.0)] := by
    simp only [h, Heap.items_setItems_self]
  have entries : h.entries (.array ⟨0⟩) = [("0", .number 0.0)] := by
    rw [Heap.entries, items]
    rfl
  have entries' : h.entries (.array ⟨1⟩) = [("0", .number (-0.0))] := by
    rw [Heap.entries, items']
    rfl
  have unfolds : h.Unfolds x (.array [.leaf (.number 0.0)]) :=
    Heap.unfolds_array_of_forall₂ (entries ▸ .cons (.leaf rfl) .nil)
  have unfolds' : h.Unfolds y (.array [.leaf (.number (-0.0))]) :=
    Heap.unfolds_array_of_forall₂ (entries' ▸ .cons (.leaf rfl) .nil)
  let R (v w : Value) := v = x ∧ w = y ∨ v = .number 0.0 ∧ w = .number (-0.0)
  have bisimulation : h.IsBisimulation R := by
    rintro _ _ (⟨rfl, rfl⟩ | ⟨rfl, rfl⟩)
    · have related : List.Forall₂ (SameEntry R) (h.entries (.array ⟨0⟩))
          (h.entries (.array ⟨1⟩)) := by
        rw [entries, entries']
        exact .cons ⟨rfl, .inr ⟨rfl, rfl⟩⟩ .nil
      obtain ⟨sizes, items⟩ := Heap.forall₂_entries_array.mp related
      exact .arrays sizes items
    · exact .number (by decide)
  have equal : h.equal x y = true := Heap.equal_of_isBisimulation bisimulation (.inl ⟨rfl, rfl⟩)
  have alike := looksAlike_of_equal h x y equal
  have acyclic : ∀ c, h.Leads x c → ¬ h.Cyclic c :=
    (Heap.exists_unfolds_iff h x).mp ⟨_, unfolds⟩
  have identifies : h.IdentifiesFunctions x y := by
    intro f g holds
    change h.Holds f (.array ⟨0⟩) at holds
    cases holds with
    | through refers held holds =>
        obtain rfl := Option.some.inj refers
        rw [entries] at held
        cases List.mem_singleton.mp held
        cases holds with
        | through refers => cases refers
  refine ⟨h, x, y, equal, alike, ?_, ?_, alike.text acyclic identifies,
    alike.number acyclic identifies⟩
  · exact unfolds.toJson_eq
  · exact unfolds'.toJson_eq

end GuardedExpr
