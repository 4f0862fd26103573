import Mathlib
import GuardedExpr.Proofs.Contents
import GuardedExpr.Proofs.Floats
import GuardedExpr.Proofs.Numerals

/-!
# Numbers of containers

The number of a container is that of its text, with one exception. A text of two
items or more has a comma, the texts of objects and functions have brackets, and
no numeral has any of these. The text of an array with one item is the text of
this item: if the item leads back to the array, the walk stops one step earlier
or later at the same empty text. The exception is an array whose only item is
`undefined` or `null`: in the text of the array this item is empty, but alone it
is a word.
-/

namespace GuardedExpr

theorem Text.mem_trim {s : List Char} {c : Char} (there : c ∈ s) (visible : isBlank c = false) :
    c ∈ trim s := by
  have kept {l : List Char} (there : c ∈ l) : c ∈ l.dropWhile isBlank := by
    rw [← List.takeWhile_append_dropWhile (p := isBlank) (l := l), List.mem_append] at there
    rcases there with blank | rest
    · rw [List.mem_takeWhile_imp blank] at visible
      cases visible
    · exact rest
  unfold trim
  exact List.mem_reverse.mpr (kept (List.mem_reverse.mpr (kept there)))

namespace Number

/-- The character is a digit, a point, an exponent marker or a sign. -/
def isNumeral (c : Char) : Bool :=
  c.isDigit || c ∈ ['.', 'e', 'E', '+', '-']

section Numerals

variable {s : List Char} {c : Char}

theorem Digits.isNumeral (digits : Digits s) : ∀ c ∈ s, Number.isNumeral c = true := by
  intro c member
  rw [Number.isNumeral, digits c member, Bool.true_or]

theorem Exponent.isNumeral {exponent : Int} (written : Exponent s exponent) :
    ∀ c ∈ s, Number.isNumeral c = true := by
  have marks {mark : Char} (either : mark = 'e' ∨ mark = 'E') : Number.isNumeral mark = true := by
    rcases either with rfl | rfl <;> rfl
  cases written with
  | absent => exact nofun
  | unsigned either _ digits => exact List.forall_mem_cons.mpr ⟨marks either, digits.isNumeral⟩
  | plus either _ digits | minus either _ digits =>
      exact List.forall_mem_cons.mpr
        ⟨marks either, List.forall_mem_cons.mpr ⟨rfl, digits.isNumeral⟩⟩

/-- A numeral has nothing but the characters of numerals. -/
theorem Numeral.isNumeral {q : ℚ} (numeral : Numeral s q) : ∀ c ∈ s, Number.isNumeral c = true := by
  obtain ⟨mantissa, exponent⟩ := numeral
  refine List.forall_mem_append.mpr ⟨fun c member => ?_, exponent.isNumeral⟩
  rcases Bool.or_eq_true_iff.mp (mantissa.points c member) with point | digit
  · rw [beq_iff_eq.mp point]
    rfl
  · rw [Number.isNumeral, digit, Bool.true_or]

theorem isNumeral_of_readSignedNumeral? {x : Float} (read : readSignedNumeral? s = some x) :
    ∀ c ∈ s, isNumeral c = true := by
  have numeral {l : List Char} {d : Decimal} (read : Decimal.read? l = some d) :
      ∀ c ∈ l, isNumeral c = true := (numeral_of_read? read).isNumeral
  unfold readSignedNumeral? at read
  split at read
  · obtain ⟨d, read, _⟩ := Option.map_eq_some_iff.mp read
    exact List.forall_mem_cons.mpr ⟨rfl, numeral read⟩
  · obtain ⟨d, read, _⟩ := Option.map_eq_some_iff.mp read
    exact List.forall_mem_cons.mpr ⟨rfl, numeral read⟩
  · obtain ⟨d, read, _⟩ := Option.map_eq_some_iff.mp read
    exact numeral read

theorem ofText_empty : ofText "" = 0.0 := by
  decide

/-- A text with a character that no number has is not a number. -/
theorem ofText_eq_nan {text : String} (there : c ∈ text.toList) (visible : Text.isBlank c = false)
    (foreign : isNumeral c = false) (noLetter : c ∉ "Infinity".toList) : ofText text = nan := by
  have kept : c ∈ Text.trim text.toList := Text.mem_trim there visible
  have noSign : c ≠ '+' ∧ c ≠ '-' := by
    constructor
    · rintro rfl
      cases foreign
    · rintro rfl
      cases foreign
  unfold ofText
  dsimp only
  rw [if_neg, if_neg, if_neg]
  · cases read : readSignedNumeral? (Text.trim text.toList) with
    | none => rfl
    | some x =>
        rw [isNumeral_of_readSignedNumeral? read c kept] at foreign
        cases foreign
  · intro same
    rw [same] at kept
    exact (List.mem_cons.mp kept).elim noSign.2 noLetter
  · rintro (same | same)
    · rw [same] at kept
      exact noLetter kept
    · rw [same] at kept
      exact (List.mem_cons.mp kept).elim noSign.1 noLetter
  · intro empty
    rw [List.isEmpty_iff.mp empty] at kept
    cases kept

end Numerals

end Number

namespace Heap

variable {h : Heap} {a b : ArrayRef} {v : Value}

/-- The array has one item, and this is `undefined` or `null`. -/
def HoldsOneNullish (h : Heap) (v : Value) : Prop :=
  ∃ a item, v = .array a ∧ (h.items a).toList = [item] ∧ item.isNullish = true

theorem text_array (h : Heap) (a : ArrayRef) :
    h.text (.array a) = ",".intercalate ((h.items a).toList.map (h.itemText [.array a])) :=
  joinText_of_not_mem List.not_mem_nil

theorem text_array_of_only (only : (h.items a).toList = [v]) :
    h.text (.array a) = h.itemText [.array a] v := by
  rw [text_array, only, List.map_singleton, String.intercalate_singleton]

/-- **Only one way back.** If the array has another one as its only item, then inside that other
one it makes no difference whether it is on the way: it has no text either way. -/
theorem joinText_eq_of_only (only : (h.items a).toList = [.array b]) (way : List Container)
    (c : ArrayRef) (way' : List Container) (around : .array b ∈ way)
    (ways : ∀ d, d ∈ way' ↔ d = .array a ∨ d ∈ way) :
    h.joinText way c = h.joinText way' c := by
  induction way, c using Heap.joinText.induct h generalizing way' with
  | case1 way c met =>
      have met' : .array c ∈ way' := (ways _).mpr (.inr met)
      rw [joinText, joinText, if_pos met, if_pos met']
  | case2 way c new ih =>
      by_cases here : c = a
      · subst here
        have met' : .array c ∈ way' := (ways _).mpr (.inl rfl)
        have inner : h.joinText (.array c :: way) b = "" := by
          rw [joinText, if_pos (List.mem_cons_of_mem _ around)]
        rw [joinText_of_not_mem new, only, List.map_singleton, itemText, inner,
          String.intercalate_singleton, joinText, if_pos met']
      · have new' : .array c ∉ way' := by
          intro met
          rcases (ways _).mp met with same | met
          · exact here (Container.array.inj same)
          · exact new met
        rw [joinText_of_not_mem new, joinText_of_not_mem new']
        apply congrArg
        apply List.map_congr_left
        intro v held
        cases v with
        | array d =>
            refine ih d held _ (List.mem_cons_of_mem _ around) fun e => ?_
            simp only [List.mem_cons, ways]
            tauto
        | _ => rfl

/-- The text of an array is that of its only item, also if this is an array that leads back. -/
theorem text_of_only_array (only : (h.items a).toList = [.array b]) :
    h.text (.array a) = h.text (.array b) := by
  by_cases same : b = a
  · rw [same]
  · have new : .array b ∉ [Container.array a] := fun met =>
      same (Container.array.inj (List.mem_singleton.mp met))
    rw [text_array_of_only only, itemText, joinText_of_not_mem new, text_array]
    apply congrArg
    apply List.map_congr_left
    intro v held
    cases v with
    | array d =>
        refine (joinText_eq_of_only only _ d _ List.mem_cons_self fun e => ?_).symm
        simp only [List.mem_cons, List.not_mem_nil, or_false]
        tauto
    | _ => rfl

theorem text_of_only (only : (h.items a).toList = [v]) (value : v.isNullish = false) :
    h.text (.array a) = h.text v := by
  cases v with
  | array b => exact text_of_only_array only
  | undefined => cases value
  | null => cases value
  | _ =>
      rw [text_array_of_only only]
      rfl

theorem text_of_only_nullish (only : (h.items a).toList = [v]) (nullish : v.isNullish = true) :
    h.text (.array a) = "" := by
  rw [text_array_of_only only]
  cases v with
  | undefined => rfl
  | null => rfl
  | _ => cases nullish

/-- With two items or more, a comma is in the text. -/
theorem ofText_text_of_many {w : Value} {vs : List Value}
    (items : (h.items a).toList = v :: w :: vs) :
    Number.ofText (h.text (.array a)) = Number.nan := by
  have comma : ',' ∈ (h.text (.array a)).toList := by
    rw [text_array, items, List.map_cons, List.map_cons, String.intercalate_cons_cons]
    simp
  exact Number.ofText_eq_nan comma (by decide) (by decide) (by decide)

theorem ofText_text_function (f : Function) :
    Number.ofText (h.text (.function f)) = Number.nan := by
  have bracket : '(' ∈ (h.text (.function f)).toList := by
    simp [text, Value.scalarText]
  exact Number.ofText_eq_nan bracket (by decide) (by decide) (by decide)

theorem ofText_text_object (o : ObjectRef) :
    Number.ofText (h.text (.object o)) = Number.nan := by
  have bracket : '[' ∈ (h.text (.object o)).toList := by
    simp [text, Value.scalarText]
  exact Number.ofText_eq_nan bracket (by decide) (by decide) (by decide)

/-- The number of an array by the number of its items: none, one that is not nullish, or more. -/
theorem number_array (other : ¬ h.HoldsOneNullish (.array a)) :
    h.number (.array a) = Number.ofText (h.text (.array a)) := by
  rcases items : (h.items a).toList with _ | ⟨item, _ | ⟨second, rest⟩⟩
  · rw [number, items, text_array, items, List.map_nil, String.intercalate_nil,
      Number.ofText_empty]
  · have value : item.isNullish = false := by
      apply Bool.eq_false_iff.mpr
      intro nullish
      exact other ⟨a, item, rfl, items, nullish⟩
    rw [number, items, text_of_only items value]
  · rw [number, items, ofText_text_of_many items]

/-- Alone, `undefined` and `null` are words. -/
theorem number_of_only_nullish (only : (h.items a).toList = [v]) (nullish : v.isNullish = true) :
    h.number (.array a) = Number.nan := by
  rw [number, only]
  cases v with
  | undefined => exact (by decide : Number.ofText "undefined" = Number.nan)
  | null => exact (by decide : Number.ofText "null" = Number.nan)
  | _ => cases nullish

end Heap

/-- **The number of a container is that of its text.** On every heap, with cycles and shared
containers, an array, an object or a function has the number that its text denotes. Only an array
whose one item is `undefined` or `null` is no number, while its text is empty and denotes zero. -/
theorem number_eq_ofText_text (h : Heap) (v : Value) (container : v.isScalar = false) :
    (¬ h.HoldsOneNullish v → h.number v = Number.ofText (h.text v)) ∧
      (h.HoldsOneNullish v →
        h.number v = Number.nan ∧ h.text v = "" ∧ Number.ofText (h.text v) = 0.0) := by
  constructor
  · intro other
    cases v with
    | array a => exact Heap.number_array other
    | object o => exact (Heap.ofText_text_object o).symm
    | function f => exact (Heap.ofText_text_function f).symm
    | _ => cases container
  · intro one
    obtain ⟨a, item, rfl, only, nullish⟩ := one
    have empty : h.text (.array a) = "" := Heap.text_of_only_nullish only nullish
    refine ⟨Heap.number_of_only_nullish only nullish, empty, ?_⟩
    rw [empty, Number.ofText_empty]

/-- Two lists, of which each is the only item of the other, have no text, so their number is
zero. -/
theorem number_eq_ofText_text_cycle :
    ∃ (h : Heap) (v : Value), v.isScalar = false ∧ ¬ h.HoldsOneNullish v ∧
      h.number v = Number.ofText (h.text v) ∧ h.text v = "" ∧ h.number v = 0.0 := by
  let h : Heap := (Heap.empty.setItems ⟨0⟩ #[.array ⟨1⟩]).setItems ⟨1⟩ #[.array ⟨0⟩]
  let v : Value := .array ⟨0⟩
  have items : (h.items ⟨0⟩).toList = [.array ⟨1⟩] := by
    cbv
  have other : ¬ h.HoldsOneNullish v := by
    rintro ⟨a, item, same, only, nullish⟩
    obtain rfl : a = ⟨0⟩ := (Value.array.inj same).symm
    rw [items] at only
    cases only
    cases nullish
  have text : h.text v = "" := by
    cbv
  have number := (number_eq_ofText_text h v rfl).1 other
  refine ⟨h, v, rfl, other, number, text, ?_⟩
  rw [number, text, Number.ofText_empty]

/-- A list of `null` alone is no number, although its text denotes zero. -/
theorem exists_number_not_agree_ofText_text :
    ∃ (h : Heap) (v : Value), v.isScalar = false ∧
      ¬ Number.Agree (h.number v) (Number.ofText (h.text v)) := by
  let h : Heap := Heap.empty.setItems ⟨0⟩ #[.null]
  have items : (h.items ⟨0⟩).toList = [.null] := by
    cbv
  refine ⟨h, .array ⟨0⟩, rfl, ?_⟩
  rw [Heap.number_of_only_nullish items rfl, Heap.text_of_only_nullish items rfl,
    Number.ofText_empty]
  unfold Number.Agree
  decide

end GuardedExpr
