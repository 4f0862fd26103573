import GuardedExpr.Proofs.Contents
import GuardedExpr.Proofs.Nearest
import GuardedExpr.Proofs.Spelling

/-!
# Members of strings

A string is read by UTF-16 units, although it is kept as characters. Its length
counts units, and every index below the length has one character for its member.
A character below U+10000 is one unit and stands at one index; any other is a
pair of surrogates and stands at two, each of which reads as U+FFFD. So reading
all indices in order gives the string back but for these characters.
-/

namespace GuardedExpr

namespace Text

/-- How many units a string has: one for each character below U+10000 and two for any other. -/
def unitCount (s : String) : Nat :=
  (s.toList.map fun c => if c.toNat < 0x10000 then 1 else 2).sum

/-- What is read of a character, unit by unit. -/
def halved (c : Char) : List Char :=
  if c.toNat < 0x10000 then [c] else ['\uFFFD', '\uFFFD']

theorem length_unitsOf (s : String) : (unitsOf s.toList).length = unitCount s := by
  rw [unitsOf, List.length_flatMap, unitCount]
  simp only [length_units]

theorem unitChar_toNat (c : Char) : unitChar c.toNat = c := by
  rw [unitChar, scalar?_toNat, Option.getD_some]

/-- Half of a pair is no character. -/
theorem unitChar_of_surrogate {unit : Nat} (least : 0xd800 ≤ unit) (greatest : unit ≤ 0xdfff) :
    unitChar unit = '\uFFFD' := by
  have none : scalar? unit = none := by
    unfold scalar?
    rw [if_neg]
    simp only [Bool.or_eq_true, Bool.and_eq_true, decide_eq_true_eq]
    omega
  rw [unitChar, none, Option.getD_none]

theorem map_unitChar_units (c : Char) : (units c).map unitChar = halved c := by
  unfold halved
  rcases Nat.lt_or_ge c.toNat 0x10000 with small | large
  · rw [units_of_lt small, if_pos small, List.map_singleton, unitChar_toNat]
  · have valid : c.toNat < 0xd800 ∨ 0xdfff < c.toNat ∧ c.toNat < 0x110000 := c.valid
    have high : unitChar (0xd800 + (c.toNat - 0x10000) / 0x400) = '\uFFFD' :=
      unitChar_of_surrogate (by omega) (by omega)
    have low : unitChar (0xdc00 + (c.toNat - 0x10000) % 0x400) = '\uFFFD' :=
      unitChar_of_surrogate (by omega) (by omega)
    rw [units_of_le large, if_neg (Nat.not_lt.mpr large), List.map_cons, List.map_singleton, high,
      low]

/-- The units of a string, each read alone, are its characters read unit by unit. -/
theorem map_unitChar_unitsOf (s : List Char) :
    (unitsOf s).map unitChar = s.flatMap halved := by
  rw [unitsOf, List.map_flatMap]
  simp only [map_unitChar_units]

end Text

open Text

/-- The member under an index is the unit there, read alone. -/
theorem stringMember_of_index {s key : String} {i : Nat} (indexed : indexOfText? key = some i) :
    stringMember s key =
      (((unitsOf s.toList).map unitChar)[i]?.map fun c => .string (String.singleton c)).getD
        .undefined := by
  have other : key ≠ "length" := by
    rintro rfl
    cases indexed
  unfold stringMember
  rw [if_neg other, indexed, Option.bind_some, List.getElem?_map]
  cases (unitsOf s.toList)[i]? <;> rfl

/-- A key that is neither that of the length nor an index below it has no member. -/
theorem stringMember_of_other {s : String} {key : String} (noLength : key ≠ "length")
    (noIndex : ∀ i < unitCount s, key ≠ indexText i) : stringMember s key = .undefined := by
  unfold stringMember
  rw [if_neg noLength]
  cases indexed : indexOfText? key with
  | none => rfl
  | some i =>
      have beyond : (unitsOf s.toList)[i]? = none := by
        rw [List.getElem?_eq_none_iff, length_unitsOf]
        by_contra within
        exact noIndex i (Nat.lt_of_not_le within) (indexOfText?_eq_some_iff.mp indexed).1
      rw [Option.bind_some, beyond]

/-- The members of a string, as they are read in a heap. -/
structure ReadsUnits (h : Heap) (s : String) : Prop where
  /-- The length is the number of units, as a float: the nearest one, and no other number as long as
  floats have all natural numbers. -/
  length : (h.readMember (.string s) "length").1 = .number (Number.ofNat (unitCount s))
  nearest : Number.Nearest (unitCount s) (Number.ofNat (unitCount s))
  exact : unitCount s ≤ 2 ^ 53 → Number.value (Number.ofNat (unitCount s)) = unitCount s
  item : ∀ i < unitCount s, ∃ c : Char,
    (h.readMember (.string s) (indexText i)).1 = .string (String.singleton c)
  other : ∀ key, key ≠ "length" → (∀ i < unitCount s, key ≠ indexText i) →
    (h.readMember (.string s) key).1 = .undefined
  /-- The members under all indices, in order, are the string with U+FFFD twice in place of every
  character that is not a single unit. -/
  joined : String.join ((List.range (unitCount s)).map fun i =>
      (h.readMember (.string s) (indexText i)).1.scalarText) =
    String.ofList (s.toList.flatMap fun c =>
      if c.toNat < 0x10000 then [c] else ['\uFFFD', '\uFFFD'])

/-- **Strings are read by units.** The length of a string counts UTF-16 units, every index below it
has one character for its member and no other key has any, and the members in order spell the
string, with U+FFFD for each half of a pair. Indices are below `2 ^ 64`, and no string that fits a
memory has more units. -/
theorem readsUnits {s : String} (fits : unitCount s ≤ indexLimit) (h : Heap) :
    ReadsUnits h s := by
  have chars : ((unitsOf s.toList).map unitChar).length = unitCount s := by
    rw [List.length_map, length_unitsOf]
  have member (i : Nat) (within : i < ((unitsOf s.toList).map unitChar).length) :
      stringMember s (indexText i) =
        .string (String.singleton ((unitsOf s.toList).map unitChar)[i]) := by
    have indexed : indexOfText? (indexText i) = some i :=
      indexOfText?_eq_some_iff.mpr ⟨rfl, by omega⟩
    rw [stringMember_of_index indexed, List.getElem?_eq_getElem within]
    rfl
  constructor
  case length =>
    change stringMember s "length" = _
    rw [stringMember, if_pos rfl, length_unitsOf]
  case nearest =>
    have nearest := Number.nearest_ofRatio (r := .ofNat (unitCount s)) Nat.one_pos
    rwa [Number.Ratio.value, Number.Ratio.ofNat, Nat.cast_one, div_one] at nearest
  case exact => exact fun small => Number.value_ofNat small
  case item => exact fun i below => ⟨_, member i (chars ▸ below)⟩
  case other => exact fun key noLength noIndex => stringMember_of_other noLength noIndex
  case joined =>
    have texts : ((List.range (unitCount s)).map fun i =>
        (stringMember s (indexText i)).scalarText) =
          ((unitsOf s.toList).map unitChar).map String.singleton := by
      apply List.ext_getElem
      · rw [List.length_map, List.length_map, List.length_range, chars]
      · intro i left right
        rw [List.length_map] at right
        rw [List.getElem_map, List.getElem_map, List.getElem_range, member i right]
        rfl
    change String.join ((List.range (unitCount s)).map fun i =>
      (stringMember s (indexText i)).scalarText) = String.ofList (s.toList.flatMap halved)
    rw [texts, ← map_unitChar_unitsOf]
    apply String.toList_injective
    rw [String.toList_join, String.toList_ofList, List.flatMap_map]
    simp

/-- A letter, a pair and a letter: the pair has two indices, and the last letter the third. -/
theorem readsUnits_pair : unitCount "a😀b" ≤ indexLimit ∧
    (Heap.empty.readMember (.string "a😀b") "length").1 = .number (Number.ofNat 4) ∧
    (Heap.empty.readMember (.string "a😀b") "04").1 = .undefined ∧
    String.join ((List.range 4).map fun i =>
      (Heap.empty.readMember (.string "a😀b") (indexText i)).1.scalarText) = "a\uFFFD\uFFFDb" := by
  have count : unitCount "a😀b" = 4 := by decide
  have fits : unitCount "a😀b" ≤ indexLimit := by
    rw [count]
    decide
  have reads := readsUnits fits .empty
  have length := reads.length
  have joined := reads.joined
  rw [count] at length joined
  refine ⟨fits, length, reads.other _ (by decide) ?_, joined⟩
  rw [count]
  decide

end GuardedExpr
