import Mathlib
import GuardedExpr.Evaluator
import GuardedExpr.Proofs.ContainerNumbers
import GuardedExpr.Proofs.Numerals
import GuardedExpr.Proofs.Parsing
import GuardedExpr.Proofs.ShortestDecimals

/-!
# Written numbers

Wherever its point stands, a decimal is written as a numeral that denotes it.
So both readers of numerals, that of tokens and that of texts, read a written
number as the float nearest to the decimal, and for the shortest decimal of a
float that is the float itself.
-/

namespace GuardedExpr.Number

section Digits

variable {s : List Char} {c : Char}

theorem ofDigits_digitsOf (n : Nat) : ofDigits (digitsOf n) = n :=
  Nat.ofDigitChars_ten_toDigits

theorem digits_digitsOf (n : Nat) : Digits (digitsOf n) :=
  fun _ member => Nat.isDigit_of_mem_toDigits (by decide) (Nat.le_refl 10) member

theorem digitsOf_ne_nil (n : Nat) : digitsOf n ≠ [] :=
  List.ne_nil_of_length_pos (length_digitsOf_pos n)

theorem ofDigits_singleton (digit : c.isDigit = true) :
    ofDigits [c] < 10 ∧ digitsOf (ofDigits [c]) = [c] := by
  obtain ⟨lower, upper⟩ : 48 ≤ c.toNat ∧ c.toNat ≤ 57 := Char.isDigit_iff_toNat.mp digit
  have value : ofDigits [c] = c.toNat - 48 := Nat.zero_add _
  have small : ofDigits [c] < 10 := by omega
  refine ⟨small, ?_⟩
  rw [digitsOf, Nat.toDigits_of_lt_base small]
  congr 1
  rw [← Char.toNat_inj, Nat.toNat_digitChar_of_lt_ten small, value]
  omega

theorem ofDigits_cons (c : Char) (s : List Char) :
    ofDigits (c :: s) = ofDigits [c] * 10 ^ s.length + ofDigits s :=
  ofDigits_append [c] s

theorem ofDigits_pos (digits : Digits (c :: s)) (leading : c ≠ '0') : 0 < ofDigits (c :: s) := by
  obtain ⟨small, same⟩ := ofDigits_singleton (digits c List.mem_cons_self)
  have nonzero : 0 < ofDigits [c] := by
    apply Nat.pos_of_ne_zero
    intro zero
    rw [zero] at same
    exact leading (List.cons.inj same).1.symm
  rw [ofDigits_cons]
  positivity

theorem ofDigits_lt (digits : Digits s) : ofDigits s < 10 ^ s.length := by
  induction s with
  | nil => exact Nat.one_pos
  | cons c s ih =>
      obtain ⟨first, digits⟩ := List.forall_mem_cons.mp digits
      have small := (ofDigits_singleton first).1
      have later := ih digits
      calc ofDigits (c :: s) = ofDigits [c] * 10 ^ s.length + ofDigits s := ofDigits_cons c s
        _ < (ofDigits [c] + 1) * 10 ^ s.length := by linarith
        _ ≤ 10 * 10 ^ s.length := Nat.mul_le_mul_right _ small
        _ = 10 ^ (c :: s).length := by rw [List.length_cons, pow_succ, Nat.mul_comm]

/-- Digits without a leading zero are the digits of the number that they denote. -/
theorem digitsOf_ofDigits (digits : Digits (c :: s)) (leading : c ≠ '0') :
    digitsOf (ofDigits (c :: s)) = c :: s := by
  induction s using List.reverseRecOn with
  | nil => exact (ofDigits_singleton (digits c List.mem_cons_self)).2
  | append_singleton s last ih =>
      obtain ⟨before, ends⟩ := List.forall_mem_append.mp (show Digits ((c :: s) ++ [last]) from digits)
      obtain ⟨small, same⟩ := ofDigits_singleton (ends last List.mem_cons_self)
      have ahead := ih before
      have joined := Nat.toDigits_append_toDigits (b := 10) (by decide)
        (ofDigits_pos before leading) small
      rw [← List.cons_append, ofDigits_append, List.length_singleton, pow_one,
        Nat.mul_comm (ofDigits (c :: s))]
      unfold digitsOf at same ahead ⊢
      rw [← joined, ahead, same]

end Digits

section Layout

variable {s tail : List Char} {exponent : Int} {d : Decimal}

theorem Digits.take (digits : Digits s) (count : Nat) : Digits (s.take count) :=
  fun c member => digits c (List.mem_of_mem_take member)

theorem Digits.drop (digits : Digits s) (count : Nat) : Digits (s.drop count) :=
  fun c member => digits c (List.mem_of_mem_drop member)

theorem digits_replicate_zero (count : Nat) : Digits (List.replicate count '0') := by
  intro c member
  rw [List.eq_of_mem_replicate member]
  rfl

theorem ofDigits_replicate_zero (count : Nat) : ofDigits (List.replicate count '0') = 0 :=
  Nat.ofDigitChars_replicate_zero.trans (Nat.mul_zero _)

theorem take_ne_nil {count : Nat} (proper : s ≠ []) (positive : 0 < count) : s.take count ≠ [] := by
  have nonempty := List.length_pos_of_ne_nil proper
  exact List.ne_nil_of_length_pos (by rw [List.length_take]; omega)

/-- The digits and the point of a decimal, with a tail that makes up for the place of the point. -/
theorem Mantissa.numeral {mantissa whole fraction : List Char}
    (written : Mantissa mantissa whole fraction) (after : Exponent tail exponent)
    (same : ofDigits (whole ++ fraction) = d.significand)
    (place : exponent - fraction.length = d.exponent) : Numeral (mantissa ++ tail) d.value := by
  have value := value_of_digits whole fraction exponent
  rw [same, place] at value
  rw [value]
  exact .mk written after

/-- Digits without a point denote what they denote, times the power of ten of their zeros. -/
theorem numeral_of_zeros (digits : Digits s) (proper : s ≠ []) (count : Nat) :
    Mantissa (s ++ List.replicate count '0') (s ++ List.replicate count '0') [] ∧
      Numeral (s ++ List.replicate count '0') (ofDigits s * 10 ^ (count : Int)) := by
  have written : Mantissa (s ++ List.replicate count '0') (s ++ List.replicate count '0') [] :=
    .whole (List.append_ne_nil_of_left_ne_nil proper _) (digits.append (digits_replicate_zero count))
  have numeral := Numeral.mk written .absent
  rw [List.append_nil, ofDigits_append, ofDigits_replicate_zero, List.length_replicate] at numeral
  refine ⟨written, ?_⟩
  simpa [ofDigits] using numeral

/-- One digit before the point, or all of them if there is only one. -/
theorem mantissa_of_leading (digits : Digits s) (proper : s ≠ []) :
    Mantissa (s.take 1 ++ if s.length = 1 then [] else '.' :: s.drop 1) (s.take 1) (s.drop 1) := by
  split
  · next single =>
      rw [List.append_nil, List.drop_eq_nil_of_le single.le]
      exact .whole (take_ne_nil proper Nat.one_pos) (digits.take 1)
  · exact .pointed (take_ne_nil proper Nat.one_pos) (digits.take 1) (digits.drop 1)

theorem exponent_of_point (point : Int) :
    Exponent ('e' :: (if point ≤ 0 then '-' else '+') :: digitsOf (point - 1).natAbs) (point - 1) := by
  have digits := digits_digitsOf (point - 1).natAbs
  have proper := digitsOf_ne_nil (point - 1).natAbs
  have value := ofDigits_digitsOf (point - 1).natAbs
  split
  · have written := Exponent.minus (.inl rfl) proper digits
    rwa [value, show -((point - 1).natAbs : Int) = point - 1 by omega] at written
  · have written := Exponent.plus (.inl rfl) proper digits
    rwa [value, show ((point - 1).natAbs : Int) = point - 1 by omega] at written

/-- The text has nothing but digits and points. -/
def Plain (s : List Char) : Prop :=
  ∀ c ∈ s, (c == '.' || c.isDigit) = true

/-- **Layouts keep the number.** The written form of a decimal is a numeral that denotes it, and it
has no exponent exactly if the point is near the digits. -/
theorem numeral_decimal {l : Layout} (noTail : l.wholeTail = []) (left : l.leftmost ≤ 0)
    (right : 0 ≤ l.rightmost) (d : Decimal) :
    Numeral (l.decimal d) d.value ∧
      (Plain (l.decimal d) ↔ l.leftmost < d.point ∧ d.point ≤ l.rightmost) := by
  have all := digits_digitsOf d.significand
  have proper := digitsOf_ne_nil d.significand
  have value := ofDigits_digitsOf d.significand
  have nonempty := length_digitsOf_pos d.significand
  have alone {mantissa whole fraction : List Char} (written : Mantissa mantissa whole fraction)
      (same : ofDigits (whole ++ fraction) = d.significand)
      (place : -(fraction.length : Int) = d.exponent) : Numeral mantissa d.value := by
    have numeral := written.numeral .absent same (by omega)
    rwa [List.append_nil] at numeral
  unfold Layout.decimal Decimal.point
  dsimp only
  generalize digitsOf d.significand = digits at *
  generalize point_eq : (digits.length : Int) + d.exponent = point
  split
  · next whole =>
      obtain ⟨written, numeral⟩ :=
        numeral_of_zeros all proper (point - digits.length).toNat
      rw [noTail, List.append_nil]
      refine ⟨?_, iff_of_true written.points (by omega)⟩
      rwa [value, show ((point - digits.length).toNat : Int) = d.exponent by omega] at numeral
  split
  · next inside =>
      have written : Mantissa (digits.take point.toNat ++ '.' :: digits.drop point.toNat)
          (digits.take point.toNat) (digits.drop point.toNat) :=
        .pointed (take_ne_nil proper (by omega)) (all.take _) (all.drop _)
      refine ⟨alone written ?_ ?_, iff_of_true written.points (by omega)⟩
      · rw [List.take_append_drop, value]
      · rw [List.length_drop]
        omega
  split
  · next before =>
      have written : Mantissa ('0' :: '.' :: (List.replicate (-point).toNat '0' ++ digits))
          ['0'] (List.replicate (-point).toNat '0' ++ digits) :=
        .pointed (List.cons_ne_nil _ _) (.cons rfl .nil) ((digits_replicate_zero _).append all)
      refine ⟨alone written ?_ ?_, iff_of_true written.points (by omega)⟩
      · rw [ofDigits_append, ofDigits_append, ofDigits_replicate_zero, value]
        simp [ofDigits]
      · rw [List.length_append, List.length_replicate]
        omega
  · next far =>
      have written := mantissa_of_leading all proper
      refine ⟨written.numeral (exponent_of_point point) ?_ ?_, iff_of_false ?_ (by omega)⟩
      · rw [List.take_append_drop, value]
      · rw [List.length_drop]
        omega
      · exact fun plain => nomatch plain 'e' (List.mem_append_right _ List.mem_cons_self)

end Layout

section Readers

variable {s : List Char} {c : Char} {q : ℚ} {x : Float}

/-- The letters of numerals are marks of exponents, and none of their characters is blank. -/
theorem of_isNumeral (numeral : isNumeral c = true) :
    (c.isAlpha = true → c = 'e' ∨ c = 'E') ∧ Text.isBlank c = false := by
  unfold isNumeral at numeral
  rcases Bool.or_eq_true_iff.mp numeral with digit | other
  · obtain ⟨lower, upper⟩ : 48 ≤ c.toNat ∧ c.toNat ≤ 57 := Char.isDigit_iff_toNat.mp digit
    constructor
    · intro letter
      have := Lexer.sixtyFive_le_of_isAlpha letter
      omega
    · simp only [Text.isBlank, Bool.or_eq_false_iff, Bool.and_eq_false_iff, decide_eq_false_iff_not,
        beq_eq_false_iff_ne]
      omega
  · have other : c = '.' ∨ c = 'e' ∨ c = 'E' ∨ c = '+' ∨ c = '-' := by simpa using other
    rcases other with rfl | rfl | rfl | rfl | rfl <;> decide

theorem ofText_of_readSignedNumeral? (numeral : ∀ c ∈ s, isNumeral c = true) (proper : s ≠ [])
    (read : readSignedNumeral? s = some x) : ofText (String.ofList s) = x := by
  have other {word : List Char} (letter : 'I' ∈ word) : s ≠ word := by
    rintro rfl
    exact nomatch numeral _ letter
  unfold ofText
  rw [String.toList_ofList, Text.trim_eq_self fun c member => (of_isNumeral (numeral c member)).2]
  dsimp only
  rw [if_neg (mt List.isEmpty_iff.mp proper), if_neg, if_neg (other (by decide)), read,
    Option.getD_some]
  exact not_or.mpr ⟨other (by decide), other (by decide)⟩

/-- The number of a numeral, alone or behind a minus sign, is its nearest float. -/
theorem ofText_of_numeral (numeral : Numeral s q) (nearest : Nearest q x) :
    ofText (String.ofList s) = x ∧ ofText (String.ofList ('-' :: s)) = -x := by
  obtain ⟨d, read, rfl⟩ := numeral.read?
  obtain rfl := nearest.unique d.nearest_toFloat
  have starts := numeral.startsNumber
  constructor
  · refine ofText_of_readSignedNumeral? numeral.isNumeral ?_ ?_
    · rintro rfl
      cases starts
    · unfold readSignedNumeral?
      split
      · cases starts
      · cases starts
      · rw [read, Option.map_some]
  · refine ofText_of_readSignedNumeral? (List.forall_mem_cons.mpr ⟨rfl, numeral.isNumeral⟩)
      (List.cons_ne_nil _ _) ?_
    rw [readSignedNumeral?, read, Option.map_some]

end Readers

section Written

variable {first : Char} {rest : List Char} {e : Int} {x : Float}

/-- The decimal with these digits, the point after the first of them, times `10 ^ e`. -/
def scientific (first : Char) (rest : List Char) (e : Int) : Decimal :=
  ⟨ofDigits (first :: rest), e - rest.length⟩

/-- The written form of a number `q` with the decimal exponent `e`. -/
structure Written (q : ℚ) (e : Int) (written : List Char) : Prop where
  /-- It denotes the number. -/
  numeral : Numeral written q
  /-- It has no exponent exactly if the point is near the digits. -/
  plain_iff : Plain written ↔ -7 < e ∧ e < 21
  /-- It has no other letters than marks of exponents. -/
  letters : ∀ c ∈ written, c.isAlpha = true → c = 'e' ∨ c = 'E'
  /-- It is a single number token. -/
  token : ∀ x, Nearest q x → x.isFinite = true →
    tokenize (String.ofList written) = .ok [⟨.number written x, 0⟩]
  /-- As a text it has this number. -/
  number : ∀ x, Nearest q x → ofText (String.ofList written) = x

theorem value_scientific (first : Char) (rest : List Char) (e : Int) :
    (scientific first rest e).value =
      (ofDigits [first] + ofDigits rest / 10 ^ rest.length) * 10 ^ e :=
  value_of_digits [first] rest e

theorem written_scientific (digits : Digits (first :: rest)) (leading : first ≠ '0') (e : Int) :
    Written (scientific first rest e).value e (valueLayout.decimal (scientific first rest e)) := by
  obtain ⟨numeral, plain⟩ := numeral_decimal (l := valueLayout) rfl (by decide) (by decide)
    (scientific first rest e)
  have point : (scientific first rest e).point = e + 1 := by
    unfold Decimal.point scientific
    rw [digitsOf_ofDigits digits leading, List.length_cons]
    push_cast
    ring
  rw [point] at plain
  change Plain _ ↔ -6 < e + 1 ∧ e + 1 ≤ 21 at plain
  refine ⟨numeral, plain.trans (by omega), ?_, ?_, ?_⟩
  · exact fun c member => (of_isNumeral (numeral.isNumeral c member)).1
  · intro x nearest finite
    obtain ⟨y, nearest', lexed⟩ := tokenize_of_numeral numeral
    obtain rfl := nearest.unique nearest'
    rwa [if_pos finite] at lexed
  · exact fun x nearest => (ofText_of_numeral numeral nearest).1

/-- A positive decimal without trailing zeros has digits that neither begin nor end with a zero. -/
theorem exists_scientific {d : Decimal} (trimmed : d.significand % 10 ≠ 0) :
    ∃ first rest e, d = scientific first rest e ∧ Digits (first :: rest) ∧ first ≠ '0' ∧
      (first :: rest).getLast? ≠ some '0' := by
  obtain ⟨first, rest, same⟩ := List.exists_cons_of_ne_nil (digitsOf_ne_nil d.significand)
  have value := ofDigits_digitsOf d.significand
  have digits := digits_digitsOf d.significand
  have positive : 0 < d.significand := Nat.pos_of_ne_zero fun zero => trimmed (by rw [zero])
  have large := (digitsOf_bounds positive).1
  rw [same] at value digits large
  refine ⟨first, rest, d.exponent + rest.length, ?_, digits, ?_, ?_⟩
  · rw [scientific, value, Int.add_sub_cancel]
  · rintro rfl
    obtain ⟨_, digits⟩ := List.forall_mem_cons.mp digits
    have small := ofDigits_lt digits
    rw [ofDigits_cons, show ofDigits ['0'] = 0 from rfl, Nat.zero_mul, Nat.zero_add] at value
    rw [List.length_cons, Nat.add_sub_cancel] at large
    omega
  · intro last
    obtain ⟨before, ends⟩ := List.getLast?_eq_some_iff.mp last
    rw [ends, ofDigits_append, show ofDigits ['0'] = 0 from rfl, List.length_singleton] at value
    omega

theorem abs_spec (number : absBits x ≤ infinityBits) :
    absBits x.abs = absBits x ∧ isNegative x.abs = false := by
  obtain ⟨magnitude, unsigned⟩ := ofBits_spec number
  rw [abs_eq magnitude unsigned]
  exact ⟨magnitude, unsigned⟩

/-- The shortest decimal of a float is nearest to its magnitude. -/
theorem nearest_abs (finite : absBits x < infinityBits) (nonzero : absBits x ≠ 0) (tie : Tie) :
    Nearest ((Magnitude.ofBits (absBits x)).shortest tie).value x.abs := by
  have rounds := (shortest_spec (Nat.pos_of_ne_zero nonzero) tie).rounds
  have nearest := Nearest.of_roundsTo (Decimal.value_nonneg _) rounds
  rw [Nat.min_eq_right finite.le] at nearest
  obtain ⟨magnitude, unsigned⟩ := ofBits_spec finite.le
  rwa [abs_eq magnitude unsigned]

theorem text_eq (finite : absBits x < infinityBits) (nonzero : absBits x ≠ 0) :
    text x = String.ofList ((if isNegative x then ['-'] else []) ++
      valueLayout.decimal ((Magnitude.ofBits (absBits x)).shortest .up)) := by
  unfold text Layout.float
  dsimp only
  rw [if_neg finite.not_gt, if_neg finite.ne, if_neg nonzero]
  rfl

end Written

/-- A float other than zero is read back from what is written for it. -/
structure ReadsBack (x : Float) : Prop where
  /-- Its text has the digits of its shortest decimal, behind its sign. -/
  text : ∃ first rest e, Digits (first :: rest) ∧ first ≠ '0' ∧
    (first :: rest).getLast? ≠ some '0' ∧ Shortest (absBits x) (scientific first rest e) ∧
    Number.text x = String.ofList ((if isNegative x then ['-'] else []) ++
      valueLayout.decimal (scientific first rest e))
  /-- The text of its magnitude is a literal. -/
  literal : ∀ limit, parse (Number.text x.abs) (limit + 1) =
    .ok (.program (.literal (.float x.abs)))
  /-- The literal has this value. -/
  value : ∀ (σ : Type) (access : Access σ) (context : Context) (w : World σ),
    ((Expr.program (.literal (.float x.abs))).eval access context).outcome w =
      (.ok (.number x.abs), w)
  /-- Its text has this number. -/
  number : ∀ h : Heap, h.number (.string (Number.text x)) = x

theorem parse_of_token {text : String} {written : List Char} {x : Float}
    (lexed : tokenize text = .ok [⟨.number written x, 0⟩]) (limit : Nat) :
    parse text (limit + 1) = .ok (.program (.literal (.float x))) :=
  parse_of_spelled lexed (.operand (.primary (.base (.word (.literal .number)))))
    (Nat.succ_pos limit)

theorem readsBack {x : Float} (finite : x.isFinite = true) (nonzero : absBits x ≠ 0) :
    ReadsBack x := by
  rw [isFinite_iff] at finite
  obtain ⟨magnitude, unsigned⟩ := abs_spec finite.le
  have shortest := shortest_spec (Nat.pos_of_ne_zero nonzero) .up
  have nearest := nearest_abs finite nonzero .up
  have text := text_eq finite nonzero
  have text' := text_eq (x := x.abs) (by rwa [magnitude]) (by rwa [magnitude])
  rw [magnitude, unsigned] at text'
  obtain ⟨first, rest, e, same, digits, leading, trailing⟩ := exists_scientific shortest.trimmed
  rw [same] at shortest nearest text text'
  have written := written_scientific digits leading e
  refine ⟨⟨first, rest, e, digits, leading, trailing, shortest, text⟩, ?_, ?_, ?_⟩
  · rw [text']
    exact parse_of_token (written.token _ nearest (isFinite_iff.mpr (by rwa [magnitude])))
  · intro σ access context w
    rfl
  · intro h
    obtain ⟨plus, minus⟩ := ofText_of_numeral written.numeral nearest
    rw [Heap.number, text]
    cases negative : isNegative x with
    | false => exact plus.trans (eq_of_absBits magnitude (unsigned.trans negative.symm))
    | true => exact minus.trans (neg_eq magnitude.symm (by rw [negative, unsigned]; rfl))

end GuardedExpr.Number

namespace GuardedExpr

open Number

/-- **Written numbers are read back.** Whatever the digits and the exponent of a decimal are, it is
written as a numeral that denotes it, without an exponent exactly if that is above `-7` and below
`21`, and this numeral is one token and the number of its text. Hence every finite float other than
zero is read back from its text, and its magnitude from the literal that the text spells. -/
theorem written_numbers_read_back :
    (∀ first rest e, Digits (first :: rest) → first ≠ '0' →
      Written ((ofDigits [first] + ofDigits rest / 10 ^ rest.length) * 10 ^ e) e
        (valueLayout.decimal (scientific first rest e))) ∧
    ∀ x : Float, x.isFinite = true → absBits x ≠ 0 → ReadsBack x := by
  constructor
  · intro first rest e digits leading
    rw [← value_scientific]
    exact written_scientific digits leading e
  · exact fun x finite nonzero => readsBack finite nonzero

/-- The greatest exponent below plain notation, and the least float that is not zero, with its
sign. -/
theorem written_numbers_read_back_small :
    Written (3 / 20000000) (-7) ['1', '.', '5', 'e', '-', '7'] ∧
      Number.text (Float.ofBits 0x8000000000000001) = "-5e-324" ∧
      ReadsBack (Float.ofBits 0x8000000000000001) := by
  refine ⟨?_, ?_, written_numbers_read_back.2 _ rfl (by decide)⟩
  · have written := written_numbers_read_back.1 '1' ['5'] (-7) (.cons rfl (.cons rfl .nil)) (by decide)
    have layout : valueLayout.decimal (scientific '1' ['5'] (-7)) =
        ['1', '.', '5', 'e', '-', '7'] := by decide
    rw [layout, show ofDigits ['1'] = 1 from rfl, show ofDigits ['5'] = 5 from rfl] at written
    norm_num at written
    exact written
  · decide +kernel

end GuardedExpr
