import Mathlib
import GuardedExpr.Proofs.Joining
import GuardedExpr.Proofs.Nearest

/-!
# Numerals

A numeral is digits with at most one point, and then maybe an exponent. The
reader of decimals accepts numerals and nothing else, and reads the number that
they denote. The run of a number in the lexer is coarser than that, but it
covers every numeral to its end, so a text is one number token exactly if it is
a numeral whose nearest float is finite.
-/

namespace GuardedExpr.Number

/-- A run of decimal digits, of any length. -/
def Digits (s : List Char) : Prop :=
  ∀ c ∈ s, c.isDigit = true

/-- The digits of a numeral with at most one point: the text, the digits before the point and those
after it. -/
inductive Mantissa : List Char → List Char → List Char → Prop where
  | whole {whole : List Char} : whole ≠ [] → Digits whole → Mantissa whole whole []
  | pointed {whole fraction : List Char} : whole ≠ [] → Digits whole → Digits fraction →
      Mantissa (whole ++ '.' :: fraction) whole fraction
  | fraction {fraction : List Char} : fraction ≠ [] → Digits fraction →
      Mantissa ('.' :: fraction) [] fraction

/-- The exponent part of a numeral and the exponent that it denotes. -/
inductive Exponent : List Char → Int → Prop where
  | absent : Exponent [] 0
  | unsigned {mark : Char} {digits : List Char} : mark = 'e' ∨ mark = 'E' → digits ≠ [] →
      Digits digits → Exponent (mark :: digits) (ofDigits digits)
  | plus {mark : Char} {digits : List Char} : mark = 'e' ∨ mark = 'E' → digits ≠ [] →
      Digits digits → Exponent (mark :: '+' :: digits) (ofDigits digits)
  | minus {mark : Char} {digits : List Char} : mark = 'e' ∨ mark = 'E' → digits ≠ [] →
      Digits digits → Exponent (mark :: '-' :: digits) (-ofDigits digits)

/-- The text is a numeral, and this is the number that it denotes. -/
inductive Numeral : List Char → ℚ → Prop where
  | mk {mantissa whole fraction tail : List Char} {exponent : Int} :
      Mantissa mantissa whole fraction → Exponent tail exponent →
      Numeral (mantissa ++ tail)
        ((ofDigits whole + ofDigits fraction / 10 ^ fraction.length) * 10 ^ exponent)

section Digits

variable {s t : List Char} {c : Char}

theorem Digits.nil : Digits [] := nofun

theorem Digits.append (first : Digits s) (second : Digits t) : Digits (s ++ t) :=
  List.forall_mem_append.mpr ⟨first, second⟩

theorem Digits.cons (first : c.isDigit = true) (second : Digits s) : Digits (c :: s) :=
  List.forall_mem_cons.mpr ⟨first, second⟩

theorem digits_takeWhile (s : List Char) : Digits (s.takeWhile Char.isDigit) :=
  fun _ member => List.mem_takeWhile_imp member

theorem ofDigits_append (s t : List Char) :
    ofDigits (s ++ t) = ofDigits s * 10 ^ t.length + ofDigits t := by
  change Nat.ofDigitChars 10 (s ++ t) 0 = _
  rw [Nat.ofDigitChars_append, Nat.ofDigitChars_eq_ofDigitChars_zero, Nat.mul_comm]
  rfl

/-- The digits end where the rest does not start with one. -/
theorem takeWhile_of_digits (digits : Digits s) (stops : Lexer.headIs Char.isDigit t = false) :
    (s ++ t).takeWhile Char.isDigit = s ∧ (s ++ t).dropWhile Char.isDigit = t := by
  rw [List.takeWhile_append_of_pos digits, List.dropWhile_append_of_pos digits]
  cases t with
  | nil => simp
  | cons c t =>
      have stop : ¬ c.isDigit = true := Bool.eq_false_iff.mp stops
      rw [List.takeWhile_cons_of_neg stop, List.dropWhile_cons_of_neg stop, List.append_nil]
      exact ⟨rfl, rfl⟩

end Digits

section Reading

variable {s tail : List Char} {exponent : Int} {d : Decimal}

theorem Exponent.headIs_eq_false {p : Char → Bool} (lower : p 'e' = false) (upper : p 'E' = false)
    (written : Exponent tail exponent) : Lexer.headIs p tail = false := by
  cases written with
  | absent => rfl
  | unsigned mark _ _ | plus mark _ _ | minus mark _ _ =>
      rcases mark with rfl | rfl
      · exact lower
      · exact upper

/-- What a run of digits is read as. -/
theorem natural_eq_some_iff {digits : List Char} {n : Nat} :
    (if !digits.isEmpty && digits.all Char.isDigit then some (ofDigits digits) else none) = some n ↔
      digits ≠ [] ∧ Digits digits ∧ ofDigits digits = n := by
  rw [ite_eq_iff]
  simp [Digits, and_assoc]

theorem exponent_of_readExponent? (read : readExponent? tail = some exponent) :
    Exponent tail exponent := by
  unfold readExponent? at read
  split at read
  · cases read
    exact .absent
  split at read
  · next mark =>
      have mark := by simpa only [Bool.or_eq_true, decide_eq_true_eq] using mark
      unfold readSigned? at read
      dsimp only at read
      split at read <;>
        obtain ⟨n, natural, rfl⟩ := Option.map_eq_some_iff.mp read <;>
        obtain ⟨proper, digits, rfl⟩ := natural_eq_some_iff.mp natural
      · exact .plus mark proper digits
      · exact .minus mark proper digits
      · exact .unsigned mark proper digits
  · cases read

theorem Exponent.readExponent? (written : Exponent tail exponent) :
    readExponent? tail = some exponent := by
  have marked {mark : Char} {s : List Char} (either : mark = 'e' ∨ mark = 'E') :
      Number.readExponent? (mark :: s) = readSigned? s :=
    if_pos (by simpa using either)
  cases written with
  | absent => rfl
  | @unsigned mark digits either proper all =>
      have natural := natural_eq_some_iff.mpr ⟨proper, all, rfl⟩
      rw [marked either]
      unfold readSigned?
      dsimp only
      split
      · exact absurd (all _ List.mem_cons_self) (by decide)
      · exact absurd (all _ List.mem_cons_self) (by decide)
      · rw [natural]
        rfl
  | plus either proper all =>
      rw [marked either]
      exact congrArg (Option.map Int.ofNat) (natural_eq_some_iff.mpr ⟨proper, all, rfl⟩)
  | minus either proper all =>
      rw [marked either]
      exact congrArg (Option.map fun n => -Int.ofNat n) (natural_eq_some_iff.mpr ⟨proper, all, rfl⟩)

theorem value_of_digits (whole fraction : List Char) (exponent : Int) :
    (Decimal.mk (ofDigits (whole ++ fraction)) (exponent - fraction.length)).value =
      (ofDigits whole + ofDigits fraction / 10 ^ fraction.length) * 10 ^ exponent := by
  have unit : (10 : ℚ) ^ fraction.length ≠ 0 := pow_ne_zero _ (by norm_num)
  rw [Decimal.value, ofDigits_append, zpow_sub₀ (by norm_num), zpow_natCast]
  push_cast
  field_simp

/-- The parts that digits and a point fall into are those of a mantissa. -/
theorem mantissa_of_splitFraction {fraction : List Char}
    (parts : splitFraction (s.dropWhile Char.isDigit) = (fraction, tail))
    (proper : ¬ (s.takeWhile Char.isDigit = [] ∧ fraction = [])) :
    ∃ mantissa, s = mantissa ++ tail ∧ Mantissa mantissa (s.takeWhile Char.isDigit) fraction := by
  have whole := digits_takeWhile s
  have text : s = s.takeWhile Char.isDigit ++ s.dropWhile Char.isDigit :=
    List.takeWhile_append_dropWhile.symm
  generalize s.takeWhile Char.isDigit = digits at *
  generalize s.dropWhile Char.isDigit = rest at *
  unfold splitFraction at parts
  split at parts
  · next more =>
      obtain ⟨rfl, rfl⟩ := Prod.mk.inj parts
      have point : '.' :: more =
          '.' :: more.takeWhile Char.isDigit ++ more.dropWhile Char.isDigit := by
        rw [List.cons_append, List.takeWhile_append_dropWhile]
      refine ⟨digits ++ '.' :: more.takeWhile Char.isDigit, ?_, ?_⟩
      · rw [text, point, List.append_assoc]
      by_cases none : digits = []
      · subst none
        exact .fraction (fun empty => proper ⟨rfl, empty⟩) (digits_takeWhile more)
      · exact .pointed none whole (digits_takeWhile more)
  · obtain ⟨rfl, rfl⟩ := Prod.mk.inj parts
    exact ⟨digits, text, .whole (fun empty => proper ⟨empty, rfl⟩) whole⟩

/-- A mantissa falls into its parts where digits end. -/
theorem Mantissa.split {mantissa whole fraction : List Char}
    (written : Mantissa mantissa whole fraction) (ends : Lexer.headIs Char.isDigit tail = false)
    (noPoint : Lexer.headIs (· == '.') tail = false) :
    (mantissa ++ tail).takeWhile Char.isDigit = whole ∧
      splitFraction ((mantissa ++ tail).dropWhile Char.isDigit) = (fraction, tail) ∧
      ¬ (whole = [] ∧ fraction = []) := by
  have point {digits : List Char} (all : Digits digits) :
      splitFraction ('.' :: (digits ++ tail)) = (digits, tail) := by
    rw [splitFraction, (takeWhile_of_digits all ends).1, (takeWhile_of_digits all ends).2]
  cases written with
  | whole proper digits =>
      obtain ⟨first, rest⟩ := takeWhile_of_digits digits ends
      refine ⟨first, ?_, fun empty => proper empty.1⟩
      rw [rest]
      unfold splitFraction
      split
      · cases noPoint
      · rfl
  | @pointed whole fraction proper digits more =>
      obtain ⟨first, rest⟩ := takeWhile_of_digits (t := '.' :: (fraction ++ tail)) digits rfl
      rw [List.append_assoc, List.cons_append, rest]
      exact ⟨first, point more, fun empty => proper empty.1⟩
  | fraction proper digits => exact ⟨rfl, point digits, fun empty => proper empty.2⟩

/-- What is read as a decimal is a numeral, and the decimal is what it denotes. -/
theorem numeral_of_read? (read : Decimal.read? s = some d) : Numeral s d.value := by
  unfold Decimal.read? at read
  dsimp only at read
  split at read
  · cases read
  next nonempty =>
  obtain ⟨exponent, written, rfl⟩ := Option.map_eq_some_iff.mp read
  obtain ⟨mantissa, text, parts⟩ := mantissa_of_splitFraction Prod.mk.eta.symm
    (by simpa only [Bool.and_eq_true, List.isEmpty_iff] using nonempty)
  rw [value_of_digits]
  nth_rewrite 1 [text]
  exact .mk parts (exponent_of_readExponent? written)

/-- Every numeral is read as a decimal. -/
theorem Numeral.read? {q : ℚ} (numeral : Numeral s q) :
    ∃ d, Decimal.read? s = some d ∧ d.value = q := by
  obtain ⟨mantissa, exponent⟩ := numeral
  obtain ⟨whole, rest, nonempty⟩ :=
    mantissa.split (exponent.headIs_eq_false rfl rfl) (exponent.headIs_eq_false rfl rfl)
  refine ⟨_, ?_, value_of_digits _ _ _⟩
  unfold Decimal.read?
  dsimp only
  rw [whole, rest]
  dsimp only
  rw [if_neg (by simpa only [Bool.and_eq_true, List.isEmpty_iff] using nonempty), exponent.readExponent?, Option.map_some]

end Reading

section Lexing

variable {s t : List Char} {c : Char} {n : Nat} {q : ℚ} {exponent : Int}

theorem numberRun_of_step {marked mark : Bool} (step : Lexer.numberStep marked c s = .take mark)
    (rest : Lexer.numberRun mark s = .ok n) : Lexer.numberRun marked (c :: s) = .ok (n + 1) := by
  rw [Lexer.numberRun_cons_eq, step]
  exact congrArg Lexer.after rest

/-- The run of a number takes digits and points wherever they stand. -/
theorem numberRun_append (points : ∀ c ∈ s, (c == '.' || c.isDigit) = true)
    (rest : Lexer.numberRun false t = .ok n) :
    Lexer.numberRun false (s ++ t) = .ok (n + s.length) := by
  induction s with
  | nil => exact rest
  | cons c s ih =>
      obtain ⟨point, points⟩ := List.forall_mem_cons.mp points
      exact numberRun_of_step (if_pos point) (ih points)

/-- Digits are taken after an exponent mark as well. -/
theorem Digits.numberRun (digits : Digits s) (marked : Bool) :
    Lexer.numberRun marked s = .ok s.length := by
  induction s generalizing marked with
  | nil => rfl
  | cons c s ih =>
      obtain ⟨digit, digits⟩ := List.forall_mem_cons.mp digits
      exact numberRun_of_step (if_pos (by rw [digit, Bool.or_true])) (ih digits false)

theorem Digits.headIs (digits : Digits s) (proper : s ≠ []) :
    Lexer.headIs Char.isDigit s = true := by
  obtain ⟨c, s, rfl⟩ := List.exists_cons_of_ne_nil proper
  exact digits c List.mem_cons_self

/-- The run of a number takes an exponent mark that a digit or a sign follows. -/
theorem numberRun_mark (mark : c = 'e' ∨ c = 'E')
    (goesOn : Lexer.headIs (fun d => Lexer.isSign d || d.isDigit) s = true)
    (rest : Lexer.numberRun true s = .ok n) : Lexer.numberRun false (c :: s) = .ok (n + 1) := by
  rcases mark with rfl | rfl <;> exact numberRun_of_step (if_pos goesOn) rest

/-- After an exponent mark it takes a sign before a digit. -/
theorem numberRun_sign (sign : c = '+' ∨ c = '-') (digits : Digits s) (proper : s ≠ []) :
    Lexer.numberRun true (c :: s) = .ok (s.length + 1) := by
  rcases sign with rfl | rfl <;>
    exact numberRun_of_step (if_pos (digits.headIs proper)) (digits.numberRun false)

theorem Exponent.numberRun (written : Exponent s exponent) :
    Lexer.numberRun false s = .ok s.length := by
  cases written with
  | absent => rfl
  | @unsigned mark digits either proper all =>
      refine numberRun_mark either ?_ (all.numberRun true)
      obtain ⟨d, there, digit⟩ := Lexer.headIs_eq_true_iff.mp (all.headIs proper)
      exact Lexer.headIs_eq_true_iff.mpr ⟨d, there, by rw [digit, Bool.or_true]⟩
  | plus either proper all => exact numberRun_mark either rfl (numberRun_sign (.inl rfl) all proper)
  | minus either proper all => exact numberRun_mark either rfl (numberRun_sign (.inr rfl) all proper)

theorem Mantissa.points {mantissa whole fraction : List Char}
    (written : Mantissa mantissa whole fraction) :
    ∀ c ∈ mantissa, (c == '.' || c.isDigit) = true := by
  have points {digits : List Char} (all : Digits digits) :
      ∀ c ∈ digits, (c == '.' || c.isDigit) = true := fun c member => by
    rw [all c member, Bool.or_true]
  cases written with
  | whole _ all => exact points all
  | pointed _ all more =>
      exact List.forall_mem_append.mpr ⟨points all, List.forall_mem_cons.mpr ⟨rfl, points more⟩⟩
  | fraction _ all => exact List.forall_mem_cons.mpr ⟨rfl, points all⟩

/-- The run of a number takes a numeral to its end. -/
theorem Numeral.numberRun (numeral : Numeral s q) : Lexer.numberRun false s = .ok s.length := by
  obtain ⟨mantissa, exponent⟩ := numeral
  rw [numberRun_append mantissa.points exponent.numberRun, List.length_append, Nat.add_comm]

theorem Numeral.startsNumber (numeral : Numeral s q) : Lexer.startsNumber s = true := by
  obtain ⟨mantissa, _⟩ := numeral
  have starts {digits rest : List Char} (proper : digits ≠ []) (all : Digits digits) :
      Lexer.startsNumber (digits ++ rest) = true := by
    obtain ⟨c, digits, rfl⟩ := List.exists_cons_of_ne_nil proper
    rw [List.cons_append, Lexer.startsNumber, all c List.mem_cons_self, Bool.true_or]
  cases mantissa with
  | whole proper all => exact starts proper all
  | pointed proper all _ =>
      rw [List.append_assoc]
      exact starts proper all
  | fraction proper all =>
      obtain ⟨c, digits, rfl⟩ := List.exists_cons_of_ne_nil proper
      exact all c List.mem_cons_self

/-- A numeral is one number token with its nearest float, unless that is infinite. -/
theorem tokenize_of_numeral (numeral : Numeral s q) : ∃ x, Nearest q x ∧
    tokenize (String.ofList s) =
      if x.isFinite then .ok [⟨.number s x, 0⟩] else .error (.invalidNumber 0) := by
  obtain ⟨d, read, rfl⟩ := numeral.read?
  refine ⟨d.toFloat, d.nearest_toFloat, ?_⟩
  have starts := numeral.startsNumber
  have run := numeral.numberRun
  rw [tokenize, String.toList_ofList]
  cases s with
  | nil => cases starts
  | cons c s =>
      have found : Lexer.front 0 c s = if d.toFloat.isFinite then
          .ok ⟨some (.number (c :: s) d.toFloat), s.length⟩ else .error (.invalidNumber 0) := by
        rw [Lexer.front, if_pos starts, Lexer.frontNumber, run]
        dsimp only
        rw [List.take_length, read]
        rfl
      split at found
      · next finite =>
          rw [if_pos finite]
          refine Lexer.tokensFrom_of_lexeme found ?_
          rw [List.drop_length, Lexer.tokensFrom_nil]
      · next infinite => rw [if_neg infinite, Lexer.tokensFrom, found]

/-- What is found as a number is a numeral whose nearest float is finite. -/
theorem numeral_of_front {position : Nat} {f : Lexer.Front} {written : List Char} {x : Float}
    (found : Lexer.front position c s = .ok f) (isNumber : f.lexeme? = some (.number written x)) :
    x.isFinite = true ∧ ∃ q, Numeral written q ∧ Nearest q x := by
  unfold Lexer.front at found
  split at found
  · obtain ⟨n, d, _, read, finite, rfl⟩ := Lexer.eq_of_frontNumber found
    cases isNumber
    exact ⟨finite, d.value, numeral_of_read? read, d.nearest_toFloat⟩
  -- No other lexeme is a number.
  split at found
  · obtain ⟨n, value, _, rfl⟩ := Lexer.eq_of_frontString found
    cases isNumber
  split at found
  · cases found
    cases isNumber
  split at found
  · cases found
    cases isNumber
  split at found
  · cases found
    cases isNumber
  · cases found

end Lexing

end GuardedExpr.Number

namespace GuardedExpr

open Number

/-- **Number tokens are numerals.** Every number token of a text is a numeral and has the float
nearest to what it denotes, which is finite; and a numeral alone is one number token with the one
float that is nearest, if that is finite. -/
theorem number_token_iff_numeral :
    (∀ text tokens, tokenize text = .ok tokens → ∀ t ∈ tokens, ∀ written x,
      t.lexeme = .number written x → x.isFinite = true ∧ ∃ q, Numeral written q ∧ Nearest q x) ∧
    ∀ written q, Numeral written q → ∃ x, (∀ y, Nearest q y ↔ y = x) ∧
      tokenize (String.ofList written) =
        if x.isFinite then .ok [⟨.number written x, 0⟩] else .error (.invalidNumber 0) := by
  constructor
  · intro text tokens lexed
    exact Lexer.forall_of_tokensFrom (fun found isLexeme written x same =>
      numeral_of_front found (isLexeme.trans (congrArg some same))) lexed
  · intro written q numeral
    obtain ⟨x, nearest, lexed⟩ := tokenize_of_numeral numeral
    refine ⟨x, fun y => ⟨fun nearest' => nearest'.unique nearest, ?_⟩, lexed⟩
    rintro rfl
    exact nearest

/-- A mark that turns out to begin an identifier, and one with a sign and digits after it. -/
theorem number_token_iff_numeral_marked :
    (∃ x, tokenize "2.e" = .ok [⟨.number ['2', '.'] x, 0⟩, ⟨.identifier ['e'], 2⟩] ∧
      x.isFinite = true ∧ ∃ q, Numeral ['2', '.'] q ∧ Nearest q x) ∧
    ∃ x, Nearest (1 / 2000) x ∧
      tokenize ".5E-3" = .ok [⟨.number ['.', '5', 'E', '-', '3'] x, 0⟩] := by
  constructor
  · have lexed : tokenize "2.e" = .ok
        [⟨.number ['2', '.'] (Decimal.toFloat ⟨2, 0⟩), 0⟩, ⟨.identifier ['e'], 2⟩] :=
      Lexer.tokensFrom_of_lexeme rfl <| Lexer.tokensFrom_of_lexeme rfl (Lexer.tokensFrom_nil _)
    exact ⟨_, lexed,
      number_token_iff_numeral.1 _ _ lexed _ List.mem_cons_self _ _ rfl⟩
  · have numeral : Numeral ['.', '5', 'E', '-', '3'] (1 / 2000) := by
      have written := Numeral.mk (.fraction (List.cons_ne_nil '5' []) (.cons rfl .nil))
        (.minus (.inr rfl) (List.cons_ne_nil '3' []) (.cons rfl .nil))
      rw [show ofDigits [] = 0 from rfl, show ofDigits ['5'] = 5 from rfl,
        show ofDigits ['3'] = 3 from rfl] at written
      norm_num at written
      exact written
    obtain ⟨x, nearest, lexed⟩ := number_token_iff_numeral.2 _ _ numeral
    have found : Decimal.toFloat ⟨5, -4⟩ = x := by
      rw [← nearest]
      have point := Decimal.nearest_toFloat ⟨5, -4⟩
      norm_num [Decimal.value] at point
      exact point
    have finite : x.isFinite = true := by
      rw [← found]
      rfl
    rw [if_pos finite] at lexed
    exact ⟨x, (nearest x).mpr rfl, lexed⟩

end GuardedExpr
