import Mathlib
import GuardedExpr.Proofs.Slices
import GuardedExpr.Proofs.Spelling

/-!
# Joined texts

A blank outside strings parts a text in two that are read alone: no run that is
complete before the blank looks beyond it, and where a text starts makes no
difference to what its tokens are. So the tokens of the joined text are those
of both parts, and the fault of the second part is the fault of the whole.
Commas and brackets stop every run as blanks do, and are tokens themselves.
-/

namespace GuardedExpr

/-- The token further on in a text. -/
def Token.shift (distance : Nat) (t : Token) : Token :=
  ⟨t.lexeme, t.position + distance⟩

/-- The error further on in a text. -/
def LexError.shift (distance : Nat) : LexError → LexError
  | .unexpectedCharacter c position => .unexpectedCharacter c (position + distance)
  | .invalidExponent position => .invalidExponent (position + distance)
  | .invalidNumber position => .invalidNumber (position + distance)
  | .invalidUnicodeEscape position => .invalidUnicodeEscape (position + distance)
  | .unmatchedQuote position => .unmatchedQuote (position + distance)

namespace Lexer

section Distance

variable {position distance : Nat} {c : Char} {s : List Char}

theorem frontNumber_shift : frontNumber (position + distance) c s =
    (frontNumber position c s).mapError (LexError.shift distance) := by
  unfold frontNumber
  split
  · simp only [Except.mapError, LexError.shift, Nat.add_right_comm]
  · dsimp only
    split
    · rfl
    · split <;> rfl

theorem frontString_shift : frontString (position + distance) c s =
    (frontString position c s).mapError (LexError.shift distance) := by
  unfold frontString
  split
  · rfl
  · next offset _ =>
      have same : position + distance + 1 + offset = position + 1 + offset + distance := by omega
      simp only [Except.mapError, LexError.shift, same]
  · rfl

/-- Where a text starts shows only in the position of a fault. -/
theorem front_shift : front (position + distance) c s =
    (front position c s).mapError (LexError.shift distance) := by
  unfold front
  split
  · exact frontNumber_shift
  split
  · exact frontString_shift
  split
  · rfl
  split
  · rfl
  split
  · rfl
  · rfl

/-- What is read further on in a text. -/
def shifted (distance : Nat) : Except LexError (List Token) → Except LexError (List Token)
  | .ok tokens => .ok (tokens.map (Token.shift distance))
  | .error e => .error (e.shift distance)

/-- Where a text starts shows only in positions. -/
theorem tokensFrom_shift :
    tokensFrom (position + distance) s = shifted distance (tokensFrom position s) := by
  fun_induction tokensFrom position s with
  | case1 =>
      rw [tokensFrom]
      rfl
  | case2 position c s e found =>
      rw [tokensFrom, front_shift, found]
      rfl
  | case3 position c s f found e later ih =>
      have ahead : position + distance + f.more + 1 = position + f.more + 1 + distance := by omega
      rw [tokensFrom, front_shift, found]
      simp only [Except.mapError, ahead, ih, later, shifted]
  | case4 position c s f found tokens later lexeme isLexeme ih =>
      have ahead : position + distance + f.more + 1 = position + f.more + 1 + distance := by omega
      rw [tokensFrom, front_shift, found]
      simp only [Except.mapError, ahead, ih, later, shifted, isLexeme, List.map_cons, Token.shift]
  | case5 position c s f found tokens later none ih =>
      have ahead : position + distance + f.more + 1 = position + f.more + 1 + distance := by omega
      rw [tokensFrom, front_shift, found]
      simp only [Except.mapError, ahead, ih, later, shifted, none]

end Distance

/-- No run goes on over this character. -/
structure Stops (w : Char) : Prop where
  digit : w.isDigit = false
  sign : isSign w = false
  part : isIdentifierPart w = false
  number : ∀ marked rest, numberStep marked w rest = .stop

section Joined

variable {w : Char} {c : Char} {s : List Char} {n : Nat}

theorem eq_of_isBlank (blank : isBlank w = true) :
    w ∈ [' ', '\r', '\n', '\t', '\x0b', '\xa0'] := by
  simpa [isBlank, or_assoc] using blank

theorem stops_of_isBlank (blank : isBlank w = true) : Stops w := by
  have member := eq_of_isBlank blank
  simp only [List.mem_cons, List.not_mem_nil, or_false] at member
  rcases member with rfl | rfl | rfl | rfl | rfl | rfl <;>
    exact ⟨rfl, rfl, rfl, fun _ _ => rfl⟩

theorem stops_comma : Stops ',' :=
  ⟨rfl, rfl, rfl, fun _ _ => rfl⟩

theorem stops_closeBracket : Stops ']' :=
  ⟨rfl, rfl, rfl, fun _ _ => rfl⟩

theorem headIs_joined {p : Char → Bool} (stops : p w = false) (s rest : List Char) :
    headIs p (s ++ w :: rest) = headIs p s := by
  cases s with
  | nil => exact stops
  | cons c s => rfl

theorem takeWhile_joined {p : Char → Bool} (stops : p w = false) (s rest : List Char) :
    (s ++ w :: rest).takeWhile p = s.takeWhile p := by
  induction s with
  | nil => exact List.takeWhile_cons_of_neg (Bool.eq_false_iff.mp stops)
  | cons c s ih => rw [List.cons_append, List.takeWhile_cons, List.takeWhile_cons, ih]

theorem front_of_isBlank (blank : isBlank w = true) (position : Nat) (s : List Char) :
    front position w s = .ok ⟨none, 0⟩ := by
  have member := eq_of_isBlank blank
  simp only [List.mem_cons, List.not_mem_nil, or_false] at member
  rcases member with rfl | rfl | rfl | rfl | rfl | rfl <;> rfl

theorem numberStep_joined (stops : Stops w) (marked : Bool) (c : Char)
    (s rest : List Char) : numberStep marked c (s ++ w :: rest) = numberStep marked c s := by
  have either : (isSign w || w.isDigit) = false := by rw [stops.digit, stops.sign, Bool.or_false]
  unfold numberStep
  rw [headIs_joined either, headIs_joined stops.digit]

/-- The run of a number ends at such a character as it does at the end of the text. -/
theorem numberRun_joined (stops : Stops w) (marked : Bool) (s rest : List Char) :
    numberRun marked (s ++ w :: rest) = numberRun marked s := by
  induction s generalizing marked with
  | nil => rw [List.nil_append, numberRun_cons_eq, stops.number, numberRun]
  | cons c s ih =>
      rw [List.cons_append, numberRun_cons_eq, numberRun_cons_eq, numberStep_joined stops]
      simp only [ih]

theorem frontNumber_joined (stops : Stops w) (position : Nat) (c : Char)
    (s rest : List Char) :
    frontNumber position c (s ++ w :: rest) = frontNumber position c s := by
  unfold frontNumber
  rw [← List.cons_append, numberRun_joined stops]
  split
  · rfl
  · next n run =>
      rw [List.take_append_of_le_length (le_length_of_numberRun run)]

theorem hexUnit?_append {unit : Nat} (read : hexUnit? s = some unit) (rest : List Char) :
    hexUnit? (s ++ rest) = some unit := by
  match s, read with
  | _ :: _ :: _ :: _ :: _, read => exact read

theorem lowEscape?_append {low : Nat} (read : lowEscape? s = some low) (rest : List Char) :
    lowEscape? (s ++ rest) = some low := by
  unfold lowEscape? at read
  split at read
  · next s =>
      obtain ⟨unit, isLow⟩ := Option.filter_eq_some_iff.mp read
      simp only [List.cons_append, lowEscape?]
      rw [hexUnit?_append unit]
      exact Option.filter_eq_some_iff.mpr ⟨rfl, isLow⟩
  · cases read

theorem scalar?_of_isHighSurrogate {unit : Nat} (high : Text.isHighSurrogate unit = true) :
    Text.scalar? unit = none := by
  simp only [Text.isHighSurrogate, Bool.and_eq_true, decide_eq_true_eq] at high
  unfold Text.scalar?
  rw [if_neg]
  simp only [Bool.or_eq_true, Bool.and_eq_true, decide_eq_true_eq]
  omega

/-- A complete escape is read alike, whatever follows it. A high surrogate alone is no escape, so
its low one is there already. -/
theorem unicodeEscape?_append (escape : unicodeEscape? s = some (c, n)) (rest : List Char) :
    unicodeEscape? (s ++ rest) = some (c, n) := by
  unfold unicodeEscape? at escape ⊢
  cases read : hexUnit? s with
  | none => simp [read] at escape
  | some unit =>
      rw [hexUnit?_append read, List.drop_append_of_le_length (four_le_of_hexUnit? read)]
      rw [read] at escape
      dsimp only at escape ⊢
      by_cases high : Text.isHighSurrogate unit = true
      · rw [if_pos high] at escape ⊢
        cases pair : lowEscape? (s.drop 4) with
        | none =>
            rw [pair] at escape
            dsimp only at escape
            rw [scalar?_of_isHighSurrogate high] at escape
            cases escape
        | some low =>
            rw [pair] at escape
            rw [lowEscape?_append pair]
            exact escape
      · rw [if_neg high] at escape ⊢
        exact escape

/-- A string that is closed ends at its quote, whatever follows it. -/
theorem stringRun_append {quote : Char} (proper : quote ≠ '\\') {value : List Char}
    (run : stringRun quote s = .ok (value, n)) (rest : List Char) :
    stringRun quote (s ++ rest) = .ok (value, n) := by
  fun_induction stringRun quote s generalizing value n with
  | case1 => cases run
  | case2 => cases run
  | case3 s c m escape ih =>
      obtain ⟨_, k, later, rfl, rfl⟩ := eq_of_consString run
      have inside := le_length_of_unicodeEscape? escape
      rw [List.cons_append, List.cons_append, stringRun, unicodeEscape?_append escape]
      simp only [List.drop_append_of_le_length inside, ih later, consString]
  | case4 c s short ih =>
      obtain ⟨_, k, later, rfl, rfl⟩ := eq_of_consString run
      rw [List.cons_append, List.cons_append, stringRun, ih later, consString]
      exact short
  | case5 s _ _ =>
      cases run
      rw [List.cons_append, stringRun, if_pos rfl]
      all_goals simp [proper]
  | case6 c s _ long other ih =>
      obtain ⟨_, k, later, rfl, rfl⟩ := eq_of_consString run
      have plain : c ≠ '\\' := by
        rintro rfl
        cases s with
        | nil =>
            rw [stringRun] at later
            cases later
        | cons d s => exact long d s rfl rfl
      rw [List.cons_append, Spelling.stringRun_raw other plain, ih later, consString]

theorem frontString_append {position : Nat} {quote : Char} (quoted : isQuote quote = true)
    {f : Front} (found : frontString position quote s = .ok f) (rest : List Char) :
    frontString position quote (s ++ rest) = .ok f := by
  obtain ⟨n, value, run, rfl⟩ := eq_of_frontString found
  have proper : quote ≠ '\\' := by
    rintro rfl
    cases quoted
  unfold frontString
  rw [stringRun_append proper run]
  simp only [List.take_append_of_le_length (le_length_of_stringRun run)]

/-- What is complete before such a character is found there as at the end of the text. -/
theorem front_joined (stops : Stops w) {position : Nat} {f : Front}
    (found : front position c s = .ok f) (rest : List Char) :
    front position c (s ++ w :: rest) = .ok f := by
  have starts : startsNumber (c :: (s ++ w :: rest)) = startsNumber (c :: s) := by
    rw [startsNumber, headIs_joined stops.digit, startsNumber]
  unfold front at found ⊢
  rw [starts, frontNumber_joined stops]
  split at found
  · next number =>
      rw [if_pos number]
      exact found
  next number =>
  rw [if_neg number]
  split at found
  · next quoted =>
      rw [if_pos quoted]
      exact frontString_append quoted found _
  next unquoted =>
  rw [if_neg unquoted]
  rw [takeWhile_joined stops.part]
  exact found

/-- The tokens before such a character are read as they are alone, and the text goes on there. -/
theorem tokensFrom_append (stops : Stops w) {position : Nat} {tokens : List Token}
    (lexed : tokensFrom position s = .ok tokens) (rest : List Char) :
    tokensFrom position (s ++ w :: rest) =
      (tokensFrom (position + s.length) (w :: rest)).map (tokens ++ ·) := by
  have distance {position n : Nat} {c : Char} {s : List Char} (inside : n ≤ s.length) :
      position + n + 1 + (s.drop n).length = position + (c :: s).length := by
    rw [List.length_drop, List.length_cons]
    omega
  fun_induction tokensFrom position s generalizing tokens with
  | case1 position =>
      cases lexed
      rw [List.nil_append, List.length_nil, Nat.add_zero]
      cases tokensFrom position (w :: rest) <;> rfl
  | case2 | case3 => cases lexed
  | case4 position c s f found later split lexeme isLexeme ih =>
      cases lexed
      have inside := (slice_of_front found).1
      rw [List.cons_append, tokensFrom, front_joined stops found]
      simp only [List.drop_append_of_le_length inside, ih split, isLexeme]
      rw [distance inside]
      cases tokensFrom (position + (c :: s).length) (w :: rest) <;> rfl
  | case5 position c s f found later split none ih =>
      cases lexed
      have inside := (slice_of_front found).1
      rw [List.cons_append, tokensFrom, front_joined stops found]
      simp only [List.drop_append_of_le_length inside, ih split, none]
      rw [distance inside]
      cases tokensFrom (position + (c :: s).length) (w :: rest) <;> rfl

theorem tokensFrom_append_of_ok (stops : Stops w) {position : Nat} {tokens later : List Token}
    (lexed : tokensFrom position s = .ok tokens) {rest : List Char}
    (after : tokensFrom (position + s.length) (w :: rest) = .ok later) :
    tokensFrom position (s ++ w :: rest) = .ok (tokens ++ later) := by
  rw [tokensFrom_append stops lexed, after]
  rfl

/-- A blank is no token. -/
theorem tokensFrom_of_isBlank (blank : isBlank w = true) (position : Nat) (rest : List Char) :
    tokensFrom position (w :: rest) = tokensFrom (position + 1) rest := by
  rw [tokensFrom, front_of_isBlank blank]
  simp only [Nat.add_zero, List.drop_zero]
  cases tokensFrom (position + 1) rest <;> rfl

/-- The tokens before a blank are read as they are alone, and the text after it goes on there. -/
theorem tokensFrom_joined (blank : isBlank w = true) {position : Nat} {tokens : List Token}
    (lexed : tokensFrom position s = .ok tokens) (rest : List Char) :
    tokensFrom position (s ++ w :: rest) =
      (tokensFrom (position + s.length + 1) rest).map (tokens ++ ·) := by
  rw [tokensFrom_append (stops_of_isBlank blank) lexed, tokensFrom_of_isBlank blank]

end Joined

end Lexer

/-- **Lexing parts at blanks.** If a text has tokens, then after a blank any other text is read as
it is read alone: the tokens of both stand in order, those of the second further on by what stands
before it. A fault of the second text is the fault of the whole, as much further on. -/
theorem tokenize_joined {first : String} {tokens : List Token}
    (lexed : tokenize first = .ok tokens) {blank : Char} (isBlank : Lexer.isBlank blank = true)
    (second : String) :
    tokenize (first ++ String.singleton blank ++ second) =
      match tokenize second with
      | .ok later => .ok (tokens ++ later.map (Token.shift (first.length + 1)))
      | .error e => .error (e.shift (first.length + 1)) := by
  have whole : (first ++ String.singleton blank ++ second).toList =
      first.toList ++ blank :: second.toList := by simp
  rw [tokenize, whole, Lexer.tokensFrom_joined isBlank lexed, String.length_toList, Nat.zero_add,
    ← Nat.zero_add (first.length + 1), Lexer.tokensFrom_shift, Nat.zero_add]
  change (Lexer.shifted _ (tokenize second)).map _ = _
  cases tokenize second <;> rfl

/-- A blank between a number and what could be its exponent, and one before a lone surrogate. -/
theorem tokenize_joined_exponent :
    ∃ number, tokenize "5." = .ok [number] ∧ Lexer.isBlank '\xa0' = true ∧
      tokenize ("5." ++ String.singleton '\xa0' ++ "e+") =
        .ok [number, ⟨.identifier ['e'], 3⟩, ⟨.symbol .plus, 4⟩] ∧
      tokenize ("5." ++ String.singleton '\xa0' ++ "'\\ud83d'") =
        .error (.invalidUnicodeEscape 4) := by
  have lexed : tokenize "5." = .ok [⟨.number ['5', '.'] (Number.Decimal.toFloat ⟨5, 0⟩), 0⟩] :=
    Lexer.tokensFrom_of_lexeme rfl (Lexer.tokensFrom_nil _)
  have exponent : tokenize "e+" = .ok [⟨.identifier ['e'], 0⟩, ⟨.symbol .plus, 1⟩] := by cbv
  have surrogate : tokenize "'\\ud83d'" = .error (.invalidUnicodeEscape 1) := by cbv
  refine ⟨_, lexed, rfl, ?_, ?_⟩
  · rw [tokenize_joined lexed rfl, exponent]
    rfl
  · rw [tokenize_joined lexed rfl, surrogate]
    rfl

end GuardedExpr
