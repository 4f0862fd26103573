import GuardedExpr.Listing
import GuardedExpr.Proofs.Lexing

/-!
# Spellings of strings

A string has many spellings between two quotes. Each of its characters stands there as itself, after
a backslash, or as an escape of its UTF-16 units with hexadecimal digits in either case. Whatever
the spelling is, the lexer reads it as one token with the string for its value. The quoted form of
listings is one of these spellings.
-/

namespace GuardedExpr.Spelling

/-- What some characters stand for after a backslash; any other stands for itself. -/
def shortEscapes : List (Char × Char) :=
  [('n', '\n'), ('f', '\x0c'), ('r', '\r'), ('t', '\t'), ('v', '\x0b')]

/-- What a character other than `u` stands for after a backslash. -/
def unescaped (c : Char) : Char :=
  (shortEscapes.lookup c).getD c

/-- The character is the hexadecimal digit of a number, in lower or upper case. -/
def HexDigit (c : Char) (d : Nat) : Prop :=
  d < 16 ∧ (c = d.digitChar ∨ c = d.digitChar.toUpper)

instance (c : Char) (d : Nat) : Decidable (HexDigit c d) :=
  inferInstanceAs (Decidable (_ ∧ _))

/-- Four hexadecimal digits and the number that they denote. -/
inductive HexUnit : List Char → Nat → Prop where
  | digits {a b c d : Char} {k l m n : Nat} : HexDigit a k → HexDigit b l → HexDigit c m →
      HexDigit d n → HexUnit [a, b, c, d] (((k * 16 + l) * 16 + m) * 16 + n)

/-- The ways of writing one character between two quotes. -/
inductive Piece (quote : Char) : Char → List Char → Prop where
  | raw {c : Char} : c ≠ quote → c ≠ '\\' → Piece quote c [c]
  | escaped {c : Char} : c ≠ 'u' → Piece quote (unescaped c) ['\\', c]
  | unit {c : Char} {digits : List Char} : c.toNat < 0x10000 → HexUnit digits c.toNat →
      Piece quote c ('\\' :: 'u' :: digits)
  | pair {c : Char} {digits digits' : List Char} {high low : Nat} : Text.units c = [high, low] →
      HexUnit digits high → HexUnit digits' low →
      Piece quote c ('\\' :: 'u' :: (digits ++ '\\' :: 'u' :: digits'))

/-- The text between the quotes spells the string, character by character. -/
inductive Spells (quote : Char) : List Char → List Char → Prop where
  | nil : Spells quote [] []
  | cons {c : Char} {s piece text : List Char} : Piece quote c piece → Spells quote s text →
      Spells quote (c :: s) (piece ++ text)

end GuardedExpr.Spelling

namespace GuardedExpr.Text

theorem scalar?_toNat (c : Char) : scalar? c.toNat = some c := by
  have valid : c.toNat < 0xd800 ∨ 0xdfff < c.toNat ∧ c.toNat < 0x110000 := c.valid
  unfold scalar?
  rw [if_pos (by simpa using valid), Char.ofNat_toNat]

/-- No character is a surrogate. -/
theorem isHighSurrogate_toNat (c : Char) : isHighSurrogate c.toNat = false := by
  have valid : c.toNat < 0xd800 ∨ 0xdfff < c.toNat ∧ c.toNat < 0x110000 := c.valid
  simp only [isHighSurrogate, Bool.and_eq_false_iff, decide_eq_false_iff_not]
  omega

theorem units_of_lt {c : Char} (small : c.toNat < 0x10000) : units c = [c.toNat] := by
  rw [units, if_pos small]

theorem units_of_le {c : Char} (large : 0x10000 ≤ c.toNat) : units c =
    [0xd800 + (c.toNat - 0x10000) / 0x400, 0xdc00 + (c.toNat - 0x10000) % 0x400] := by
  rw [units, if_neg (Nat.not_lt.mpr large)]

/-- The two units of a character are a high and a low surrogate, and the pair stands for it. -/
theorem units_eq_pair {c : Char} {high low : Nat} (two : units c = [high, low]) :
    isHighSurrogate high = true ∧ isLowSurrogate low = true ∧ pairCode high low = c.toNat := by
  have valid : c.toNat < 0xd800 ∨ 0xdfff < c.toNat ∧ c.toNat < 0x110000 := c.valid
  rcases Nat.lt_or_ge c.toNat 0x10000 with small | large
  · have one := (units_of_lt small).symm.trans two
    cases one
  · have pair := (units_of_le large).symm.trans two
    rw [List.cons_eq_cons, List.cons_eq_cons] at pair
    unfold isHighSurrogate isLowSurrogate pairCode
    simp only [Bool.and_eq_true, decide_eq_true_eq]
    omega

theorem hexDigits_one {n : Nat} (small : n < 16) : hexDigits 1 n = [n.digitChar] := by
  simp [hexDigits, Nat.toDigits_of_lt_base small]

/-- The last digit stands after the digits of the rest. -/
theorem hexDigits_succ (width n : Nat) :
    hexDigits (width + 2) n = hexDigits (width + 1) (n / 16) ++ [(n % 16).digitChar] := by
  unfold hexDigits
  rw [Nat.toDigits_eq_if (n := n) (by decide)]
  split
  · next small =>
      rw [Nat.div_eq_of_lt small, Nat.mod_eq_of_lt small, Nat.toDigits_zero]
      simp [List.replicate_succ']
  · next large => simp

end GuardedExpr.Text

namespace GuardedExpr.Spelling

open Lexer Text

theorem hexUnit_hexDigits {n : Nat} (small : n < 0x10000) : HexUnit (hexDigits 4 n) n := by
  have written : hexDigits 4 n = [(n / 16 / 16 / 16).digitChar, (n / 16 / 16 % 16).digitChar,
      (n / 16 % 16).digitChar, (n % 16).digitChar] := by
    rw [hexDigits_succ, hexDigits_succ, hexDigits_succ, hexDigits_one (by omega)]
    rfl
  have digit (d : Nat) (small : d < 16) : HexDigit d.digitChar d := ⟨small, .inl rfl⟩
  have value :
      ((n / 16 / 16 / 16 * 16 + n / 16 / 16 % 16) * 16 + n / 16 % 16) * 16 + n % 16 = n := by omega
  have unit := HexUnit.digits (digit (n / 16 / 16 / 16) (by omega))
    (digit (n / 16 / 16 % 16) (by omega)) (digit (n / 16 % 16) (by omega))
    (digit (n % 16) (by omega))
  rw [value] at unit
  rw [written]
  exact unit

theorem hexValue?_of_hexDigit {c : Char} {d : Nat} (digit : HexDigit c d) :
    hexValue? c = some d := by
  have every : ∀ d < 16,
      hexValue? d.digitChar = some d ∧ hexValue? d.digitChar.toUpper = some d := by decide
  obtain ⟨small, rfl | rfl⟩ := digit
  · exact (every d small).1
  · exact (every d small).2

theorem HexUnit.length_eq {digits : List Char} {n : Nat} (unit : HexUnit digits n) :
    digits.length = 4 := by
  cases unit
  rfl

theorem hexUnit?_of_hexUnit {digits : List Char} {n : Nat} (unit : HexUnit digits n)
    (s : List Char) : hexUnit? (digits ++ s) = some n := by
  cases unit with
  | digits first second third fourth =>
      simp only [List.cons_append, List.nil_append, hexUnit?, hexValue?_of_hexDigit first,
        hexValue?_of_hexDigit second, hexValue?_of_hexDigit third, hexValue?_of_hexDigit fourth]
      rfl

theorem unicodeEscape?_unit {c : Char} {digits : List Char} (unit : HexUnit digits c.toNat)
    (s : List Char) : unicodeEscape? (digits ++ s) = some (c, 4) := by
  unfold unicodeEscape?
  simp [hexUnit?_of_hexUnit unit, isHighSurrogate_toNat, scalar?_toNat]

theorem unicodeEscape?_pair {c : Char} {digits digits' : List Char} {high low : Nat}
    (two : units c = [high, low]) (first : HexUnit digits high) (second : HexUnit digits' low)
    (s : List Char) :
    unicodeEscape? (digits ++ '\\' :: 'u' :: (digits' ++ s)) = some (c, 10) := by
  obtain ⟨isHigh, isLow, code⟩ := units_eq_pair two
  have rest : (digits ++ '\\' :: 'u' :: (digits' ++ s)).drop 4 = '\\' :: 'u' :: (digits' ++ s) := by
    rw [← first.length_eq, List.drop_left]
  have found : lowEscape? ('\\' :: 'u' :: (digits' ++ s)) = some low := by
    simp [lowEscape?, hexUnit?_of_hexUnit second, isLow]
  unfold unicodeEscape?
  simp [hexUnit?_of_hexUnit first, isHigh, rest, found, code, scalar?_toNat]

theorem escapedChar_eq (c : Char) : escapedChar c = unescaped c := by
  unfold escapedChar
  split
  case h_6 n f r t v =>
    have other (d e : Char) (ne : c ≠ d) (rest : List (Char × Char)) :
        ((d, e) :: rest).lookup c = rest.lookup c := by
      rw [List.lookup_cons, beq_false_of_ne ne]
    rw [unescaped, shortEscapes, other _ _ n, other _ _ f, other _ _ r, other _ _ t, other _ _ v]
    rfl
  all_goals rfl

section Run

variable {quote : Char}

theorem stringRun_raw {c : Char} (other : c ≠ quote) (plain : c ≠ '\\') (s : List Char) :
    stringRun quote (c :: s) = consString c 1 (stringRun quote s) := by
  rw [stringRun, if_neg other]
  all_goals simp [plain]

theorem stringRun_escaped {c : Char} (short : c ≠ 'u') (s : List Char) :
    stringRun quote ('\\' :: c :: s) = consString (unescaped c) 2 (stringRun quote s) := by
  rw [stringRun, escapedChar_eq]
  exact short

theorem stringRun_unicode (quote : Char) {c : Char} {s : List Char} {n : Nat}
    (escape : unicodeEscape? s = some (c, n)) :
    stringRun quote ('\\' :: 'u' :: s) = consString c (n + 2) (stringRun quote (s.drop n)) := by
  rw [stringRun, escape]

/-- A piece is read as its character, whatever follows it. -/
theorem stringRun_piece {c : Char} {piece : List Char} (spelled : Piece quote c piece)
    (s : List Char) :
    stringRun quote (piece ++ s) = consString c piece.length (stringRun quote s) := by
  cases spelled with
  | raw other plain => exact stringRun_raw other plain s
  | escaped short => exact stringRun_escaped short s
  | unit _ unit =>
      have read := stringRun_unicode quote (unicodeEscape?_unit unit s)
      rw [← unit.length_eq, List.drop_left] at read
      exact read
  | @pair c digits digits' high low two first second =>
      have read := stringRun_unicode quote (unicodeEscape?_pair two first second s)
      have length : (digits ++ '\\' :: 'u' :: digits').length = 10 := by
        simp [first.length_eq, second.length_eq]
      have whole : digits ++ '\\' :: 'u' :: (digits' ++ s) =
          (digits ++ '\\' :: 'u' :: digits') ++ s := by simp
      rw [whole, ← length, List.drop_left] at read
      exact read

theorem stringRun_spelled {s text : List Char} (proper : quote ≠ '\\')
    (spelled : Spells quote s text) (rest : List Char) :
    stringRun quote (text ++ quote :: rest) = .ok (s, text.length + 1) := by
  induction spelled with
  | nil =>
      rw [List.nil_append, stringRun, if_pos rfl]
      · rfl
      all_goals simp [proper]
  | cons piece _ ih =>
      rw [List.append_assoc, stringRun_piece piece, ih]
      simp only [consString, List.length_append]
      congr 2
      omega

end Run

/-- The text is one token, the string that it is read as. -/
def ReadsAs (text : List Char) (s : List Char) : Prop :=
  ∃ token : Token, tokenize (String.ofList text) = .ok [token] ∧ token.position = 0 ∧
    token.text = String.ofList text ∧ token.isIdentifier = false ∧
    token.lexeme = .string text s

theorem readsAs_of_spells {quote : Char} (quoted : isQuote quote = true) {s text : List Char}
    (spelled : Spells quote s text) : ReadsAs (quote :: (text ++ [quote])) s := by
  have either : quote = '\x27' ∨ quote = '\x22' := by simpa [isQuote] using quoted
  have proper : quote ≠ '\\' := by
    rintro rfl
    cases quoted
  have noNumber : startsNumber (quote :: (text ++ [quote])) = false := by
    rcases either with rfl | rfl <;> rfl
  have run := stringRun_spelled proper spelled []
  have found : front 0 quote (text ++ [quote]) =
      .ok ⟨some (.string (quote :: (text ++ [quote])) s), text.length + 1⟩ := by
    have whole : (text ++ [quote]).take (text.length + 1) = text ++ [quote] :=
      List.take_of_length_le (by simp)
    rw [front, if_neg (by simp [noNumber]), if_pos quoted, frontString, run]
    simp only [whole]
  have nothing : (text ++ [quote]).drop (text.length + 1) = [] := List.drop_of_length_le (by simp)
  refine ⟨⟨.string (quote :: (text ++ [quote])) s, 0⟩, ?_, rfl, rfl, rfl, rfl⟩
  rw [tokenize, String.toList_ofList, tokensFrom, found]
  simp only [nothing, tokensFrom]

/-- A character as listings write it is spelled that way. -/
theorem piece_spell (c : Char) : Piece '\x27' c (Listing.quoting.spell c) := by
  by_cases plain : (c.isAlphanum || c == ' ') = true
  · have itself : Listing.quoting.spell c = [c] := if_pos plain
    rw [itself]
    apply Piece.raw
    · rintro rfl
      cases plain
    · rintro rfl
      cases plain
  · have escaped : Listing.quoting.spell c = (units c).flatMap unitEscape := if_neg plain
    rw [escaped]
    rcases Nat.lt_or_ge c.toNat 0x10000 with small | large
    · rw [units_of_lt small]
      simpa [unitEscape] using Piece.unit small (hexUnit_hexDigits small)
    · obtain ⟨high, low, two⟩ : ∃ high low, units c = [high, low] := ⟨_, _, units_of_le large⟩
      obtain ⟨isHigh, isLow, _⟩ := units_eq_pair two
      simp only [isHighSurrogate, isLowSurrogate, Bool.and_eq_true, decide_eq_true_eq]
        at isHigh isLow
      have first := hexUnit_hexDigits (n := high) (by omega)
      have second := hexUnit_hexDigits (n := low) (by omega)
      rw [two]
      have pair : Piece '\x27' c _ := .pair two first second
      simpa [unitEscape] using pair

theorem spells_flatMap {quote : Char} {spell : Char → List Char}
    (pieces : ∀ c, Piece quote c (spell c)) (s : List Char) : Spells quote s (s.flatMap spell) := by
  induction s with
  | nil => exact .nil
  | cons c s ih => exact .cons (pieces c) ih

/-- **Every spelling is read back.** Between two quotes of either kind, every spelling of a string
is one token, at the start of the text and as long as the text, with the string for its value. The
quoted form of listings is such a spelling of every string. -/
theorem readsAs_spelling :
    (∀ quote s text, isQuote quote = true → Spells quote s text →
      ReadsAs (quote :: (text ++ [quote])) s) ∧
    ∀ s : String, ReadsAs (Listing.quote s).toList s.toList := by
  refine ⟨fun quote s text quoted spelled => readsAs_of_spells quoted spelled, fun s => ?_⟩
  have spelled := spells_flatMap piece_spell s.toList
  have read := readsAs_of_spells rfl spelled
  rw [Listing.quote, String.toList_ofList]
  exact read

/-- A line break after a backslash, an upper case digit, a pair of surrogates next to an escaped
quote, and a raw quote of the other kind. -/
theorem readsAs_spelling_mixed :
    isQuote '\x27' = true ∧
    ∃ text, String.ofList text = "\\n\\u00E9\\ud83D\\uDe00\\'\"" ∧
      Spells '\x27' ['\n', 'é', '😀', '\x27', '\x22'] text ∧
      ReadsAs ('\x27' :: (text ++ ['\x27'])) ['\n', 'é', '😀', '\x27', '\x22'] := by
  have accent : HexUnit ['0', '0', 'E', '9'] 'é'.toNat :=
    .digits (k := 0) (l := 0) (m := 14) (n := 9) (by decide) (by decide) (by decide) (by decide)
  have high : HexUnit ['d', '8', '3', 'D'] 0xd83d :=
    .digits (k := 13) (l := 8) (m := 3) (n := 13) (by decide) (by decide) (by decide) (by decide)
  have low : HexUnit ['D', 'e', '0', '0'] 0xde00 :=
    .digits (k := 13) (l := 14) (m := 0) (n := 0) (by decide) (by decide) (by decide) (by decide)
  have spelled : Spells '\x27' ['\n', 'é', '😀', '\x27', '\x22'] _ :=
    .cons (.escaped (c := 'n') (by decide)) <| .cons (.unit (by decide) accent) <|
      .cons (.pair (by decide) high low) <| .cons (.escaped (c := '\x27') (by decide)) <|
        .cons (.raw (by decide) (by decide)) .nil
  exact ⟨rfl, _, rfl, spelled, readsAs_spelling.1 _ _ _ rfl spelled⟩

end GuardedExpr.Spelling
