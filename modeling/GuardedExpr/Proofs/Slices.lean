import Mathlib
import GuardedExpr.Proofs.Lexing

/-!
# Tokens are slices of their text

A text that has tokens is laid out as these tokens with blanks between them and
at the two ends: nothing is lost, nothing is read twice. A word is a slice that
begins like an identifier, and it goes on as far as identifiers do.
-/

namespace GuardedExpr

/-- The position right after a token. -/
def Token.stop (t : Token) : Nat :=
  t.position + t.text.length

/-- The token takes the character at this position. -/
def Token.Covers (t : Token) (position : Nat) : Prop :=
  t.position ≤ position ∧ position < t.stop

@[simp] theorem Token.toList_text (t : Token) : t.text.toList = t.lexeme.text :=
  String.toList_ofList

theorem Token.length_text (t : Token) : t.text.length = t.lexeme.text.length := by
  rw [← String.length_toList, Token.toList_text]

theorem Token.stop_mk (lexeme : Lexeme) (position : Nat) :
    (Token.mk lexeme position).stop = position + lexeme.text.length := by
  rw [Token.stop, Token.length_text]

/-- The tokens of a text, told by their positions in it. -/
structure Lossless (text : List Char) (tokens : List Token) : Prop where
  /-- The text of a token is what stands at its position. -/
  slice : ∀ t ∈ tokens, t.text ≠ "" ∧ t.stop ≤ text.length ∧
    t.text.toList = (text.drop t.position).take t.text.length
  /-- Every token ends before the next one starts. -/
  ordered : tokens.Pairwise fun t u => t.position < u.position ∧ t.stop ≤ u.position
  /-- What no token takes is blank. -/
  rest : ∀ position c, text[position]? = some c → (∀ t ∈ tokens, ¬ t.Covers position) →
    Lexer.isBlank c = true
  /-- Identifiers are the tokens that start like one. -/
  word_iff : ∀ t ∈ tokens, t.isIdentifier = true ↔
    ∃ c, text[t.position]? = some c ∧ Lexer.isIdentifierStart c = true
  /-- An identifier takes nothing else than characters of identifiers. -/
  word : ∀ t ∈ tokens, t.isIdentifier = true → ∀ position, t.Covers position →
    ∃ c, text[position]? = some c ∧ Lexer.isIdentifierPart c = true
  /-- An identifier takes all of them. -/
  munch : ∀ t ∈ tokens, t.isIdentifier = true → ∀ c, text[t.stop]? = some c →
    Lexer.isIdentifierPart c = false

namespace Lexer

section Runs

/-- What the run of a number does with the character at its front. -/
inductive NumberStep where
  | stop
  | fault
  /-- Takes it, and it is an exponent mark or not. -/
  | take (mark : Bool)

/-- What the run of a number does with the character before the rest of a text. -/
def numberStep (marked : Bool) (c : Char) (rest : List Char) : NumberStep :=
  if c == '.' || c.isDigit then .take false
  else if isExponentMark c && headIs (fun d => isSign d || d.isDigit) rest then .take true
  else if isSign c then
    if marked && headIs Char.isDigit rest then .take false else .fault
  else .stop

/-- A run after one more character. -/
def after : Except Nat Nat → Except Nat Nat
  | .ok n => .ok (n + 1)
  | .error offset => .error (offset + 1)

theorem numberRun_cons_eq (marked : Bool) (c : Char) (s : List Char) :
    numberRun marked (c :: s) =
      match numberStep marked c s with
      | .stop => .ok 0
      | .fault => .error 0
      | .take mark => after (numberRun mark s) := by
  rw [numberRun, numberStep]
  split
  · rfl
  split
  · rfl
  split
  · split <;> rfl
  · rfl

variable {quote c : Char} {s : List Char} {n : Nat}

theorem eq_succ_of_after {run : Except Nat Nat} (taken : after run = .ok n) :
    ∃ m, run = .ok m ∧ n = m + 1 := by
  cases run with
  | error e => cases taken
  | ok m =>
      cases taken
      exact ⟨m, rfl, rfl⟩

theorem le_length_of_numberRun {marked : Bool} (run : numberRun marked s = .ok n) :
    n ≤ s.length := by
  induction s generalizing marked n with
  | nil =>
      cases run
      exact Nat.le_refl 0
  | cons c s ih =>
      rw [numberRun_cons_eq] at run
      cases step : numberStep marked c s with
      | stop =>
          rw [step] at run
          cases run
          exact Nat.zero_le _
      | fault =>
          rw [step] at run
          cases run
      | take mark =>
          rw [step] at run
          obtain ⟨m, later, rfl⟩ := eq_succ_of_after run
          exact Nat.succ_le_succ (ih later)

theorem four_le_of_hexUnit? {unit : Nat} (read : hexUnit? s = some unit) : 4 ≤ s.length := by
  unfold hexUnit? at read
  split at read
  · simp
  · cases read

theorem six_le_of_lowEscape? {low : Nat} (read : lowEscape? s = some low) : 6 ≤ s.length := by
  unfold lowEscape? at read
  split at read
  · have := four_le_of_hexUnit? (Option.filter_eq_some_iff.mp read).1
    simp only [List.length_cons]
    omega
  · cases read

theorem le_length_of_unicodeEscape? (escape : unicodeEscape? s = some (c, n)) :
    n ≤ s.length := by
  unfold unicodeEscape? at escape
  split at escape
  · cases escape
  · next unit read =>
      have four := four_le_of_hexUnit? read
      split at escape
      · next low pair =>
          obtain ⟨_, _, same⟩ := Option.map_eq_some_iff.mp escape
          cases same
          split at pair
          · have six := six_le_of_lowEscape? pair
            rw [List.length_drop] at six
            omega
          · cases pair
      · obtain ⟨_, _, same⟩ := Option.map_eq_some_iff.mp escape
        cases same
        exact four

theorem eq_of_consString {count : Nat} {run : Except StringFault (List Char × Nat)}
    {value : List Char} (read : consString c count run = .ok (value, n)) :
    ∃ value' m, run = .ok (value', m) ∧ value = c :: value' ∧ n = m + count := by
  cases run with
  | error e => cases e <;> cases read
  | ok result =>
      cases read
      exact ⟨_, _, rfl, rfl, rfl⟩

theorem le_length_of_stringRun {value : List Char} (run : stringRun quote s = .ok (value, n)) :
    n ≤ s.length := by
  fun_induction stringRun quote s generalizing value n with
  | case1 => cases run
  | case2 => cases run
  | case3 s c m escape ih =>
      obtain ⟨_, k, later, _, rfl⟩ := eq_of_consString run
      have inside := le_length_of_unicodeEscape? escape
      have below := ih later
      rw [List.length_drop] at below
      simp only [List.length_cons]
      omega
  | case4 c s _ ih =>
      obtain ⟨_, k, later, _, rfl⟩ := eq_of_consString run
      have below := ih later
      simp only [List.length_cons]
      omega
  | case5 =>
      cases run
      simp
  | case6 c s _ _ _ ih =>
      obtain ⟨_, k, later, _, rfl⟩ := eq_of_consString run
      have below := ih later
      simp only [List.length_cons]
      omega

end Runs

section Fronts

variable {position n : Nat} {c : Char} {s rest : List Char} {f : Front} {lexeme : Lexeme}

/-- The lexeme is an identifier if it begins like one, and then it goes on as far as possible. -/
def Munches (lexeme : Lexeme) (rest : List Char) : Prop :=
  match lexeme with
  | .identifier name => headIs isIdentifierStart name = true ∧
      (∀ c ∈ name, isIdentifierPart c = true) ∧ headIs isIdentifierPart rest = false
  | lexeme => headIs isIdentifierStart lexeme.text = false

theorem headIs_dropWhile (p : Char → Bool) (s : List Char) : headIs p (s.dropWhile p) = false := by
  induction s with
  | nil => rfl
  | cons c s ih =>
      rw [List.dropWhile_cons]
      split
      · exact ih
      · next other => exact Bool.eq_false_iff.mpr other

theorem drop_length_takeWhile (p : Char → Bool) (s : List Char) :
    s.drop (s.takeWhile p).length = s.dropWhile p := by
  calc s.drop (s.takeWhile p).length
      = (s.takeWhile p ++ s.dropWhile p).drop (s.takeWhile p).length := by
        rw [List.takeWhile_append_dropWhile]
    _ = s.dropWhile p := List.drop_left

theorem sixtyFive_le_of_isAlpha (letter : c.isAlpha = true) : 65 ≤ c.toNat := by
  simp only [Char.isAlpha, Char.isUpper, Char.isLower, Bool.or_eq_true, Bool.and_eq_true,
    decide_eq_true_eq] at letter
  rcases letter with ⟨lower, _⟩ | ⟨lower, _⟩
  · exact UInt32.le_iff_toNat_le.mp lower
  · exact Nat.le_trans (by decide) (UInt32.le_iff_toNat_le.mp lower)

theorem isIdentifierStart_eq_false_of_isDigit (digit : c.isDigit = true) :
    isIdentifierStart c = false := by
  have code : c.toNat ≤ 57 := (Char.isDigit_iff_toNat.mp digit).2
  apply Bool.eq_false_iff.mpr
  intro starts
  simp only [isIdentifierStart, Bool.or_eq_true, beq_iff_eq] at starts
  rcases starts with (letter | rfl) | rfl
  · have := sixtyFive_le_of_isAlpha letter
    omega
  · cases digit
  · cases digit

theorem isIdentifierStart_eq_false_of_startsNumber (starts : startsNumber (c :: s) = true) :
    isIdentifierStart c = false := by
  simp only [startsNumber, Bool.or_eq_true, Bool.and_eq_true, beq_iff_eq] at starts
  rcases starts with digit | ⟨rfl, _⟩
  · exact isIdentifierStart_eq_false_of_isDigit digit
  · rfl

theorem isIdentifierStart_eq_false_of_isQuote (quoted : isQuote c = true) :
    isIdentifierStart c = false := by
  have either : c = '\x27' ∨ c = '\x22' := by simpa [isQuote] using quoted
  rcases either with rfl | rfl <;> rfl

/-- What is found at the front of a text is a slice of it, or else a blank. -/
theorem slice_of_front (found : front position c s = .ok f) :
    f.more ≤ s.length ∧
      match f.lexeme? with
      | none => isBlank c = true ∧ f.more = 0
      | some lexeme => lexeme.text = c :: s.take f.more ∧ Munches lexeme (s.drop f.more) := by
  unfold front at found
  split at found
  · next starts =>
      obtain ⟨n, d, run, _, _, rfl⟩ := eq_of_frontNumber found
      have front : (c == '.' || c.isDigit) = true := by
        simp only [startsNumber, Bool.or_eq_true, Bool.and_eq_true] at starts
        rcases starts with digit | ⟨point, _⟩
        · rw [digit, Bool.or_true]
        · rw [point, Bool.true_or]
      obtain ⟨m, rfl, _⟩ := numberRun_cons front run
      exact ⟨Nat.le_of_succ_le_succ (le_length_of_numberRun run), rfl,
        isIdentifierStart_eq_false_of_startsNumber starts⟩
  split at found
  · next quoted =>
      obtain ⟨n, value, run, rfl⟩ := eq_of_frontString found
      exact ⟨le_length_of_stringRun run, rfl, isIdentifierStart_eq_false_of_isQuote quoted⟩
  split at found
  · next symbol read =>
      cases found
      have same : symbol.char = c := eq_of_beq (List.find?_some (p := fun s : Symbol => s.char == c) read)
      refine ⟨Nat.zero_le _, by rw [Lexeme.text, same, List.take_zero], ?_⟩
      exact isIdentifierStart_char symbol
  split at found
  · next starts =>
      cases found
      have stops : headIs isIdentifierPart (s.drop (s.takeWhile isIdentifierPart).length) = false := by
        rw [drop_length_takeWhile]
        exact headIs_dropWhile _ s
      have parts : ∀ d ∈ c :: s.takeWhile isIdentifierPart, isIdentifierPart d = true := by
        refine List.forall_mem_cons.mpr ⟨?_, fun d member => List.mem_takeWhile_imp member⟩
        rw [isIdentifierPart, starts, Bool.true_or]
      refine ⟨(List.takeWhile_prefix _).length_le, ?_, starts, parts, stops⟩
      rw [Lexeme.text, ← List.prefix_iff_eq_take.mp (List.takeWhile_prefix _)]
  split at found
  · next blank =>
      cases found
      exact ⟨Nat.zero_le _, blank, rfl⟩
  · cases found

theorem tokensFrom_nil (position : Nat) : tokensFrom position [] = .ok [] := by
  rw [tokensFrom]

theorem tokensFrom_of_lexeme {tokens : List Token}
    (found : front position c s = .ok ⟨some lexeme, n⟩)
    (later : tokensFrom (position + n + 1) (s.drop n) = .ok tokens) :
    tokensFrom position (c :: s) = .ok (⟨lexeme, position⟩ :: tokens) := by
  rw [tokensFrom, found]
  simp only [later]

theorem tokensFrom_of_blank {tokens : List Token} (found : front position c s = .ok ⟨none, 0⟩)
    (later : tokensFrom (position + 1) s = .ok tokens) :
    tokensFrom position (c :: s) = .ok tokens := by
  rw [tokensFrom, found]
  simp only [Nat.add_zero, List.drop_zero, later]

end Fronts

/-- A text from a position on, cut into lexemes and blanks. -/
inductive Cut : Nat → List Char → List Token → Prop where
  | nil {position : Nat} : Cut position [] []
  | blank {position : Nat} {c : Char} {s : List Char} {tokens : List Token} :
      isBlank c = true → Cut (position + 1) s tokens → Cut position (c :: s) tokens
  | lexeme {position : Nat} {lexeme : Lexeme} {rest : List Char} {tokens : List Token} :
      lexeme.text ≠ [] → Munches lexeme rest → Cut (position + lexeme.text.length) rest tokens →
      Cut position (lexeme.text ++ rest) (⟨lexeme, position⟩ :: tokens)

theorem cut_of_tokensFrom {position : Nat} {s : List Char} {tokens : List Token}
    (lexed : tokensFrom position s = .ok tokens) : Cut position s tokens := by
  fun_induction tokensFrom position s generalizing tokens with
  | case1 =>
      cases lexed
      exact .nil
  | case2 | case3 => cases lexed
  | case4 position c s f found later split lexeme isLexeme ih =>
      cases lexed
      have slice := slice_of_front found
      rw [isLexeme] at slice
      obtain ⟨inside, text, munches⟩ := slice
      have whole : c :: s = lexeme.text ++ s.drop f.more := by
        rw [text, List.cons_append, List.take_append_drop]
      have length : lexeme.text.length = f.more + 1 := by
        rw [text, List.length_cons, List.length_take, Nat.min_eq_left inside]
      rw [whole]
      refine .lexeme ?_ munches ?_
      · rw [text]
        exact List.cons_ne_nil _ _
      · rw [length]
        exact ih split
  | case5 position c s f found later split none ih =>
      cases lexed
      have slice := slice_of_front found
      rw [none] at slice
      obtain ⟨_, blank, zero⟩ := slice
      rw [zero] at split ih
      exact .blank blank (ih split)

namespace Cut

variable {position : Nat} {s : List Char} {tokens : List Token}

/-- Around every token stands the rest of the text. -/
theorem slice (cut : Cut position s tokens) : ∀ t ∈ tokens, ∃ before rest,
    s = before ++ (t.lexeme.text ++ rest) ∧ t.position = position + before.length ∧
      t.lexeme.text ≠ [] ∧ Munches t.lexeme rest := by
  induction cut with
  | nil => exact nofun
  | @blank position c s tokens _ _ ih =>
      intro t member
      obtain ⟨before, rest, rfl, placed, proper, munches⟩ := ih t member
      refine ⟨c :: before, rest, rfl, ?_, proper, munches⟩
      rw [placed, List.length_cons]
      omega
  | @lexeme position lexeme rest tokens proper munches _ ih =>
      refine List.forall_mem_cons.mpr ⟨⟨[], rest, rfl, rfl, proper, munches⟩, ?_⟩
      intro t member
      obtain ⟨before, rest, rfl, placed, proper, munches⟩ := ih t member
      refine ⟨lexeme.text ++ before, rest, by rw [List.append_assoc], ?_, proper, munches⟩
      rw [placed, List.length_append]
      omega

theorem ordered (cut : Cut position s tokens) :
    tokens.Pairwise fun t u => t.position < u.position ∧ t.stop ≤ u.position := by
  induction cut with
  | nil => exact .nil
  | blank _ _ ih => exact ih
  | @lexeme position lexeme rest tokens proper _ cut ih =>
      refine List.pairwise_cons.mpr ⟨fun u member => ?_, ih⟩
      obtain ⟨before, _, _, placed, _⟩ := cut.slice u member
      have positive := List.length_pos_of_ne_nil proper
      rw [Token.stop_mk]
      show position < u.position ∧ _
      rw [placed]
      omega

/-- What no token takes is blank. -/
theorem isBlank (cut : Cut position s tokens) {i : Nat} {c : Char}
    (there : s[i]? = some c) (outside : ∀ t ∈ tokens, ¬ t.Covers (position + i)) :
    Lexer.isBlank c = true := by
  induction cut generalizing i with
  | nil => cases there
  | @blank position d s tokens blank _ ih =>
      cases i with
      | zero =>
          cases there
          exact blank
      | succ i =>
          refine ih there fun t member => ?_
          rw [Nat.add_assoc, Nat.add_comm 1]
          exact outside t member
  | @lexeme position lexeme rest tokens _ _ _ ih =>
      obtain ⟨beside, others⟩ := List.forall_mem_cons.mp outside
      have past : lexeme.text.length ≤ i := by
        by_contra inside
        refine beside ⟨Nat.le_add_right _ _, ?_⟩
        rw [Token.stop_mk]
        omega
      rw [List.getElem?_append_right past] at there
      refine ih there fun t member => ?_
      rw [Nat.add_assoc, Nat.add_sub_cancel' past]
      exact others t member

end Cut

theorem headIs_eq_true_iff {p : Char → Bool} {s : List Char} :
    headIs p s = true ↔ ∃ c, s[0]? = some c ∧ p c = true := by
  cases s with
  | nil => simp [headIs]
  | cons c s => simp [headIs]

theorem Munches.start_iff {lexeme : Lexeme} {rest : List Char} (munches : Munches lexeme rest) :
    headIs isIdentifierStart lexeme.text = true ↔ ∃ name, lexeme = .identifier name := by
  cases lexeme with
  | identifier name =>
      exact iff_of_true munches.1 ⟨name, rfl⟩
  | _ =>
      refine iff_of_false ?_ ?_
      · exact Bool.eq_false_iff.mp munches
      · rintro ⟨_, ⟨⟩⟩

end Lexer

theorem Token.isIdentifier_iff (t : Token) :
    t.isIdentifier = true ↔ ∃ name, t.lexeme = .identifier name := by
  unfold Token.isIdentifier
  split
  · next name same => exact iff_of_true rfl ⟨name, same⟩
  · next other =>
      refine iff_of_false nofun ?_
      rintro ⟨name, same⟩
      exact other name same

/-- **Lexing loses nothing.** The tokens of a text are slices of it, one after the other, with
nothing but blanks around them. The identifiers are those that start like one, and each takes all
the characters of identifiers that follow. -/
theorem lossless_of_tokenize {text : String} {tokens : List Token}
    (lexed : tokenize text = .ok tokens) : Lossless text.toList tokens := by
  have cut := Lexer.cut_of_tokensFrom lexed
  have slice {t : Token} (member : t ∈ tokens) : ∃ before rest,
      text.toList = before ++ (t.lexeme.text ++ rest) ∧ t.position = before.length ∧
        t.lexeme.text ≠ [] ∧ Lexer.Munches t.lexeme rest := by
    simpa using cut.slice t member
  constructor
  · intro t member
    obtain ⟨before, rest, whole, placed, proper, _⟩ := slice member
    refine ⟨?_, ?_, ?_⟩
    · intro empty
      rw [← String.toList_eq_nil_iff, Token.toList_text] at empty
      exact proper empty
    · rw [Token.stop, Token.length_text, whole, placed]
      simp
    · rw [Token.length_text, Token.toList_text, whole, placed, List.drop_left, List.take_left]
  · exact cut.ordered
  · intro position c there outside
    refine cut.isBlank there ?_
    rwa [Nat.zero_add]
  · intro t member
    obtain ⟨before, rest, whole, placed, proper, munches⟩ := slice member
    rw [Token.isIdentifier_iff, ← munches.start_iff, Lexer.headIs_eq_true_iff, whole, placed,
      List.getElem?_append_right (Nat.le_refl _), Nat.sub_self,
      List.getElem?_append_left (List.length_pos_of_ne_nil proper)]
  · intro t member isIdentifier position covers
    obtain ⟨before, rest, whole, placed, proper, munches⟩ := slice member
    obtain ⟨name, same⟩ := t.isIdentifier_iff.mp isIdentifier
    rw [same] at munches whole
    obtain ⟨atLeast, upTo⟩ := covers
    rw [Token.stop, Token.length_text, same] at upTo
    have inside : position - before.length < name.length := by
      change position < t.position + name.length at upTo
      omega
    refine ⟨name[position - before.length], ?_, munches.2.1 _ (List.getElem_mem inside)⟩
    rw [whole, List.getElem?_append_right (by omega), Lexeme.text,
      List.getElem?_append_left inside, List.getElem?_eq_getElem inside]
  · intro t member isIdentifier c there
    obtain ⟨before, rest, whole, placed, proper, munches⟩ := slice member
    obtain ⟨name, same⟩ := t.isIdentifier_iff.mp isIdentifier
    rw [whole, Token.stop, Token.length_text, placed, ← List.append_assoc, ← List.length_append,
      List.getElem?_append_right (Nat.le_refl _), Nat.sub_self] at there
    rw [same] at munches
    apply Bool.eq_false_iff.mpr
    intro part
    have goesOn := Lexer.headIs_eq_true_iff.mpr ⟨c, there, part⟩
    rw [munches.2.2] at goesOn
    cases goesOn

/-- A name, a number that begins with its point and ends before a letter, and a string with its own
quote inside. -/
theorem lossless_of_tokenize_adjacent :
    ∃ tokens, tokenize " $a1 .5e-3e'\\''" = .ok tokens ∧
      tokens.map (fun t => (t.position, t.text)) =
        [(1, "$a1"), (5, ".5e-3"), (10, "e"), (11, "'\\''")] ∧
      Lossless " $a1 .5e-3e'\\''".toList tokens := by
  have lexed : tokenize " $a1 .5e-3e'\\''" = .ok [⟨.identifier ['$', 'a', '1'], 1⟩,
      ⟨.number ['.', '5', 'e', '-', '3'] (Number.Decimal.toFloat ⟨5, -4⟩), 5⟩,
      ⟨.identifier ['e'], 10⟩, ⟨.string ['\x27', '\\', '\x27', '\x27'] ['\x27'], 11⟩] := by
    have string : Lexer.front 11 '\x27' ['\\', '\x27', '\x27'] =
        .ok ⟨some (.string ['\x27', '\\', '\x27', '\x27'] ['\x27']), 3⟩ := by cbv
    exact Lexer.tokensFrom_of_blank rfl <| Lexer.tokensFrom_of_lexeme rfl <|
      Lexer.tokensFrom_of_blank rfl <| Lexer.tokensFrom_of_lexeme rfl <|
        Lexer.tokensFrom_of_lexeme rfl <| Lexer.tokensFrom_of_lexeme string (Lexer.tokensFrom_nil _)
  exact ⟨_, lexed, rfl, lossless_of_tokenize lexed⟩

end GuardedExpr
