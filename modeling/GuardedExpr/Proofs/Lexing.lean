import GuardedExpr.Token.Lexer

/-!
# Lexemes of tokens

Every token of a text is what the lexer found at the front of some rest of it.
Hence the text of a token tells a symbol from everything else: numbers begin
with a digit or go on after their point, strings keep their quotes, and no
symbol begins an identifier.
-/

namespace GuardedExpr.Lexer

/-- What holds of every lexeme at the front of a text holds of every token. -/
theorem forall_of_tokensFrom {Holds : Token → Prop}
    (front_holds : ∀ {position c s f lexeme}, front position c s = .ok f →
      f.lexeme? = some lexeme → Holds ⟨lexeme, position⟩)
    {position : Nat} {s : List Char} {tokens : List Token}
    (lexed : tokensFrom position s = .ok tokens) : ∀ t ∈ tokens, Holds t := by
  fun_induction tokensFrom position s generalizing tokens with
  | case1 =>
      cases lexed
      simp
  | case2 | case3 => cases lexed
  | case4 position c s f found rest split lexeme isLexeme ih =>
      cases lexed
      intro t member
      rcases List.mem_cons.mp member with rfl | later
      · exact front_holds found isLexeme
      · exact ih split t later
  | case5 position c s f found rest split blank ih =>
      cases lexed
      exact ih split

theorem isDigit_char (symbol : Symbol) : symbol.char.isDigit = false := by
  cases symbol <;> rfl

theorem isQuote_char (symbol : Symbol) : isQuote symbol.char = false := by
  cases symbol <;> rfl

theorem isIdentifierStart_char (symbol : Symbol) : isIdentifierStart symbol.char = false := by
  cases symbol <;> rfl

/-- The run of a number takes a digit or a point at its front. -/
theorem numberRun_cons {marked : Bool} {c : Char} {s : List Char} {n : Nat}
    (starts : (c == '.' || c.isDigit) = true) (run : numberRun marked (c :: s) = .ok n) :
    ∃ m, n = m + 1 ∧ numberRun false s = .ok m := by
  rw [numberRun] at run
  simp only [starts, ↓reduceIte] at run
  cases next : numberRun false s with
  | error e => simp [next] at run
  | ok m =>
      simp only [next, Except.ok.injEq] at run
      exact ⟨m, run.symm, rfl⟩

/-- A number is not written as a symbol: it begins with a digit, or has one after its point. -/
theorem take_numberRun_ne {c : Char} {s : List Char} {n : Nat}
    (starts : startsNumber (c :: s) = true) (run : numberRun false (c :: s) = .ok n)
    (symbol : Symbol) : (c :: s).take n ≠ [symbol.char] := by
  simp only [startsNumber, Bool.or_eq_true, Bool.and_eq_true, beq_iff_eq] at starts
  intro same
  rcases starts with digit | ⟨rfl, digit⟩
  · obtain ⟨m, rfl, -⟩ := numberRun_cons (by simp [digit]) run
    simp only [List.take_succ_cons, List.cons.injEq] at same
    rw [same.1, isDigit_char] at digit
    cases digit
  · cases s with
    | nil => cases digit
    | cons d s =>
        obtain ⟨m, rfl, run'⟩ := numberRun_cons (by simp) run
        have digit : d.isDigit = true := digit
        obtain ⟨k, rfl, -⟩ := numberRun_cons (by simp [digit]) run'
        simp at same

/-- What is found as a number is read off its run. -/
theorem eq_of_frontNumber {position : Nat} {c : Char} {s : List Char} {f : Front}
    (found : frontNumber position c s = .ok f) :
    ∃ n d, numberRun false (c :: s) = .ok n ∧ Number.Decimal.read? ((c :: s).take n) = some d ∧
      d.toFloat.isFinite = true ∧
      f = ⟨some (.number ((c :: s).take n) d.toFloat), n - 1⟩ := by
  unfold frontNumber at found
  split at found
  · cases found
  · rename_i n run
    dsimp only at found
    split at found
    · cases found
    · rename_i d read
      split at found
      · rename_i finite
        cases found
        exact ⟨n, d, run, read, finite, rfl⟩
      · cases found

theorem eq_of_frontString {position : Nat} {quote : Char} {s : List Char} {f : Front}
    (found : frontString position quote s = .ok f) :
    ∃ n value, stringRun quote s = .ok (value, n) ∧
      f = ⟨some (.string (quote :: s.take n) value), n⟩ := by
  unfold frontString at found
  split at found
  · cases found
  · cases found
  · rename_i value n run
    cases found
    exact ⟨n, value, run, rfl⟩

/-- What is found at the front of a text is a symbol if it is written as one. -/
theorem front_symbol {position : Nat} {c : Char} {s : List Char} {f : Front} {lexeme : Lexeme}
    {symbol : Symbol} (found : front position c s = .ok f) (isLexeme : f.lexeme? = some lexeme)
    (written : lexeme.text = [symbol.char]) : lexeme = .symbol symbol := by
  unfold front at found
  split at found
  · rename_i starts
    obtain ⟨n, d, run, _, _, rfl⟩ := eq_of_frontNumber found
    obtain rfl := Option.some.inj isLexeme
    exact absurd written (take_numberRun_ne starts run symbol)
  split at found
  · rename_i quote
    obtain ⟨n, value, _, rfl⟩ := eq_of_frontString found
    obtain rfl := Option.some.inj isLexeme
    rw [(List.cons.inj written).1, isQuote_char] at quote
    cases quote
  split at found
  · rename_i symbol' read
    obtain rfl := Except.ok.inj found
    obtain rfl := Option.some.inj isLexeme
    have same : symbol'.char = symbol.char := (List.cons.inj written).1
    have := Symbol.ofChar?_char symbol'
    rw [same, Symbol.ofChar?_char] at this
    rw [Option.some.inj this]
  split at found
  · rename_i starts
    obtain rfl := Except.ok.inj found
    obtain rfl := Option.some.inj isLexeme
    rw [(List.cons.inj written).1, isIdentifierStart_char] at starts
    cases starts
  split at found
  · obtain rfl := Except.ok.inj found
    cases isLexeme
  · cases found

end GuardedExpr.Lexer

namespace GuardedExpr

/-- The lexeme is a symbol if it is written as one. -/
def Lexeme.IsPlain (lexeme : Lexeme) : Prop :=
  ∀ symbol : Symbol, lexeme.text = [symbol.char] → lexeme = .symbol symbol

def Token.IsPlain (t : Token) : Prop :=
  t.lexeme.IsPlain

theorem Lexeme.isPlain_symbol (s : Symbol) : (Lexeme.symbol s).IsPlain := by
  intro symbol written
  rw [Symbol.char_inj.mp (List.singleton_inj.mp written)]

theorem Token.isPlain_symbol (s : Symbol) (i : Nat) : IsPlain ⟨.symbol s, i⟩ :=
  Lexeme.isPlain_symbol s

theorem Token.text_eq_singleton_iff {t : Token} {c : Char} :
    t.text = String.singleton c ↔ t.lexeme.text = [c] := by
  rw [Token.text, String.singleton_eq_ofList, String.ofList_inj]

/-- A plain token is taken for the symbols that it is. -/
theorem Token.IsPlain.isSymbol_free_iff {t : Token} (plain : t.IsPlain) {s : Symbol} :
    t.free.isSymbol s = true ↔ t.lexeme = .symbol s := by
  rw [FreeToken.isSymbol, beq_iff_eq]
  change t.text = String.singleton s.char ↔ _
  rw [text_eq_singleton_iff]
  constructor
  · exact plain s
  · intro same
    rw [same]
    rfl

/-- The tokens of a text are plain. -/
theorem Token.isPlain_of_tokenize {text : String} {tokens : List Token}
    (lexed : tokenize text = .ok tokens) : ∀ t ∈ tokens, t.IsPlain :=
  Lexer.forall_of_tokensFrom
    (fun found isLexeme _ written => Lexer.front_symbol found isLexeme written) lexed

/-- A token of a text is a symbol exactly when it is written as one. -/
theorem Token.lexeme_eq_symbol_iff {text : String} {tokens : List Token}
    (lexed : tokenize text = .ok tokens) {t : Token} (member : t ∈ tokens) (symbol : Symbol) :
    t.lexeme = .symbol symbol ↔ t.text = String.singleton symbol.char := by
  rw [text_eq_singleton_iff]
  constructor
  · intro same
    rw [same]
    rfl
  · exact isPlain_of_tokenize lexed t member symbol

end GuardedExpr
