import Mathlib
import GuardedExpr.Proofs.Grammar.Completeness
import GuardedExpr.Proofs.Grammar.Depth
import GuardedExpr.Proofs.Grammar.Soundness
import GuardedExpr.Proofs.Lexing

/-!
# Parsing is the grammar, cut off by nesting

The parser gives an expression exactly when the tokens spell it and its nesting
is within the limit. With a limit above the number of tokens the cut never
shows, so parsing decides the grammar, and no tokens of a text spell two
expressions. The limit bounds the nesting and not the level: the level of what
is read lies within the limit at every limit only if it lies within the nesting.
-/

namespace GuardedExpr

open Grammar

/-- **Parsing is spelling within the limit**, for tokens that are symbols if they are written as
such. -/
theorem parseTokens_eq_ok_iff {limit : Nat} {tokens : List Token} {tree : Expr}
    (plain : ∀ t ∈ tokens, t.IsPlain) :
    parseTokens limit tokens = .ok tree ↔
      ∃ body, tree = .program body ∧ Assignment tokens body ∧ body.nesting ≤ limit := by
  constructor
  · intro parsed
    unfold parseTokens buildTree at parsed
    cases whole : (Parser.program limit).run (tokens.map Token.free) with
    | error e => simp [whole] at parsed
    | ok result =>
        obtain ⟨tree', rest⟩ := result
        simp only [whole, Except.ok.injEq] at parsed
        subst parsed
        simp only [Parser.program, Reader.bind] at whole
        cases first :
          (Parser.assignment (Parser.unary limit limit)).run (tokens.map Token.free) with
        | error e => simp [first] at whole
        | ok result =>
            obtain ⟨body, left⟩ := result
            obtain ⟨taken, remaining, rfl, rfl, spelled, fits⟩ := Parser.sound_assignment
              (Parser.sound_unary_and_links limit limit).1 tokens body left plain first
            simp only [first] at whole
            cases remaining with
            | nil =>
                cases whole
                exact ⟨body, rfl, by rwa [List.append_nil], fits⟩
            | cons t remaining => cases whole
  · rintro ⟨body, rfl, spelled, fits⟩
    have read : (Parser.assignment (Parser.unary limit limit)).run
        (tokens.map Token.free ++ []) = .ok (body, []) :=
      Parser.run_assignment spelled limit plain fits rfl rfl
    rw [List.append_nil] at read
    simp only [parseTokens, buildTree, Parser.program]
    rw [Reader.run_bind_of_ok read]
    rfl

/-- The tokens of a text are read exactly if they spell the tree within the limit. -/
theorem parseTokens_eq_ok_iff_of_tokenize {text : String} {tokens : List Token} {limit : Nat}
    {tree : Expr} (lexed : tokenize text = .ok tokens) :
    parseTokens limit tokens = .ok tree ↔
      ∃ body, tree = .program body ∧ Assignment tokens body ∧ body.nesting ≤ limit :=
  parseTokens_eq_ok_iff (Token.isPlain_of_tokenize lexed)

/-- A text is read exactly if it has tokens and these are. -/
theorem parse_eq_ok_iff {text : String} {limit : Nat} {tree : Expr} :
    parse text limit = .ok tree ↔
      ∃ tokens, tokenize text = .ok tokens ∧ parseTokens limit tokens = .ok tree := by
  unfold parse
  cases lexed : tokenize text with
  | error e => simp
  | ok tokens => cases parsed : parseTokens limit tokens <;> simp [parsed]

/-- What the tokens of a text spell is read under every limit that it fits. -/
theorem parse_of_spelled {text : String} {tokens : List Token} {limit : Nat} {body : Expr}
    (lexed : tokenize text = .ok tokens) (spelled : Assignment tokens body)
    (fits : body.nesting ≤ limit) : parse text limit = .ok (.program body) :=
  parse_eq_ok_iff.mpr ⟨tokens, lexed,
    (parseTokens_eq_ok_iff_of_tokenize lexed).mpr ⟨body, rfl, spelled, fits⟩⟩

/-- Plain tokens never spell two expressions. -/
theorem Grammar.Assignment.unique {tokens : List Token} {first second : Expr}
    (plain : ∀ t ∈ tokens, t.IsPlain) (spelled : Assignment tokens first)
    (spelled' : Assignment tokens second) : first = second := by
  have read {body : Expr} (spelled : Assignment tokens body) :
      parseTokens tokens.length tokens = .ok (.program body) :=
    (parseTokens_eq_ok_iff plain).mpr ⟨body, rfl, spelled, spelled.nesting_le_length⟩
  exact Expr.program.inj (Except.ok.inj ((read spelled).symm.trans (read spelled')))

/-- **Parsing decides the grammar.** Under a limit that the tokens of a text cannot reach, the
parser gives an expression exactly when the tokens spell it; they spell at most one, and all other
tokens fail. The parser tells symbols by the texts of tokens, and a token of a text is a symbol
exactly when it is written as one, so the quotes of a string keep it from being read as
punctuation. -/
theorem parseTokens_decides {text : String} {tokens : List Token}
    (lexed : tokenize text = .ok tokens) {limit : Nat} (wide : tokens.length + 1 ≤ limit) :
    (∀ tree, parseTokens limit tokens = .ok tree ↔
      ∃ body, tree = .program body ∧ Assignment tokens body) ∧
    (∀ first second, Assignment tokens first → Assignment tokens second → first = second) ∧
    ((¬ ∃ body, Assignment tokens body) → ∃ e, parseTokens limit tokens = .error e) ∧
    ∀ t ∈ tokens, ∀ symbol, t.lexeme = .symbol symbol ↔ t.text = String.singleton symbol.char := by
  have decides (tree : Expr) : parseTokens limit tokens = .ok tree ↔
      ∃ body, tree = .program body ∧ Assignment tokens body := by
    rw [parseTokens_eq_ok_iff_of_tokenize lexed]
    constructor
    · rintro ⟨body, rfl, spelled, _⟩
      exact ⟨body, rfl, spelled⟩
    · rintro ⟨body, rfl, spelled⟩
      have short := spelled.nesting_le_length
      exact ⟨body, rfl, spelled, by omega⟩
  have plain := Token.isPlain_of_tokenize lexed
  refine ⟨decides, fun _ _ => Assignment.unique plain, fun none => ?_, ?_⟩
  · cases parsed : parseTokens limit tokens with
    | error e => exact ⟨e, rfl⟩
    | ok tree =>
        obtain ⟨body, _, spelled⟩ := (decides tree).mp parsed
        exact absurd ⟨body, spelled⟩ none
  · exact fun t member symbol => Token.lexeme_eq_symbol_iff lexed member symbol

/-- A comma after the last element, a keyword as a name, and a string that looks like a bracket. -/
theorem parseTokens_decides_trailing_comma :
    ∃ tokens, tokenize "[a, ].null = '['" = .ok tokens ∧ tokens.length + 1 ≤ 9 ∧
      parseTokens 9 tokens = .ok (.program (.assign (.member (.array [.identifier "a"]) "null")
        (.literal (.string "[")))) := by
  have lexed : tokenize "[a, ].null = '['" = .ok [⟨.symbol .openBracket, 0⟩,
      ⟨.identifier ['a'], 1⟩, ⟨.symbol .comma, 2⟩, ⟨.symbol .closeBracket, 4⟩, ⟨.symbol .dot, 5⟩,
      ⟨.identifier ['n', 'u', 'l', 'l'], 6⟩, ⟨.symbol .equals, 11⟩,
      ⟨.string ['\x27', '[', '\x27'] ['['], 13⟩] := by cbv
  refine ⟨_, lexed, by decide, ((parseTokens_decides lexed (by decide)).1 _).mpr ⟨_, rfl, ?_⟩⟩
  have element : Assignment [⟨.identifier ['a'], 1⟩] (.identifier "a") :=
    .operand (.primary (.base (.word (.identifier (by decide)))))
  have list : Primary [⟨.symbol .openBracket, 0⟩, ⟨.identifier ['a'], 1⟩, ⟨.symbol .comma, 2⟩,
      ⟨.symbol .closeBracket, 4⟩] (.array [.identifier "a"]) :=
    .base (Base.arrayTrailing (.one element) :)
  have target : Primary ([⟨.symbol .openBracket, 0⟩, ⟨.identifier ['a'], 1⟩, ⟨.symbol .comma, 2⟩,
      ⟨.symbol .closeBracket, 4⟩] ++
        [⟨.symbol .dot, 5⟩, ⟨.identifier ['n', 'u', 'l', 'l'], 6⟩])
      (.member (.array [.identifier "a"]) "null") := .member list
  exact (Assignment.store (.primary target)
    (.primary (.base (.word (.literal .string)))) :)

/-- **What the limit bounds.** The nesting of what is read is within the limit, and its level is
within the triangle of the limit. The text is read under a limit below the level exactly if that
limit is not below the nesting, so the level is within every limit that the text is read under
exactly if it is within the nesting. -/
theorem nesting_and_level_of_parse {text : String} {limit : Nat} {body : Expr}
    (parsed : parse text limit = .ok (.program body)) :
    body.nesting ≤ limit ∧ 2 * body.level ≤ limit * (limit + 1) ∧
      (∀ m, parse text m = .ok (.program body) ∧ m < body.level ↔
        body.nesting ≤ m ∧ m < body.level) ∧
      ((∀ m, parse text m = .ok (.program body) → body.level ≤ m) ↔
        body.level ≤ body.nesting) := by
  obtain ⟨tokens, lexed, parsed⟩ := parse_eq_ok_iff.mp parsed
  obtain ⟨body', same, spelled, fits⟩ := (parseTokens_eq_ok_iff_of_tokenize lexed).mp parsed
  obtain rfl : body = body' := Expr.program.inj same
  have read (m : Nat) : parse text m = .ok (.program body) ↔ body.nesting ≤ m := by
    rw [parse_eq_ok_iff]
    constructor
    · rintro ⟨tokens', lexed', parsed'⟩
      obtain ⟨body', same, _, fits⟩ := (parseTokens_eq_ok_iff_of_tokenize lexed').mp parsed'
      rwa [Expr.program.inj same]
    · exact fun fits => parse_eq_ok_iff.mp (parse_of_spelled lexed spelled fits)
  refine ⟨fits, ?_, fun m => and_congr_left' (read m), ?_, ?_⟩
  · rw [← two_mul_triangle]
    exact Nat.mul_le_mul_left 2 (Nat.le_trans spelled.level_le (triangle_mono fits))
  · exact fun within => within _ ((read _).mpr (Nat.le_refl _))
  · exact fun le m accepted => Nat.le_trans le ((read m).mp accepted)

/-- A link after a list inside a list is read under a limit of three. -/
theorem parse_link_after_list : parse "[[a]].b" 3 =
    .ok (.program (.member (.array [.array [.identifier "a"]]) "b")) := by
  have lexed : tokenize "[[a]].b" = .ok [⟨.symbol .openBracket, 0⟩, ⟨.symbol .openBracket, 1⟩,
      ⟨.identifier ['a'], 2⟩, ⟨.symbol .closeBracket, 3⟩, ⟨.symbol .closeBracket, 4⟩,
      ⟨.symbol .dot, 5⟩, ⟨.identifier ['b'], 6⟩] := by cbv
  have element : Assignment [⟨.identifier ['a'], 2⟩] (.identifier "a") :=
    .operand (.primary (.base (.word (.identifier (by decide)))))
  have inner : Assignment [⟨.symbol .openBracket, 1⟩, ⟨.identifier ['a'], 2⟩,
      ⟨.symbol .closeBracket, 3⟩] (.array [.identifier "a"]) :=
    .operand (.primary (.base (Base.array (.one element) :)))
  have outer : Primary [⟨.symbol .openBracket, 0⟩, ⟨.symbol .openBracket, 1⟩,
      ⟨.identifier ['a'], 2⟩, ⟨.symbol .closeBracket, 3⟩, ⟨.symbol .closeBracket, 4⟩]
      (.array [.array [.identifier "a"]]) := .base (Base.array (.one inner) :)
  have chain : Primary [⟨.symbol .openBracket, 0⟩, ⟨.symbol .openBracket, 1⟩,
      ⟨.identifier ['a'], 2⟩, ⟨.symbol .closeBracket, 3⟩, ⟨.symbol .closeBracket, 4⟩,
      ⟨.symbol .dot, 5⟩, ⟨.identifier ['b'], 6⟩]
      (.member (.array [.array [.identifier "a"]]) "b") := (Primary.member outer :)
  exact parse_of_spelled lexed (.operand (.primary chain)) (by decide)

/-- The link is charged for itself only, and the list for itself only, so the level is greater. -/
theorem nesting_and_level_of_link_after_list :
    parse "[[a]].b" 3 = .ok (.program (.member (.array [.array [.identifier "a"]]) "b")) ∧
      (Expr.member (.array [.array [.identifier "a"]]) "b").level = 4 ∧
      ¬ ∀ m, parse "[[a]].b" m =
        .ok (.program (.member (.array [.array [.identifier "a"]]) "b")) → 4 ≤ m := by
  refine ⟨parse_link_after_list, rfl, fun within => ?_⟩
  have le := (nesting_and_level_of_parse parse_link_after_list).2.2.2.mp within
  exact absurd le (by decide)

/-- The limit does not bound the level. -/
theorem exists_parse_limit_lt_level :
    ∃ text limit body, parse text limit = .ok (.program body) ∧ limit < body.level :=
  ⟨_, _, _, parse_link_after_list, by decide⟩

/-- Under every limit, some tokens are read with as many levels as the triangle of the limit. -/
theorem exists_parseTokens_level (limit : Nat) :
    ∃ tokens body, parseTokens (limit + 1) tokens = .ok (.program body) ∧
      2 * body.level = (limit + 1) * (limit + 2) := by
  obtain ⟨tokens, body, spelled, plain, fits, level⟩ := exists_level_eq_triangle limit
  refine ⟨tokens, body, (parseTokens_eq_ok_iff plain).mpr ⟨body, rfl, spelled, fits⟩, ?_⟩
  rw [level, two_mul_triangle]

end GuardedExpr
