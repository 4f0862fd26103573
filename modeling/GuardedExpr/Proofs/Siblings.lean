import GuardedExpr.Proofs.Joining
import GuardedExpr.Proofs.Parsing

/-!
# Siblings and depth

The grammar reads what tokens are and not where they stand, so an element of a
list literal is spelled there by the tokens that spell it alone. What the list
adds to the nesting is one, for itself, however many elements it has: it is read
under a limit exactly if each of them is read there in a list of its own.
-/

namespace GuardedExpr

/-- The tokens without their positions. -/
def lexemes (tokens : List Token) : List Lexeme :=
  tokens.map Token.lexeme

section Lexemes

variable {tokens left right : List Token} {t : Token} {first : Lexeme} {before after : List Lexeme}

@[simp]
theorem lexemes_append : lexemes (left ++ right) = lexemes left ++ lexemes right :=
  List.map_append

@[simp]
theorem lexemes_cons : lexemes (t :: tokens) = t.lexeme :: lexemes tokens :=
  List.map_cons

@[simp]
theorem lexemes_nil : lexemes [] = [] :=
  rfl

theorem lexemes_shift (distance : Nat) (tokens : List Token) :
    lexemes (tokens.map (Token.shift distance)) = lexemes tokens := by
  rw [lexemes, List.map_map]
  rfl

theorem exists_of_lexemes_append (same : lexemes tokens = before ++ after) :
    ∃ left right, tokens = left ++ right ∧ lexemes left = before ∧ lexemes right = after :=
  List.map_eq_append_iff.mp same

theorem exists_of_lexemes_cons (same : lexemes tokens = first :: after) :
    ∃ position right, tokens = ⟨first, position⟩ :: right ∧ lexemes right = after := by
  obtain ⟨t, right, rfl, rfl, later⟩ := List.map_eq_cons_iff.mp same
  exact ⟨t.position, right, rfl, later⟩

theorem eq_nil_of_lexemes (same : lexemes tokens = []) : tokens = [] :=
  List.map_eq_nil_iff.mp same

/-- Tokens between brackets. -/
theorem exists_of_lexemes_enclosed {last : Lexeme}
    (same : lexemes tokens = first :: (before ++ [last])) :
    ∃ i inner j, tokens = ⟨first, i⟩ :: (inner ++ [⟨last, j⟩]) ∧ lexemes inner = before := by
  obtain ⟨i, rest, rfl, later⟩ := exists_of_lexemes_cons same
  obtain ⟨inner, rest, rfl, inside, closing⟩ := exists_of_lexemes_append later
  obtain ⟨j, rest, rfl, done⟩ := exists_of_lexemes_cons closing
  obtain rfl := eq_nil_of_lexemes done
  exact ⟨i, inner, j, rfl, inside⟩

end Lexemes

namespace Grammar

variable {α : Type} {Spells : List Token → α → Prop} {tokens : List Token} {e : Expr}

/-- All tokens with these lexemes spell it. -/
def Anywhere (Spells : List Token → α → Prop) (tokens : List Token) (a : α) : Prop :=
  ∀ tokens', lexemes tokens' = lexemes tokens → Spells tokens' a

theorem Separated.anywhere {as : List α} (separated : Separated (Anywhere Spells) tokens as) :
    Anywhere (Separated Spells) tokens as := by
  induction separated with
  | nil =>
      intro tokens' same
      obtain rfl := eq_nil_of_lexemes same
      exact .nil
  | one spelled => exact fun tokens' same => .one (spelled tokens' same)
  | more spelled _ ih =>
      intro tokens' same
      rw [lexemes_append, lexemes_cons] at same
      obtain ⟨part, rest, rfl, here, later⟩ := exists_of_lexemes_append same
      obtain ⟨i, rest, rfl, after⟩ := exists_of_lexemes_cons later
      exact .more (spelled part here) (ih rest after)

theorem Literal.of_lexeme {t t' : Token} {value : Json} (literal : Literal t value)
    (same : t'.lexeme = t.lexeme) : Literal t' value := by
  obtain ⟨lexeme, position⟩ := t'
  obtain rfl : lexeme = t.lexeme := same
  cases literal with
  | number => exact .number
  | string => exact .string

theorem Word.of_lexeme {t t' : Token} (word : Word t e) (same : t'.lexeme = t.lexeme) :
    Word t' e := by
  obtain ⟨lexeme, position⟩ := t'
  obtain rfl : lexeme = t.lexeme := same
  cases word with
  | null keyword => exact .null keyword
  | true keyword => exact .true keyword
  | false keyword => exact .false keyword
  | self keyword => exact .self keyword
  | identifier name => exact .identifier name
  | literal literal => exact .literal (literal.of_lexeme rfl)

theorem Key.of_lexeme {t t' : Token} {key : PropertyKey} (spelled : Key t key)
    (same : t'.lexeme = t.lexeme) : Key t' key := by
  obtain ⟨lexeme, position⟩ := t'
  obtain rfl : lexeme = t.lexeme := same
  cases spelled with
  | name => exact .name
  | literal literal => exact .literal (literal.of_lexeme rfl)

theorem Entry.anywhere {Spells : List Token → Expr → Prop} {property : PropertyKey × Expr}
    (entry : Entry (Anywhere Spells) tokens property) :
    Anywhere (Entry Spells) tokens property := by
  cases entry with
  | mk key spelled =>
      intro tokens' same
      rw [lexemes_cons, lexemes_cons] at same
      obtain ⟨i, rest, rfl, later⟩ := exists_of_lexemes_cons same
      obtain ⟨j, rest, rfl, after⟩ := exists_of_lexemes_cons later
      exact .mk (key.of_lexeme rfl) (spelled rest after)

/-- Positions make no difference to what is spelled. -/
theorem Assignment.anywhere (spelled : Assignment tokens e) : Anywhere Assignment tokens e := by
  refine spelled.rule_induction (A := Anywhere Assignment) (U := Anywhere Unary)
    (P := Anywhere Primary) (B := Anywhere Base) ?operand ?store ?operator ?primary ?base
    ?member ?index ?call ?word ?array ?arrayTrailing ?object
  case operand => exact fun spelled tokens' same => .operand (spelled tokens' same)
  case primary => exact fun spelled tokens' same => .primary (spelled tokens' same)
  case base => exact fun _ spelled tokens' same => .base (spelled tokens' same)
  case store =>
    intro left right target value i target value tokens' same
    rw [lexemes_append, lexemes_cons] at same
    obtain ⟨left, rest, rfl, before, later⟩ := exists_of_lexemes_append same
    obtain ⟨i, right, rfl, after⟩ := exists_of_lexemes_cons later
    exact .store (target left before) (value right after)
  case operator =>
    intro operator tokens e i spelled tokens' same
    rw [lexemes_cons] at same
    obtain ⟨i, rest, rfl, after⟩ := exists_of_lexemes_cons same
    exact .operator (spelled rest after)
  case member =>
    intro chain owner name i j _ spelled tokens' same
    rw [lexemes_append, lexemes_cons, lexemes_cons] at same
    obtain ⟨chain, rest, rfl, before, later⟩ := exists_of_lexemes_append same
    obtain ⟨i, rest, rfl, after⟩ := exists_of_lexemes_cons later
    obtain ⟨j, rest, rfl, done⟩ := exists_of_lexemes_cons after
    obtain rfl := eq_nil_of_lexemes done
    exact .member (spelled chain before)
  case index =>
    intro chain tokens owner key i j _ spelled key tokens' same
    simp only [lexemes_append, lexemes_cons, lexemes_nil] at same
    obtain ⟨chain, rest, rfl, before, later⟩ := exists_of_lexemes_append same
    obtain ⟨i, inner, j, rfl, inside⟩ := exists_of_lexemes_enclosed later
    exact .index (spelled chain before) (key inner inside)
  case call =>
    intro chain tokens callee arguments i j _ spelled separated tokens' same
    simp only [lexemes_append, lexemes_cons, lexemes_nil] at same
    obtain ⟨chain, rest, rfl, before, later⟩ := exists_of_lexemes_append same
    obtain ⟨i, inner, j, rfl, inside⟩ := exists_of_lexemes_enclosed later
    have parts : Separated (Anywhere Assignment) tokens arguments :=
      separated.imp fun _ part => part.2
    exact .call (spelled chain before) (parts.anywhere inner inside)
  case word =>
    intro t e word tokens' same
    rw [lexemes_cons, lexemes_nil] at same
    obtain ⟨i, rest, rfl, done⟩ := exists_of_lexemes_cons same
    obtain rfl := eq_nil_of_lexemes done
    exact .word (word.of_lexeme rfl)
  case array =>
    intro tokens elements i j separated tokens' same
    simp only [lexemes_append, lexemes_cons, lexemes_nil] at same
    obtain ⟨i, inner, j, rfl, inside⟩ := exists_of_lexemes_enclosed same
    have parts : Separated (Anywhere Assignment) tokens elements :=
      separated.imp fun _ part => part.2
    exact .array (parts.anywhere inner inside)
  case arrayTrailing =>
    intro tokens e es i j k separated tokens' same
    have bracketed : lexemes tokens' = .symbol .openBracket ::
        ((lexemes tokens ++ [.symbol .comma]) ++ [.symbol .closeBracket]) := by simpa using same
    obtain ⟨i, inner, k, rfl, inside⟩ := exists_of_lexemes_enclosed bracketed
    obtain ⟨inner, rest, rfl, before, later⟩ := exists_of_lexemes_append inside
    obtain ⟨j, rest, rfl, done⟩ := exists_of_lexemes_cons later
    obtain rfl := eq_nil_of_lexemes done
    have parts : Separated (Anywhere Assignment) tokens (e :: es) :=
      separated.imp fun _ part => part.2
    rw [List.append_assoc]
    exact .arrayTrailing (parts.anywhere inner before)
  case object =>
    intro tokens properties i j separated tokens' same
    simp only [lexemes_append, lexemes_cons, lexemes_nil] at same
    obtain ⟨i, inner, j, rfl, inside⟩ := exists_of_lexemes_enclosed same
    have parts : Separated (Anywhere (Entry Assignment)) tokens properties :=
      separated.imp fun _ entry => Entry.anywhere (entry.imp fun part => part.2)
    exact .object (parts.anywhere inner inside)

end Grammar

open Grammar

/-- The lexemes of parts with a comma between each and the next. -/
def commaLexemes (parts : List (List Token)) : List Lexeme :=
  [Lexeme.symbol .comma].intercalate (parts.map lexemes)

/-- The tokens are those of a list literal with these elements, wherever they stand. -/
def IsListOf (parts : List (List Token)) (tokens : List Token) : Prop :=
  lexemes tokens = .symbol .openBracket :: (commaLexemes parts ++ [.symbol .closeBracket])

/-- The text of a list literal with these elements. -/
def listText (texts : List String) : String :=
  "[" ++ ", ".intercalate texts ++ "]"

theorem commaLexemes_cons_cons (part next : List Token) (parts : List (List Token)) :
    commaLexemes (part :: next :: parts) =
      lexemes part ++ .symbol .comma :: commaLexemes (next :: parts) := by
  simp only [commaLexemes, List.map_cons, List.intercalate_cons_cons]
  rw [List.append_assoc]
  rfl

theorem commaLexemes_singleton (part : List Token) : commaLexemes [part] = lexemes part :=
  List.intercalate_singleton

theorem forall_isPlain_iff {tokens : List Token} :
    (∀ t ∈ tokens, t.IsPlain) ↔ ∀ lexeme ∈ lexemes tokens, lexeme.IsPlain := by
  rw [lexemes, List.forall_mem_map]
  exact Iff.rfl

theorem isPlain_of_mem_commaLexemes {parts : List (List Token)}
    (plain : ∀ part ∈ parts, ∀ t ∈ part, t.IsPlain) :
    ∀ lexeme ∈ commaLexemes parts, lexeme.IsPlain := by
  induction parts with
  | nil => exact List.forall_mem_nil _
  | cons part parts ih =>
      obtain ⟨here, later⟩ := List.forall_mem_cons.mp plain
      cases parts with
      | nil =>
          rw [commaLexemes_singleton]
          exact forall_isPlain_iff.mp here
      | cons next parts =>
          rw [commaLexemes_cons_cons]
          exact List.forall_mem_append.mpr ⟨forall_isPlain_iff.mp here,
            List.forall_mem_cons.mpr ⟨Lexeme.isPlain_symbol .comma, ih later⟩⟩

/-- The tokens of a list of plain tokens are plain. -/
theorem IsListOf.isPlain {parts : List (List Token)} {tokens : List Token}
    (lists : IsListOf parts tokens) (plain : ∀ part ∈ parts, ∀ t ∈ part, t.IsPlain) :
    ∀ t ∈ tokens, t.IsPlain := by
  rw [forall_isPlain_iff, lists]
  exact List.forall_mem_cons.mpr ⟨Lexeme.isPlain_symbol .openBracket, List.forall_mem_append.mpr
    ⟨isPlain_of_mem_commaLexemes plain,
      List.forall_mem_singleton.mpr (Lexeme.isPlain_symbol .closeBracket)⟩⟩

section Elements

variable {elements : List (List Token × Expr)} {tokens : List Token} {limit : Nat} {tree : Expr}

theorem separated_of_commaLexemes
    (spelled : ∀ element ∈ elements, Assignment element.1 element.2)
    (same : lexemes tokens = commaLexemes (elements.map Prod.fst)) :
    Separated Assignment tokens (elements.map Prod.snd) := by
  induction elements generalizing tokens with
  | nil =>
      obtain rfl := eq_nil_of_lexemes same
      exact .nil
  | cons element elements ih =>
      obtain ⟨here, later⟩ := List.forall_mem_cons.mp spelled
      cases elements with
      | nil =>
          rw [List.map_singleton, commaLexemes_singleton] at same
          exact .one (here.anywhere _ same)
      | cons next elements =>
          rw [List.map_cons, List.map_cons, commaLexemes_cons_cons] at same
          obtain ⟨part, rest, rfl, before, tail⟩ := exists_of_lexemes_append same
          obtain ⟨i, rest, rfl, after⟩ := exists_of_lexemes_cons tail
          exact .more (here.anywhere part before) (ih later after)

/-- Reading a list takes one more than reading the element that takes the most. -/
theorem parseTokens_of_lists (plain : ∀ element ∈ elements, ∀ t ∈ element.1, t.IsPlain)
    (spelled : ∀ element ∈ elements, Assignment element.1 element.2)
    (lists : IsListOf (elements.map Prod.fst) tokens) :
    parseTokens limit tokens = .ok tree ↔
      tree = .program (.array (elements.map Prod.snd)) ∧
        Expr.nestingOfList (elements.map Prod.snd) + 1 ≤ limit := by
  have plain := lists.isPlain (List.forall_mem_map.mpr plain)
  obtain ⟨i, inner, j, rfl, same⟩ := exists_of_lexemes_enclosed lists
  have list := Assignment.operand (.primary (.base (Base.array (i := i) (j := j)
    (separated_of_commaLexemes spelled same))))
  rw [parseTokens_eq_ok_iff plain]
  constructor
  · rintro ⟨body, rfl, spelled', fits⟩
    obtain rfl := spelled'.unique plain list
    exact ⟨rfl, fits⟩
  · rintro ⟨rfl, fits⟩
    exact ⟨_, rfl, list, fits⟩

end Elements

namespace Lexer

theorem tokensFrom_of_tokenize {text : String} {tokens : List Token}
    (lexed : tokenize text = .ok tokens) (position : Nat) :
    tokensFrom position text.toList = .ok (tokens.map (Token.shift position)) := by
  rw [← Nat.zero_add position, tokensFrom_shift]
  change shifted _ (tokenize text) = _
  rw [lexed, shifted, Nat.zero_add]

/-- Elements are read up to the bracket after the last as they are read alone. -/
theorem tokensFrom_of_elements {texts : List String} {parts : List (List Token)}
    (lexed : List.Forall₂ (fun text part => tokenize text = .ok part) texts parts)
    (position : Nat) :
    ∃ tokens, tokensFrom position
        ([',', ' '].intercalate (texts.map String.toList) ++ [']']) = .ok tokens ∧
      lexemes tokens = commaLexemes parts ++ [.symbol .closeBracket] := by
  have close (position : Nat) :
      tokensFrom position [']'] = .ok [⟨.symbol .closeBracket, position⟩] :=
    tokensFrom_of_lexeme rfl (tokensFrom_nil _)
  induction lexed generalizing position with
  | nil => exact ⟨_, close position, rfl⟩
  | @cons text part texts parts here later ih =>
      have alone := tokensFrom_of_tokenize here position
      cases later with
      | nil =>
          have read := tokensFrom_append_of_ok stops_closeBracket alone (close _)
          refine ⟨_, Eq.trans ?_ read, ?_⟩
          · rw [List.map_singleton, List.intercalate_singleton]
          · rw [lexemes_append, lexemes_shift, commaLexemes_singleton]
            rfl
      | @cons next _ texts parts _ _ =>
          obtain ⟨tokens, after, same⟩ := ih (position + text.toList.length + 1 + 1)
          rw [← tokensFrom_of_isBlank (w := ' ') rfl] at after
          have comma := tokensFrom_of_lexeme (c := ',') rfl after
          have read := tokensFrom_append_of_ok stops_comma alone comma
          refine ⟨_, Eq.trans ?_ read, ?_⟩
          · rw [List.map_cons, List.map_cons, List.intercalate_cons_cons, List.append_assoc,
              List.append_assoc]
            rfl
          · rw [lexemes_append, lexemes_shift, lexemes_cons, same, commaLexemes_cons_cons]
            simp

end Lexer

/-- The text of a list literal has the tokens of one. -/
theorem exists_tokenize_listText {texts : List String} {parts : List (List Token)}
    (lexed : List.Forall₂ (fun text part => tokenize text = .ok part) texts parts) :
    ∃ tokens, tokenize (listText texts) = .ok tokens ∧ IsListOf parts tokens := by
  obtain ⟨tokens, inside, same⟩ := Lexer.tokensFrom_of_elements lexed 1
  refine ⟨⟨.symbol .openBracket, 0⟩ :: tokens, ?_, congrArg (List.cons _) same⟩
  have written : (listText texts).toList =
      '[' :: ([',', ' '].intercalate (texts.map String.toList) ++ [']']) := by
    simp [listText]
  rw [tokenize, written]
  exact Lexer.tokensFrom_of_lexeme rfl inside

theorem forall_mem_iff_of_forall₂ {α β : Type} {R : α → β → Prop} {P : α → Prop} {Q : β → Prop}
    {as : List α} {bs : List β} (related : List.Forall₂ R as bs)
    (single : ∀ a ∈ as, ∀ b, R a b → (P a ↔ Q b)) : (∀ a ∈ as, P a) ↔ ∀ b ∈ bs, Q b := by
  induction related with
  | nil => simp
  | cons here _ ih =>
      obtain ⟨first, others⟩ := List.forall_mem_cons.mp single
      rw [List.forall_mem_cons, List.forall_mem_cons, first _ here, ih others]

theorem parse_of_tokenize {text : String} {tokens : List Token} {limit : Nat} {tree : Expr}
    (lexed : tokenize text = .ok tokens) :
    parse text limit = .ok tree ↔ parseTokens limit tokens = .ok tree := by
  rw [parse_eq_ok_iff, lexed]
  simp

/-- A list takes one more than its only element. -/
theorem accepts_list_of_one {part tokens : List Token} {e : Expr} {limit : Nat}
    (plain : ∀ t ∈ part, t.IsPlain) (spelled : Assignment part e) (lists : IsListOf [part] tokens) :
    (∃ tree, parseTokens limit tokens = .ok tree) ↔ e.nesting + 1 ≤ limit := by
  have plainOne : ∀ element ∈ [(part, e)], ∀ t ∈ element.1, t.IsPlain :=
    List.forall_mem_singleton.mpr plain
  have spelledOne : ∀ element ∈ [(part, e)], Assignment element.1 element.2 :=
    List.forall_mem_singleton.mpr spelled
  simp only [parseTokens_of_lists plainOne spelledOne lists, exists_eq_left]
  rw [List.map_singleton, Expr.nestingOfList, Expr.nestingOfList, Nat.max_zero]

theorem accepts_listText_of_one {text : String} {part : List Token} {e : Expr} {limit : Nat}
    (spelled : Assignment part e) (lexed : tokenize text = .ok part) :
    (∃ tree, parse (listText [text]) limit = .ok tree) ↔ e.nesting + 1 ≤ limit := by
  obtain ⟨tokens, alone, lists⟩ := exists_tokenize_listText (.cons lexed .nil)
  simp only [parse_of_tokenize alone]
  exact accepts_list_of_one (Token.isPlain_of_tokenize lexed) spelled lists

/-- How list literals are read whose elements are these. -/
structure ReadsLists (elements : List (List Token × Expr)) : Prop where
  /-- The tokens of the whole list are accepted exactly if those of each element alone in a list
  are, and the tree is the array of all trees. -/
  tokens {limit : Nat} {tokens : List Token} {alone : List (List Token)} {tree : Expr}
    (lists : IsListOf (elements.map Prod.fst) tokens)
    (single : List.Forall₂ (fun element tokens => IsListOf [element.1] tokens) elements alone) :
    parseTokens limit tokens = .ok tree ↔
      tree = .program (.array (elements.map Prod.snd)) ∧
        ∀ tokens ∈ alone, ∃ tree, parseTokens limit tokens = .ok tree
  /-- So is the text of the whole list, if the tokens of the elements come from texts. -/
  text {limit : Nat} {texts : List String} {tree : Expr}
    (lexed : List.Forall₂ (fun text element => tokenize text = .ok element.1) texts elements) :
    parse (listText texts) limit = .ok tree ↔
      tree = .program (.array (elements.map Prod.snd)) ∧
        ∀ text ∈ texts, ∃ tree, parse (listText [text]) limit = .ok tree

/-- **Siblings do not add up.** Given the tokens of at least one text, each accepted under some
limit: under any limit the list literal of all of them is accepted exactly if each is in a list of
its own, and its elements are their trees. -/
theorem readsLists {elements : List (List Token × Expr)} (nonempty : elements ≠ [])
    (lexed : ∀ element ∈ elements, ∃ text, tokenize text = .ok element.1)
    (accepted : ∀ element ∈ elements,
      ∃ limit, parseTokens limit element.1 = .ok (.program element.2)) : ReadsLists elements := by
  have plain : ∀ element ∈ elements, ∀ t ∈ element.1, t.IsPlain := by
    intro element member
    obtain ⟨text, lexed⟩ := lexed element member
    exact Token.isPlain_of_tokenize lexed
  have spelled : ∀ element ∈ elements, Assignment element.1 element.2 := by
    intro element member
    obtain ⟨limit, parsed⟩ := accepted element member
    obtain ⟨body, same, spelled, _⟩ := (parseTokens_eq_ok_iff (plain element member)).mp parsed
    rwa [Expr.program.inj same]
  have most (limit : Nat) : Expr.nestingOfList (elements.map Prod.snd) + 1 ≤ limit ↔
      ∀ element ∈ elements, element.2.nesting + 1 ≤ limit := by
    obtain _ | n := limit
    · obtain ⟨element, member⟩ := List.exists_mem_of_ne_nil elements nonempty
      exact iff_of_false (Nat.not_succ_le_zero _)
        fun fits => Nat.not_succ_le_zero _ (fits element member)
    · simp only [Nat.succ_le_succ_iff, Expr.nestingOfList_le_iff, List.forall_mem_map]
  constructor
  case tokens =>
    intro limit tokens alone tree lists single
    rw [parseTokens_of_lists plain spelled lists, most]
    refine and_congr_right' (forall_mem_iff_of_forall₂ single fun element member tokens lists => ?_)
    exact (accepts_list_of_one (plain element member) (spelled element member) lists).symm
  case text =>
    intro limit texts tree lexed
    obtain ⟨tokens, whole, lists⟩ :=
      exists_tokenize_listText ((List.forall₂_map_right_iff).mpr lexed)
    rw [parse_of_tokenize whole, parseTokens_of_lists plain spelled lists, most]
    refine and_congr_right'
      (forall_mem_iff_of_forall₂ lexed.flip fun element member text lexed => ?_)
    exact (accepts_listText_of_one (spelled element member) lexed).symm

/-- A name and a list of one: the list of both is read under three, as the list of the list is, and
not under two. -/
theorem readsLists_name_and_list : ∃ elements : List (List Token × Expr), elements ≠ [] ∧
    (∀ element ∈ elements, ∃ text, tokenize text = .ok element.1) ∧
    (∀ element ∈ elements, ∃ limit, parseTokens limit element.1 = .ok (.program element.2)) ∧
    parse "[x, [y]]" 3 = .ok (.program (.array [.identifier "x", .array [.identifier "y"]])) ∧
    ∀ tree, parse "[x, [y]]" 2 ≠ .ok tree := by
  have name : tokenize "x" = .ok [⟨.identifier ['x'], 0⟩] := by cbv
  have list : tokenize "[y]" = .ok [⟨.symbol .openBracket, 0⟩, ⟨.identifier ['y'], 1⟩,
      ⟨.symbol .closeBracket, 2⟩] := by cbv
  have spelledName : Assignment [⟨.identifier ['x'], 0⟩] (.identifier "x") :=
    .operand (.primary (.base (.word (.identifier (by decide)))))
  have spelledElement : Assignment [⟨.identifier ['y'], 1⟩] (.identifier "y") :=
    .operand (.primary (.base (.word (.identifier (by decide)))))
  have spelledList : Assignment [⟨.symbol .openBracket, 0⟩, ⟨.identifier ['y'], 1⟩,
      ⟨.symbol .closeBracket, 2⟩] (.array [.identifier "y"]) :=
    .operand (.primary (.base (Base.array (.one spelledElement) :)))
  have lexed : List.Forall₂ (fun text (element : List Token × Expr) =>
      tokenize text = .ok element.1) ["x", "[y]"]
        [(_, .identifier "x"), (_, .array [.identifier "y"])] :=
    .cons name (.cons list .nil)
  have accepted {text : String} {part : List Token} {e : Expr} (lexed : tokenize text = .ok part)
      (spelled : Assignment part e) : ∃ limit, parseTokens limit part = .ok (.program e) :=
    ⟨_, (parseTokens_eq_ok_iff_of_tokenize lexed).mpr ⟨e, rfl, spelled, Nat.le_refl _⟩⟩
  have both : ∀ element ∈ [([⟨.identifier ['x'], 0⟩], Expr.identifier "x"),
      ([⟨.symbol .openBracket, 0⟩, ⟨.identifier ['y'], 1⟩, ⟨.symbol .closeBracket, 2⟩],
        .array [.identifier "y"])], ∃ limit, parseTokens limit element.1 =
          .ok (.program element.2) :=
    List.forall_mem_cons.mpr ⟨accepted name spelledName,
      List.forall_mem_singleton.mpr (accepted list spelledList)⟩
  have fromTexts : ∀ element ∈ [([⟨.identifier ['x'], 0⟩], Expr.identifier "x"),
      ([⟨.symbol .openBracket, 0⟩, ⟨.identifier ['y'], 1⟩, ⟨.symbol .closeBracket, 2⟩],
        .array [.identifier "y"])], ∃ text, tokenize text = .ok element.1 :=
    List.forall_mem_cons.mpr ⟨⟨_, name⟩, List.forall_mem_singleton.mpr ⟨_, list⟩⟩
  have reads := readsLists (List.cons_ne_nil _ _) fromTexts both
  refine ⟨_, List.cons_ne_nil _ _, fromTexts, both, (reads.text lexed).mpr ⟨rfl, ?_⟩,
    fun tree parsed => ?_⟩
  · exact List.forall_mem_cons.mpr ⟨(accepts_listText_of_one spelledName name).mpr (by decide),
      List.forall_mem_singleton.mpr ((accepts_listText_of_one spelledList list).mpr (by decide))⟩
  · have deep := ((reads.text lexed).mp parsed).2 "[y]" (by simp)
    exact absurd ((accepts_listText_of_one spelledList list).mp deep) (by decide)

end GuardedExpr
