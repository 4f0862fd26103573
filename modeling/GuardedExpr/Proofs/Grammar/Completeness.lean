import GuardedExpr.Proofs.Reader

/-!
# What is spelled is read

The reader of operands finds every spelled expression again, in any room that
its nesting fits, whatever tokens follow that cannot continue it. The spelling
has to be one of plain tokens, as those of a text are; what follows may be
tokens of any kind. For a chain the statement is that reading its tokens comes
to reading further links after its tree, in the room that its links have left.
-/

namespace GuardedExpr.Grammar

open Reader

/-- No single word is a symbol. -/
theorem Word.lexeme_ne_symbol {t : Token} {e : Expr} (word : Word t e) (s : Symbol) :
    t.lexeme ≠ .symbol s := by
  cases word with
  | literal literal => cases literal <;> exact nofun
  | null | true | false | self | identifier => exact nofun

theorem Key.lexeme_ne_symbol {t : Token} {key : PropertyKey} (spelled : Key t key) (s : Symbol) :
    t.lexeme ≠ .symbol s := by
  cases spelled with
  | name => exact nofun
  | literal literal => cases literal <;> exact nofun

theorem isSymbol_free_eq_false {t : Token} (plain : t.IsPlain) {s : Symbol}
    (other : t.lexeme ≠ .symbol s) : t.free.isSymbol s = false :=
  Bool.eq_false_iff.mpr fun taken => other (plain.isSymbol_free_iff.mp taken)

/-- A plain token that is no symbol starts an item. -/
theorem startsItem_of_ne_symbol {t : Token} (plain : t.IsPlain)
    (other : ∀ s, t.lexeme ≠ .symbol s) : startsItem (some t.free) = true := by
  rw [startsItem, Option.any_some, List.all_eq_true]
  intro s _
  rw [isSymbol_free_eq_false plain (other s)]
  rfl

/-- A spelled expression starts like an item of a list. -/
theorem Assignment.startsItem {tokens : List Token} {e : Expr} (spelled : Assignment tokens e)
    (plain : ∀ t ∈ tokens, t.IsPlain) : startsItem (tokens.map Token.free).head? = true := by
  let Starts (tokens : List Token) : Prop :=
    (∀ t ∈ tokens, t.IsPlain) → Reader.startsItem (tokens.map Token.free).head? = true
  have append {chain : List Token} (starts : Starts chain) (more : List Token) :
      Starts (chain ++ more) := by
    intro plain
    have starts := starts (List.forall_mem_append.mp plain).1
    rwa [List.map_append, head?_append_of_startsItem starts]
  refine spelled.rule_induction (A := fun tokens _ => Starts tokens)
    (U := fun tokens _ => Starts tokens) (P := fun tokens _ => Starts tokens)
    (B := fun tokens _ => Starts tokens) ?operand ?store ?operator ?primary ?base ?member ?index
    ?call ?word ?array ?arrayTrailing ?object plain
  case operand | primary => exact fun starts => starts
  case store => exact fun starts _ => append starts _
  case operator =>
    intro operator tokens e i _ _
    cases operator <;> simp [Reader.startsItem, closers, UnaryOperator.symbol]
  case base => exact fun _ starts => starts
  case member => exact fun _ starts => append starts _
  case index | call => exact fun _ starts _ => append starts _
  case word =>
    intro token e word plain
    exact startsItem_of_ne_symbol (plain token List.mem_cons_self) word.lexeme_ne_symbol
  case array | arrayTrailing | object =>
    intros
    intro _
    simp [Reader.startsItem, closers]

/-- No operator starts a chain. -/
theorem Base.operator?_head {tokens : List Token} {e : Expr} (base : Base tokens e)
    (plain : ∀ t ∈ tokens, t.IsPlain) (rest : List FreeToken) :
    (tokens.map Token.free ++ rest).head?.bind Parser.operator? = none := by
  have alone {t : Token} (plain : t.IsPlain)
      (other : ∀ operator : UnaryOperator, t.lexeme ≠ .symbol operator.symbol) :
      Parser.operator? t.free = none :=
    Option.eq_none_iff_forall_ne_some.mpr fun operator found =>
      other operator (plain.operator?_free_iff.mp found)
  cases base with
  | word word =>
      exact alone (plain _ List.mem_cons_self) fun operator => word.lexeme_ne_symbol operator.symbol
  | array | arrayTrailing | object =>
      exact alone (Token.isPlain_symbol _ _) fun operator => by cases operator <;> exact nofun

end GuardedExpr.Grammar

namespace GuardedExpr.Parser

open Reader Grammar

/-- No token that ends an item opens a link. -/
theorem opensLink_of_endsItem {next : Option FreeToken} (ends : endsItem next = true) :
    opensLink next = false ∧ isNext .equals next = false := by
  cases next with
  | none => exact ⟨rfl, rfl⟩
  | some t =>
      obtain ⟨s, ending, taken⟩ : ∃ s ∈ Symbol.comma :: closers, t.isSymbol s = true := by
        simpa [endsItem, isNext] using ends
      have other {s' : Symbol} (apart : s' ∉ Symbol.comma :: closers) :
          isNext s' (some t) = false :=
        Bool.eq_false_iff.mpr fun taken' =>
          apart (FreeToken.isSymbol_unique taken' taken ▸ ending)
      refine ⟨List.any_eq_false.mpr fun s' links => ?_, other (by decide)⟩
      rw [other (by revert links; cases s' <;> decide)]
      exact Bool.false_ne_true

theorem run_propertyKey {t : Token} {key : PropertyKey} (spelled : Key t key)
    (rest : List FreeToken) : propertyKey.run (t.free :: rest) = .ok (key, rest) := by
  refine run_token ?_
  cases spelled with
  | name => rfl
  | literal literal => cases literal <;> rfl

/-- A single word is read as it is spelled. -/
theorem run_base_word {operand : Reader 1 Expr} {t : Token} {e : Expr} (word : Word t e)
    (plain : t.IsPlain) (rest : List FreeToken) :
    (base operand).run (t.free :: rest) = .ok (e, rest) := by
  have noList : isNext .openBracket (some t.free) = false :=
    isSymbol_free_eq_false plain (word.lexeme_ne_symbol _)
  have noObject : isNext .openBrace (some t.free) = false :=
    isSymbol_free_eq_false plain (word.lexeme_ne_symbol _)
  simp only [base, run_peek, List.head?_cons, noList, noObject, Bool.false_eq_true, ↓reduceIte]
  have name {cs : List Char} {i : Nat} :
      (identifier.map ofName).run (Token.free ⟨.identifier cs, i⟩ :: rest) =
        .ok (ofName (String.ofList cs), rest) :=
    run_map_of_ok (run_token rfl)
  cases word with
  | literal literal => cases literal <;> exact run_map_of_ok (run_token rfl)
  | null same | true same | false same | self same =>
      exact name.trans (by rw [same]; rfl)
  | identifier ordinary =>
      refine name.trans ?_
      simp only [keywords, List.mem_cons, List.not_mem_nil, or_false, not_or] at ordinary
      simp [ofName, ordinary]

variable {operand : Reader 1 Expr} {tokens : List Token} {rest : List FreeToken} {i j k : Nat}

theorem isPlain_of_enclosed {first : Token} {last : List Token}
    (plain : ∀ t ∈ first :: (tokens ++ last), t.IsPlain) : ∀ t ∈ tokens, t.IsPlain :=
  (List.forall_mem_append.mp (List.forall_mem_cons.mp plain).2).1

theorem map_free_enclosed (first : Token) (tokens last : List Token) (rest : List FreeToken) :
    (first :: (tokens ++ last)).map Token.free ++ rest =
      first.free :: (tokens.map Token.free ++ (last.map Token.free ++ rest)) := by
  simp

theorem run_array {elements : List Expr}
    (separated : Separated (ReadsItem (assignment operand)) tokens elements) :
    (base operand).run (Token.free ⟨.symbol .openBracket, i⟩ ::
        (tokens.map Token.free ++ Token.free ⟨.symbol .closeBracket, j⟩ :: rest)) =
      .ok (.array elements, rest) := by
  simp only [base, run_peek, List.head?_cons, isNext_symbol, decide_true, ↓reduceIte, run_weaken]
  rw [run_bind_of_ok run_symbol]
  exact run_map_of_ok (run_listUntil (by decide) separated)

theorem run_array_trailing {elements : List Expr}
    (separated : Separated (ReadsItem (assignment operand)) tokens elements)
    (some : elements ≠ []) :
    (base operand).run (Token.free ⟨.symbol .openBracket, i⟩ ::
        (tokens.map Token.free ++ Token.free ⟨.symbol .comma, j⟩ ::
          Token.free ⟨.symbol .closeBracket, k⟩ :: rest)) =
      .ok (.array elements, rest) := by
  simp only [base, run_peek, List.head?_cons, isNext_symbol, decide_true, ↓reduceIte, run_weaken]
  rw [run_bind_of_ok run_symbol]
  exact run_map_of_ok (run_listUntil_trailing (by decide) separated some)

theorem run_object {properties : List (PropertyKey × Expr)}
    (separated : Separated (Entry (ReadsItem (assignment operand))) tokens properties)
    (plain : ∀ t ∈ tokens, t.IsPlain) :
    (base operand).run (Token.free ⟨.symbol .openBrace, i⟩ ::
        (tokens.map Token.free ++ Token.free ⟨.symbol .closeBrace, j⟩ :: rest)) =
      .ok (.object properties, rest) := by
  have entries : Separated (ReadsItem (property operand)) tokens properties := by
    refine (separated.and_forall plain).imp fun {part p} _ ⟨entry, plain⟩ => ?_
    cases entry with
    | mk key value =>
        refine ⟨?_, fun rest ends => ?_⟩
        · exact startsItem_of_ne_symbol (plain _ List.mem_cons_self) key.lexeme_ne_symbol
        · simp only [property, run_weaken, List.map_cons, List.cons_append]
          rw [run_bind_of_ok (run_propertyKey key _), run_bind_of_ok run_symbol]
          exact run_map_of_ok (value.run rest ends)
  simp only [base, run_peek, List.head?_cons, isNext_symbol]
  rw [if_neg (by decide), if_pos (by decide), run_weaken, run_bind_of_ok run_symbol]
  exact run_map_of_ok (run_listUntil (by decide) entries)

theorem run_linkSymbol {s : Symbol} (links : s ∈ linkSymbols) :
    linkSymbol.run (Token.free ⟨.symbol s, i⟩ :: rest) = .ok (s, rest) := by
  refine run_token ?_
  simp only [isSymbol_free_symbol]
  revert links
  cases s <;> decide

theorem opensLink_symbol {s : Symbol} (links : s ∈ linkSymbols) :
    opensLink (some (Token.free ⟨.symbol s, i⟩)) = true :=
  List.any_eq_true.mpr ⟨s, links, by simp⟩

/-- Further links are read from the symbol that opens the next one. -/
theorem run_links_of_link {limit room : Nat} {owner e : Expr} {s : Symbol} {left : List FreeToken}
    (opens : s ∈ linkSymbols)
    (link : (linkAfter (Parser.unary limit room) owner s).run rest = .ok (e, left)) :
    (links limit (room + 1) owner).run (Token.free ⟨.symbol s, i⟩ :: rest) =
      (links limit room e).run left := by
  simp only [links, run_peek, List.head?_cons, opensLink_symbol opens, ↓reduceIte, run_weaken]
  refine run_bind_of_ok ?_
  rw [run_bind_of_ok (run_linkSymbol opens)]
  exact link

/-- Where no link opens, the chain ends. -/
theorem run_links_of_end {limit room : Nat} {e : Expr} (closed : opensLink rest.head? = false) :
    (links limit room e).run rest = .ok (e, rest) := by
  cases room <;> simp [links, closed]

/-- What is shown of the spellings of whole expressions. -/
def AssignmentRead (limit : Nat) (tokens : List Token) (e : Expr) : Prop :=
  (∀ t ∈ tokens, t.IsPlain) → ∀ {room rest}, e.nesting ≤ room → opensLink rest.head? = false →
    isNext .equals rest.head? = false →
      (assignment (Parser.unary limit room)).run (tokens.map Token.free ++ rest) = .ok (e, rest)

/-- What is shown of the spellings of operands. -/
def UnaryRead (limit : Nat) (tokens : List Token) (e : Expr) : Prop :=
  (∀ t ∈ tokens, t.IsPlain) → ∀ {room rest}, e.nesting ≤ room → opensLink rest.head? = false →
    (Parser.unary limit room).run (tokens.map Token.free ++ rest) = .ok (e, rest)

/-- What is shown of the spellings of chains. -/
def PrimaryRead (limit : Nat) (tokens : List Token) (e : Expr) : Prop :=
  (∀ t ∈ tokens, t.IsPlain) → ∀ {room rest}, e.nesting ≤ room + 1 →
    (Parser.unary limit (room + 1)).run (tokens.map Token.free ++ rest) =
      (links limit (room - e.links) e).run rest

/-- What is shown of the spellings of the starts of chains. -/
def BaseRead (limit : Nat) (tokens : List Token) (e : Expr) : Prop :=
  (∀ t ∈ tokens, t.IsPlain) → ∀ {room rest}, e.nesting ≤ room + 1 →
    (base (Parser.unary limit room)).run (tokens.map Token.free ++ rest) = .ok (e, rest)

section Rules

variable {limit : Nat} {e : Expr}

theorem UnaryRead.assignment (read : UnaryRead limit tokens e) : AssignmentRead limit tokens e := by
  intro plain room rest fits closed stops
  simp only [Parser.assignment, run_weaken]
  rw [run_bind_of_ok (read plain fits closed)]
  simp [stops]

theorem UnaryRead.store {left right : List Token} {target value : Expr}
    (readTarget : UnaryRead limit left target) (readValue : UnaryRead limit right value) :
    AssignmentRead limit (left ++ ⟨.symbol .equals, i⟩ :: right) (.assign target value) := by
  intro plain room rest fits closed _
  obtain ⟨plainTarget, plain⟩ := List.forall_mem_append.mp plain
  obtain ⟨fitsTarget, fitsValue⟩ := Nat.max_le.mp fits
  simp only [Parser.assignment, run_weaken, List.map_append, List.map_cons, List.append_assoc,
    List.cons_append]
  rw [run_bind_of_ok (readTarget plainTarget fitsTarget (by simp [opensLink, linkSymbols]))]
  simp only [run_peek, List.head?_cons, isNext_symbol, decide_true, ↓reduceIte, run_weaken]
  rw [run_bind_of_ok run_symbol]
  exact run_map_of_ok (readValue (List.forall_mem_cons.mp plain).2 fitsValue closed)

theorem UnaryRead.operator {operator : UnaryOperator} (read : UnaryRead limit tokens e) :
    UnaryRead limit (⟨.symbol operator.symbol, i⟩ :: tokens) (.unary operator e) := by
  intro plain room rest fits closed
  cases room with
  | zero => simp [Expr.nesting] at fits
  | succ room =>
      have leads : operator? (Token.free ⟨.symbol operator.symbol, i⟩) = some operator :=
        (Token.isPlain_symbol _ i).operator?_free_iff.mpr rfl
      simp only [Parser.unary, run_peek, List.map_cons, List.cons_append, List.head?_cons,
        Option.bind_some, leads, run_weaken]
      rw [run_bind_of_ok (run_token leads)]
      exact run_map_of_ok
        (read (List.forall_mem_cons.mp plain).2 (Nat.le_of_succ_le_succ fits) closed)

theorem PrimaryRead.unary (read : PrimaryRead limit tokens e) : UnaryRead limit tokens e := by
  intro plain room rest fits closed
  cases room with
  | zero => exact absurd fits (Nat.not_le.mpr e.one_le_nesting)
  | succ room => rw [read plain fits, run_links_of_end closed]

theorem BaseRead.primary (spelled : Base tokens e) (read : BaseRead limit tokens e) :
    PrimaryRead limit tokens e := by
  intro plain room rest fits
  simp only [Parser.unary, run_peek, spelled.operator?_head plain rest]
  rw [run_bind_of_ok (read plain fits), spelled.links_eq_zero, Nat.sub_zero]

theorem PrimaryRead.member {owner : Expr} {name : List Char}
    (read : PrimaryRead limit tokens owner) :
    PrimaryRead limit (tokens ++ [⟨.symbol .dot, i⟩, ⟨.identifier name, j⟩])
      (.member owner (String.ofList name)) := by
  intro plain room rest fits
  obtain ⟨fitsOwner, fitsLink⟩ := Nat.max_le.mp fits
  have left : room - owner.links = room - (owner.links + 1) + 1 := by omega
  rw [List.map_append, List.append_assoc, read (List.forall_mem_append.mp plain).1 fitsOwner, left]
  exact run_links_of_link (by decide) (run_map_of_ok (run_token rfl))

theorem PrimaryRead.index {chain : List Token} {owner key : Expr}
    (read : PrimaryRead limit chain owner) (readKey : AssignmentRead limit tokens key) :
    PrimaryRead limit
      (chain ++ ⟨.symbol .openBracket, i⟩ :: (tokens ++ [⟨.symbol .closeBracket, j⟩]))
      (.index owner key .bracketed) := by
  intro plain room rest fits
  obtain ⟨plainOwner, plain⟩ := List.forall_mem_append.mp plain
  obtain ⟨fitsOwner, fitsLink⟩ := Nat.max_le.mp fits
  have left : room - owner.links = room - (owner.links + 1) + 1 := by omega
  rw [List.map_append, List.append_assoc, read plainOwner fitsOwner, left, map_free_enclosed]
  refine run_links_of_link (by decide) ?_
  simp only [linkAfter, run_weaken]
  rw [run_bind_of_ok (readKey (isPlain_of_enclosed plain) (by omega)
    (by simp [opensLink, linkSymbols]) (by simp))]
  exact run_map_of_ok run_symbol

/-- The parts of a list are read as its items, in room for all of them. -/
theorem readsItems {room : Nat} {es : List Expr} (plain : ∀ t ∈ tokens, t.IsPlain)
    (separated :
      Separated (fun part e => Assignment part e ∧ AssignmentRead limit part e) tokens es)
    (fits : ∀ e ∈ es, e.nesting ≤ room) :
    Separated (ReadsItem (assignment (Parser.unary limit room))) tokens es :=
  (separated.and_forall plain).imp fun member ⟨⟨spelled, read⟩, plain⟩ =>
    ⟨spelled.startsItem plain, fun _ ends =>
      have stops := opensLink_of_endsItem ends
      read plain (fits _ member) stops.1 stops.2⟩

theorem PrimaryRead.call {chain : List Token} {callee : Expr} {arguments : List Expr}
    (read : PrimaryRead limit chain callee)
    (separated : Separated (fun part e => Assignment part e ∧ AssignmentRead limit part e) tokens
      arguments) :
    PrimaryRead limit (chain ++ ⟨.symbol .openParen, i⟩ :: (tokens ++ [⟨.symbol .closeParen, j⟩]))
      (.call callee arguments) := by
  intro plain room rest fits
  obtain ⟨plainCallee, plain⟩ := List.forall_mem_append.mp plain
  obtain ⟨fitsCallee, fitsLink⟩ := Nat.max_le.mp fits
  have left : room - callee.links = room - (callee.links + 1) + 1 := by omega
  have fitsArguments : Expr.nestingOfList arguments ≤ room - (callee.links + 1) := by omega
  rw [List.map_append, List.append_assoc, read plainCallee fitsCallee, left,
    map_free_enclosed]
  refine run_links_of_link (by decide) ?_
  exact run_map_of_ok (run_listUntil (by decide)
    (readsItems (isPlain_of_enclosed plain) separated (Expr.nestingOfList_le_iff.mp fitsArguments)))

end Rules

/-- A spelled expression is read in any room that its nesting fits. -/
theorem run_assignment {e : Expr} (spelled : Assignment tokens e) (limit : Nat) :
    AssignmentRead limit tokens e := by
  refine spelled.rule_induction (A := AssignmentRead limit) (U := UnaryRead limit)
    (P := PrimaryRead limit) (B := BaseRead limit) (fun read => read.assignment)
    (fun target value => target.store value) (fun read => read.operator) (fun read => read.unary)
    (fun spelled read => read.primary spelled) (fun _ read => read.member)
    (fun _ read key => read.index key) (fun _ read separated => read.call separated) ?word ?array
    ?arrayTrailing ?object
  case word =>
    intro t e word plain room rest _
    exact run_base_word word (plain t List.mem_cons_self) rest
  case array =>
    intro tokens elements i j separated plain room rest fits
    have plain := isPlain_of_enclosed plain
    rw [map_free_enclosed]
    exact run_array (readsItems plain separated
      (Expr.nestingOfList_le_iff.mp (Nat.le_of_succ_le_succ fits)))
  case arrayTrailing =>
    intro tokens e es i j k separated plain room rest fits
    have plain := isPlain_of_enclosed plain
    rw [map_free_enclosed]
    exact run_array_trailing (readsItems plain separated
      (Expr.nestingOfList_le_iff.mp (Nat.le_of_succ_le_succ fits))) (List.cons_ne_nil e es)
  case object =>
    intro tokens properties i j separated plain room rest fits
    have plain := isPlain_of_enclosed plain
    have fits := Expr.nestingOfProperties_le_iff.mp (Nat.le_of_succ_le_succ fits)
    rw [map_free_enclosed]
    refine run_object ((separated.and_forall plain).imp fun member ⟨entry, plain⟩ => ?_) plain
    cases entry with
    | mk key spelled =>
        have plain := (List.forall_mem_cons.mp (List.forall_mem_cons.mp plain).2).2
        refine .mk key ⟨spelled.1.startsItem plain, fun rest ends => ?_⟩
        have stops := opensLink_of_endsItem ends
        exact spelled.2 plain (fits _ member) stops.1 stops.2

end GuardedExpr.Parser
