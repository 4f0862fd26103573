import GuardedExpr.Error
import GuardedExpr.Expr
import GuardedExpr.Token.Lexer

/-!
# Reading expressions

The grammar of expressions, read by the next token alone:

    program    := assignment, up to the end
    assignment := unary ('=' unary)?
    unary      := ('+' | '-' | '!') unary | primary
    primary    := base ('.' identifier | '[' assignment ']' | '(' arguments ')')*
    base       := '[' elements ']' | '{' properties '}' | constant | identifier | literal

Symbols and operators are told by the text of the token alone, and they come
first, so an identifier or a literal is what no symbol is that may stand there.
A reader carries how many tokens it takes at least, so a list of items can be
read by recursion on the tokens that are left. Nesting is recursion on the room
that a limit leaves: an operator, a nested expression and every link of a
chain take one level of it.
-/

namespace GuardedExpr

/-- A reader of tokens that takes at least `least` of them when it succeeds. -/
structure Reader (least : Nat) (α : Type) where
  run : List FreeToken → Except ParseError (α × List FreeToken)
  takes : ∀ {tokens a rest}, run tokens = .ok (a, rest) → rest.length + least ≤ tokens.length

namespace Reader

variable {α β : Type} {m n : Nat}

def pure (a : α) : Reader 0 α where
  run tokens := .ok (a, tokens)
  takes h := by simp_all

def fail (e : ParseError) : Reader m α where
  run _ := .error e
  takes h := by simp_all

/-- Reads one thing, then another that may depend on it. -/
def bind (p : Reader m α) (f : α → Reader n β) : Reader (m + n) β where
  run tokens :=
    match p.run tokens with
    | .error e => .error e
    | .ok (a, rest) => (f a).run rest
  takes {tokens b rest} h := by
    split at h
    · simp at h
    · rename_i a middle hp
      have := p.takes hp
      have := (f a).takes h
      omega

def map (f : α → β) (p : Reader m α) : Reader m β :=
  p.bind fun a => pure (f a)

/-- A reader that takes at least so many tokens also takes at least fewer. -/
def weaken (p : Reader m α) (h : n ≤ m) : Reader n α where
  run := p.run
  takes hp := by have := p.takes hp; omega

/-- Chooses how to go on by the next token, without taking it. -/
def peek (f : Option FreeToken → Reader m α) : Reader m α where
  run tokens := (f tokens.head?).run tokens
  takes h := (f _).takes h

/-- The error for tokens that do not go on as expected. -/
def unexpected (expected : Expectation) : List FreeToken → ParseError
  | [] => .unexpectedEnd expected
  | token :: _ => .unexpectedToken expected token.text

/-- Takes the next token if it has a meaning here. -/
def token (expected : Expectation) (meaning : FreeToken → Option α) : Reader 1 α where
  run tokens :=
    match tokens with
    | [] => .error (unexpected expected [])
    | token :: rest =>
      match meaning token with
      | some a => .ok (a, rest)
      | none => .error (unexpected expected (token :: rest))
  takes {tokens a rest} h := by
    split at h
    · simp at h
    · split at h <;> simp_all

def symbol (s : Symbol) : Reader 1 Unit :=
  token (.symbol s.char) fun t => if t.isSymbol s then some () else none

/-- Takes the end of the tokens. -/
def endOfTokens : Reader 0 Unit where
  run tokens :=
    match tokens with
    | [] => .ok ((), [])
    | token :: rest => .error (unexpected .endOfExpression (token :: rest))
  takes {tokens a rest} h := by
    split at h <;> simp_all

def isNext (s : Symbol) (next : Option FreeToken) : Bool :=
  next.any fun t => t.isSymbol s

/-- The items of a list, each but the last before a comma. With `trailing`, a comma may also stand
before the closing symbol. -/
def itemsLoop (item : Reader 1 α) (close : Symbol) (trailing : Bool) (tokens : List FreeToken) :
    Except ParseError (List α × List FreeToken) :=
  match h : item.run tokens with
  | .error e => .error e
  | .ok (a, []) => .ok ([a], [])
  | .ok (a, next :: rest) =>
    if !next.isSymbol .comma then .ok ([a], next :: rest)
    else if trailing && isNext close rest.head? then .ok ([a], rest)
    else
      have : rest.length < tokens.length := by
        have := item.takes h
        simp only [List.length_cons] at this
        omega
      match itemsLoop item close trailing rest with
      | .error e => .error e
      | .ok (as, rest) => .ok (a :: as, rest)
termination_by tokens.length

theorem itemsLoop_takes {item : Reader 1 α} {close : Symbol} {trailing : Bool}
    {tokens : List FreeToken} {as : List α} {rest : List FreeToken}
    (h : itemsLoop item close trailing tokens = .ok (as, rest)) :
    rest.length + 1 ≤ tokens.length := by
  fun_induction itemsLoop item close trailing tokens generalizing as rest with
  | case1 => simp at h
  | case2 tokens a hitem =>
    have := item.takes hitem
    simp_all
  | case3 tokens a next rest' hitem =>
    have := item.takes hitem
    simp_all
  | case4 tokens a next rest' hitem =>
    have := item.takes hitem
    simp only [List.length_cons] at this
    simp only [Except.ok.injEq, Prod.mk.injEq] at h
    obtain ⟨-, rfl⟩ := h
    omega
  | case5 => simp at h
  | case6 tokens a next rest' hitem _ _ _ as' rest'' hloop ih =>
    have := item.takes hitem
    have := ih hloop
    simp only [List.length_cons] at *
    simp only [Except.ok.injEq, Prod.mk.injEq] at h
    obtain ⟨-, rfl⟩ := h
    omega

/-- A list of at least one item. -/
def items (item : Reader 1 α) (close : Symbol) (trailing : Bool) : Reader 1 (List α) where
  run := itemsLoop item close trailing
  takes := itemsLoop_takes

/-- A possibly empty list of items, and the symbol that closes it. -/
def listUntil (item : Reader 1 α) (close : Symbol) (trailing : Bool) : Reader 1 (List α) :=
  peek fun next =>
    if isNext close next then (symbol close).map fun _ => []
    else ((items item close trailing).bind fun as => (symbol close).map fun _ => as).weaken
      (by decide)

end Reader

namespace Parser

open Reader

def name? (t : FreeToken) : Option String :=
  if t.isIdentifier then some t.text else none

/-- The operator that a token is before an operand. -/
def operator? (t : FreeToken) : Option UnaryOperator :=
  UnaryOperator.ofText? t.text

/-- What a name stands for at the start of a chain: four of them are constants. -/
def ofName (name : String) : Expr :=
  if name = "null" then .literal .null
  else if name = "true" then .literal (.bool true)
  else if name = "false" then .literal (.bool false)
  else if name = "this" then .self
  else .identifier name

def literal : Reader 1 Json :=
  token .literal FreeToken.value?

def identifier : Reader 1 String :=
  token .identifier name?

/-- The key of a property: a name or a literal. -/
def propertyKey : Reader 1 PropertyKey :=
  token .literal fun t =>
    match name? t with
    | some name => some (.name name)
    | none => t.value?.map .literal

/-- One operand, or a target and the operand to store into it. -/
def assignment (unary : Reader 1 Expr) : Reader 1 Expr :=
  (unary.bind fun left =>
    peek fun next =>
      if isNext .equals next then
        ((symbol .equals).bind fun _ => unary.map fun right => .assign left right).weaken
          (Nat.zero_le _)
      else Reader.pure left).weaken (by decide)

def property (unary : Reader 1 Expr) : Reader 1 (PropertyKey × Expr) :=
  (propertyKey.bind fun key =>
    (symbol .colon).bind fun _ =>
      (assignment unary).map fun value => (key, value)).weaken (by decide)

def base (unary : Reader 1 Expr) : Reader 1 Expr :=
  peek fun next =>
    if isNext .openBracket next then
      ((symbol .openBracket).bind fun _ =>
        (listUntil (assignment unary) .closeBracket true).map .array).weaken (by decide)
    else if isNext .openBrace next then
      ((symbol .openBrace).bind fun _ =>
        (listUntil (property unary) .closeBrace false).map .object).weaken (by decide)
    else if next.any FreeToken.isIdentifier then identifier.map ofName
    else literal.map .literal

/-- The symbols that open a link of a chain. -/
def linkSymbols : List Symbol :=
  [.dot, .openBracket, .openParen]

def opensLink (next : Option FreeToken) : Bool :=
  linkSymbols.any fun s => isNext s next

/-- Takes the symbol that opens a link. -/
def linkSymbol : Reader 1 Symbol :=
  token .literal fun t => linkSymbols.find? fun s => t.isSymbol s

/-- What follows the symbol that opens a link of the chain `object`, up to the end of the link. -/
def linkAfter (unary : Reader 1 Expr) (object : Expr) : Symbol → Reader 1 Expr
  | .openBracket =>
    ((assignment unary).bind fun key =>
      (symbol .closeBracket).map fun _ => .index object key .bracketed).weaken (by decide)
  | .dot => identifier.map fun name => .member object name
  | _ => (listUntil (assignment unary) .closeParen false).map fun arguments =>
      .call object arguments

mutual

/-- An operand, in the room that is left for its nesting. -/
def unary (limit : Nat) : Nat → Reader 1 Expr
  | 0 => fail (.tooDeep limit)
  | room + 1 =>
    peek fun next =>
      match next.bind operator? with
      | some operator =>
        ((token .literal operator?).bind fun _ =>
          (unary limit room).map fun operand => .unary operator operand).weaken (by decide)
      | none => (base (unary limit room)).bind fun start => links limit room start

/-- The links that follow the start of a chain. -/
def links (limit : Nat) : Nat → Expr → Reader 0 Expr
  | 0, object =>
    peek fun next =>
      if opensLink next then
        (linkSymbol.bind fun _ => (fail (.tooDeep limit) : Reader 0 Expr)).weaken (Nat.zero_le _)
      else Reader.pure object
  | room + 1, object =>
    peek fun next =>
      if opensLink next then
        ((linkSymbol.bind fun opening => linkAfter (unary limit room) object opening).bind
          fun chain => links limit room chain).weaken (Nat.zero_le _)
      else Reader.pure object

end

def program (limit : Nat) : Reader 1 Expr :=
  (assignment (unary limit limit)).bind fun body => endOfTokens.map fun _ => .program body

end Parser

/-- The nesting that is allowed when no limit is given. -/
def defaultDepth : Nat := 128

/-- The expression that is read from tokens of any kind, nested at most as deep as the limit
allows. -/
def buildTree (limit : Nat) (tokens : List FreeToken) : Except ParseError Expr :=
  match (Parser.program limit).run tokens with
  | .ok (e, _) => .ok e
  | .error e => .error e

/-- The expression that the tokens of a text spell. -/
def parseTokens (limit : Nat) (tokens : List Token) : Except ParseError Expr :=
  buildTree limit (tokens.map Token.free)

/-- The expression that a text spells. -/
def parse (text : String) (limit : Nat) : Except Error Expr :=
  match tokenize text with
  | .error e => .error (.lex e)
  | .ok tokens =>
    match parseTokens limit tokens with
    | .error e => .error (.parse e)
    | .ok e => .ok e

end GuardedExpr
