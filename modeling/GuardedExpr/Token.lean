import GuardedExpr.Json
import GuardedExpr.Number.Decimal

/-!
# Tokens

The words of an expression: numbers, strings, identifiers and single symbols,
each with its position in the text. Expressions are read from tokens of a freer
form, which need not come from a text: such a token is taken for a symbol by
what its text is, whatever else it holds.
-/

namespace GuardedExpr

/-- The single characters that are tokens by themselves. -/
inductive Symbol where
  | openBracket
  | closeBracket
  | comma
  | openBrace
  | closeBrace
  | colon
  | dot
  | openParen
  | closeParen
  | equals
  | plus
  | bang
  | minus
deriving DecidableEq, Repr

def Symbol.char : Symbol → Char
  | .openBracket => '['
  | .closeBracket => ']'
  | .comma => ','
  | .openBrace => '\x7b'
  | .closeBrace => '\x7d'
  | .colon => ':'
  | .dot => '.'
  | .openParen => '('
  | .closeParen => ')'
  | .equals => '='
  | .plus => '+'
  | .bang => '!'
  | .minus => '-'

def Symbol.all : List Symbol :=
  [.openBracket, .closeBracket, .comma, .openBrace, .closeBrace, .colon, .dot, .openParen,
    .closeParen, .equals, .plus, .bang, .minus]

def Symbol.ofChar? (c : Char) : Option Symbol :=
  Symbol.all.find? fun s => s.char == c

theorem Symbol.ofChar?_char (s : Symbol) : Symbol.ofChar? s.char = some s := by
  cases s <;> rfl

theorem Symbol.char_inj {s s' : Symbol} : s.char = s'.char ↔ s = s' := by
  constructor
  · intro same
    have read := Symbol.ofChar?_char s
    rw [same, Symbol.ofChar?_char] at read
    exact (Option.some.inj read).symm
  · exact congrArg Symbol.char

/-- A word of an expression, with its text and the value that a literal has. -/
inductive Lexeme where
  | number (text : List Char) (value : Float)
  | string (text : List Char) (value : List Char)
  | identifier (name : List Char)
  | symbol (s : Symbol)
deriving DecidableEq

/-- The text of a lexeme as it stands in the expression; strings keep their quotes. -/
def Lexeme.text : Lexeme → List Char
  | .number text _ => text
  | .string text _ => text
  | .identifier name => name
  | .symbol s => [s.char]

/-- A lexeme at a position, counted in characters from the start of the text. -/
structure Token where
  lexeme : Lexeme
  position : Nat
deriving DecidableEq

def Token.text (t : Token) : String :=
  String.ofList t.lexeme.text

def Token.isIdentifier (t : Token) : Bool :=
  match t.lexeme with
  | .identifier _ => true
  | _ => false

/-- The value of a literal. -/
def Token.value? (t : Token) : Option Json :=
  match t.lexeme with
  | .number _ value => some (.float value)
  | .string _ value => some (.string (String.ofList value))
  | _ => none

/-- A token as expressions are read from it: any text, any value or none, and whether it is an
identifier. -/
structure FreeToken where
  text : String
  value? : Option Json
  isIdentifier : Bool
  position : Nat

/-- A token of a text in the form that expressions are read from. -/
def Token.free (t : Token) : FreeToken :=
  ⟨t.text, t.value?, t.isIdentifier, t.position⟩

def FreeToken.isSymbol (t : FreeToken) (s : Symbol) : Bool :=
  t.text == String.singleton s.char

end GuardedExpr
