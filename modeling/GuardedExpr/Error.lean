/-!
# Errors

Every way in which reading or running an expression fails, by stage. Each kind
of error has one constructor that carries what its message tells.
-/

namespace GuardedExpr

/-- Why a text has no tokens. Positions count characters from the start of the text. -/
inductive LexError where
  /-- No token starts with this character. -/
  | unexpectedCharacter (c : Char) (position : Nat)
  /-- A sign inside a number that belongs to no exponent. -/
  | invalidExponent (position : Nat)
  /-- Characters of a number that together are no numeral, or one without a finite value. -/
  | invalidNumber (position : Nat)
  /-- A `\u` escape without four hexadecimal digits, or one for a lone surrogate. -/
  | invalidUnicodeEscape (position : Nat)
  /-- A string without its closing quote. -/
  | unmatchedQuote (position : Nat)
deriving DecidableEq, Repr

/-- What the grammar allows at a place. -/
inductive Expectation where
  | symbol (c : Char)
  | literal
  | identifier
  | endOfExpression
deriving DecidableEq, Repr

/-- Why tokens are no expression. -/
inductive ParseError where
  | unexpectedToken (expected : Expectation) (found : String)
  | unexpectedEnd (expected : Expectation)
  | tooDeep (limit : Nat)
deriving DecidableEq, Repr

/-- What an expression is never allowed to touch. -/
inductive Forbidden where
  /-- The global object. -/
  | window
  /-- A node of a document, or a wrapper around one. -/
  | domNode
  /-- A value that is its own constructor. -/
  | functionConstructor
  /-- The constructor of all objects. -/
  | objectConstructor
  /-- The functions that call other functions. -/
  | reflection
deriving DecidableEq, Repr

/-- Why a guard stops an expression. -/
inductive SecurityError where
  | memberName (name : String)
  | object (what : Forbidden)
  | function (what : Forbidden)
deriving DecidableEq, Repr

/-- Why an expression that may run does not finish. -/
inductive RuntimeError where
  | notAFunction (callee : String)
  | notAssignable
  | cannotSetProperty (key : String)
  /-- A host function failed with this text. -/
  | thrown (text : String)
  /-- The run breaks off and gives no answer: functions called each other beyond the given depth, or
  the length of an array would have left its range. -/
  | brokenOff
deriving DecidableEq, Repr

/-- Calls that are nested beyond the given depth break the run off. -/
@[match_pattern] abbrev RuntimeError.callsTooDeep : RuntimeError := .brokenOff

/-- An error, by the stage it belongs to. -/
inductive Error where
  | lex (e : LexError)
  | parse (e : ParseError)
  | security (e : SecurityError)
  | runtime (e : RuntimeError)
deriving DecidableEq, Repr

def LexError.message : LexError → String
  | .unexpectedCharacter c position =>
    "Lexer error: unexpected character '" ++ c.toString ++ "' at " ++ toString position
  | .invalidExponent position => "Lexer error: invalid exponent at " ++ toString position
  | .invalidNumber position => "Lexer error: invalid number at " ++ toString position
  | .invalidUnicodeEscape position =>
    "Lexer error: invalid unicode escape at " ++ toString position
  | .unmatchedQuote position => "Lexer error: unmatched quote at " ++ toString position

def Expectation.text : Expectation → String
  | .symbol c => "'" ++ c.toString ++ "'"
  | .literal => "a literal"
  | .identifier => "an identifier"
  | .endOfExpression => "end of expression"

def ParseError.message : ParseError → String
  | .unexpectedToken expected found =>
    "Parse error: unexpected token '" ++ found ++ "', expecting " ++ expected.text
  | .unexpectedEnd expected =>
    "Parse error: unexpected end of expression, expecting " ++ expected.text
  | .tooDeep limit =>
    "Parse error: expression nesting too deep (max " ++ toString limit ++ ")"

def Forbidden.text : Forbidden → String
  | .window => "the Window"
  | .domNode => "DOM nodes"
  | .functionConstructor => "the Function constructor"
  | .objectConstructor => "the Object constructor"
  | .reflection => "call, apply or bind"

def SecurityError.message : SecurityError → String
  | .memberName name => "Referencing \"" ++ name ++ "\" in expressions is disallowed"
  | .object what => "Referencing " ++ what.text ++ " in expressions is disallowed"
  | .function what => "Calling " ++ what.text ++ " in expressions is disallowed"

def RuntimeError.message : RuntimeError → String
  | .notAFunction callee => callee ++ " is not a function"
  | .notAssignable => "Expression is not assignable"
  | .cannotSetProperty key => "Cannot set property \"" ++ key ++ "\""
  | .thrown text => text
  | .brokenOff => "The run was broken off"

def Error.message : Error → String
  | .lex e => e.message
  | .parse e => e.message
  | .security e => e.message
  | .runtime e => e.message

def Error.isLex : Error → Bool
  | .lex _ => true
  | _ => false

def Error.isParse : Error → Bool
  | .parse _ => true
  | _ => false

/-- The error comes from a guard. -/
def Error.isSecurity : Error → Bool
  | .security _ => true
  | _ => false

end GuardedExpr
