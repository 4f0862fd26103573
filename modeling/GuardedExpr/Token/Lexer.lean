import GuardedExpr.Error
import GuardedExpr.Text.Units
import GuardedExpr.Token

/-!
# Reading tokens

The lexer takes one lexeme or one blank at a time from the front of the text.
Every scan of a run only counts the characters it takes, so a token's text is
always the slice of the text at its position, and nothing is lost between two
tokens but blanks.
-/

namespace GuardedExpr.Lexer

/-- A letter, an underscore or a dollar sign starts an identifier. -/
def isIdentifierStart (c : Char) : Bool :=
  c.isAlpha || c == '_' || c == '$'

/-- An identifier goes on with what may start one, and with digits. -/
def isIdentifierPart (c : Char) : Bool :=
  isIdentifierStart c || c.isDigit

/-- The blanks between tokens. -/
def isBlank (c : Char) : Bool :=
  c == ' ' || c == '\r' || c == '\n' || c == '\t' || c == '\x0b' || c == '\xa0'

def isQuote (c : Char) : Bool :=
  c == '\x27' || c == '\x22'

/-- The text goes on with a character of this class. -/
def headIs (p : Char → Bool) : List Char → Bool
  | [] => false
  | c :: _ => p c

def isExponentMark (c : Char) : Bool :=
  c == 'e' || c == 'E'

def isSign (c : Char) : Bool :=
  c == '+' || c == '-'

/-- How many characters the run of a number takes. `marked` tells that an exponent mark stands
right before. A sign that is not between such a mark and a digit is an error, given by its offset. -/
def numberRun (marked : Bool) : List Char → Except Nat Nat
  | [] => .ok 0
  | c :: s =>
    let next (marked : Bool) : Except Nat Nat :=
      match numberRun marked s with
      | .ok n => .ok (n + 1)
      | .error offset => .error (offset + 1)
    if c == '.' || c.isDigit then next false
    else if isExponentMark c && headIs (fun d => isSign d || d.isDigit) s then next true
    else if isSign c then
      if marked && headIs Char.isDigit s then next false else .error 0
    else .ok 0

/-- A number starts with a digit, or with a point before a digit. -/
def startsNumber : List Char → Bool
  | [] => false
  | c :: s => c.isDigit || (c == '.' && headIs Char.isDigit s)

def hexValue? (c : Char) : Option Nat :=
  if c.isDigit then some (c.toNat - '0'.toNat)
  else if 'a' ≤ c ∧ c ≤ 'f' then some (c.toNat - 'a'.toNat + 10)
  else if 'A' ≤ c ∧ c ≤ 'F' then some (c.toNat - 'A'.toNat + 10)
  else none

/-- The number that the first four characters denote as hexadecimal digits. -/
def hexUnit? : List Char → Option Nat
  | a :: b :: c :: d :: _ => do
    let a ← hexValue? a
    let b ← hexValue? b
    let c ← hexValue? c
    let d ← hexValue? d
    some (((a * 16 + b) * 16 + c) * 16 + d)
  | _ => none

/-- The low surrogate that an escape at the front of the text denotes. -/
def lowEscape? : List Char → Option Nat
  | '\\' :: 'u' :: s => (hexUnit? s).filter Text.isLowSurrogate
  | _ => none

/-- The character of a unicode escape, read after its `\u`, and how many characters it takes there.
A high surrogate takes the escape of a low one along. -/
def unicodeEscape? (s : List Char) : Option (Char × Nat) :=
  match hexUnit? s with
  | none => none
  | some unit =>
    match if Text.isHighSurrogate unit then lowEscape? (s.drop 4) else none with
    | some low => (Text.scalar? (Text.pairCode unit low)).map fun c => (c, 10)
    | none => (Text.scalar? unit).map fun c => (c, 4)

/-- The character that an escaped character other than `u` stands for. -/
def escapedChar (c : Char) : Char :=
  match c with
  | 'n' => '\n'
  | 'f' => '\x0c'
  | 'r' => '\r'
  | 't' => '\t'
  | 'v' => '\x0b'
  | _ => c

/-- Why a string has no value. -/
inductive StringFault where
  | unmatched
  /-- The offset of the backslash of the faulty escape. -/
  | escape (offset : Nat)
deriving DecidableEq, Repr

/-- Puts a character that takes `count` characters of text before the rest of a string. -/
def consString (c : Char) (count : Nat) :
    Except StringFault (List Char × Nat) → Except StringFault (List Char × Nat)
  | .ok (value, n) => .ok (c :: value, n + count)
  | .error (.escape offset) => .error (.escape (offset + count))
  | .error .unmatched => .error .unmatched

/-- The value of a string, read after its opening quote, and how many characters it takes there,
the closing quote among them. -/
def stringRun (quote : Char) : List Char → Except StringFault (List Char × Nat)
  | [] => .error .unmatched
  | '\\' :: 'u' :: s =>
    match unicodeEscape? s with
    | none => .error (.escape 0)
    | some (c, n) => consString c (n + 2) (stringRun quote (s.drop n))
  | '\\' :: c :: s => consString (escapedChar c) 2 (stringRun quote s)
  | c :: s => if c = quote then .ok ([], 1) else consString c 1 (stringRun quote s)
termination_by s => s.length
decreasing_by
  all_goals simp only [List.length_cons, List.length_drop]
  all_goals omega

/-- What stands at the front of a text: a lexeme or a blank, and how many characters it takes
beyond the first. -/
structure Front where
  lexeme? : Option Lexeme
  more : Nat

/-- The number at the front of the text `c :: s`. -/
def frontNumber (position : Nat) (c : Char) (s : List Char) : Except LexError Front :=
  match numberRun false (c :: s) with
  | .error offset => .error (.invalidExponent (position + offset))
  | .ok n =>
    let text := (c :: s).take n
    match Number.Decimal.read? text with
    | none => .error (.invalidNumber position)
    | some d =>
      let value := d.toFloat
      if value.isFinite then .ok ⟨some (.number text value), n - 1⟩
      else .error (.invalidNumber position)

/-- The string that the quote at the front of the text opens. -/
def frontString (position : Nat) (quote : Char) (s : List Char) : Except LexError Front :=
  match stringRun quote s with
  | .error .unmatched => .error (.unmatchedQuote position)
  | .error (.escape offset) => .error (.invalidUnicodeEscape (position + 1 + offset))
  | .ok (value, n) => .ok ⟨some (.string (quote :: s.take n) value), n⟩

/-- What stands at the front of the text `c :: s`, found at a position. -/
def front (position : Nat) (c : Char) (s : List Char) : Except LexError Front :=
  if startsNumber (c :: s) then frontNumber position c s
  else if isQuote c then frontString position c s
  else
    match Symbol.ofChar? c with
    | some symbol => .ok ⟨some (.symbol symbol), 0⟩
    | none =>
      if isIdentifierStart c then
        let tail := s.takeWhile isIdentifierPart
        .ok ⟨some (.identifier (c :: tail)), tail.length⟩
      else if isBlank c then .ok ⟨none, 0⟩
      else .error (.unexpectedCharacter c position)

/-- The tokens of a text that starts at a position. -/
def tokensFrom (position : Nat) : List Char → Except LexError (List Token)
  | [] => .ok []
  | c :: s =>
    match front position c s with
    | .error e => .error e
    | .ok f =>
      match tokensFrom (position + f.more + 1) (s.drop f.more) with
      | .error e => .error e
      | .ok tokens =>
        match f.lexeme? with
        | some lexeme => .ok (⟨lexeme, position⟩ :: tokens)
        | none => .ok tokens
termination_by s => s.length
decreasing_by simp only [List.length_cons, List.length_drop]; omega

end Lexer

def tokenize (text : String) : Except LexError (List Token) :=
  Lexer.tokensFrom 0 text.toList

end GuardedExpr
