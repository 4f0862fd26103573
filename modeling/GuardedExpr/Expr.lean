import GuardedExpr.Json

/-!
# Expressions

The trees of expressions. Trees made by hand may have shapes that no text has:
programs inside programs, texts of any kind as names, dotted links whose name
is an expression.
-/

namespace GuardedExpr

/-- The operators that stand before their operand. -/
inductive UnaryOperator where
  | plus
  | minus
  | not
deriving DecidableEq, Repr

def UnaryOperator.text : UnaryOperator → String
  | .plus => "+"
  | .minus => "-"
  | .not => "!"

def UnaryOperator.all : List UnaryOperator :=
  [.plus, .minus, .not]

def UnaryOperator.ofText? (text : String) : Option UnaryOperator :=
  UnaryOperator.all.find? fun operator => operator.text == text

theorem UnaryOperator.ofText?_text (operator : UnaryOperator) :
    UnaryOperator.ofText? operator.text = some operator := by
  cases operator <;> decide

/-- How a link whose key is an expression is written. -/
inductive LinkStyle where
  /-- After a dot. No text has this link, because a name after a dot is not an expression. -/
  | dotted
  /-- Between brackets. -/
  | bracketed
deriving DecidableEq, Repr

/-- The key of a property in an object literal. -/
inductive PropertyKey where
  | name (name : String)
  | literal (value : Json)

inductive Expr where
  /-- A whole expression, around its body. -/
  | program (body : Expr)
  | literal (value : Json)
  | array (elements : List Expr)
  | object (properties : List (PropertyKey × Expr))
  | identifier (name : String)
  /-- The scope itself. -/
  | self
  /-- A link with a fixed name. -/
  | member (owner : Expr) (name : String)
  /-- A link whose key is an expression. -/
  | index (owner : Expr) (key : Expr) (style : LinkStyle)
  | call (callee : Expr) (arguments : List Expr)
  | assign (target : Expr) (value : Expr)
  | unary (operator : UnaryOperator) (operand : Expr)
deriving Inhabited

namespace Expr

/-- The expression is a literal: a document, a list or an object. -/
def isLiteral : Expr → Bool
  | program body => body.isLiteral
  | literal _ | array _ | object _ => true
  | _ => false

/-- A value can be stored into the expression: it is an identifier or ends with a link. -/
def isAssignable : Expr → Bool
  | program body => body.isAssignable
  | identifier _ | member _ _ | index _ _ _ => true
  | _ => false

mutual

/-- The value of the expression depends on nothing outside it. -/
def isConstant : Expr → Bool
  | program body => body.isConstant
  | literal _ => true
  | array elements => allConstant elements
  | object properties => allPropertiesConstant properties
  | unary _ operand => operand.isConstant
  | member owner _ => owner.isConstant
  | index owner _ .dotted => owner.isConstant
  | index owner key .bracketed => owner.isConstant && key.isConstant
  | identifier _ | self | call _ _ | assign _ _ => false

def allConstant : List Expr → Bool
  | [] => true
  | e :: es => e.isConstant && allConstant es

def allPropertiesConstant : List (PropertyKey × Expr) → Bool
  | [] => true
  | (_, e) :: ps => e.isConstant && allPropertiesConstant ps

end

/-- How an error names a callee: by its names and links as far as they are fixed. -/
def calleeText : Expr → String
  | identifier name => name
  | member owner name => owner.calleeText ++ "." ++ name
  | index owner _ .bracketed => owner.calleeText ++ "[...]"
  | _ => "expression"

/-- The body of an expression, without one program around it. -/
def body : Expr → Expr
  | program body => body
  | e => e

end Expr

end GuardedExpr
