import GuardedExpr.Expr.Eval
import GuardedExpr.Expr.Parser
import GuardedExpr.Inspection
import GuardedExpr.Listing

/-!
# Evaluators

An evaluator is an expression made ready to run any number of times, with the
text it was read from.
-/

namespace GuardedExpr

/-- An expression that is ready to run. -/
structure Evaluator where
  /-- The text of the expression; a tree made by hand has none. -/
  text : String
  /-- The expression, without the program around it. -/
  body : Expr

namespace Evaluator

/-- Makes a tree ready to run. -/
def ofExpr (tree : Expr) : Evaluator :=
  ⟨"", tree.body⟩

/-- Makes the expression that a text spells ready to run. -/
def ofText (text : String) (limit : Nat) : Except Error Evaluator :=
  match parse text limit with
  | .ok tree => .ok ⟨text, tree.body⟩
  | .error e => .error e

def listing (e : Evaluator) : Listing :=
  Listing.of e.body

def isLiteral (e : Evaluator) : Bool :=
  e.body.isLiteral

/-- The value of the expression depends on nothing outside it. -/
def isConstant (e : Evaluator) : Bool :=
  e.body.isConstant

def isAssignable (e : Evaluator) : Bool :=
  e.body.isAssignable

variable {σ : Type}

def eval (e : Evaluator) (access : Access σ) (context : Context) : Run σ Value :=
  e.body.eval access context

/-- Stores a value at the place that the expression names, with the missing links on the way to it
made. The place is found before the value is guarded. -/
def assign (e : Evaluator) (access : Access σ) (context : Context) (v : Value) : Run σ Value := do
  if e.isAssignable then
    let place ← e.body.locate access context .store
    let v ← Expr.guardObject v
    Expr.store access place v
    return v
  else Run.fail .notAssignable

/-- The text that shows an evaluator to a developer. -/
def inspect (e : Evaluator) : String :=
  "Evaluator \x7b text: " ++ Inspection.string e.text ++ ", source: " ++
    Inspection.string e.listing.text ++ " \x7d"

end Evaluator

end GuardedExpr
