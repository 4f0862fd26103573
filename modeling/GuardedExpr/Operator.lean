import GuardedExpr.Coercion
import GuardedExpr.Expr

/-!
# Operators

What the operators make of the value of their operand.
-/

namespace GuardedExpr

def UnaryOperator.apply (operator : UnaryOperator) (h : Heap) (v : Value) : Value :=
  match operator with
  | .plus => .number (h.number v)
  | .minus => .number (-h.number v)
  | .not => .bool !v.isTruthy

end GuardedExpr
