import GuardedExpr.Expr
import GuardedExpr.Heap.Document

/-!
# What links are evaluated for

A chain that is assigned to is evaluated differently from one that is read: its
last link is not read at all, and the links before it are made when missing.
-/

namespace GuardedExpr

/-- What a link of a chain is evaluated for. -/
inductive Purpose where
  /-- To be read. -/
  | read
  /-- To be read on the way to a target: a missing link is made. -/
  | make
  /-- To be stored into, and not read. -/
  | store
deriving DecidableEq, Repr

/-- What the owner of a link is evaluated for. -/
def Purpose.forOwner : Purpose → Purpose
  | .read => .read
  | .make | .store => .make

/-- What the body of a program is evaluated for: a program is a plain value, so nothing is stored
into it. -/
def Purpose.forBody : Purpose → Purpose
  | .read | .store => .read
  | .make => .make

/-- The key that a property has. -/
def PropertyKey.text : PropertyKey → String
  | .name s => s
  | .literal value => value.keyText

end GuardedExpr
