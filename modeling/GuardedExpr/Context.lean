import GuardedExpr.Heap.Member

/-!
# Contexts

The two layers that names resolve against: a long-lived scope, and short-lived
locals in front of it. An absent layer is `undefined`.
-/

namespace GuardedExpr

structure Context where
  scope : Value
  locals : Value

/-- The layer that a name resolves against: the locals when they have it as their own, and the scope
otherwise. -/
def Context.owner (context : Context) (h : Heap) (name : String) : Value :=
  if h.owns context.locals name then context.locals else context.scope

end GuardedExpr
