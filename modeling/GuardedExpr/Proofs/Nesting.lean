import GuardedExpr.Expr

/-!
# Levels and nesting

Two ways to measure how deep an expression is. Its level counts the nodes on
the longest way down. Its nesting counts the room that reading it takes: an
operator and a nested expression take one place each, and a link of a chain
takes one place while the link itself is read, on top of the links before it.
So the start of a chain is charged for no link, although every link puts it
one level deeper.
-/

namespace GuardedExpr.Expr

mutual

/-- How many levels the tree has. -/
def level : Expr → Nat
  | program body => body.level
  | literal _ | identifier _ | self => 1
  | array elements => levelOfList elements + 1
  | object properties => levelOfProperties properties + 1
  | member owner _ => owner.level + 1
  | index owner _ .dotted => owner.level + 1
  | index owner key .bracketed => max owner.level key.level + 1
  | call callee arguments => max callee.level (levelOfList arguments) + 1
  | assign target value => max target.level value.level
  | unary _ operand => operand.level + 1

/-- The highest level among expressions. -/
def levelOfList : List Expr → Nat
  | [] => 0
  | e :: es => max e.level (levelOfList es)

/-- The highest level among property values. -/
def levelOfProperties : List (PropertyKey × Expr) → Nat
  | [] => 0
  | (_, e) :: ps => max e.level (levelOfProperties ps)

end

/-- How many links the chain ends with. -/
def links : Expr → Nat
  | member owner _ | index owner _ _ => owner.links + 1
  | call callee _ => callee.links + 1
  | _ => 0

mutual

/-- How much room the expression takes when it is read. -/
def nesting : Expr → Nat
  | program body => body.nesting
  | literal _ | identifier _ | self => 1
  | array elements => nestingOfList elements + 1
  | object properties => nestingOfProperties properties + 1
  | member owner _ => max owner.nesting (owner.links + 2)
  | index owner key _ => max owner.nesting (owner.links + 2 + key.nesting)
  | call callee arguments => max callee.nesting (callee.links + 2 + nestingOfList arguments)
  | assign target value => max target.nesting value.nesting
  | unary _ operand => operand.nesting + 1

/-- The most room that one of the expressions takes. -/
def nestingOfList : List Expr → Nat
  | [] => 0
  | e :: es => max e.nesting (nestingOfList es)

/-- The most room that one of the property values takes. -/
def nestingOfProperties : List (PropertyKey × Expr) → Nat
  | [] => 0
  | (_, e) :: ps => max e.nesting (nestingOfProperties ps)

end

/-- Every expression takes room. -/
theorem one_le_nesting : ∀ e : Expr, 1 ≤ e.nesting
  | program body => one_le_nesting body
  | literal _ | identifier _ | self => Nat.le_refl 1
  | array _ | object _ | unary _ _ => Nat.le_add_left 1 _
  | member owner _ | index owner _ _ | call owner _ =>
      Nat.le_trans (one_le_nesting owner) (Nat.le_max_left ..)
  | assign target _ => Nat.le_trans (one_le_nesting target) (Nat.le_max_left ..)

theorem levelOfList_le_iff {es : List Expr} {n : Nat} :
    levelOfList es ≤ n ↔ ∀ e ∈ es, e.level ≤ n := by
  induction es with
  | nil => simp [levelOfList]
  | cons e es ih => rw [levelOfList, Nat.max_le, ih, List.forall_mem_cons]

theorem levelOfProperties_le_iff {ps : List (PropertyKey × Expr)} {n : Nat} :
    levelOfProperties ps ≤ n ↔ ∀ p ∈ ps, p.2.level ≤ n := by
  induction ps with
  | nil => simp [levelOfProperties]
  | cons p ps ih =>
      obtain ⟨key, e⟩ := p
      rw [levelOfProperties, Nat.max_le, ih, List.forall_mem_cons]

theorem nestingOfList_le_iff {es : List Expr} {n : Nat} :
    nestingOfList es ≤ n ↔ ∀ e ∈ es, e.nesting ≤ n := by
  induction es with
  | nil => simp [nestingOfList]
  | cons e es ih => rw [nestingOfList, Nat.max_le, ih, List.forall_mem_cons]

theorem nestingOfProperties_le_iff {ps : List (PropertyKey × Expr)} {n : Nat} :
    nestingOfProperties ps ≤ n ↔ ∀ p ∈ ps, p.2.nesting ≤ n := by
  induction ps with
  | nil => simp [nestingOfProperties]
  | cons p ps ih =>
      obtain ⟨key, e⟩ := p
      rw [nestingOfProperties, Nat.max_le, ih, List.forall_mem_cons]

end GuardedExpr.Expr
