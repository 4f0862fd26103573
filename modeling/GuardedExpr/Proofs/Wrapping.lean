import GuardedExpr.Proofs.PartialAssignment

/-!
# Programs around expressions

A program around an expression is listed and read as the expression is, however
many programs there are. Assigning is different. An evaluator takes one program
off and stores through the expression below it. A second program is a plain
value: assigning to it reads the expression and guards the value, and then there
is no place to store into, although the expression still counts as assignable.
-/

namespace GuardedExpr

open Run

namespace Expr

/-- The expression is a program around an identifier or around what ends with a link. -/
def isWrappedLink : Expr → Bool
  | program body => body.isLink
  | _ => false

theorem isLiteral_body (e : Expr) : e.body.isLiteral = e.isLiteral := by
  cases e <;> rfl

theorem isAssignable_body (e : Expr) : e.body.isAssignable = e.isAssignable := by
  cases e <;> rfl

theorem isConstant_body (e : Expr) : e.body.isConstant = e.isConstant := by
  cases e with
  | program inner => rw [body, isConstant]
  | _ => rfl

section Runs

variable {σ : Type} (access : Access σ) (context : Context)

/-- A second program changes nothing about what the first one denotes. -/
theorem locate_program_program (inner : Expr) (purpose : Purpose) :
    (program (program inner)).locate access context purpose =
      (program inner).locate access context purpose := by
  have peeled : purpose.forBody.forBody = purpose.forBody := by cases purpose <;> rfl
  rw [locate, locate, peeled, bind_assoc]
  rfl

/-- A program is read as its body is. -/
theorem eval_body (e : Expr) : e.body.eval access context = e.eval access context := by
  cases e with
  | program inner =>
      unfold eval
      rw [locate, bind_assoc]
      rfl
  | _ => rfl

/-- Finds the place of an expression and stores a value there that passes the guard. -/
def storeAt (e : Expr) (v : Value) : Run σ Value := do
  let place ← e.locate access context .store
  let v ← guardObject v
  store access place v
  return v

/-- Storing into a program reads its body and guards the value, and then there is no place. -/
theorem storeAt_program (inner : Expr) (v : Value) :
    (program inner).storeAt access context v = (do
      let _ ← inner.eval access context
      let _ ← guardObject v
      Run.fail .notAssignable) := by
  unfold storeAt eval
  rw [locate, bind_assoc, bind_assoc]
  rfl

end Runs

end Expr

namespace Evaluator

/-- The evaluators tell the same about themselves and are evaluated to the same, whatever the world
is. -/
structure ReadsAs (e e' : Evaluator) : Prop where
  text : e.text = e'.text
  listing : e.listing = e'.listing
  isLiteral : e.isLiteral = e'.isLiteral
  isConstant : e.isConstant = e'.isConstant
  isAssignable : e.isAssignable = e'.isAssignable
  eval {σ : Type} (access : Access σ) (context : Context) :
    e.eval access context = e'.eval access context

theorem listing_body (e : Expr) : Listing.of e.body = Listing.of e := by
  cases e with
  | program inner =>
      unfold Listing.of
      rw [Listing.fragment]
      rfl
  | _ => rfl

theorem readsAs_ofExpr (tree : Expr) : (ofExpr (.program tree)).ReadsAs (ofExpr tree) where
  text := rfl
  listing := (listing_body tree).symm
  isLiteral := (Expr.isLiteral_body tree).symm
  isConstant := (Expr.isConstant_body tree).symm
  isAssignable := (Expr.isAssignable_body tree).symm
  eval access context := (Expr.eval_body access context tree).symm

/-- Assigning to a tree stores at its body, if the tree counts as assignable. -/
theorem assign_ofExpr_eq {σ : Type} (access : Access σ) (context : Context) (tree : Expr)
    (v : Value) :
    (ofExpr tree).assign access context v =
      if tree.isAssignable then tree.body.storeAt access context v
      else Run.fail .notAssignable := by
  rw [← Expr.isAssignable_body]
  rfl

/-- **A program around a tree matters only for assigning to a wrapped link.** Whatever the tree, the
access and the contexts are, one more program around it leaves the listing, the flags and the
evaluation as they are. It leaves assigning as it is too, unless the tree is a single program around
a link: that is stored into, and with one more program it is read, the value is guarded, and the run
fails because nothing is there to store into. -/
theorem readsAs_and_assign_program (tree : Expr) :
    (ofExpr (.program tree)).ReadsAs (ofExpr tree) ∧
    ∀ {σ : Type} (access : Access σ) (context : Context) (v : Value),
      (ofExpr (.program tree)).assign access context v =
        if tree.isWrappedLink then do
          let _ ← tree.eval access context
          let _ ← Expr.guardObject v
          Run.fail .notAssignable
        else (ofExpr tree).assign access context v := by
  refine ⟨readsAs_ofExpr tree, fun {σ} access context v => ?_⟩
  rw [assign_ofExpr_eq, assign_ofExpr_eq]
  change (if tree.isAssignable = true then tree.storeAt access context v else _) = _
  cases tree with
  | program inner =>
      by_cases wrapped : inner.isLink = true
      · have assignable : (Expr.program inner).isAssignable = true := by
          cases inner <;> first | rfl | cases wrapped
        have single : (Expr.program inner).isWrappedLink = true := wrapped
        rw [if_pos single, if_pos assignable, ← Expr.eval_body access context (.program inner)]
        exact Expr.storeAt_program access context inner v
      · have other : ¬(Expr.program inner).isWrappedLink = true := wrapped
        rw [if_neg other]
        cases inner with
        | program inner =>
            unfold Expr.storeAt
            rw [Expr.locate_program_program]
            rfl
        | identifier | member | index => exact absurd rfl wrapped
        | _ => rfl
  | _ => rfl

/-- A name in one program is stored into; in two, it still counts as assignable, and nothing is
stored. -/
theorem exists_assign_program_ne :
    ∃ (run : Invocation → Run Unit Value) (context : Context) (tree : Expr) (w : World Unit),
      (ofExpr tree).isAssignable = true ∧ (ofExpr (.program tree)).isAssignable = true ∧
      (((ofExpr tree).assign (Access.direct run) context .null).outcome w).1 = .ok .null ∧
      (((ofExpr (.program tree)).assign (Access.direct run) context .null).outcome w).1 =
        .error (.runtime .notAssignable) := by
  let run : Invocation → Run Unit Value := fun _ => return .undefined
  let context : Context := ⟨.object ⟨0, .plain⟩, .undefined⟩
  let tree : Expr := .program (.identifier "a")
  let w : World Unit := ⟨(Heap.empty.newObject .plain []).2, ()⟩
  refine ⟨run, context, tree, w, rfl, rfl, ?_, ?_⟩
  · cbv
  · cbv

end Evaluator

end GuardedExpr
