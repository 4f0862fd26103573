import GuardedExpr.Proofs.Confinement
import GuardedExpr.Proofs.Coupling.SameValues
import GuardedExpr.Proofs.Unrolling

/-!
# Reading

An expression that neither calls nor assigns only reads. Missing links, `null`
and scalars on its way make it neither fail nor store: what is not there is
`undefined`, and nothing is made in its place. Only a forbidden name or a
forbidden value stops it, and what it makes are new containers.
-/

namespace GuardedExpr

open Run

/-- The node stores a value. -/
def Expr.isAssign : Expr → Bool
  | assign _ _ => true
  | _ => false

/-- No node of the expression calls or assigns. -/
def Expr.OnlyReads (e : Expr) : Prop :=
  ∀ node ∈ e.nodes, node.isCall = false ∧ node.isAssign = false

/-- The guard on names or the guard on values stops the expression. -/
def Error.StopsReading (e : Error) : Prop :=
  (∃ name ∈ forbiddenNames, e = .security (.memberName name)) ∨
    ∃ what, e = .security (.object what)

namespace Heap

theorem ChangedWithin.then_none {h m h' : Heap} {ids : Set Nat} (first : ChangedWithin ids h m)
    (second : ChangedWithin ∅ m h') : ChangedWithin ids h h' :=
  first.trans second (Set.empty_subset _)

/-- Reading a member changes no container. -/
theorem changedWithin_readMember (h : Heap) (owner : Value) (key : String) :
    ChangedWithin ∅ h (h.readMember owner key).2 := by
  rcases h.readMember_cases owner key with ⟨same, _⟩ | ⟨primitive, made⟩
  · rw [same]
    exact .refl ∅ h
  · rw [made]
    exact ⟨Nat.le_succ _, fun c _ slot => by cases c <;> cases slot <;> rfl⟩

end Heap

/-- The host is as it was, and so are all containers that were there. -/
structure World.Untouched {σ : Type} (before w : World σ) : Prop where
  changes : Heap.ChangedWithin ∅ before.heap w.heap
  host : w.host = before.host

theorem World.Untouched.refl {σ : Type} (w : World σ) : w.Untouched w :=
  ⟨.refl ∅ w.heap, rfl⟩

/-- A change of the heap that leaves all containers as they were touches nothing. -/
theorem untouched_onHeap {σ α : Type} {before : World σ} {Fails : Error → Prop}
    {f : Heap → α × Heap} (changes : ∀ h, Heap.ChangedWithin ∅ h (f h).2) :
    Run.Keeps before.Untouched Fails (onHeap f) :=
  .onHeap fun w untouched => ⟨untouched.changes.then_none (changes w.heap), untouched.host⟩

/-- No step of reading touches what was there. -/
theorem untouched_keeps {σ : Type} (run : Invocation → Run σ Value) (context : Context)
    (before : World σ) :
    (Access.direct run).Keeps context before.Untouched Error.StopsReading
      (fun node => node.isCall = false ∧ node.isAssign = false) False where
  array items := untouched_onHeap fun h => h.changedWithin_newArray items.toArray
  object properties := untouched_onHeap fun h => h.changedWithin_newObject properties
  makeArray items := by
    rw [Access.direct_makeArray]
    exact untouched_onHeap fun h => h.changedWithin_newArray items.toArray
  makeObject properties := by
    rw [Access.direct_makeObject]
    exact untouched_onHeap fun h => h.changedWithin_newObject properties
  read owner key := by
    rw [Access.direct_read]
    exact untouched_onHeap fun h => h.changedWithin_readMember owner key
  stores allowed := by cases allowed.2
  write stores := stores.elim
  name name named := .inl ⟨name, named, rfl⟩
  guard what := .inr ⟨what, rfl⟩
  notAssignable stores := stores.elim
  notCallable allowed := by cases allowed.1
  notAFunction allowed := by cases allowed.1
  invoke allowed := by cases allowed.1

/-- **Reading leaves everything as it was.** Whatever the scope and the locals are and whatever the
heap holds, an expression that neither calls nor assigns leaves the host and all containers as they
were, whether it ends well or not, and only a forbidden name or a forbidden value makes it fail. -/
theorem eval_untouched_of_onlyReads {σ : Type} (run : Invocation → Run σ Value)
    (context : Context) (e : Evaluator) (reads : e.body.OnlyReads) (w : World σ) :
    w.Untouched ((e.eval (Access.direct run) context).outcome w).2 ∧
      ∀ error, ((e.eval (Access.direct run) context).outcome w).1 = .error error →
        error.StopsReading :=
  (untouched_keeps run context w).eval e reads w (.refl w)

/-- Links below what is missing, below `null` and below a truth value are read, one of them under a
key that a list spells. -/
theorem eval_untouched_of_onlyReads_missing :
    ∃ (run : Invocation → Run Unit Value) (context : Context) (e : Evaluator) (w : World Unit),
      e.body.OnlyReads ∧ w.Untouched ((e.eval (Access.direct run) context).outcome w).2 ∧
      ((e.eval (Access.direct run) context).outcome w).1 = .ok (.array ⟨2⟩) ∧
      ((e.eval (Access.direct run) context).outcome w).2.heap.items ⟨2⟩ =
        #[.undefined, .undefined, .undefined, .bool true] := by
  let run : Invocation → Run Unit Value := fun _ => return .undefined
  let context : Context := ⟨.object ⟨0, .plain⟩, .null⟩
  let flag : Expr := .index .self (.array [.literal (.string "flag")]) .bracketed
  let e : Evaluator := ⟨"", .array [.member (.member (.identifier "missing") "x") "y",
    .member (.identifier "gone") "x", .member (.member (.identifier "flag") "x") "y", flag]⟩
  let w : World Unit :=
    ⟨(Heap.empty.newObject .plain [("flag", .bool true), ("gone", .null)]).2, ()⟩
  have reads : e.body.OnlyReads := by
    simp [e, flag, Expr.OnlyReads, Expr.nodes, Expr.nodesOfList, Expr.isCall, Expr.isAssign]
  refine ⟨run, context, e, w, reads, ?_, ?_, ?_⟩
  · exact (eval_untouched_of_onlyReads run context e reads w).1
  · cbv
  · cbv

end GuardedExpr
