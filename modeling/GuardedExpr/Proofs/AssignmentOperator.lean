import GuardedExpr.Proofs.Arguments
import GuardedExpr.Proofs.CallOrder
import GuardedExpr.Proofs.PartialAssignment

/-!
# Assigning and the operator

A value can be stored by the operator, which evaluates it after its target has
been found, or by assigning it to the target from outside. If the expression of
the value only reads, both do the same: what it makes in between is new, so the
guard and the store find the old containers as the way to the target left them.
-/

namespace GuardedExpr

open Run

/-- The value refers to no container, or to one that was made before the heap. -/
def Heap.Knows (h : Heap) (v : Value) : Prop :=
  ∀ c : Container, v.container? = some c → c.id < h.next

/-- The host takes no identity back. -/
def KeepsIdentities {σ : Type} (run : Invocation → Run σ Value) : Prop :=
  ∀ call w, w.heap.next ≤ ((run call).outcome w).2.heap.next

namespace Heap

variable {h h' : Heap} {c : Container} {ids : Set Nat} {slot : Slot} {key : String}

/-- The same store keeps heaps the same. -/
theorem SameOn.putChild (same : SameOn ids h h') (fits : c.slot? key = some slot) (v : Value) :
    SameOn ids (h.putChild c slot v) (h'.putChild c slot v) := by
  intro d member other
  by_cases here : d = c
  · subst here
    rw [puts_putChild_of_slot? fits v other, puts_putChild_of_slot? fits v other,
      same d member other]
  · rw [child?_putChild_of_ne h' here, child?_putChild_of_ne h here, same d member other]

end Heap

/-- The guard judges a value that was there before as it did, while the containers are as they
were. -/
theorem World.Untouched.guard_eq {σ : Type} {before w : World σ} (untouched : before.Untouched w)
    {v : Value} (known : before.heap.Knows v) :
    Guard.object w.heap v = Guard.object before.heap v := by
  apply Guard.object_congr
  intro o same key _
  exact untouched.changes.kept (.object o) ⟨known (.object o) (same ▸ rfl), Set.notMem_empty _⟩ _

section Growth

variable {σ : Type} {run : Invocation → Run σ Value} (context : Context) (w : World σ)

/-- A change of the heap that leaves all containers as they were takes no identity back. -/
theorem grows_onHeap {α : Type} {next : Nat} {Fails : Error → Prop} {f : Heap → α × Heap}
    (changes : ∀ h, Heap.ChangedWithin ∅ h (f h).2) :
    Run.Keeps (fun w : World σ => next ≤ w.heap.next) Fails (onHeap f) :=
  .onHeap fun w grown => Nat.le_trans grown (changes w.heap).grows

/-- No step takes an identity back. -/
theorem KeepsIdentities.keeps (keepsIds : KeepsIdentities run) (next : Nat) :
    (Access.direct run).Keeps context (fun w => next ≤ w.heap.next) (fun _ => True)
      (fun _ => True) True where
  array items := grows_onHeap fun h => h.changedWithin_newArray items.toArray
  object properties := grows_onHeap fun h => h.changedWithin_newObject properties
  makeArray items := by
    rw [Access.direct_makeArray]
    exact grows_onHeap fun h => h.changedWithin_newArray items.toArray
  makeObject properties := by
    rw [Access.direct_makeObject]
    exact grows_onHeap fun h => h.changedWithin_newObject properties
  read owner key := by
    rw [Access.direct_read]
    exact grows_onHeap fun h => h.changedWithin_readMember owner key
  stores _ := trivial
  write _ owner key v := by
    intro w grown
    refine ⟨?_, fun _ _ => trivial⟩
    rw [Expr.outcome_write]
    cases written : w.heap.writeMember owner key v with
    | error e => exact grown
    | ok h =>
        obtain ⟨next, _⟩ := Heap.entries_writeMember written
        exact next ▸ grown
  name _ _ := trivial
  guard _ := trivial
  notAssignable _ := trivial
  notCallable _ := trivial
  notAFunction _ := trivial
  invoke _ grown _ := ⟨Nat.le_trans grown (keepsIds _ _), fun _ _ => trivial⟩

theorem KeepsIdentities.grows_locate (keepsIds : KeepsIdentities run) (e : Expr)
    (purpose : Purpose) :
    w.heap.next ≤ ((e.locate (Access.direct run) context purpose).outcome w).2.heap.next :=
  ((keepsIds.keeps context w.heap.next).locate e purpose (.inr trivial) (fun _ _ => trivial) w
    (Nat.le_refl _)).1

end Growth

section Calls

variable {σ : Type} (access : Access σ) (context : Context)

/-- Where no node calls, no call is visited. -/
theorem visits_eq_nil {e : Expr} (callFree : ∀ node ∈ e.nodes, node.isCall = false)
    (purpose : Purpose) (w : World σ) : e.visits access context purpose w = [] := by
  apply List.eq_nil_iff_forall_not_mem.mpr
  intro ⟨k, visit⟩ member
  obtain ⟨callee, operands, found⟩ :=
    (inOrder_visits access context e purpose w).calls k visit member
  have free := callFree _ (List.mem_of_getElem? found)
  cases free

/-- The calls of an assignment are those on the way to its target. -/
theorem Evaluator.notes_assign {e : Evaluator} (assignable : e.isAssignable = true) (v : Value) :
    Notes (e.assign access.recorded context v) (e.assign access context v)
      fun w => (e.body.visits access context .store w).invocations := by
  unfold Evaluator.assign
  rw [if_pos assignable, if_pos assignable]
  refine (Expr.notes_locate access context e.body .store).then_silent fun place => ?_
  refine (notes_guardObject v).then_silent fun v => ?_
  exact (notes_store access place v).then_silent fun _ => .pure v

theorem Notes.invocations_eq {α : Type} {m : Run (Recorded σ) α} {n : Run σ α}
    {calls : World σ → List Invocation} (noted : Notes m n calls) (w : World σ) :
    (m.outcome w.recording).2.invocations = calls w := by
  obtain ⟨result, after, ran, _, same⟩ := noted w.recording
  rw [ran]
  exact same

/-- If the value only reads, the operator visits the calls on the way to its target. -/
theorem visits_assign {target value : Expr} (reads : value.OnlyReads) (w : World σ) :
    (Expr.assign target value).visits access context .read w =
      target.visits access context .store w := by
  have callFree : ∀ node ∈ value.nodes, node.isCall = false :=
    fun node there => (reads node there).1
  rw [Expr.visits]
  unfold Run.visitsThen
  rcases (target.locate access context .store).outcome w with ⟨_ | place, u⟩
  · rw [List.append_nil]
  · simp only [visits_eq_nil access context callFree, Visits.shift_nil, List.append_nil]

end Calls

section Parts

variable {σ : Type} {target value : Expr}

theorem Evaluator.body_ofExpr (link : target.isLink = true) :
    (Evaluator.ofExpr target).body = target := by
  cases target <;> first | rfl | cases link

theorem Evaluator.isAssignable_ofExpr (link : target.isLink = true) :
    (Evaluator.ofExpr target).isAssignable = true := by
  unfold Evaluator.isAssignable
  rw [body_ofExpr link]
  cases target <;> first | rfl | cases link

/-- Assigning finds the target, and then guards and stores the value. -/
theorem Evaluator.assign_ofExpr (access : Access σ) (context : Context)
    (link : target.isLink = true) (v : Value) :
    (Evaluator.ofExpr target).assign access context v =
      target.locate access context .store >>= fun place => do
        let v ← Expr.guardObject v
        Expr.store access place v
        return v := by
  unfold Evaluator.assign
  rw [if_pos (isAssignable_ofExpr link), body_ofExpr link]

/-- The operator finds the target, evaluates the value, and then guards and stores it. -/
theorem Evaluator.eval_ofExpr_assign (access : Access σ) (context : Context) :
    (Evaluator.ofExpr (.assign target value)).eval access context =
      target.locate access context .store >>= fun place =>
        value.locate access context .read >>= fun source => do
          let v ← Expr.guardObject source.value
          Expr.store access place v
          return v := by
  change (Expr.assign target value).eval access context = _
  unfold Expr.eval
  rw [Expr.locate]
  simp only [bind_assoc, pure_bind]
  rfl

/-- At a slot of a container, a value that passes the guard is stored. -/
theorem outcome_store_of_slot? (run : Invocation → Run σ Value) {c : Container} {slot : Slot}
    {key : String} (fits : c.slot? key = some slot) (inRange : slot.inRange = true) {v : Value}
    (found : Value) {u : World σ} (passed : Guard.object u.heap v = .ok v) :
    (do
        let v ← Expr.guardObject v
        Expr.store (Access.direct run) (.slot c.value key found) v
        return v).outcome u = (.ok v, { u with heap := u.heap.putChild c slot v }) := by
  have guarded := Expr.outcome_guardObject_eq v u
  rw [passed] at guarded
  have written : (Expr.store (Access.direct run) (.slot c.value key found) v).outcome u = _ :=
    Expr.outcome_write run c.value v key u
  rw [Heap.writeMember_of_slot? fits, if_pos inRange] at written
  rw [outcome_bind_ok guarded, outcome_bind_ok written]
  rfl

/-- What the operator stores at its target after a value that only reads is stored in that slot at
once too, and leaves the same in the containers that the target had found. -/
theorem exists_stored_at_once {run : Invocation → Run σ Value} {context : Context}
    (reads : value.OnlyReads) {place : Place} {v : Value} {u after : World σ}
    (known : u.heap.Knows v)
    (ended : (value.locate (Access.direct run) context .read >>= fun source => do
        let v ← Expr.guardObject source.value
        Expr.store (Access.direct run) place v
        return v).outcome u = (.ok v, after)) :
    ∃ after', (do
        let v ← Expr.guardObject v
        Expr.store (Access.direct run) place v
        return v).outcome u = (.ok v, after') ∧
      after'.host = after.host ∧
      (∃ c slot key found, place = .slot c.value key found ∧ c.slot? key = some slot ∧
        after.heap.child? c slot = some v ∧ after'.heap.child? c slot = some v) ∧
      Heap.SameOn (Set.Iio u.heap.next) after'.heap after.heap := by
  obtain ⟨source, x, sourced, ended⟩ := outcome_bind_eq_ok.mp ended
  have untouched : u.Untouched x := by
    have kept := (untouched_keeps run context u).locate value .read (.inl rfl) reads u (.refl u)
    rw [sourced] at kept
    exact kept.1
  rcases outcome_guardObject_store run place source.value x with
    ⟨e, refused⟩ | ⟨c, slot, key, found, rfl, fits, inRange, stored⟩
  · rw [refused] at ended
    cases ended
  · obtain ⟨v', x', guarded, _⟩ := outcome_bind_eq_ok.mp ended
    obtain ⟨rfl, rfl, passed⟩ := Expr.of_outcome_guardObject guarded
    rw [stored] at ended
    cases ended
    rw [untouched.guard_eq known] at passed
    have kept : Heap.SameOn (Set.Iio u.heap.next) u.heap x'.heap :=
      untouched.changes.kept.mono (Set.sdiff_empty ▸ Set.Subset.refl _)
    have holds (h : Heap) : (h.putChild c slot source.value).child? c slot = some source.value :=
      (Heap.puts_putChild_of_slot? fits source.value).self
    exact ⟨_, outcome_store_of_slot? run fits inRange found passed, untouched.host.symm,
      ⟨c, slot, key, found, rfl, fits, holds _, holds _⟩, kept.putChild fits source.value⟩

end Parts

/-- Storing by the operator and storing from outside: the calls are the same, a value that is
returned and was there before is stored alike, and what stops one on the way to the target stops the
other. What the target names holds the value after either, and the containers that were there when
the target had been found, old ones and those made on the way, hold the same. -/
structure StoresAlike {σ : Type} (run : Invocation → Run σ Value) (context : Context)
    (target : Expr) (operator assigned : Evaluator) (w : World σ) : Prop where
  calls : ∀ v,
    ((assigned.assign (Access.direct run).recorded context v).outcome w.recording).2.invocations =
      ((operator.eval (Access.direct run).recorded context).outcome w.recording).2.invocations
  grows : w.heap.next ≤
    ((target.locate (Access.direct run) context .store).outcome w).2.heap.next
  stored : ∀ v after, (operator.eval (Access.direct run) context).outcome w = (.ok v, after) →
    w.heap.Knows v → ∃ after',
      (assigned.assign (Access.direct run) context v).outcome w = (.ok v, after') ∧
      after'.host = after.host ∧
      (∃ c slot, target.Names (Access.direct run) context w c slot ∧
        after.heap.child? c slot = some v ∧ after'.heap.child? c slot = some v) ∧
      ∀ c : Container,
        c.id < ((target.locate (Access.direct run) context .store).outcome w).2.heap.next →
          after'.heap.entries c = after.heap.entries c
  stopped : ∀ e after,
    (target.locate (Access.direct run) context .store).outcome w = (.error e, after) →
      (operator.eval (Access.direct run) context).outcome w = (.error e, after) ∧
      ∀ v, (assigned.assign (Access.direct run) context v).outcome w = (.error e, after)

/-- **Assigning agrees with the operator.** Whatever the target calls and assigns on its way, and
whatever the host does, if the operator stores the value of an expression that only reads, and that
value was there before, then assigning it to the target stores it in the same slot, with the same
calls and the same contents of everything that was there and of every link made on the way. -/
theorem storesAlike_of_onlyReads {σ : Type} {run : Invocation → Run σ Value}
    (keepsIds : KeepsIdentities run) (context : Context) {target value : Expr}
    (link : target.isLink = true) (reads : value.OnlyReads) (w : World σ) :
    StoresAlike run context target (Evaluator.ofExpr (.assign target value))
      (Evaluator.ofExpr target) w := by
  constructor
  case calls =>
    intro v
    have assignable := Evaluator.isAssignable_ofExpr link
    rw [(Evaluator.notes_assign _ context assignable v).invocations_eq,
      (Evaluator.notes_eval _ context _).invocations_eq, Evaluator.body_ofExpr link]
    exact congrArg Visits.invocations (visits_assign _ context reads w).symm
  case grows => exact keepsIds.grows_locate context w target .store
  case stored =>
    intro v after ended known
    rw [Evaluator.eval_ofExpr_assign] at ended
    obtain ⟨place, u, located, ended⟩ := outcome_bind_eq_ok.mp ended
    have grows := keepsIds.grows_locate context w target .store
    rw [located] at grows
    have known' : u.heap.Knows v := fun c refers => Nat.lt_of_lt_of_le (known c refers) grows
    obtain ⟨after', stored, host, ⟨c, slot, key, found, rfl, fits, held, held'⟩, same⟩ :=
      exists_stored_at_once reads known' ended
    refine ⟨after', ?_, host, ⟨c, slot, ⟨key, found, u, located, fits⟩, held, held'⟩,
      fun d there => ?_⟩
    · rw [Evaluator.assign_ofExpr _ context link, outcome_bind_ok located]
      exact stored
    · rw [located] at there
      exact (Heap.entries_eq_of_child? (same d there)).symm
  case stopped =>
    intro e after located
    constructor
    · rw [Evaluator.eval_ofExpr_assign]
      exact outcome_bind_error located
    · intro v
      rw [Evaluator.assign_ofExpr _ context link]
      exact outcome_bind_error located

/-- A missing link is made under a key that a call gives, and an object that was there is stored
in what is made. -/
theorem storesAlike_of_onlyReads_call :
    ∃ (run : Invocation → Run Unit Value) (context : Context) (target value : Expr)
      (w : World Unit) (after' : World Unit),
      KeepsIdentities run ∧ target.isLink = true ∧ value.OnlyReads ∧
      StoresAlike run context target (Evaluator.ofExpr (.assign target value))
        (Evaluator.ofExpr target) w ∧
      ((Evaluator.ofExpr target).assign (Access.direct run) context (.object ⟨1, .plain⟩)).outcome
        w = (.ok (.object ⟨1, .plain⟩), after') ∧
      after'.heap.entries (.object ⟨0, .plain⟩) = [("k", .object ⟨3, .plain⟩)] ∧
      after'.heap.entries (.object ⟨3, .plain⟩) = [("b", .object ⟨1, .plain⟩)] := by
  let run : Invocation → Run Unit Value := fun _ => return .string "k"
  let context : Context := ⟨.object ⟨2, .plain⟩, .undefined⟩
  let target : Expr :=
    .member (.index (.identifier "o") (.call (.identifier "f") []) .bracketed) "b"
  let value : Expr := .identifier "e"
  let w : World Unit := ⟨(((Heap.empty.newObject .plain []).2.newObject .plain []).2.newObject
    .plain [("e", .object ⟨1, .plain⟩), ("f", .function (.host ⟨7, "f", .native⟩)),
      ("o", .object ⟨0, .plain⟩)]).2, ()⟩
  have keepsIds : KeepsIdentities run := fun _ _ => Nat.le_refl _
  have reads : value.OnlyReads := by
    simp [value, Expr.OnlyReads, Expr.nodes, Expr.isCall, Expr.isAssign]
  have link : target.isLink = true := rfl
  have alike := storesAlike_of_onlyReads keepsIds context link reads w
  have known : w.heap.Knows (.object ⟨1, .plain⟩) := by
    intro c refers
    obtain rfl := Option.some.inj refers
    exact (by decide : 1 < 3)
  have ended : (((Evaluator.ofExpr (.assign target value)).eval (Access.direct run)
      context).outcome w).1 = .ok (.object ⟨1, .plain⟩) := by
    cbv
  have entries : (((Evaluator.ofExpr (.assign target value)).eval (Access.direct run)
      context).outcome w).2.heap.entries (.object ⟨0, .plain⟩) =
        [("k", .object ⟨3, .plain⟩)] := by
    cbv
  have made : (((Evaluator.ofExpr (.assign target value)).eval (Access.direct run)
      context).outcome w).2.heap.entries (.object ⟨3, .plain⟩) =
        [("b", .object ⟨1, .plain⟩)] := by
    cbv
  have next : ((target.locate (Access.direct run) context .store).outcome w).2.heap.next = 4 := by
    cbv
  rcases ran : ((Evaluator.ofExpr (.assign target value)).eval (Access.direct run)
    context).outcome w with ⟨result, after⟩
  rw [ran] at ended entries made
  obtain rfl : result = _ := ended
  obtain ⟨after', stored, _, _, same⟩ := alike.stored _ after ran known
  rw [next] at same
  refine ⟨run, context, target, value, w, after', keepsIds, link, reads, alike, stored, ?_, ?_⟩
  · exact (same (.object ⟨0, .plain⟩) (by decide : 0 < 4)).trans entries
  · exact (same (.object ⟨3, .plain⟩) (by decide : 3 < 4)).trans made

end GuardedExpr
