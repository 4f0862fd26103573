import GuardedExpr.Proofs.HostTags

/-!
# Confinement

An expression that calls nothing stays within what its layers lead to. Links
under forbidden names do not count, and no link leads on from a tagged container
that is not a layer itself. The heap may be cyclic, and the expression may store
and make things while it reads: at every moment the values found so far are
closed under the links that count, and all of them were within reach at the
start or have been made since.
-/

namespace GuardedExpr

open Run

/-- The node calls a function. -/
def Expr.isCall : Expr → Bool
  | call _ _ => true
  | _ => false

/-- Links lead on from the value: it is not tagged, or it is a layer itself. -/
def Context.Opens (context : Context) (v : Value) : Prop :=
  v.isHostTagged = false ∨ v = context.scope ∨ v = context.locals

/-- The values that the layers lead to by links whose names are not forbidden. -/
inductive Heap.Reachable (h : Heap) (context : Context) : Value → Prop where
  | scope : Reachable h context context.scope
  | locals : Reachable h context context.locals
  | link {c : Container} {key : String} {v : Value} :
      Reachable h context c.value → context.Opens c.value → (key, v) ∈ h.entries c →
      key ∉ forbiddenNames → Reachable h context v

/-- The value is a container or a reflection function that was made between the two heaps. -/
def Value.MadeBetween (before after : Heap) : Value → Prop
  | array a => before.next ≤ a.id ∧ a.id < after.next
  | object o => o.kind = .plain ∧ before.next ≤ o.id ∧ o.id < after.next
  | function (.reflection id _) => before.next ≤ id ∧ id < after.next
  | _ => False

theorem Value.MadeBetween.mono {before after later : Heap} {v : Value}
    (made : v.MadeBetween before after) (le : after.next ≤ later.next) :
    v.MadeBetween before later := by
  unfold MadeBetween at made ⊢
  split at made
  · exact ⟨made.1, Nat.lt_of_lt_of_le made.2 le⟩
  · exact ⟨made.1, made.2.1, Nat.lt_of_lt_of_le made.2.2 le⟩
  · exact ⟨made.1, Nat.lt_of_lt_of_le made.2 le⟩
  · exact made

/-- **The invariant of a confined run.** The values found so far are closed under the links that
count, all containers that changed are among them, and each was within reach at the start or has
been made since. -/
structure Confined (context : Context) (before : Heap) (found : Set Value) (h : Heap) : Prop where
  grows : before.next ≤ h.next
  scope : context.scope ∈ found
  locals : context.locals ∈ found
  origin : ∀ v ∈ found, before.Reachable context v ∨ v.MadeBetween before h
  closed : ∀ (c : Container) key v, c.value ∈ found → context.Opens c.value →
    (key, v) ∈ h.entries c → key ∉ forbiddenNames → v.isScalar = true ∨ v ∈ found
  changed : ∀ c, h.entries c ≠ before.entries c → c.value ∈ found

namespace Confined

variable {context : Context} {before h h' : Heap} {found : Set Value}

/-- At the start, what is within reach is found. -/
theorem start (context : Context) (h : Heap) :
    Confined context h {v | h.Reachable context v} h where
  grows := Nat.le_refl _
  scope := .scope
  locals := .locals
  origin _ reachable := .inl reachable
  closed _ _ _ reachable opens member allowed := .inr (.link reachable opens member allowed)
  changed _ differs := absurd rfl differs

/-- Making a value of what is found keeps the invariant, with the value as found. -/
theorem make (confined : Confined context before found h) {made : Value}
    (grows : h.next ≤ h'.next) (new : made.MadeBetween before h')
    (others : ∀ c : Container, c.value ≠ made → h'.entries c = h.entries c)
    (contents : ∀ c : Container, c.value = made → ∀ key v, (key, v) ∈ h'.entries c →
      v.isScalar = true ∨ v ∈ found) :
    Confined context before (insert made found) h' where
  grows := Nat.le_trans confined.grows grows
  scope := .inr confined.scope
  locals := .inr confined.locals
  origin := by
    intro v member
    rcases member with rfl | member
    · exact .inr new
    · exact (confined.origin v member).imp_right fun old => old.mono grows
  closed := by
    intro c key v member opens entry allowed
    by_cases same : c.value = made
    · exact (contents c same key v entry).imp_right .inr
    · have old : c.value ∈ found := member.resolve_left same
      rw [others c same] at entry
      exact (confined.closed c key v old opens entry allowed).imp_right .inr
  changed := by
    intro c differs
    by_cases same : c.value = made
    · exact .inl same
    · rw [others c same] at differs
      exact .inr (confined.changed c differs)

/-- Storing what is found into what is found keeps the invariant. -/
theorem write (confined : Confined context before found h) {owner v : Value} {key : String}
    (reached : owner ∈ found) (stored : v.isScalar = true ∨ v ∈ found)
    (written : h.writeMember owner key v = .ok h') : Confined context before found h' := by
  obtain ⟨next, c, rfl, others, _⟩ := Heap.entries_writeMember written
  exact {
    grows := next ▸ confined.grows
    scope := confined.scope
    locals := confined.locals
    origin := fun v member => (confined.origin v member).imp_right fun old => old.mono next.ge
    closed := by
      have before (d : Container) (key' : String) (v' : Value)
          (counts : d.value ∈ found ∧ context.Opens d.value ∧ key' ∉ forbiddenNames)
          (entry : (key', v') ∈ h.entries d) : v'.isScalar = true ∨ v' ∈ found :=
        confined.closed d key' v' counts.1 counts.2.1 entry counts.2.2
      intro d key' v' member opens entry allowed
      exact Heap.forall_entries_of_writeMember before (.inl rfl) stored written d key' v'
        ⟨member, opens, allowed⟩ entry
    changed := by
      intro d differs
      by_cases same : d = c
      · exact same ▸ reached
      · rw [others d same] at differs
        exact confined.changed d differs }

end Confined

/-- The value is a scalar or one of those found so far, and links lead on from it. -/
def Context.Holds (context : Context) (found : Set Value) (v : Value) : Prop :=
  (v.isScalar = true ∨ v ∈ found) ∧ context.Opens v

/-- The values that a run has found so far; they only become more. -/
structure Finds where
  values : Set Value

instance : Preorder Finds where
  le finds later := finds.values ⊆ later.values
  le_refl _ := Set.Subset.refl _
  le_trans _ _ _ first second := Set.Subset.trans first second

/-- A run beside itself, on the values found so far. -/
def confinement (σ : Type) (context : Context) (before : Heap) : Bond Finds σ σ where
  Rel := Diagonal fun finds => Confined context before finds.values
  Held finds v := context.Holds finds.values v
  Found finds v := v.isScalar = true ∨ v ∈ finds.values
  Slot finds owner key := context.Holds finds.values owner ∧ key ∉ forbiddenNames

section Steps

variable {σ : Type} {context : Context} {before : Heap} {found : Set Value} {finds : Finds}

theorem Confined.array {h : Heap} (confined : Confined context before found h) {items : List Value}
    (held : ∀ v ∈ items, v.isScalar = true ∨ v ∈ found) :
    Confined context before (insert (h.makeArray items).1 found) (h.makeArray items).2 := by
  refine confined.make (Nat.le_succ _) ⟨confined.grows, Nat.lt_succ_self _⟩ ?_ ?_
  · intro c other
    refine h.entries_newArray_of_ne _ fun same => other ?_
    rw [same]
    rfl
  · intro c same key v member
    cases c with
    | array a =>
        obtain rfl := Value.array.inj same
        exact held v (List.mem_toArray.mp (Heap.mem_of_mem_entries_newArray member))
    | object o => cases same

theorem Confined.object {h : Heap} (confined : Confined context before found h)
    {properties : List (String × Value)}
    (held : ∀ p ∈ properties, p.2.isScalar = true ∨ p.2 ∈ found) :
    Confined context before (insert (h.makeObject properties).1 found)
      (h.makeObject properties).2 := by
  refine confined.make (Nat.le_succ _) ⟨rfl, confined.grows, Nat.lt_succ_self _⟩ ?_ ?_
  · intro c other
    refine h.entries_newObject_of_ne _ _ fun same => other ?_
    rw [same]
    rfl
  · intro c same key v member
    cases c with
    | array a => cases same
    | object o =>
        obtain rfl := Value.object.inj same
        exact held (key, v) (Heap.mem_of_mem_entries_newObject member)

theorem confinement_allocates : (confinement σ context before).Allocates where
  mono le held := ⟨held.1.imp_right fun member => le member, held.2⟩
  scalar scalar := ⟨.inl scalar, .inl (Value.isHostTagged_of_isScalar scalar)⟩
  array {finds items} held := by
    change Agree (Diagonal fun finds => Confined context before finds.values) finds _ _ _
    refine .change fun h confined => ?_
    have made := confined.array fun v member => (held v member).1
    exact ⟨⟨_⟩, Set.subset_insert _ _, made, .inr (Set.mem_insert _ _), .inl rfl⟩
  object {finds properties} held := by
    change Agree (Diagonal fun finds => Confined context before finds.values) finds _ _ _
    refine .change fun h confined => ?_
    have made := confined.object fun p member => (held p member).1
    exact ⟨⟨_⟩, Set.subset_insert _ _, made, .inr (Set.mem_insert _ _), .inl rfl⟩

/-- What is read of what is found is found: it is what a link leads to, or it is made. -/
theorem confinement_read {owner : Value} {key : String}
    (slot : (confinement σ context before).Slot finds owner key) :
    Agree (Diagonal fun finds => Confined context before finds.values) finds
      (onHeap fun h => h.readMember owner key : Run σ Value)
      (onHeap fun h => h.readMember owner key) (confinement σ context before).Found := by
  obtain ⟨⟨reached, opens⟩, allowed⟩ := slot
  refine .change fun h confined => ?_
  rcases h.readMember_cases owner key with ⟨same, scalar | ⟨c, rfl, entry⟩⟩ | ⟨primitive, made⟩
  · rw [same]
    exact ⟨finds, le_refl finds, confined, .inl scalar⟩
  · rw [same]
    have member : c.value ∈ finds.values := by
      refine reached.resolve_left fun scalar => ?_
      cases c <;> cases scalar
    exact ⟨finds, le_refl finds, confined, confined.closed c key _ member opens entry allowed⟩
  · rw [made]
    refine ⟨⟨_⟩, Set.subset_insert _ _, ?_, .inr (Set.mem_insert _ _)⟩
    refine confined.make (Nat.le_succ _) ⟨confined.grows, Nat.lt_succ_self _⟩ ?_ ?_
    · intro c _
      cases c <;> rfl
    · intro c same
      cases c <;> cases same

theorem confinement_write {owner v : Value} {key : String}
    (slot : (confinement σ context before).Slot finds owner key)
    (held : (confinement σ context before).Held finds v) :
    Agree (Diagonal fun finds => Confined context before finds.values) finds
      (onHeapOrFail fun h => h.writeMember owner key v : Run σ Unit)
      (onHeapOrFail fun h => h.writeMember owner key v) fun _ _ => True := by
  refine .changeOrFail fun h h' confined written => ?_
  have member : owner ∈ finds.values := by
    refine slot.1.1.resolve_left fun scalar => ?_
    cases owner with
    | array a => cases scalar
    | object o => cases scalar
    | _ => cases written
  exact ⟨finds, le_refl finds, confined.write member held.1 written, trivial⟩

/-- Every step of an expression that calls nothing stays among the values found. -/
theorem confinement_carries (run : Invocation → Run σ Value) :
    (confinement σ context before).Carries context (Access.direct run) (Access.direct run)
      fun node => node.isCall = false where
  toAllocates := confinement_allocates
  found held := held.1
  slot_mono le slot := ⟨⟨slot.1.1.imp_right fun member => le member, slot.1.2⟩, slot.2⟩
  slot held allowed := ⟨held, allowed⟩
  self related _ := ⟨.inr related.2.scope, .inr (.inl rfl)⟩
  owner := by
    intro finds w w' name related allowed
    obtain ⟨rfl, confined⟩ := related
    refine ⟨rfl, ?_, allowed⟩
    unfold Context.owner
    split
    · exact ⟨.inr confined.locals, .inr (.inr rfl)⟩
    · exact ⟨.inr confined.scope, .inr (.inl rfl)⟩
  text := by
    intro finds w w' v related _
    obtain ⟨rfl, _⟩ := related
    rfl
  number := by
    intro finds w w' v related _
    obtain ⟨rfl, _⟩ := related
    rfl
  guard := by
    intro finds w w' v related isFound
    obtain ⟨rfl, _⟩ := related
    exact ⟨rfl, fun passed => ⟨isFound, .inl (Guard.isHostTagged_of_object passed)⟩⟩
  read slot := confinement_read slot
  write slot held := confinement_write slot held
  makeArray held := confinement_allocates.array held
  makeObject held := confinement_allocates.object held
  invoke isCall := by cases isCall

end Steps

/-- The run gives and changes nothing but what was within reach of the layers or was made by it. -/
structure StaysWithin {σ : Type} (context : Context) (w : World σ) (m : Run σ Value) : Prop where
  value : ∀ v, (m.outcome w).1 = .ok v → v.isScalar = true ∨ w.heap.Reachable context v ∨
    v.MadeBetween w.heap (m.outcome w).2.heap
  changes : ∀ c, (m.outcome w).2.heap.entries c ≠ w.heap.entries c →
    w.heap.Reachable context c.value ∨ c.value.MadeBetween w.heap (m.outcome w).2.heap

theorem StaysWithin.of_agree {σ : Type} {context : Context} {w : World σ} {m : Run σ Value}
    (agree : Agree (confinement σ context w.heap).Rel ⟨{v | w.heap.Reachable context v}⟩ m m
      (confinement σ context w.heap).Held) : StaysWithin context w m := by
  obtain ⟨_, _, ⟨_, confined⟩, _, held⟩ := agree w w ⟨rfl, .start context w.heap⟩
  refine ⟨fun v ended => ?_, fun c differs => ?_⟩
  · rcases (held v ended).1 with scalar | member
    · exact .inl scalar
    · exact .inr (confined.origin v member)
  · exact confined.origin c.value (confined.changed c differs)

/-- **An expression without calls stays within its layers.** Whether it is evaluated or a value
within reach is assigned to it, and whether it ends well or not, what it gives and what it changes
was within reach of the layers or was made by it. -/
theorem staysWithin_of_no_calls {σ : Type} (run : Invocation → Run σ Value) (context : Context)
    (e : Evaluator) (callFree : ∀ node ∈ e.body.nodes, node.isCall = false) (w : World σ) :
    StaysWithin context w (e.eval (Access.direct run) context) ∧
    ∀ v, v.isScalar = true ∨ w.heap.Reachable context v →
      StaysWithin context w (e.assign (Access.direct run) context v) := by
  have carries : (confinement σ context w.heap).Carries context (Access.direct run)
      (Access.direct run) fun node => node.isCall = false := confinement_carries run
  refine ⟨.of_agree (carries.eval e _ callFree), fun v within => .of_agree ?_⟩
  exact carries.assign e (fun _ le => within.imp_right fun member => le member) callFree

/-- A list that holds the scope is stored in the scope, and then read from there. -/
theorem staysWithin_of_no_calls_cycle :
    ∃ (run : Invocation → Run Unit Value) (context : Context) (e : Evaluator) (w : World Unit),
      (∀ node ∈ e.body.nodes, node.isCall = false) ∧
      StaysWithin context w (e.eval (Access.direct run) context) ∧
      ((e.eval (Access.direct run) context).outcome w).1 = .ok (.array ⟨2⟩) ∧
      ((e.eval (Access.direct run) context).outcome w).2.heap.items ⟨2⟩ =
        #[.array ⟨1⟩, .array ⟨1⟩] ∧
      ((e.eval (Access.direct run) context).outcome w).2.heap.items ⟨1⟩ =
        #[.object ⟨0, .plain⟩] := by
  let run : Invocation → Run Unit Value := fun _ => return .undefined
  let context : Context := ⟨.object ⟨0, .plain⟩, .undefined⟩
  let e : Evaluator :=
    ⟨"", .array [.assign (.identifier "b") (.array [.self]), .identifier "b"]⟩
  let w : World Unit := ⟨(Heap.empty.newObject .plain [("a", .null)]).2, ()⟩
  have callFree : ∀ node ∈ e.body.nodes, node.isCall = false := by
    simp [e, Expr.nodes, Expr.nodesOfList, Expr.isCall]
  refine ⟨run, context, e, w, callFree, ?_, ?_, ?_, ?_⟩
  · exact (staysWithin_of_no_calls run context e callFree w).1
  · cbv
  · cbv
  · cbv

end GuardedExpr
