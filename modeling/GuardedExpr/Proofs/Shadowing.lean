import GuardedExpr.Proofs.Agreement.Evaluation
import GuardedExpr.Proofs.Confinement
import GuardedExpr.Proofs.Hiding

/-!
# Shadowing

A name that the locals own resolves to them, so what the scope holds under it
cannot be seen. It stays so for a whole run, because no step takes a name away
from the locals, and because the scope is only ever met as the owner of a name:
it is out of reach of every value that an expression without `this` and without
calls finds on its way. The values found so far are closed under what containers
hold, and what the scope holds under other names is among them.
-/

namespace GuardedExpr

open Run

/-- The node is `this`. -/
def Expr.isSelf : Expr → Bool
  | self => true
  | _ => false

/-- The value refers to one of the containers, if it refers to any. -/
def Value.Among (found : Set Container) (v : Value) : Prop :=
  ∀ c, v.container? = some c → c ∈ found

/-- Scope and locals exist, and nothing in either leads to the scope. -/
structure Heap.Layered (h : Heap) (scope locals : ObjectRef) : Prop where
  scope_lt : scope.id < h.next
  locals_lt : locals.id < h.next
  apart : ¬ h.Leads (.object locals) (.object scope)
  acyclic : ¬ h.Cyclic (.object scope)

/-- What is hidden is what the scope holds under the names. -/
def Shadowed (scope : ObjectRef) (names : Set String) (o : ObjectRef) (key : String) : Prop :=
  o = scope ∧ key ∈ names

/-- **The invariant of a run in the shadow of the locals.** The containers found so far do not
include the scope, and hold only each other; so does the scope under names that are not shadowed. -/
structure Enclosed (scope locals : ObjectRef) (names : Set String) (found : Set Container)
    (h : Heap) : Prop where
  scope_lt : scope.id < h.next
  locals_lt : locals.id < h.next
  apart : .object scope ∉ found
  within : .object locals ∈ found
  owned : ∀ key ∈ names, key ∈ h.properties locals
  closed : ∀ (c : Container) key v, c ∈ found ∨ c = .object scope ∧ key ∉ names →
    (key, v) ∈ h.entries c → v.Among found

theorem Value.among_of_isScalar {found : Set Container} {v : Value} (scalar : v.isScalar = true) :
    v.Among found := by
  intro c refers
  obtain rfl := Value.container?_eq_some.mp refers
  cases c <;> cases scalar

theorem Value.Among.mono {found later : Set Container} {v : Value} (among : v.Among found)
    (le : found ⊆ later) : v.Among later :=
  fun c refers => le (among c refers)

/-- A place that an evaluation reaches: of a container that was found, or of the scope under a name
that is not shadowed. -/
def Open (scope : ObjectRef) (names : Set String) (found : Set Container) (owner : Value)
    (key : String) : Prop :=
  owner.Among found ∨ owner = .object scope ∧ key ∉ names

namespace Enclosed

variable {scope locals : ObjectRef} {names : Set String} {found : Set Container} {h h' : Heap}

/-- At the start, everything that does not lead to the scope counts as found. -/
theorem start (layered : h.Layered scope locals) :
    Enclosed scope locals {key | h.owns (.object locals) key = true}
      {c | ¬ h.Leads c.value (.object scope)} h where
  scope_lt := layered.scope_lt
  locals_lt := layered.locals_lt
  apart leads := leads (.here rfl)
  within := layered.apart
  owned key owns := by
    have there : (h.properties locals).contains key = true := owns
    exact Std.TreeMap.mem_iff_contains.mpr there
  closed := by
    intro c key v reached held d refers leads
    obtain rfl := Value.container?_eq_some.mp refers
    rcases reached with reached | ⟨rfl, _⟩
    · exact reached (.through (Value.container?_eq_some.mpr rfl) held leads)
    · exact layered.acyclic ⟨key, d.value, held, leads⟩

/-- Nothing that is shadowed is reached. -/
theorem not_shadowed (enclosed : Enclosed scope locals names found h) {owner : Value} {key : String}
    (reached : Open scope names found owner key) (o : ObjectRef) (same : owner = .object o) :
    ¬ Shadowed scope names o key := by
  rintro ⟨rfl, member⟩
  subst same
  rcases reached with among | ⟨_, shown⟩
  · exact enclosed.apart (among _ rfl)
  · exact shown member

/-- Making a container of what was found keeps the invariant, with the container as found. -/
theorem make (enclosed : Enclosed scope locals names found h) {made : Container}
    (new : ∀ o, made = .object o → h.next ≤ o.id) (grows : h.next ≤ h'.next)
    (others : ∀ c, c ≠ made → h'.entries c = h.entries c)
    (contents : ∀ key v, (key, v) ∈ h'.entries made → v.Among found) :
    Enclosed scope locals names (insert made found) h' where
  scope_lt := Nat.lt_of_lt_of_le enclosed.scope_lt grows
  locals_lt := Nat.lt_of_lt_of_le enclosed.locals_lt grows
  apart := by
    rintro (rfl | member)
    · exact Nat.not_lt.mpr (new scope rfl) enclosed.scope_lt
    · exact enclosed.apart member
  within := .inr enclosed.within
  owned := by
    intro key member
    have other : Container.object locals ≠ made := by
      rintro rfl
      exact Nat.not_lt.mpr (new locals rfl) enclosed.locals_lt
    rw [← Heap.mem_keys_entries_object, others _ other, Heap.mem_keys_entries_object]
    exact enclosed.owned key member
  closed := by
    intro c key v reached held
    by_cases same : c = made
    · subst same
      exact (contents key v held).mono (Set.subset_insert _ _)
    · rw [others c same] at held
      refine (enclosed.closed c key v ?_ held).mono (Set.subset_insert _ _)
      exact reached.imp_left fun member => member.resolve_left same

/-- Storing what was found where an evaluation reaches keeps the invariant. -/
theorem write (enclosed : Enclosed scope locals names found h) {owner v : Value} {key : String}
    (among : v.Among found)
    (written : h.writeMember owner key v = .ok h') : Enclosed scope locals names found h' := by
  have next := (Heap.entries_writeMember written).1
  exact {
    scope_lt := next ▸ enclosed.scope_lt
    locals_lt := next ▸ enclosed.locals_lt
    apart := enclosed.apart
    within := enclosed.within
    owned := by
      intro name member
      have there := enclosed.owned name member
      rw [← Std.TreeMap.isSome_getElem?_iff_mem] at there ⊢
      rcases Heap.getElem?_properties_of_writeMember written locals name with same | ⟨_, _, here⟩
      · rw [same]
        exact there
      · rw [here]
        rfl
    closed := Heap.forall_entries_of_writeMember enclosed.closed (Value.among_of_isScalar rfl) among
      written }

/-- What is read where an evaluation reaches was found, or is no container. -/
theorem read (enclosed : Enclosed scope locals names found h) {owner : Value} {key : String}
    (reached : Open scope names found owner key) :
    Enclosed scope locals names found (h.readMember owner key).2 ∧
      (h.readMember owner key).1.Among found := by
  rcases h.readMember_cases owner key with
    ⟨same, scalar | ⟨c, rfl, held⟩⟩ | ⟨primitive, made⟩
  · rw [same]
    exact ⟨enclosed, Value.among_of_isScalar scalar⟩
  · rw [same]
    refine ⟨enclosed, enclosed.closed c key _ (reached.imp (fun among => ?_) ?_) held⟩
    · exact among c (Value.container?_eq_some.mpr rfl)
    · intro shown
      refine ⟨?_, shown.2⟩
      cases c with
      | array a => cases shown.1
      | object o => exact congrArg Container.object (Value.object.inj shown.1)
  · rw [made]
    refine ⟨?_, nofun⟩
    exact { enclosed with
      scope_lt := Nat.lt_succ_of_lt enclosed.scope_lt
      locals_lt := Nat.lt_succ_of_lt enclosed.locals_lt
      closed := fun c => enclosed.closed c }

end Enclosed

/-- The heaps differ only in what is shadowed, and what was found in the first is enclosed. -/
structure InShadow (scope locals : ObjectRef) (names : Set String) (before before' : Heap)
    (found : Set Container) (h h' : Heap) : Prop where
  concealed : Heap.Concealed (Shadowed scope names) before before' h h'
  enclosed : Enclosed scope locals names found h

section Steps

variable {σ τ : Type} {scope locals : ObjectRef} {names : Set String} {before before' : Heap}
  {found : Set Container}

/-- Two runs on the containers found so far, in heaps that differ in what is shadowed. -/
def shadowing (σ τ : Type) (scope locals : ObjectRef) (names : Set String)
    (before before' : Heap) : Bond (Set Container) σ τ where
  Rel := Paired (InShadow scope locals names before before')
  Held found v := v.Among found
  Found found v := v.Among found
  Slot found owner key := Open scope names found owner key

theorem shadowing_allocates : (shadowing σ τ scope locals names before before').Allocates where
  mono le among := among.mono le
  scalar scalar := Value.among_of_isScalar scalar
  array {found items} held := by
    change Agree (Paired (InShadow scope locals names before before')) found _ _ _
    refine .changeBoth fun h h' related => ?_
    obtain ⟨same, concealed⟩ := related.concealed.makeArray items
    refine ⟨insert (.array ⟨h.next⟩) found, Set.subset_insert _ _, ⟨concealed, ?_⟩, same, ?_⟩
    · refine related.enclosed.make nofun (Nat.le_succ _) (fun c other => ?_) fun key v member => ?_
      · exact h.entries_newArray_of_ne _ other
      · exact held v (List.mem_toArray.mp (Heap.mem_of_mem_entries_newArray member))
    · intro c refers
      exact .inl (Option.some.inj refers).symm
  object {found properties} held := by
    change Agree (Paired (InShadow scope locals names before before')) found _ _ _
    refine .changeBoth fun h h' related => ?_
    obtain ⟨same, concealed⟩ := related.concealed.makeObject properties
    refine ⟨insert (.object ⟨h.next, .plain⟩) found, Set.subset_insert _ _, ⟨concealed, ?_⟩,
      same, ?_⟩
    · refine related.enclosed.make ?_ (Nat.le_succ _) (fun c other => ?_) fun key v member => ?_
      · intro o new
        obtain rfl := Container.object.inj new
        exact Nat.le_refl _
      · exact h.entries_newObject_of_ne _ _ other
      · exact held (key, v) (Heap.mem_of_mem_entries_newObject member)
    · intro c refers
      exact .inl (Option.some.inj refers).symm

/-- What is read where an evaluation reaches is among the containers found. -/
theorem shadowing_read {owner : Value} {key : String}
    (reached : Open scope names found owner key) :
    Agree (Paired (InShadow scope locals names before before')) found
      (onHeap fun h => h.readMember owner key : Run σ Value)
      (onHeap fun h => h.readMember owner key : Run τ Value) fun found v => v.Among found := by
  refine .changeBoth fun h h' related => ?_
  have shown := related.enclosed.not_shadowed reached
  obtain ⟨same, concealed⟩ := related.concealed.readMember shown
  obtain ⟨enclosed, among⟩ := related.enclosed.read reached
  exact ⟨found, le_refl found, ⟨concealed, enclosed⟩, same, among⟩

theorem shadowing_write {owner v : Value} {key : String}
    (reached : Open scope names found owner key) (among : v.Among found) :
    Agree (Paired (InShadow scope locals names before before')) found
      (onHeapOrFail fun h => h.writeMember owner key v : Run σ Unit)
      (onHeapOrFail fun h => h.writeMember owner key v : Run τ Unit) fun _ _ => True := by
  refine .changeBothOrFail fun h h' related => ?_
  have shown := related.enclosed.not_shadowed reached
  rcases related.concealed.writeMember shown v with failed | ⟨m, m', stored, stored', concealed⟩
  · exact .inl failed
  · have enclosed := related.enclosed.write among stored
    exact .inr ⟨found, m, m', le_refl found, stored, stored', ⟨concealed, enclosed⟩, trivial⟩

/-- No step of an expression without `this` and without calls comes upon the scope. -/
theorem shadowing_carries (before before' : Heap) (run : Invocation → Run σ Value)
    (run' : Invocation → Run τ Value) (scope locals : ObjectRef) (names : Set String) :
    (shadowing σ τ scope locals names before before').Carries
      ⟨.object scope, .object locals⟩ (Access.direct run) (Access.direct run')
      fun node => node.isCall = false ∧ node.isSelf = false where
  toAllocates := shadowing_allocates
  found among := among
  slot_mono le slot := slot.imp_left fun among => among.mono le
  slot among _ := .inl among
  self _ allowed := by cases allowed.2
  owner := by
    intro found w w' name related _
    obtain ⟨concealed, enclosed⟩ := related
    have other : ∀ o, Value.object locals = .object o → ¬ Shadowed scope names o name := by
      intro o same shadowed
      obtain rfl := Value.object.inj same
      exact enclosed.apart (shadowed.1 ▸ enclosed.within)
    unfold Context.owner
    rw [← concealed.alike.owns other]
    refine ⟨rfl, ?_⟩
    split
    · exact .inl fun c refers => Option.some.inj refers ▸ enclosed.within
    · next absent =>
        refine .inr ⟨rfl, fun member => absent ?_⟩
        exact Std.TreeMap.mem_iff_contains.mp (enclosed.owned name member)
  text related _ := Heap.text_congr related.concealed.alike.items _
  number related _ := Heap.number_congr related.concealed.alike.items _
  guard := by
    intro found w w' v related among
    obtain ⟨concealed, enclosed⟩ := related
    have other (o : ObjectRef) (key : String) (same : v = .object o) :
        ¬ Shadowed scope names o key := by
      intro shadowed
      obtain ⟨rfl, _⟩ := shadowed
      exact enclosed.apart (among (.object o) (same ▸ rfl))
    have seen : w.heap.forbidden? v = w'.heap.forbidden? v :=
      concealed.alike.forbidden?
        (fun o same => Heap.holdsItself_congr (concealed.alike.properties o _ (other o _ same)))
        fun o key same _ => other o key same
    refine ⟨?_, fun _ => among⟩
    unfold Guard.object
    rw [seen]
  read reached := shadowing_read reached
  write reached among := shadowing_write reached among
  makeArray held := shadowing_allocates.array held
  makeObject held := shadowing_allocates.object held
  invoke allowed := by cases allowed.1

end Steps

/-- The runs end the same way and leave heaps that are the same but for what is shadowed in the
scope, each with what was there. -/
structure EndShadowed {σ τ : Type} (scope : ObjectRef) (names : Set String) (m : Run σ Value)
    (n : Run τ Value) (w : World σ) (w' : World τ) : Prop where
  result : (m.outcome w).1 = (n.outcome w').1
  alike : (m.outcome w).2.heap.AlikeBut (Shadowed scope names) (n.outcome w').2.heap
  kept : ∀ key ∈ names,
    ((m.outcome w).2.heap.properties scope)[key]? = (w.heap.properties scope)[key]?
  kept' : ∀ key ∈ names,
    ((n.outcome w').2.heap.properties scope)[key]? = (w'.heap.properties scope)[key]?

theorem EndShadowed.of_agree {σ τ : Type} {scope locals : ObjectRef} {names : Set String}
    {found : Set Container} {m : Run σ Value} {n : Run τ Value} {w : World σ} {w' : World τ}
    (alike : w.heap.AlikeBut (Shadowed scope names) w'.heap)
    (enclosed : Enclosed scope locals names found w.heap)
    (agree : Agree (shadowing σ τ scope locals names w.heap w'.heap).Rel found m n
      fun found v => v.Among found) : EndShadowed scope names m n w w' := by
  obtain ⟨_, _, ended, same, _⟩ := agree w w' ⟨⟨alike, .refl _, .refl _⟩, enclosed⟩
  have old : scope.id < w.heap.next := enclosed.scope_lt
  exact {
    result := same
    alike := ended.concealed.alike
    kept := fun key member => ended.concealed.kept.kept scope key old ⟨rfl, member⟩
    kept' := fun key member =>
      ended.concealed.kept'.kept scope key (alike.next ▸ old) ⟨rfl, member⟩ }

/-- **Locals shadow the scope.** Where nothing leads to the scope, an expression without `this` and
without calls does not see what the scope holds under the names that the locals own at the start: in
two heaps that are the same but for that, it evaluates to the same value or error, or assigns a
value with the same end. The heaps stay the same but for that, and that stays what it was. -/
theorem endShadowed_of_locals {σ τ : Type} (run : Invocation → Run σ Value)
    (run' : Invocation → Run τ Value) (scope locals : ObjectRef) (e : Evaluator)
    (plain : ∀ node ∈ e.body.nodes, node.isCall = false ∧ node.isSelf = false)
    (w : World σ) (w' : World τ) (layered : w.heap.Layered scope locals)
    (alike : w.heap.AlikeBut
      (Shadowed scope {key | w.heap.owns (.object locals) key = true}) w'.heap) :
    EndShadowed scope {key | w.heap.owns (.object locals) key = true}
      (e.eval (Access.direct run) ⟨.object scope, .object locals⟩)
      (e.eval (Access.direct run') ⟨.object scope, .object locals⟩) w w' ∧
    ∀ v, ¬ w.heap.Leads v (.object scope) →
      EndShadowed scope {key | w.heap.owns (.object locals) key = true}
        (e.assign (Access.direct run) ⟨.object scope, .object locals⟩ v)
        (e.assign (Access.direct run') ⟨.object scope, .object locals⟩ v) w w' := by
  have enclosed := Enclosed.start layered
  have carries := shadowing_carries w.heap w'.heap run run' scope locals
    {key | w.heap.owns (.object locals) key = true}
  refine ⟨.of_agree alike enclosed (carries.eval e _ plain), fun v away => ?_⟩
  refine .of_agree alike enclosed (carries.assign e (fun found le c refers => le ?_) plain)
  intro leads
  obtain rfl := Value.container?_eq_some.mp refers
  exact away leads

/-- The locals own `x` as `null`: storing what the scope holds as `y` there leaves the scope as it
is. -/
theorem endShadowed_of_locals_null :
    ∃ (run : Invocation → Run Unit Value) (scope locals : ObjectRef) (e : Evaluator)
      (w w' : World Unit),
      (∀ node ∈ e.body.nodes, node.isCall = false ∧ node.isSelf = false) ∧
      w.heap.Layered scope locals ∧
      w.heap.AlikeBut (Shadowed scope {key | w.heap.owns (.object locals) key = true}) w'.heap ∧
      EndShadowed scope {key | w.heap.owns (.object locals) key = true}
        (e.eval (Access.direct run) ⟨.object scope, .object locals⟩)
        (e.eval (Access.direct run) ⟨.object scope, .object locals⟩) w w' ∧
      w.heap.property scope "x" = .string "one" ∧ w'.heap.property scope "x" = .string "two" ∧
      ((e.eval (Access.direct run) ⟨.object scope, .object locals⟩).outcome w').1 =
        .ok (.array ⟨2⟩) ∧
      ((e.eval (Access.direct run) ⟨.object scope, .object locals⟩).outcome w').2.heap.items ⟨2⟩ =
        #[.null, .string "seen", .string "seen"] := by
  let run : Invocation → Run Unit Value := fun _ => return .undefined
  let outer := (Heap.empty.newObject .plain [("x", .string "one"), ("y", .string "seen")]).2
  let w : World Unit := ⟨(outer.newObject .plain [("x", .null)]).2, ()⟩
  let w' : World Unit := ⟨w.heap.setProperty ⟨0, .plain⟩ "x" (.string "two"), ()⟩
  let e : Evaluator := ⟨"", .array [.identifier "x",
    .assign (.identifier "x") (.identifier "y"), .identifier "x"]⟩
  have plain : ∀ node ∈ e.body.nodes, node.isCall = false ∧ node.isSelf = false := by
    simp [e, Expr.nodes, Expr.nodesOfList, Expr.isCall, Expr.isSelf]
  have scopeEntries : w.heap.entries (.object ⟨0, .plain⟩) =
      [("x", .string "one"), ("y", .string "seen")] := rfl
  have localEntries : w.heap.entries (.object ⟨1, .plain⟩) = [("x", .null)] := rfl
  have layered : w.heap.Layered ⟨0, .plain⟩ ⟨1, .plain⟩ := by
    refine ⟨Nat.zero_lt_two, Nat.one_lt_two, fun leads => ?_, fun cyclic => ?_⟩
    · cases leads with
      | here refers => cases refers
      | through refers held leads =>
          obtain rfl := Option.some.inj refers
          rw [localEntries, List.mem_singleton] at held
          cases held
          exact Heap.not_leads_of_container?_eq_none rfl leads
    · obtain ⟨key, v, held, leads⟩ := cyclic
      rw [scopeEntries, List.mem_pair] at held
      rcases held with here | here
      · cases here
        exact Heap.not_leads_of_container?_eq_none rfl leads
      · cases here
        exact Heap.not_leads_of_container?_eq_none rfl leads
  have alike : w.heap.AlikeBut
      (Shadowed ⟨0, .plain⟩ {key | w.heap.owns (.object ⟨1, .plain⟩) key = true}) w'.heap := by
    refine ⟨rfl, fun _ => rfl, fun o key shown => ?_⟩
    rw [Heap.getElem?_properties_setProperty, if_neg]
    intro here
    obtain ⟨rfl, rfl⟩ := here
    exact shown ⟨rfl, rfl⟩
  refine ⟨run, ⟨0, .plain⟩, ⟨1, .plain⟩, e, w, w', plain, layered, alike, ?_, ?_, ?_, ?_, ?_⟩
  · exact (endShadowed_of_locals run run _ _ e plain w w' layered alike).1
  · cbv
  · cbv
  · cbv
  · cbv

end GuardedExpr
