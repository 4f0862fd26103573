import GuardedExpr.Proofs.Confinement
import GuardedExpr.Proofs.Hiding

/-!
# Forbidden names

What objects hold under forbidden names plays no part in an expression that calls nothing. Every
key passes the guard on names as the very text that is then read, stored or made under, however it
was spelled, and a name that may be a local passes it before the locals are asked for it. Only the
guard on values looks under a forbidden name, and all it sees is whether an object is its own
`constructor`. So two heaps that differ nowhere else cannot be told apart, and what they hold under
those names stays as it is.
-/

namespace GuardedExpr

open Run

namespace Heap

/-- The heaps are the same but for what objects hold under forbidden names. -/
structure AlikeButForbidden (h h' : Heap) : Prop where
  next : h.next = h'.next
  items : ∀ a, h.items a = h'.items a
  properties : ∀ o key, key ∉ forbiddenNames → (h.properties o)[key]? = (h'.properties o)[key]?
  itself : ∀ o, h.holdsItself o "constructor" = h'.holdsItself o "constructor"

/-- Objects that were there before still hold the same under forbidden names. -/
structure KeepsForbidden (before h : Heap) : Prop where
  grows : before.next ≤ h.next
  kept : ∀ (o : ObjectRef) key, o.id < before.next → key ∈ forbiddenNames →
    (h.properties o)[key]? = (before.properties o)[key]?

/-- Forbidden names are hidden, whatever the object. -/
theorem keepsForbidden_iff {before h : Heap} : before.KeepsForbidden h ↔
    before.KeepsHidden (fun _ key => key ∈ forbiddenNames) h :=
  ⟨fun keeps => ⟨keeps.grows, keeps.kept⟩, fun keeps => ⟨keeps.grows, keeps.kept⟩⟩

namespace AlikeButForbidden

variable {h h' : Heap} (alike : h.AlikeButForbidden h')

include alike

theorem alikeBut : h.AlikeBut (fun _ key => key ∈ forbiddenNames) h' where
  next := alike.next
  items := alike.items
  properties := alike.properties

/-- A change that keeps whether objects are their own `constructor` keeps the heaps alike. -/
theorem step {m m' : Heap} (but : m.AlikeBut (fun _ key => key ∈ forbiddenNames) m')
    (still : ∀ o, m.holdsItself o "constructor" = h.holdsItself o "constructor")
    (still' : ∀ o, m'.holdsItself o "constructor" = h'.holdsItself o "constructor") :
    m.AlikeButForbidden m' where
  next := but.next
  items := but.items
  properties := but.properties
  itself o := by rw [still, still', alike.itself]

/-- The guard looks at names that are not forbidden, and at whether an object is its own
`constructor`. -/
theorem forbidden? (v : Value) : h.forbidden? v = h'.forbidden? v :=
  alike.alikeBut.forbidden? (fun o _ => alike.itself o) fun _ _ _ allowed => allowed

theorem readMember (owner : Value) {key : String} (allowed : key ∉ forbiddenNames) :
    (h.readMember owner key).1 = (h'.readMember owner key).1 ∧
      (h.readMember owner key).2.AlikeButForbidden (h'.readMember owner key).2 := by
  obtain ⟨same, but⟩ := alike.alikeBut.readMember fun _ _ => allowed
  have still (h : Heap) (o : ObjectRef) : (h.readMember owner key).2.holdsItself o "constructor" =
      h.holdsItself o "constructor" := by
    rcases h.readMember_cases owner key with ⟨unchanged, _⟩ | ⟨primitive, made⟩
    · rw [unchanged]
    · rw [made]
      rfl
  exact ⟨same, alike.step but (still h) (still h')⟩

theorem writeMember (owner : Value) {key : String} (allowed : key ∉ forbiddenNames) (v : Value) :
    (∃ e, h.writeMember owner key v = .error e ∧ h'.writeMember owner key v = .error e) ∨
      ∃ m m', h.writeMember owner key v = .ok m ∧ h'.writeMember owner key v = .ok m' ∧
        m.AlikeButForbidden m' := by
  have still {h m : Heap} (stored : h.writeMember owner key v = .ok m) (o : ObjectRef) :
      m.holdsItself o "constructor" = h.holdsItself o "constructor" := by
    apply holdsItself_congr
    rcases getElem?_properties_of_writeMember stored o "constructor" with same | ⟨_, rfl, _⟩
    · exact same
    · exact absurd (by decide) allowed
  rcases alike.alikeBut.writeMember owner key v with failed | ⟨m, m', stored, stored', but⟩
  · exact .inl failed
  · exact .inr ⟨m, m', stored, stored', alike.step but (still stored) (still stored')⟩

theorem makeArray (items : List Value) :
    (h.makeArray items).1 = (h'.makeArray items).1 ∧
      (h.makeArray items).2.AlikeButForbidden (h'.makeArray items).2 := by
  obtain ⟨same, but⟩ := alike.alikeBut.makeArray items
  exact ⟨same, alike.step but (fun _ => rfl) fun _ => rfl⟩

theorem makeObject (properties : List (String × Value)) :
    (h.makeObject properties).1 = (h'.makeObject properties).1 ∧
      (h.makeObject properties).2.AlikeButForbidden (h'.makeObject properties).2 := by
  obtain ⟨same, but⟩ := alike.alikeBut.makeObject properties
  refine ⟨same, but.next, but.items, but.properties, fun o => ?_⟩
  by_cases new : o = ⟨h'.next, .plain⟩
  · apply holdsItself_congr
    simp only [Heap.makeObject, properties_newObject, alike.next, if_pos new]
  · have old := alike.itself o
    simpa only [holdsItself, Heap.makeObject, properties_newObject, alike.next, if_neg new]
      using old

end AlikeButForbidden

/-- The heaps came from two heaps, each with what it held under forbidden names, and are the same
but for that. -/
structure Unaware (before before' h h' : Heap) : Prop where
  alike : h.AlikeButForbidden h'
  kept : before.KeepsForbidden h
  kept' : before'.KeepsForbidden h'

theorem Unaware.step {before before' h h' m m' : Heap} (unaware : Unaware before before' h h')
    (alike : m.AlikeButForbidden m')
    (kept : h.KeepsHidden (fun _ key => key ∈ forbiddenNames) m)
    (kept' : h'.KeepsHidden (fun _ key => key ∈ forbiddenNames) m') :
    Unaware before before' m m' where
  alike := alike
  kept := keepsForbidden_iff.mpr ((keepsForbidden_iff.mp unaware.kept).trans kept)
  kept' := keepsForbidden_iff.mpr ((keepsForbidden_iff.mp unaware.kept').trans kept')

end Heap

section Steps

variable {σ τ : Type} {before before' : Heap} {k : Steady}

/-- Two runs that hold any values, and reach members under names that are not forbidden. -/
def unaware (σ τ : Type) (before before' : Heap) : Bond Steady σ τ where
  Rel := Paired fun _ => Heap.Unaware before before'
  Held _ _ := True
  Found _ _ := True
  Slot _ _ key := key ∉ forbiddenNames

theorem unaware_allocates : (unaware σ τ before before').Allocates where
  mono _ held := held
  scalar _ := trivial
  array {k items} _ := by
    apply Agree.changeBoth
    intro h h' related
    obtain ⟨same, alike⟩ := related.alike.makeArray items
    exact ⟨k, le_refl k, related.step alike (.makeArray h _) (.makeArray h' _), same, trivial⟩
  object {k properties} _ := by
    apply Agree.changeBoth
    intro h h' related
    obtain ⟨same, alike⟩ := related.alike.makeObject properties
    exact ⟨k, le_refl k, related.step alike (.makeObject h _) (.makeObject h' _), same, trivial⟩

theorem unaware_read (owner : Value) {key : String} (allowed : key ∉ forbiddenNames) :
    Agree (unaware σ τ before before').Rel k (onHeap fun h => h.readMember owner key)
      (onHeap fun h => h.readMember owner key) fun _ _ => True := by
  apply Agree.changeBoth
  intro h h' related
  obtain ⟨same, alike⟩ := related.alike.readMember owner allowed
  have kept := related.step alike (.readMember h owner key) (.readMember h' owner key)
  exact ⟨k, le_refl k, kept, same, trivial⟩

theorem unaware_write (owner : Value) {key : String} (allowed : key ∉ forbiddenNames) (v : Value) :
    Agree (unaware σ τ before before').Rel k (onHeapOrFail fun h => h.writeMember owner key v)
      (onHeapOrFail fun h => h.writeMember owner key v) fun _ _ => True := by
  apply Agree.changeBothOrFail
  intro h h' related
  rcases related.alike.writeMember owner allowed v with failed | ⟨m, m', stored, stored', alike⟩
  · exact .inl failed
  · have kept := related.step alike (.writeMember (fun _ _ => allowed) stored)
      (.writeMember (fun _ _ => allowed) stored')
    exact .inr ⟨k, m, m', le_refl k, stored, stored', kept, trivial⟩

/-- No step of an expression that calls nothing tells the two heaps apart. -/
theorem unaware_carries (before before' : Heap) (run : Invocation → Run σ Value)
    (run' : Invocation → Run τ Value)
    (context : Context) : (unaware σ τ before before').Carries context (Access.direct run)
      (Access.direct run') fun node => node.isCall = false where
  toAllocates := unaware_allocates
  found _ := trivial
  slot_mono _ allowed := allowed
  slot _ allowed := allowed
  self _ _ := trivial
  owner := by
    intro k w w' name related allowed
    refine ⟨?_, allowed⟩
    unfold Context.owner
    rw [related.alike.alikeBut.owns fun _ _ => allowed]
  text related _ := Heap.text_congr related.alike.items _
  number related _ := Heap.number_congr related.alike.items _
  guard := by
    intro k w w' v related _
    refine ⟨?_, fun _ => trivial⟩
    unfold Guard.object
    rw [related.alike.forbidden? v]
  read slot := unaware_read _ slot
  write slot _ := unaware_write _ slot _
  makeArray held := unaware_allocates.array held
  makeObject held := unaware_allocates.object held
  invoke isCall := by cases isCall

end Steps

/-- The runs end the same way and leave heaps that are the same but under forbidden names, each with
what was there under those names. -/
structure EndAlike {σ τ : Type} (m : Run σ Value) (n : Run τ Value) (w : World σ) (w' : World τ) :
    Prop where
  result : (m.outcome w).1 = (n.outcome w').1
  alike : (m.outcome w).2.heap.AlikeButForbidden (n.outcome w').2.heap
  kept : w.heap.KeepsForbidden (m.outcome w).2.heap
  kept' : w'.heap.KeepsForbidden (n.outcome w').2.heap

theorem EndAlike.of_agree {σ τ : Type} {m : Run σ Value} {n : Run τ Value} {w : World σ}
    {w' : World τ} (alike : w.heap.AlikeButForbidden w'.heap)
    (agree : Agree (unaware σ τ w.heap w'.heap).Rel .steady m n fun _ _ => True) :
    EndAlike m n w w' := by
  have related : Heap.Unaware w.heap w'.heap w.heap w'.heap := ⟨alike,
    Heap.keepsForbidden_iff.mpr (.refl _), Heap.keepsForbidden_iff.mpr (.refl _)⟩
  obtain ⟨_, _, ended, same, _⟩ := agree w w' related
  exact ⟨same, ended.alike, ended.kept, ended.kept'⟩

/-- **Forbidden names hold nothing that an expression finds.** In two heaps that are the same but
under forbidden names, an expression that calls nothing evaluates to the same value or error and
assigns a value with the same end. The heaps stay the same but under those names, and under those
names they stay what they were. -/
theorem endAlike_of_alikeButForbidden {σ τ : Type} (run : Invocation → Run σ Value)
    (run' : Invocation → Run τ Value) (context : Context) (e : Evaluator)
    (callFree : ∀ node ∈ e.body.nodes, node.isCall = false) (w : World σ) (w' : World τ)
    (alike : w.heap.AlikeButForbidden w'.heap) :
    EndAlike (e.eval (Access.direct run) context) (e.eval (Access.direct run') context) w w' ∧
    ∀ v, EndAlike (e.assign (Access.direct run) context v)
      (e.assign (Access.direct run') context v) w w' := by
  have carries := unaware_carries w.heap w'.heap run run' context
  have evaluated := carries.eval e .steady callFree
  have assigned v := carries.assign e (v := v) (k := .steady) (fun _ _ => trivial) callFree
  exact ⟨.of_agree alike evaluated, fun v => .of_agree alike (assigned v)⟩

/-- One heap hides a text under `constructor`; a list spells the key of a link, and a literal has a
member named `constructor`. -/
theorem endAlike_of_alikeButForbidden_hidden :
    ∃ (run : Invocation → Run Unit Value) (context : Context) (e : Evaluator) (w w' : World Unit),
      (∀ node ∈ e.body.nodes, node.isCall = false) ∧ w.heap.AlikeButForbidden w'.heap ∧
      EndAlike (e.eval (Access.direct run) context) (e.eval (Access.direct run) context) w w' ∧
      w.heap.property ⟨0, .plain⟩ "constructor" = .undefined ∧
      w'.heap.property ⟨0, .plain⟩ "constructor" = .string "hidden" ∧
      ((e.eval (Access.direct run) context).outcome w').1 = .ok (.array ⟨3⟩) ∧
      ((e.eval (Access.direct run) context).outcome w').2.heap.items ⟨3⟩ =
        #[.string "x", .object ⟨2, .plain⟩] := by
  let run : Invocation → Run Unit Value := fun _ => return .undefined
  let context : Context := ⟨.object ⟨0, .plain⟩, .undefined⟩
  let e : Evaluator := ⟨"", .array [
    .assign (.identifier "b") (.index .self (.array [.literal (.string "a")]) .bracketed),
    .object [(.name "constructor", .identifier "a")]]⟩
  let h : Heap := (Heap.empty.newObject .plain [("a", .string "x")]).2
  let h' : Heap := h.setProperty ⟨0, .plain⟩ "constructor" (.string "hidden")
  have callFree : ∀ node ∈ e.body.nodes, node.isCall = false := by
    simp [e, Expr.nodes, Expr.nodesOfList, Expr.nodesOfProperties, Expr.isCall]
  have alike : h.AlikeButForbidden h' := by
    refine ⟨rfl, fun _ => rfl, ?_, ?_⟩
    · intro o key allowed
      rw [Heap.getElem?_properties_setProperty, if_neg]
      rintro ⟨_, rfl⟩
      exact allowed (by decide)
    · intro o
      by_cases scope : o = ⟨0, .plain⟩
      · subst scope
        cbv
      · apply Heap.holdsItself_congr
        rw [Heap.getElem?_properties_setProperty, if_neg fun same => scope same.1]
  refine ⟨run, context, e, ⟨h, ()⟩, ⟨h', ()⟩, callFree, alike, ?_, ?_, ?_, ?_, ?_⟩
  · exact (endAlike_of_alikeButForbidden run run context e callFree ⟨h, ()⟩ ⟨h', ()⟩ alike).1
  · cbv
  · cbv
  · cbv
  · cbv

end GuardedExpr
