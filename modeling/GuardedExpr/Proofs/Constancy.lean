import GuardedExpr.Proofs.Copies
import GuardedExpr.Proofs.Coupling.Record
import GuardedExpr.Proofs.ReadOnly

/-!
# Constants

An expression that is constant takes nothing from its scope, its locals or the
heap. Any two runs of it, in any two worlds, make copies of the same containers
on the way and end with one error or with copies of one value. The runs have
nothing else to hold, so none of them calls a function or changes what was
there.
-/

namespace GuardedExpr

open Run

namespace Expr

/-- The node is a link whose name is an expression after a dot. -/
def isDotted : Expr → Bool
  | index _ _ .dotted => true
  | _ => false

/-- The node neither takes anything from a context nor calls or assigns. -/
def isClosed : Expr → Bool
  | self | identifier _ | call _ _ | assign _ _ => false
  | _ => true

/-- All nodes are closed, and no link has an expression after a dot. -/
def Closed (nodes : List Expr) : Prop :=
  (∀ node ∈ nodes, node.isDotted = false) → ∀ node ∈ nodes, node.isClosed = true

theorem Closed.append {left right : List Expr} (first : Closed left) (second : Closed right) :
    Closed (left ++ right) := by
  intro spelled node member
  rcases List.mem_append.mp member with inside | inside
  · exact first (fun node there => spelled node (List.mem_append_left _ there)) node inside
  · exact second (fun node there => spelled node (List.mem_append_right _ there)) node inside

theorem Closed.single {node : Expr} (closed : node.isClosed = true) : Closed [node] := by
  intro _ other member
  rw [List.mem_singleton.mp member]
  exact closed

mutual

/-- **A constant is closed.** Only the name of a link after a dot is passed over. -/
theorem closed_of_isConstant (e : Expr) (constant : e.isConstant = true) : Closed e.nodes := by
  cases e with
  | program body => exact (closed_of_isConstant body constant).append (.single rfl)
  | literal value => exact .single rfl
  | array elements => exact (closed_of_allConstant elements constant).append (.single rfl)
  | object properties =>
      exact (closed_of_allPropertiesConstant properties constant).append (.single rfl)
  | member owner name => exact (closed_of_isConstant owner constant).append (.single rfl)
  | index owner key style =>
      cases style with
      | dotted =>
          intro spelled
          cases spelled _ (self_mem_nodes _)
      | bracketed =>
          obtain ⟨left, right⟩ := Bool.and_eq_true_iff.mp constant
          have parts := (closed_of_isConstant owner left).append (closed_of_isConstant key right)
          exact parts.append (.single rfl)
  | unary operator operand => exact (closed_of_isConstant operand constant).append (.single rfl)
  | identifier _ | self | call _ _ | assign _ _ => cases constant

theorem closed_of_allConstant (es : List Expr) (constant : allConstant es = true) :
    Closed (nodesOfList es) := by
  cases es with
  | nil => exact fun _ _ member => absurd member List.not_mem_nil
  | cons e es =>
      obtain ⟨first, rest⟩ := Bool.and_eq_true_iff.mp constant
      exact (closed_of_isConstant e first).append (closed_of_allConstant es rest)

theorem closed_of_allPropertiesConstant (ps : List (PropertyKey × Expr))
    (constant : allPropertiesConstant ps = true) : Closed (nodesOfProperties ps) := by
  match ps with
  | [] => exact fun _ _ member => absurd member List.not_mem_nil
  | (_, e) :: ps =>
      obtain ⟨first, rest⟩ := Bool.and_eq_true_iff.mp constant
      exact (closed_of_isConstant e first).append (closed_of_allPropertiesConstant ps rest)

end

theorem isCall_of_isClosed {node : Expr} (closed : node.isClosed = true) :
    node.isCall = false ∧ node.isAssign = false := by
  cases node with
  | call _ _ => cases closed
  | assign _ _ => cases closed
  | _ => exact ⟨rfl, rfl⟩

end Expr

/-- The containers that two runs have made for each other; they only become more. -/
structure Pairing where
  pairs : Set (Container × Container)

instance : Preorder Pairing where
  le pairing later := pairing.pairs ⊆ later.pairs
  le_refl _ := Set.Subset.refl _
  le_trans _ _ _ first second := Set.Subset.trans first second

/-- Two runs that make copies of the same containers, and hold nothing else but scalars. -/
def Coupling.copying (σ τ : Type) (before before' : Heap) : Coupling Pairing σ τ where
  Rel pairing w w' := Heap.Copies before before' pairing.pairs w.heap w'.heap
  Fails := Error.StopsReading
  Held pairing v v' := v.StandsFor pairing.pairs v'
  Found pairing v v' := v.StandsFor pairing.pairs v'
  Slot pairing owner owner' _ := owner.StandsFor pairing.pairs owner'

section Steps

variable {σ τ : Type} {before before' : Heap}

theorem copying_allocates : (Coupling.copying σ τ before before').Allocates where
  mono le stands := stands.mono le
  scalar scalar := .scalar scalar
  array {pairing items items'} held := by
    refine .change fun w w' copies => ?_
    exact ⟨⟨_⟩, Set.subset_insert _ _, copies.makeArray held, .array (Set.mem_insert _ _)⟩
  object {pairing properties properties'} held := by
    refine .change fun w w' copies => ?_
    exact ⟨⟨_⟩, Set.subset_insert _ _, copies.makeObject held, .object (Set.mem_insert _ _)⟩

theorem lookAlike_of_standsFor {pairs : Set (Container × Container)} {v v' : Value}
    (stands : v.StandsFor pairs v') : Coupling.LookAlike v v' := by
  cases stands with
  | scalar scalar => exact .inl rfl
  | array pair => exact .inr ⟨rfl, rfl⟩
  | object pair => exact .inr ⟨rfl, rfl⟩

/-- Every step of closed nodes makes copies, reads copies, or stops both runs with one error. -/
theorem copying_steps (before before' : Heap) (run : Invocation → Run σ Value)
    (run' : Invocation → Run τ Value) (context context' : Context) :
    (Coupling.copying σ τ before before').Steps context context' (Access.direct run)
      (Access.direct run') (fun node => node.isClosed = true) False where
  toAllocates := copying_allocates
  found stands := stands
  alike := lookAlike_of_standsFor
  slot_alike := lookAlike_of_standsFor
  slot_mono le stands := stands.mono le
  slot stands _ := stands
  self _ closed := by cases closed
  owner _ closed := by cases closed
  text copies stands := copies.text_eq stands
  number copies stands := copies.number_eq stands
  name named := .inl ⟨_, named, rfl⟩
  guard {pairing w w' v v'} copies stands := by
    unfold Guard.object
    rw [← copies.forbidden?_eq stands]
    cases w.heap.forbidden? v with
    | some what => exact .error (.inr ⟨what, rfl⟩)
    | none => exact .ok stands
  read {pairing owner owner' key} stands := by
    rw [Access.direct_read, Access.direct_read]
    refine .change fun w w' copies => ?_
    obtain ⟨same, same', member⟩ := copies.readMember stands key
    rw [same, same']
    exact ⟨pairing, le_refl pairing, copies, member⟩
  makeArray held := by
    rw [Access.direct_makeArray, Access.direct_makeArray]
    exact copying_allocates.array held
  makeObject held := by
    rw [Access.direct_makeObject, Access.direct_makeObject]
    exact copying_allocates.object held
  stores closed := by cases closed
  write stores := stores.elim
  notAssignable stores := stores.elim
  notCallable closed := by cases closed
  notAFunction closed := by cases closed
  invoke closed := by cases closed

end Steps

/-- The runs end with one error, or with values that stand for each other: scalars, and containers
that each run made itself. -/
def EndAsCopies {σ τ : Type} (m : Run σ Value) (n : Run τ Value) (w : World σ) (w' : World τ) :
    Prop :=
  ∃ pairs, Heap.Copies w.heap w'.heap pairs (m.outcome w).2.heap (n.outcome w').2.heap ∧
    SameEnd Error.StopsReading (Value.StandsFor pairs) (m.outcome w).1 (n.outcome w').1

/-- The run, known from its record, calls nothing and leaves everything as it was. -/
structure KeepsToItself {σ : Type} (recorded : Run (Recorded σ) Value) (m : Run σ Value)
    (w : World σ) : Prop where
  calls : RunsAs (fun event => event.step.isInvoke = false) (fun _ => True) recorded m w
  untouched : w.Untouched (m.outcome w).2

theorem keepsToItself_of_closed {σ : Type} (run : Invocation → Run σ Value) (context : Context)
    (e : Evaluator) (closed : ∀ node ∈ e.body.nodes, node.isClosed = true) (w : World σ) :
    KeepsToItself (e.eval (Access.direct run).recorded context)
      (e.eval (Access.direct run) context) w := by
  have callFree : ∀ node ∈ e.body.nodes, node.isCall = false := fun node member =>
    (Expr.isCall_of_isClosed (closed node member)).1
  have steps : (Coupling.record σ fun event => event.step.isInvoke = false).Steps context context
      (Access.direct run).recorded (Access.direct run) (fun node => node.isCall = false) True :=
    Coupling.record_steps (fun _ _ other => other) fun called => by cases called
  refine ⟨(steps.eval e .steady callFree).runsAs w, ?_⟩
  have reads := (untouched_keeps run context w).eval e fun node member =>
    Expr.isCall_of_isClosed (closed node member)
  exact (reads w (.refl w)).1

/-- **A constant is the same everywhere.** Two runs of an expression that is constant, with any
hosts, contexts and heaps, end with one error or with copies of one value, which hold nothing but
scalars and what each run made. Neither run calls a function or changes what was there. -/
theorem endAsCopies_of_isConstant {σ τ : Type} (run : Invocation → Run σ Value)
    (run' : Invocation → Run τ Value) (context context' : Context) (e : Evaluator)
    (constant : e.isConstant = true) (spelled : ∀ node ∈ e.body.nodes, node.isDotted = false)
    (w : World σ) (w' : World τ) :
    EndAsCopies (e.eval (Access.direct run) context) (e.eval (Access.direct run') context') w w' ∧
      KeepsToItself (e.eval (Access.direct run).recorded context)
        (e.eval (Access.direct run) context) w ∧
      KeepsToItself (e.eval (Access.direct run').recorded context')
        (e.eval (Access.direct run') context') w' := by
  have closed := Expr.closed_of_isConstant e.body constant spelled
  have steps := copying_steps w.heap w'.heap run run' context context'
  obtain ⟨pairing, _, copies, ended⟩ :=
    steps.eval e ⟨∅⟩ closed w w' (Heap.Copies.start w.heap w'.heap)
  refine ⟨⟨pairing.pairs, copies, ended⟩, ?_, ?_⟩
  · exact keepsToItself_of_closed run context e closed w
  · exact keepsToItself_of_closed run' context' e closed w'

/-- A list is read back from an object that holds it, in an empty heap and in one that is not. -/
theorem endAsCopies_of_isConstant_readBack :
    ∃ (run : Invocation → Run Unit Value) (context context' : Context) (e : Evaluator)
      (w w' : World Unit), e.isConstant = true ∧ (∀ node ∈ e.body.nodes, node.isDotted = false) ∧
      EndAsCopies (e.eval (Access.direct run) context) (e.eval (Access.direct run) context') w w' ∧
      ((e.eval (Access.direct run) context).outcome w).1 = .ok (.array ⟨2⟩) ∧
      ((e.eval (Access.direct run) context).outcome w).2.heap.items ⟨2⟩ =
        #[.array ⟨0⟩, .bool true] ∧
      ((e.eval (Access.direct run) context').outcome w').1 = .ok (.array ⟨3⟩) ∧
      ((e.eval (Access.direct run) context').outcome w').2.heap.items ⟨3⟩ =
        #[.array ⟨1⟩, .bool true] := by
  let run : Invocation → Run Unit Value := fun _ => return .undefined
  let context' : Context := ⟨.object ⟨0, .plain⟩, .null⟩
  let e : Evaluator := ⟨"", .array [.member (.object [(.name "a", .array [.literal .null])]) "a",
    .literal (.bool true)]⟩
  let w : World Unit := ⟨.empty, ()⟩
  let w' : World Unit := ⟨(Heap.empty.newObject .plain [("a", .bool true)]).2, ()⟩
  have spelled : ∀ node ∈ e.body.nodes, node.isDotted = false := by
    simp [e, Expr.nodes, Expr.nodesOfList, Expr.nodesOfProperties, Expr.isDotted]
  refine ⟨run, ⟨.undefined, .undefined⟩, context', e, w, w', rfl, spelled, ?_, ?_, ?_, ?_, ?_⟩
  · exact (endAsCopies_of_isConstant run run _ context' e rfl spelled w w').1
  · cbv
  · cbv
  · cbv
  · cbv

end GuardedExpr
