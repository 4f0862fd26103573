import GuardedExpr.Proofs.CallOrder
import GuardedExpr.Proofs.Constancy
import GuardedExpr.Proofs.Parsing

/-!
# Guards on names

A listing guards a fixed name in a statement of its own, which stands under no
condition. There is one such statement for each node that has a fixed name, in
the order of the nodes. An evaluation passes the same guards where it reaches
their nodes, and it reaches every node but those in the arguments of a call
whose callee is nullish. There alone a listing shows a guard that does not run:
the arguments of a call are listed before its condition.
-/

namespace GuardedExpr

open Grammar Run

namespace Listing

/-- The name that a statement guards under no condition. -/
def Statement.guardedName? : Statement → Option String
  | step (.guardName name) => some name
  | _ => none

/-- The names that are guarded under no condition, in order. -/
def guardedNames (statements : List Statement) : List String :=
  statements.filterMap Statement.guardedName?

theorem guardedNames_append (statements statements' : List Statement) :
    guardedNames (statements ++ statements') =
      guardedNames statements ++ guardedNames statements' :=
  List.filterMap_append

@[simp] theorem guardedNames_nil : guardedNames [] = [] := rfl

@[simp] theorem guardedNames_cons_guardName (name : String) (statements : List Statement) :
    guardedNames (.step (.guardName name) :: statements) = name :: guardedNames statements := rfl

@[simp] theorem guardedNames_cons_assign (target value : String) (statements : List Statement) :
    guardedNames (.step (.assign target value) :: statements) = guardedNames statements := rfl

@[simp] theorem guardedNames_cons_when (test : String) (steps : List Step)
    (statements : List Statement) :
    guardedNames (.when test steps :: statements) = guardedNames statements := rfl

theorem mem_guardedNames {name : String} {statements : List Statement} :
    name ∈ guardedNames statements ↔ .step (.guardName name) ∈ statements := by
  constructor
  · intro member
    obtain ⟨statement, there, guarded⟩ := List.mem_filterMap.mp member
    cases statement with
    | step step =>
        cases step with
        | guardName =>
            cases guarded
            exact there
        | _ => cases guarded
    | when => cases guarded
  · exact fun there => List.mem_filterMap.mpr ⟨_, there, rfl⟩

/-- Whatever temporaries have been taken, what is listed is as it should be. -/
def Lists {α : Type} (m : StateM Nat α) (Q : α → Prop) : Prop :=
  ∀ i, Q (m.run i).1

namespace Lists

variable {α β : Type} {m : StateM Nat α} {P : α → Prop} {Q : β → Prop}

theorem pure {a : α} (holds : P a) : Lists (Pure.pure a) P :=
  fun _ => holds

theorem bind {f : α → StateM Nat β} (first : Lists m P) (second : ∀ a, P a → Lists (f a) Q) :
    Lists (m >>= f) Q :=
  fun i => second _ (first i) _

theorem takeTemporary : Lists Listing.takeTemporary fun _ => True :=
  fun _ => trivial

end Lists

end Listing

namespace Expr

/-- The name of a node that is known before it runs: the name of an identifier or of a member, or
the text of a key that is a literal. -/
def fixedName? : Expr → Option String
  | identifier name => some name
  | member _ name => some name
  | index _ key _ => (Listing.literalValue? key).map Json.keyText
  | _ => none

/-- The fixed names of nodes, in order. -/
def fixedNames (nodes : List Expr) : List String :=
  nodes.filterMap fixedName?

theorem fixedNames_append (nodes nodes' : List Expr) :
    fixedNames (nodes ++ nodes') = fixedNames nodes ++ fixedNames nodes' :=
  List.filterMap_append

/-- A node without a fixed name may follow. -/
theorem fixedNames_extend {node : Expr} (unnamed : node.fixedName? = none) (nodes : List Expr) :
    fixedNames (nodes ++ [node]) = fixedNames nodes := by
  simp [fixedNames, unnamed]

theorem fixedNames_extend_named {node : Expr} {name : String} (named : node.fixedName? = some name)
    (nodes : List Expr) : fixedNames (nodes ++ [node]) = fixedNames nodes ++ [name] := by
  simp [fixedNames, named]

end Expr

section Listed

open Listing

theorem guardedNames_identifier (purpose : Purpose) (name : String) :
    Lists (Listing.identifier purpose name) fun f => guardedNames f.statements = [name] := by
  unfold Listing.identifier
  split
  · exact .pure rfl
  · refine Lists.takeTemporary.bind fun temp _ => .pure ?_
    split <;> simp

theorem guardedNames_link (purpose : Purpose) (before : List Statement) (owner place : String) :
    Lists (link purpose before owner place) fun f =>
      guardedNames f.statements = guardedNames before := by
  unfold link
  split
  · exact .pure rfl
  · refine Lists.takeTemporary.bind fun temp _ => .pure ?_
    split <;> simp [guardedNames_append]

mutual

/-- **The guards of fixed names stand in the order of their nodes.** -/
theorem guardedNames_fragment (e : Expr) (purpose : Purpose) :
    Lists (fragment purpose e) fun f =>
      guardedNames f.statements = Expr.fixedNames e.nodes := by
  cases e with
  | program body =>
      rw [fragment, Expr.nodes, Expr.fixedNames_extend rfl]
      exact (guardedNames_fragment body purpose.forBody).bind fun f listed => .pure listed
  | literal | self =>
      rw [fragment]
      exact .pure rfl
  | identifier name =>
      rw [fragment]
      exact guardedNames_identifier purpose name
  | array elements =>
      rw [fragment, Expr.nodes, Expr.fixedNames_extend rfl]
      exact (guardedNames_fragments elements).bind fun fs listed => .pure listed
  | object properties =>
      rw [fragment, Expr.nodes, Expr.fixedNames_extend rfl]
      exact (guardedNames_propertyFragments properties).bind fun fs listed => .pure listed
  | member owner name =>
      rw [fragment, Expr.nodes, Expr.fixedNames_extend_named rfl]
      refine (guardedNames_fragment owner purpose.forOwner).bind fun f listed => ?_
      have linked := guardedNames_link purpose (f.statements ++ [.step (.guardName name)]) f.value
        (dotted f.value name)
      rwa [guardedNames_append, listed] at linked
  | index owner key style =>
      rw [fragment, Expr.nodes]
      refine (guardedNames_fragment owner purpose.forOwner).bind fun f listed => ?_
      refine (guardedNames_fragment key .read).bind fun g listed' => ?_
      have before : guardedNames (f.statements ++ g.statements) =
          Expr.fixedNames (owner.nodes ++ key.nodes) := by
        rw [guardedNames_append, Expr.fixedNames_append, listed, listed']
      cases fixed : literalValue? key with
      | some value =>
          have named : (Expr.index owner key style).fixedName? = some value.keyText := by
            rw [Expr.fixedName?, fixed, Option.map_some]
          have linked := guardedNames_link purpose
            (f.statements ++ g.statements ++ [.step (.guardName value.keyText)]) f.value
            (bracketed f.value (quote value.keyText))
          rw [guardedNames_append (f.statements ++ g.statements), before] at linked
          rw [Expr.fixedNames_extend_named named]
          exact linked
      | none =>
          have unnamed : (Expr.index owner key style).fixedName? = none := by
            rw [Expr.fixedName?, fixed, Option.map_none]
          refine Lists.takeTemporary.bind fun temp _ => ?_
          have linked := guardedNames_link purpose (f.statements ++ g.statements ++
            [.step (.assign temp ("ensureSafeMemberName(" ++ g.value ++ ")"))]) f.value
            (bracketed f.value temp)
          rw [guardedNames_append (f.statements ++ g.statements), before] at linked
          rw [Expr.fixedNames_extend unnamed, ← List.append_nil (Expr.fixedNames _)]
          exact linked
  | call callee operands =>
      rw [fragment, Expr.nodes, Expr.fixedNames_extend rfl, Expr.fixedNames_append]
      refine (guardedNames_fragment callee .read).bind fun f listed => ?_
      refine (guardedNames_fragments operands).bind fun fs listed' => ?_
      refine Lists.takeTemporary.bind fun temp _ => .pure ?_
      -- what the condition guards is no name
      change guardedNames (f.statements ++ fs.flatMap Fragment.statements ++ [.when _ _]) = _
      rw [guardedNames_append, guardedNames_append, listed, listed']
      exact List.append_nil _
  | assign target value =>
      rw [fragment, Expr.nodes, Expr.fixedNames_extend rfl, Expr.fixedNames_append]
      refine (guardedNames_fragment target .store).bind fun f listed => ?_
      refine (guardedNames_fragment value .read).bind fun g listed' => ?_
      refine Lists.takeTemporary.bind fun temp _ => .pure ?_
      change guardedNames (f.statements ++ g.statements ++ [.step _, .step _]) = _
      rw [guardedNames_append, guardedNames_append, listed, listed']
      exact List.append_nil _
  | unary operator operand =>
      rw [fragment, Expr.nodes, Expr.fixedNames_extend rfl]
      exact (guardedNames_fragment operand .read).bind fun f listed => .pure listed

theorem guardedNames_fragments (es : List Expr) :
    Lists (fragments es) fun fs =>
      guardedNames (fs.flatMap Fragment.statements) = Expr.fixedNames (Expr.nodesOfList es) := by
  cases es with
  | nil =>
      rw [fragments]
      exact .pure rfl
  | cons e es =>
      rw [fragments, Expr.nodesOfList]
      refine (guardedNames_fragment e .read).bind fun f listed => ?_
      refine (guardedNames_fragments es).bind fun fs listed' => .pure ?_
      rw [List.flatMap_cons, guardedNames_append, Expr.fixedNames_append, listed, listed']

theorem guardedNames_propertyFragments (ps : List (PropertyKey × Expr)) :
    Lists (propertyFragments ps) fun fs =>
      guardedNames (fs.flatMap fun p => p.2.statements) =
        Expr.fixedNames (Expr.nodesOfProperties ps) := by
  match ps with
  | [] =>
      rw [propertyFragments]
      exact .pure rfl
  | (key, e) :: ps =>
      rw [propertyFragments, Expr.nodesOfProperties]
      refine (guardedNames_fragment e .read).bind fun f listed => ?_
      refine (guardedNames_propertyFragments ps).bind fun fs listed' => .pure ?_
      rw [List.flatMap_cons, guardedNames_append, Expr.fixedNames_append, listed, listed']

end

theorem guardedNames_of (e : Expr) :
    guardedNames (Listing.of e).statements = Expr.fixedNames e.nodes :=
  guardedNames_fragment e .read 0

end Listed

section Passed

variable {σ : Type} {access : Access σ} {context : Context}

/-- A document has the text that keys use, in whatever heap it is made. -/
theorem Heap.text_ofJson (h : Heap) (value : Json) :
    (h.ofJson value).2.text (h.ofJson value).1 = value.keyText := by
  have allocates : (Coupling.copying Unit Unit h .empty).Allocates := copying_allocates
  obtain ⟨pairing, _, copies, ended⟩ :=
    allocates.document ⟨∅⟩ value ⟨h, ()⟩ ⟨.empty, ()⟩ (.start h .empty)
  cases ended with
  | ok stands => exact copies.text_eq stands

/-- A key that is a literal is evaluated to its text. -/
theorem text_of_literalValue? {key : Expr} {value : Json} {purpose : Purpose} {w w' : World σ}
    {place : Place} (fixed : Listing.literalValue? key = some value)
    (ran : (key.locate access context purpose).outcome w = (.ok place, w')) :
    w'.heap.text place.value = value.keyText := by
  fun_induction Listing.literalValue? key generalizing purpose place w' with
  | case1 body ih =>
      rw [Expr.locate] at ran
      obtain ⟨inner, _, ran, ended⟩ := outcome_bind_eq_ok.mp ran
      cases ended
      exact (ih fixed ran :)
  | case2 value =>
      rw [Expr.locate] at ran
      obtain ⟨_, _, made, ended⟩ := outcome_bind_eq_ok.mp ran
      cases fixed
      cases made
      cases ended
      exact w.heap.text_ofJson value
  | case3 => cases fixed

/-- No member under a forbidden name ends well. -/
theorem memberPlace_ne_ok {purpose : Purpose} {owner : Value} {name : String} {w w' : World σ}
    {place : Place} (forbidden : name ∈ forbiddenNames) :
    (Expr.memberPlace access purpose owner name).outcome w ≠ (.ok place, w') := by
  rw [Expr.memberPlace_of_forbidden forbidden]
  exact nofun

/-- No node with a forbidden name ends well. -/
theorem not_endsWell_of_forbidden {e : Expr} {name : String} (fixed : e.fixedName? = some name)
    (forbidden : name ∈ forbiddenNames) : ¬ e.EndsWell access context := by
  rintro ⟨purpose, w, place, w', ran⟩
  cases e with
  | identifier =>
      cases fixed
      rw [Expr.locate] at ran
      obtain ⟨_, _, _, ran⟩ := outcome_bind_eq_ok.mp ran
      exact memberPlace_ne_ok forbidden ran
  | member owner =>
      cases fixed
      rw [Expr.locate] at ran
      obtain ⟨_, _, _, ran⟩ := outcome_bind_eq_ok.mp ran
      exact memberPlace_ne_ok forbidden ran
  | index owner key style =>
      obtain ⟨value, literal, rfl⟩ := Option.map_eq_some_iff.mp fixed
      rw [Expr.locate] at ran
      obtain ⟨_, _, _, ran⟩ := outcome_bind_eq_ok.mp ran
      obtain ⟨_, _, evaluated, ran⟩ := outcome_bind_eq_ok.mp ran
      obtain ⟨_, _, looked, ran⟩ := outcome_bind_eq_ok.mp ran
      cases looked
      rw [text_of_literalValue? literal evaluated] at ran
      exact memberPlace_ne_ok forbidden ran
  | _ => cases fixed

end Passed

/-- The listing of an expression shows the guards on names that its evaluation in a world passes, and
besides only those that calls skip. -/
structure ListsNameGuards {σ : Type} (access : Access σ) (context : Context) (e : Evaluator)
    (w : World σ) (visits : Visits) : Prop where
  /-- The names that are guarded under no condition are those of the nodes, one for one. -/
  listed : Listing.guardedNames e.listing.statements = Expr.fixedNames e.body.nodes
  /-- A node with a forbidden name stops the evaluation, unless a call with a nullish callee has the
  node in its arguments. -/
  stops : ∀ (k : Nat) node name, e.body.nodes[k]? = some node → node.fixedName? = some name →
    name ∈ forbiddenNames → (∀ j ∈ visits.skipped, ¬ InArguments e.body.nodes k j) →
    ∃ error, ((e.eval access context).outcome w).1 = .error error

/-- **Guards on names run but in skipped arguments.** A listing guards the fixed names of all nodes
under no condition, in the order of the nodes. Whatever the host does, an evaluation fails if the
name of a node is forbidden and no call with a nullish callee has the node in its arguments. -/
theorem listsNameGuards_eval {σ : Type} (run : Invocation → Run σ Value) (context : Context)
    (e : Evaluator) (w : World σ) :
    ListsNameGuards (Access.direct run) context e w
      (e.body.visits (Access.direct run) context .read w) := by
  refine ⟨guardedNames_of e.body, fun k node name found fixed forbidden reached => ?_⟩
  rcases ran : (e.eval (Access.direct run) context).outcome w with ⟨error | v, w'⟩
  · exact ⟨error, rfl⟩
  · obtain ⟨place, last, located, _⟩ := outcome_bind_eq_ok.mp ran
    have visited := visited_visits e.body located
    rcases visited.ends_or_skips found with ended | here | ⟨j, skipped, spans⟩
    · exact absurd ended (not_endsWell_of_forbidden fixed forbidden)
    · -- only calls are skipped for their own callee, and a call has no name
      obtain ⟨visit, there⟩ := Visits.exists_of_mem_skipped here
      obtain ⟨callee, operands, call⟩ := visited.complete.calls k visit there
      cases found.symm.trans call
      cases fixed
    · exact absurd ((nested_nodes e.body).inArguments_iff.mpr spans) (reached j skipped)

/-- The argument of a missing function is guarded under no condition, and is not evaluated. -/
theorem exists_guard_listed_and_skipped :
    ∃ (run : Invocation → Run Unit Value) (context : Context) (e : Evaluator) (w : World Unit),
      Evaluator.ofText "f(constructor)" defaultDepth = .ok e ∧ "constructor" ∈ forbiddenNames ∧
      .step (.guardName "constructor") ∈ e.listing.statements ∧
      ((e.eval (Access.direct run) context).outcome w).1 = .ok .undefined := by
  let body : Expr := .call (.identifier "f") [.identifier "constructor"]
  have lexed : tokenize "f(constructor)" = .ok [⟨.identifier ['f'], 0⟩, ⟨.symbol .openParen, 1⟩,
      ⟨.identifier "constructor".toList, 2⟩, ⟨.symbol .closeParen, 13⟩] := by cbv
  have argument : Assignment [⟨.identifier "constructor".toList, 2⟩] (.identifier "constructor") :=
    .operand (.primary (.base (.word (.identifier (by decide)))))
  have callee : Primary [⟨.identifier ['f'], 0⟩] (.identifier "f") :=
    .base (.word (.identifier (by decide)))
  have spelled : Assignment [⟨.identifier ['f'], 0⟩, ⟨.symbol .openParen, 1⟩,
      ⟨.identifier "constructor".toList, 2⟩, ⟨.symbol .closeParen, 13⟩] body :=
    .operand (.primary (Primary.call callee (.one argument) :))
  have parsed : parse "f(constructor)" defaultDepth = .ok (.program body) :=
    parse_of_spelled lexed spelled (by decide)
  have listed : "constructor" ∈ Listing.guardedNames (Listing.of body).statements := by
    rw [guardedNames_of]
    decide
  refine ⟨fun _ => return .undefined, ⟨.object ⟨0, .plain⟩, .undefined⟩,
    ⟨"f(constructor)", body⟩, ⟨(Heap.empty.newObject .plain []).2, ()⟩, ?_, ?_, ?_, ?_⟩
  · rw [Evaluator.ofText, parsed]
    rfl
  · decide
  · exact Listing.mem_guardedNames.mp listed
  · cbv

end GuardedExpr
