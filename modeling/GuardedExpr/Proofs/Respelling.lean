import Mathlib
import GuardedExpr.Evaluator
import GuardedExpr.Proofs.Coupling.Record

/-!
# Other spellings of links

A name after a dot can be written as a text between brackets, and without locals
a name alone can be written as a member of the scope. Trees that differ in such
spellings read and store under the same keys of the same owners, so they take
the same steps, one by one, for every purpose. Only the text by which an error
names a callee tells them apart.
-/

namespace GuardedExpr

open Run

namespace Expr

mutual

/-- The second tree is the first one with some names after dots as texts between brackets and, if
bare names are those of the scope, with some of these as members of the scope. -/
inductive Respells (bare : Prop) : Expr → Expr → Prop where
  | bracketed {owner owner' : Expr} (name : String) (inner : Respells bare owner owner') :
      Respells bare (.member owner name) (.index owner' (.literal (.string name)) .bracketed)
  | ofScope (name : String) (ofBare : bare) :
      Respells bare (.identifier name) (.member .self name)
  | program {body body' : Expr} (inner : Respells bare body body') :
      Respells bare (.program body) (.program body')
  | literal (value : Json) : Respells bare (.literal value) (.literal value)
  | array {es es' : List Expr} (inner : RespellsList bare es es') :
      Respells bare (.array es) (.array es')
  | object {ps ps' : List (PropertyKey × Expr)} (inner : RespellsProperties bare ps ps') :
      Respells bare (.object ps) (.object ps')
  | identifier (name : String) : Respells bare (.identifier name) (.identifier name)
  | self : Respells bare .self .self
  | member {owner owner' : Expr} (name : String) (inner : Respells bare owner owner') :
      Respells bare (.member owner name) (.member owner' name)
  | index {owner owner' key key' : Expr} (style : LinkStyle) (inner : Respells bare owner owner')
      (keyed : Respells bare key key') :
      Respells bare (.index owner key style) (.index owner' key' style)
  | call {callee callee' : Expr} {es es' : List Expr} (inner : Respells bare callee callee')
      (operands : RespellsList bare es es') : Respells bare (.call callee es) (.call callee' es')
  | assign {target target' value value' : Expr} (inner : Respells bare target target')
      (stored : Respells bare value value') :
      Respells bare (.assign target value) (.assign target' value')
  | unary {operand operand' : Expr} (operator : UnaryOperator)
      (inner : Respells bare operand operand') :
      Respells bare (.unary operator operand) (.unary operator operand')

inductive RespellsList (bare : Prop) : List Expr → List Expr → Prop where
  | nil : RespellsList bare [] []
  | cons {e e' : Expr} {es es' : List Expr} (first : Respells bare e e')
      (rest : RespellsList bare es es') : RespellsList bare (e :: es) (e' :: es')

inductive RespellsProperties (bare : Prop) :
    List (PropertyKey × Expr) → List (PropertyKey × Expr) → Prop where
  | nil : RespellsProperties bare [] []
  | cons {e e' : Expr} {ps ps' : List (PropertyKey × Expr)} (key : PropertyKey)
      (first : Respells bare e e') (rest : RespellsProperties bare ps ps') :
      RespellsProperties bare ((key, e) :: ps) ((key, e') :: ps')

end

theorem Respells.body {bare : Prop} {tree tree' : Expr} (respells : tree.Respells bare tree') :
    tree.body.Respells bare tree'.body := by
  cases respells with
  | bracketed name inner => exact .bracketed name inner
  | ofScope name ofBare => exact .ofScope name ofBare
  | program inner => exact inner
  | literal value => exact .literal value
  | array inner => exact .array inner
  | object inner => exact .object inner
  | identifier name => exact .identifier name
  | self => exact .self
  | member name inner => exact .member name inner
  | index style inner keyed => exact .index style inner keyed
  | call inner operands => exact .call inner operands
  | assign inner stored => exact .assign inner stored
  | unary operator inner => exact .unary operator inner

/-- The spelling of links does not make a tree assignable or not. -/
theorem Respells.isAssignable_eq {bare : Prop} {tree tree' : Expr}
    (respells : tree.Respells bare tree') : tree.isAssignable = tree'.isAssignable := by
  cases respells with
  | program inner => exact inner.isAssignable_eq
  | _ => rfl

/-- The texts name the callees of two calls, one of them among each of the lists, of which one
respells the other. -/
def NamesCallees (bare : Prop) (nodes nodes' : List Expr) (text text' : String) : Prop :=
  ∃ callee operands callee' operands', .call callee operands ∈ nodes ∧
    .call callee' operands' ∈ nodes' ∧ callee.Respells bare callee' ∧
    text = callee.calleeText ∧ text' = callee'.calleeText

/-- All callees of the nodes are named by texts of a kind. -/
def Named (bare : Prop) (Names : String → String → Prop) (nodes nodes' : List Expr) : Prop :=
  ∀ text text', NamesCallees bare nodes nodes' text text' → Names text text'

theorem Named.mono {bare : Prop} {Names : String → String → Prop}
    {nodes nodes' more more' : List Expr} (named : Named bare Names more more')
    (left : nodes ⊆ more) (right : nodes' ⊆ more') : Named bare Names nodes nodes' := by
  intro text text' names
  obtain ⟨callee, operands, callee', operands', called, called', same⟩ := names
  exact named text text' ⟨callee, operands, callee', operands', left called, right called', same⟩

section Named

variable {bare : Prop} {Names : String → String → Prop} {nodes nodes' more more' : List Expr}

theorem Named.left (named : Named bare Names (nodes ++ more) (nodes' ++ more')) :
    Named bare Names nodes nodes' :=
  named.mono (List.subset_append_left _ _) (List.subset_append_left _ _)

theorem Named.right (named : Named bare Names (nodes ++ more) (nodes' ++ more')) :
    Named bare Names more more' :=
  named.mono (List.subset_append_right _ _) (List.subset_append_right _ _)

end Named

end Expr

/-- Both runs end in one way, or both with an error that names a callee, by texts of a kind. -/
inductive EndsAlike {α : Type} (Names : String → String → Prop) :
    Except Error α → Except Error α → Prop where
  | same (ended : Except Error α) : EndsAlike Names ended ended
  | notAFunction {text text' : String} (names : Names text text') :
      EndsAlike Names (.error (.runtime (.notAFunction text)))
        (.error (.runtime (.notAFunction text')))

namespace Run

variable {σ α β : Type} {Names : String → String → Prop}

/-- From every world, the runs lead to one world and end alike. -/
def Mirrors (Names : String → String → Prop) (m n : Run σ α) : Prop :=
  ∀ w, (m.outcome w).2 = (n.outcome w).2 ∧ EndsAlike Names (m.outcome w).1 (n.outcome w).1

theorem Mirrors.refl (m : Run σ α) : Mirrors Names m m :=
  fun _ => ⟨rfl, .same _⟩

theorem Mirrors.notAFunction {text text' : String} (names : Names text text') :
    Mirrors Names (fail (.notAFunction text) : Run σ α) (fail (.notAFunction text')) :=
  fun _ => ⟨rfl, .notAFunction names⟩

theorem Mirrors.bind {m n : Run σ α} {f g : α → Run σ β} (first : Mirrors Names m n)
    (second : ∀ a, Mirrors Names (f a) (g a)) : Mirrors Names (m >>= f) (n >>= g) := by
  intro w
  obtain ⟨world, ended⟩ := first w
  rw [outcome_bind, outcome_bind]
  rcases ran : m.outcome w with ⟨result, v⟩
  rcases ran' : n.outcome w with ⟨result', v'⟩
  rw [ran, ran'] at world ended
  obtain rfl : v = v' := world
  cases ended with
  | notAFunction names => exact ⟨rfl, .notAFunction names⟩
  | same =>
      cases result with
      | error e => exact ⟨rfl, .same _⟩
      | ok a => exact second a v

end Run

namespace Expr

variable {σ : Type} (access : Access σ) (context : Context) {Names : String → String → Prop}

/-- A text between brackets is the key of the link. -/
theorem locate_bracketed (purpose : Purpose) (owner : Expr) (name : String) :
    (index owner (.literal (.string name)) .bracketed).locate access context purpose =
      (member owner name).locate access context purpose := by
  rw [locate, locate]
  rfl

/-- Without locals, a name is a member of the scope. -/
theorem locate_ofScope (purpose : Purpose) (name : String) (bare : context.locals = .undefined) :
    (member .self name).locate access context purpose =
      (identifier name).locate access context purpose := by
  have owner (h : Heap) : context.owner h name = context.scope := by
    rw [Context.owner, bare]
    rfl
  rw [locate, locate, locate]
  simp only [owner]
  rfl

mutual

/-- **Respelled trees mirror each other.** By induction on the respelling: a link and its other
spelling are one run once their owners are, and everything else is congruence. -/
theorem Respells.mirrors {e e' : Expr} (respells : e.Respells (context.locals = .undefined) e')
    (purpose : Purpose) (named : Named (context.locals = .undefined) Names e.nodes e'.nodes) :
    Mirrors Names (e.locate access context purpose) (e'.locate access context purpose) := by
  cases respells with
  | @bracketed owner owner' name inner =>
      rw [locate_bracketed, locate, locate]
      have inside : owner'.nodes ⊆
          (index owner' (.literal (.string name)) .bracketed).nodes :=
        fun _ there => List.mem_append_left _ (List.mem_append_left _ there)
      have mirrored := inner.mirrors purpose.forOwner
        (named.mono (List.subset_append_left _ _) inside)
      exact mirrored.bind fun place => .refl _
  | ofScope name ofBare =>
      rw [locate_ofScope access context purpose name ofBare]
      exact .refl _
  | literal value => exact .refl _
  | identifier name => exact .refl _
  | self => exact .refl _
  | program inner =>
      rw [locate, locate]
      have mirrored := inner.mirrors purpose.forBody named.left
      exact mirrored.bind fun place => .refl _
  | array inner =>
      rw [locate, locate]
      have mirrored := inner.mirrors_evalList named.left
      exact mirrored.bind fun vs => .refl _
  | object inner =>
      rw [locate, locate]
      have mirrored := inner.mirrors_evalProperties named.left
      exact mirrored.bind fun ps => .refl _
  | member name inner =>
      rw [locate, locate]
      have mirrored := inner.mirrors purpose.forOwner named.left
      exact mirrored.bind fun place => .refl _
  | index style inner keyed =>
      rw [locate, locate]
      have mirrored := inner.mirrors purpose.forOwner named.left.left
      have key := keyed.mirrors .read named.left.right
      exact mirrored.bind fun place => key.bind fun keyPlace => .refl _
  | @call callee callee' es es' inner operands =>
      rw [locate, locate]
      have mirrored := inner.mirrors .read named.left.left
      have arguments := operands.mirrors_evalArguments named.left.right
      have names : Names callee.calleeText callee'.calleeText := by
        apply named
        exact ⟨callee, es, callee', es', self_mem_nodes _, self_mem_nodes _, inner, rfl, rfl⟩
      refine mirrored.bind fun place => ?_
      by_cases nullish : place.value.isNullish = true
      · rw [if_pos nullish, if_pos nullish]
        exact .refl _
      · rw [if_neg nullish, if_neg nullish]
        refine (Mirrors.refl _).bind fun v => ?_
        cases v with
        | function f => exact arguments.bind fun vs => .refl _
        | _ => exact .notAFunction names
  | assign inner stored =>
      rw [locate, locate]
      have mirrored := inner.mirrors .store named.left.left
      have value := stored.mirrors .read named.left.right
      exact mirrored.bind fun place => value.bind fun source => .refl _
  | unary operator inner =>
      rw [locate, locate]
      have mirrored := inner.mirrors .read named.left
      exact mirrored.bind fun place => .refl _
termination_by sizeOf e

theorem RespellsList.mirrors_evalList {es es' : List Expr}
    (respells : RespellsList (context.locals = .undefined) es es')
    (named : Named (context.locals = .undefined) Names (nodesOfList es) (nodesOfList es')) :
    Mirrors Names (evalList access context es) (evalList access context es') := by
  cases respells with
  | nil => exact .refl _
  | cons first rest =>
      rw [evalList, evalList]
      have head := first.mirrors .read named.left
      have tail := rest.mirrors_evalList named.right
      exact head.bind fun place => tail.bind fun vs => .refl _
termination_by sizeOf es

theorem RespellsList.mirrors_evalArguments {es es' : List Expr}
    (respells : RespellsList (context.locals = .undefined) es es')
    (named : Named (context.locals = .undefined) Names (nodesOfList es) (nodesOfList es')) :
    Mirrors Names (evalArguments access context es) (evalArguments access context es') := by
  cases respells with
  | nil => exact .refl _
  | cons first rest =>
      rw [evalArguments, evalArguments]
      have head := first.mirrors .read named.left
      have tail := rest.mirrors_evalArguments named.right
      exact head.bind fun place => (Mirrors.refl _).bind fun v => tail.bind fun vs => .refl _
termination_by sizeOf es

theorem RespellsProperties.mirrors_evalProperties {ps ps' : List (PropertyKey × Expr)}
    (respells : RespellsProperties (context.locals = .undefined) ps ps')
    (named : Named (context.locals = .undefined) Names (nodesOfProperties ps)
      (nodesOfProperties ps')) :
    Mirrors Names (evalProperties access context ps) (evalProperties access context ps') := by
  cases respells with
  | nil => exact .refl _
  | cons key first rest =>
      rw [evalProperties, evalProperties]
      have head := first.mirrors .read named.left
      have tail := rest.mirrors_evalProperties named.right
      exact head.bind fun place => tail.bind fun vs => .refl _
termination_by sizeOf ps

end

end Expr

/-- Both runs, known from their records, take the same steps in the same heaps, lead to one world
and end alike. -/
structure RunsAlike {σ : Type} (Names : String → String → Prop) (m n : Run (Recorded σ) Value)
    (m' n' : Run σ Value) (w : World σ) : Prop where
  events : (m.outcome w.recording).2.host.events = (n.outcome w.recording).2.host.events
  world : (m'.outcome w).2 = (n'.outcome w).2
  ended : EndsAlike Names (m'.outcome w).1 (n'.outcome w).1

theorem RunsAlike.of_mirrors {σ : Type} {Names : String → String → Prop}
    {m n : Run (Recorded σ) Value} {m' n' : Run σ Value} (recorded : Mirrors Names m n)
    (mirrored : Mirrors Names m' n') (w : World σ) : RunsAlike Names m n m' n' w where
  events := congrArg (fun after => after.host.events) (recorded w.recording).1
  world := (mirrored w).1
  ended := (mirrored w).2

namespace Evaluator

variable {σ : Type} (access : Access σ) (context : Context) {Names : String → String → Prop}
  {e e' : Evaluator}

theorem mirrors_eval (respells : e.body.Respells (context.locals = .undefined) e'.body)
    (named : Expr.Named (context.locals = .undefined) Names e.body.nodes e'.body.nodes) :
    Mirrors Names (e.eval access context) (e'.eval access context) :=
  (respells.mirrors access context .read named).bind fun _ => .refl _

theorem mirrors_assign (respells : e.body.Respells (context.locals = .undefined) e'.body)
    (named : Expr.Named (context.locals = .undefined) Names e.body.nodes e'.body.nodes)
    (v : Value) : Mirrors Names (e.assign access context v) (e'.assign access context v) := by
  unfold assign isAssignable
  rw [← respells.isAssignable_eq]
  split
  · exact (respells.mirrors access context .store named).bind fun _ => .refl _
  · exact .refl _

end Evaluator

/-- **Spelling does not matter.** Whatever the heap, the contexts and the host are, a tree and one
that respells it read, store, call and make the same in the same heaps, whether they are evaluated
or assigned to, and leave one world with one result or error. Where a callee is no function, each
error names it as its own tree does. -/
theorem runsAlike_of_respells {σ : Type} (run : Invocation → Run σ Value) (context : Context)
    {tree tree' : Expr} (respells : tree.Respells (context.locals = .undefined) tree')
    (w : World σ) :
    let e := Evaluator.ofExpr tree
    let e' := Evaluator.ofExpr tree'
    let Names := Expr.NamesCallees (context.locals = .undefined) e.body.nodes e'.body.nodes
    e.isAssignable = e'.isAssignable ∧
      RunsAlike Names (e.eval (Access.direct run).recorded context)
        (e'.eval (Access.direct run).recorded context) (e.eval (Access.direct run) context)
        (e'.eval (Access.direct run) context) w ∧
      ∀ v, RunsAlike Names (e.assign (Access.direct run).recorded context v)
        (e'.assign (Access.direct run).recorded context v)
        (e.assign (Access.direct run) context v) (e'.assign (Access.direct run) context v) w := by
  intro e e' Names
  have bodies : e.body.Respells (context.locals = .undefined) e'.body := respells.body
  have named : Expr.Named (context.locals = .undefined) Names e.body.nodes e'.body.nodes :=
    fun _ _ names => names
  refine ⟨bodies.isAssignable_eq, ?_, fun v => ?_⟩
  · exact .of_mirrors (Evaluator.mirrors_eval _ context bodies named)
      (Evaluator.mirrors_eval _ context bodies named) w
  · exact .of_mirrors (Evaluator.mirrors_assign _ context bodies named v)
      (Evaluator.mirrors_assign _ context bodies named v) w

/-- A link is made on the way to a target, and then a callee that is no function goes by two
names. -/
theorem runsAlike_of_respells_callee :
    ∃ (run : Invocation → Run Unit Value) (context : Context) (tree tree' : Expr) (w : World Unit),
      tree.Respells (context.locals = .undefined) tree' ∧
      RunsAlike (Expr.NamesCallees (context.locals = .undefined) tree.body.nodes tree'.body.nodes)
        ((Evaluator.ofExpr tree).eval (Access.direct run).recorded context)
        ((Evaluator.ofExpr tree').eval (Access.direct run).recorded context)
        ((Evaluator.ofExpr tree).eval (Access.direct run) context)
        ((Evaluator.ofExpr tree').eval (Access.direct run) context) w ∧
      (((Evaluator.ofExpr tree).eval (Access.direct run) context).outcome w).1 =
        .error (.runtime (.notAFunction "f.name")) ∧
      (((Evaluator.ofExpr tree').eval (Access.direct run) context).outcome w).1 =
        .error (.runtime (.notAFunction "expression.f[...]")) ∧
      (((Evaluator.ofExpr tree').eval (Access.direct run) context).outcome w).2.heap.property
        ⟨0, .plain⟩ "a" = .object ⟨2, .plain⟩ := by
  let run : Invocation → Run Unit Value := fun _ => return .undefined
  let context : Context := ⟨.object ⟨1, .plain⟩, .undefined⟩
  let target : Expr := .member (.member (.identifier "o") "a") "b"
  let target' : Expr :=
    .member (.index (.identifier "o") (.literal (.string "a")) .bracketed) "b"
  let callee : Expr := .member (.identifier "f") "name"
  let callee' : Expr := .index (.member .self "f") (.literal (.string "name")) .bracketed
  let tree : Expr := .program (.array [.assign target (.literal .null), .call callee []])
  let tree' : Expr := .program (.array [.assign target' (.literal .null), .call callee' []])
  let w : World Unit := ⟨((Heap.empty.newObject .plain []).2.newObject .plain
    [("f", .function (.host ⟨7, "f", .native⟩)), ("o", .object ⟨0, .plain⟩)]).2, ()⟩
  have targets : target.Respells (context.locals = .undefined) target' :=
    .member "b" (.bracketed "a" (.identifier "o"))
  have callees : callee.Respells (context.locals = .undefined) callee' :=
    .bracketed "name" (.ofScope "f" rfl)
  have respells : tree.Respells (context.locals = .undefined) tree' :=
    .program (.array (.cons (.assign targets (.literal .null)) (.cons (.call callees .nil) .nil)))
  refine ⟨run, context, tree, tree', w, respells, ?_, ?_, ?_, ?_⟩
  · exact (runsAlike_of_respells run context respells w).2.1
  · cbv
  · cbv
  · cbv

end GuardedExpr
