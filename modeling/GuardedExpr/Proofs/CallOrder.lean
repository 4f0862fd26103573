import GuardedExpr.Proofs.Visits

/-!
# The order of calls

Calls are made from left to right and from the inside out: in the order in which
their nodes stand in the tree, each after the nodes inside it, and no node makes
more than one. A run may stop at any of them. If it ends well, every call has
been made but for those whose callee is nullish, which skip their arguments, and
the calls among these arguments; and every node that was not skipped has ended
well.
-/

namespace GuardedExpr

open Run

namespace Visits

/-- The numbers of the nodes that call a function. -/
def invoked (visits : Visits) : List Nat :=
  visits.filterMap fun
    | (k, .invoke _) => some k
    | (_, .callee _) => none

/-- The numbers of the nodes whose callee is nullish. -/
def skipped (visits : Visits) : List Nat :=
  visits.filterMap fun
    | (k, .callee v) => if v.isNullish then some k else none
    | (_, .invoke _) => none

variable {visits visits' : Visits} {before k : Nat}

theorem invoked_append (visits visits' : Visits) :
    invoked (visits ++ visits') = visits.invoked ++ visits'.invoked :=
  List.filterMap_append

theorem skipped_append (visits visits' : Visits) :
    skipped (visits ++ visits') = visits.skipped ++ visits'.skipped :=
  List.filterMap_append

theorem invoked_shift (before : Nat) (visits : Visits) :
    (visits.shift before).invoked = visits.invoked.map (before + ·) := by
  rw [invoked, shift, List.filterMap_map, invoked, List.map_filterMap]
  apply List.filterMap_congr
  intro visit _
  obtain ⟨k, v | call⟩ := visit
  · rfl
  · rfl

theorem skipped_shift (before : Nat) (visits : Visits) :
    (visits.shift before).skipped = visits.skipped.map (before + ·) := by
  rw [skipped, shift, List.filterMap_map, skipped, List.map_filterMap]
  apply List.filterMap_congr
  intro visit _
  obtain ⟨k, v | call⟩ := visit
  · cases nullish : v.isNullish <;> simp [nullish]
  · rfl

/-- A callee that is not nullish skips nothing. -/
theorem skipped_callee_of_given {v : Value} (given : v.isNullish = false) (k : Nat)
    (visits : Visits) : skipped ((k, .callee v) :: visits) = visits.skipped := by
  rw [skipped, List.filterMap_cons_none]
  · rfl
  · dsimp only
    rw [given]
    rfl

theorem skipped_callee_of_nullish {v : Value} (nullish : v.isNullish = true) (k : Nat) :
    skipped [(k, .callee v)] = [k] := by
  simp [skipped, nullish]

theorem exists_of_mem_invoked (member : k ∈ visits.invoked) : ∃ visit, (k, visit) ∈ visits := by
  obtain ⟨⟨j, v | call⟩, there, same⟩ := List.mem_filterMap.mp member
  · cases same
  · cases same
    exact ⟨_, there⟩

theorem exists_of_mem_skipped (member : k ∈ visits.skipped) : ∃ visit, (k, visit) ∈ visits := by
  obtain ⟨⟨j, v | call⟩, there, same⟩ := List.mem_filterMap.mp member
  · dsimp only at same
    split at same
    · cases same
      exact ⟨_, there⟩
    · cases same
  · cases same

end Visits

/-- The visits are of calls among the nodes, and functions are called in the order of the nodes, at
most once each. -/
structure InOrder (nodes : List Expr) (visits : Visits) : Prop where
  calls : ∀ k visit, (k, visit) ∈ visits →
    ∃ callee operands, nodes[k]? = some (.call callee operands)
  invoked : visits.invoked.Sublist (List.range nodes.length)

namespace InOrder

variable {nodes nodes' : List Expr} {visits visits' : Visits}

theorem nil (nodes : List Expr) : InOrder nodes [] where
  calls _ _ member := by cases member
  invoked := List.nil_sublist _

theorem append (left : InOrder nodes visits) (right : InOrder nodes' visits') :
    InOrder (nodes ++ nodes') (visits ++ visits'.shift nodes.length) where
  calls := by
    intro k visit member
    rcases List.mem_append.mp member with member | member
    · obtain ⟨callee, operands, found⟩ := left.calls k visit member
      obtain ⟨within, _⟩ := List.getElem?_eq_some_iff.mp found
      exact ⟨callee, operands, by rw [List.getElem?_append_left within, found]⟩
    · obtain ⟨⟨j, other⟩, there, same⟩ := List.mem_map.mp member
      cases same
      obtain ⟨callee, operands, found⟩ := right.calls j other there
      refine ⟨callee, operands, ?_⟩
      rw [List.getElem?_append_right (Nat.le_add_right _ j), Nat.add_sub_cancel_left, found]
  invoked := by
    rw [Visits.invoked_append, Visits.invoked_shift, List.length_append, List.range_add]
    exact left.invoked.append (right.invoked.map _)

/-- Nodes without visits may follow. -/
theorem extend (inOrder : InOrder nodes visits) (nodes' : List Expr) :
    InOrder (nodes ++ nodes') visits := by
  have both := inOrder.append (.nil nodes')
  rwa [Visits.shift_nil, List.append_nil] at both

/-- The order is kept wherever a run stops. -/
theorem visitsThen {σ α : Type} {m : Run σ α} {w : World σ} {next : α → World σ → Visits}
    (first : InOrder nodes visits) (rest : ∀ a w, InOrder nodes' (next a w)) :
    InOrder (nodes ++ nodes') (m.visitsThen w nodes.length visits next) := by
  unfold Run.visitsThen
  rcases m.outcome w with ⟨_ | a, after⟩
  · rw [List.append_nil]
    exact first.extend nodes'
  · exact first.append (rest a after)

/-- The value of a callee is no call. -/
theorem callee {callee : Expr} {operands : List Expr} (v : Value)
    (inOrder : InOrder (Expr.nodesOfList operands ++ [.call callee operands]) visits) :
    InOrder (Expr.nodesOfList operands ++ [.call callee operands])
      (((Expr.nodesOfList operands).length, .callee v) :: visits) where
  calls := by
    intro k visit member
    rcases List.mem_cons.mp member with here | later
    · cases here
      exact ⟨callee, operands, List.getElem?_concat_length⟩
    · exact inOrder.calls k visit later
  invoked := inOrder.invoked

theorem invoke (callee : Expr) (operands : List Expr) (call : Invocation) :
    InOrder [.call callee operands] [(0, .invoke call)] where
  calls := by
    intro k visit member
    cases List.mem_singleton.mp member
    exact ⟨callee, operands, rfl⟩
  invoked := List.Sublist.refl [0]

end InOrder

section Order

variable {σ : Type} (access : Access σ) (context : Context)

mutual

/-- **Calls are made in the order of their nodes.** -/
theorem inOrder_visits (e : Expr) (purpose : Purpose) (w : World σ) :
    InOrder e.nodes (e.visits access context purpose w) := by
  cases e with
  | program body =>
      rw [Expr.visits, Expr.nodes]
      exact (inOrder_visits body purpose.forBody w).extend _
  | literal | self | identifier =>
      rw [Expr.visits]
      exact .nil _
  | array elements =>
      rw [Expr.visits, Expr.nodes]
      exact (inOrder_visitsOfList elements w).extend _
  | object properties =>
      rw [Expr.visits, Expr.nodes]
      exact (inOrder_visitsOfProperties properties w).extend _
  | member owner name =>
      rw [Expr.visits, Expr.nodes]
      exact (inOrder_visits owner purpose.forOwner w).extend _
  | index owner key style =>
      rw [Expr.visits, Expr.nodes]
      refine InOrder.extend ?_ _
      exact (inOrder_visits owner purpose.forOwner w).visitsThen fun _ w =>
        inOrder_visits key .read w
  | call callee operands =>
      rw [Expr.visits, Expr.nodes, List.append_assoc]
      refine (inOrder_visits callee .read w).visitsThen fun place w => InOrder.callee _ ?_
      split
      · exact (inOrder_visitsOfArguments operands w).visitsThen fun _ _ => .invoke _ _ _
      · exact .nil _
  | assign target value =>
      rw [Expr.visits, Expr.nodes]
      refine InOrder.extend ?_ _
      exact (inOrder_visits target .store w).visitsThen fun _ w => inOrder_visits value .read w
  | unary operator operand =>
      rw [Expr.visits, Expr.nodes]
      exact (inOrder_visits operand .read w).extend _

theorem inOrder_visitsOfList (es : List Expr) (w : World σ) :
    InOrder (Expr.nodesOfList es) (Expr.visitsOfList access context es w) := by
  cases es with
  | nil =>
      rw [Expr.visitsOfList]
      exact .nil _
  | cons e es =>
      rw [Expr.visitsOfList, Expr.nodesOfList]
      exact (inOrder_visits e .read w).visitsThen fun _ w => inOrder_visitsOfList es w

theorem inOrder_visitsOfArguments (es : List Expr) (w : World σ) :
    InOrder (Expr.nodesOfList es) (Expr.visitsOfArguments access context es w) := by
  cases es with
  | nil =>
      rw [Expr.visitsOfArguments]
      exact .nil _
  | cons e es =>
      rw [Expr.visitsOfArguments, Expr.nodesOfList]
      refine (inOrder_visits e .read w).visitsThen fun place w => ?_
      exact (InOrder.nil []).visitsThen fun _ w => inOrder_visitsOfArguments es w

theorem inOrder_visitsOfProperties (ps : List (PropertyKey × Expr)) (w : World σ) :
    InOrder (Expr.nodesOfProperties ps) (Expr.visitsOfProperties access context ps w) := by
  match ps with
  | [] =>
      rw [Expr.visitsOfProperties]
      exact .nil _
  | (key, e) :: ps =>
      rw [Expr.visitsOfProperties, Expr.nodesOfProperties]
      exact (inOrder_visits e .read w).visitsThen fun _ w => inOrder_visitsOfProperties ps w

end

end Order

/-- The nodes of the arguments of a call stand right before it. -/
def Nested (nodes : List Expr) : Prop :=
  ∀ (k : Nat) callee operands, nodes[k]? = some (.call callee operands) →
    ∃ before after, nodes = before ++ Expr.nodesOfList operands ++ .call callee operands :: after ∧
      before.length + (Expr.nodesOfList operands).length = k

/-- The first node lies inside the argument list of the second one, which is a call. -/
def InArguments (nodes : List Expr) (k j : Nat) : Prop :=
  ∃ before callee operands after,
    nodes = before ++ Expr.nodesOfList operands ++ .call callee operands :: after ∧
      before.length ≤ k ∧ k < j ∧ j = before.length + (Expr.nodesOfList operands).length

/-- The second node is a call with at least so many nodes of arguments as lie between. -/
def Spans (nodes : List Expr) (k j : Nat) : Prop :=
  ∃ callee operands, nodes[j]? = some (.call callee operands) ∧
    k < j ∧ j ≤ k + (Expr.nodesOfList operands).length

/-- The callee of the node is nullish, or that of a call that spans it. -/
def Skips (nodes : List Expr) (visits : Visits) (k : Nat) : Prop :=
  k ∈ visits.skipped ∨ ∃ j ∈ visits.skipped, Spans nodes k j

/-- Besides, every call has been made or skipped, and not both. A call that is skipped has its
arguments among the nodes. -/
structure Complete (nodes : List Expr) (visits : Visits) : Prop extends InOrder nodes visits where
  inner : ∀ k ∈ visits.skipped, ∀ callee operands, nodes[k]? = some (.call callee operands) →
    (Expr.nodesOfList operands).length ≤ k
  settled : ∀ (k : Nat) callee operands, nodes[k]? = some (.call callee operands) →
    (k ∉ visits.invoked ↔ Skips nodes visits k)

section Nesting

variable {nodes nodes' : List Expr}

theorem Nested.append (left : Nested nodes) (right : Nested nodes') : Nested (nodes ++ nodes') := by
  intro k callee operands found
  by_cases within : k < nodes.length
  · rw [List.getElem?_append_left within] at found
    obtain ⟨before, after, split, place⟩ := left k callee operands found
    refine ⟨before, after ++ nodes', ?_, place⟩
    rw [split, List.append_assoc, List.cons_append]
  · have beyond := Nat.le_of_not_lt within
    rw [List.getElem?_append_right beyond] at found
    obtain ⟨before, after, split, place⟩ := right _ callee operands found
    refine ⟨nodes ++ before, after, ?_, ?_⟩
    · rw [split, List.append_assoc, List.append_assoc, List.append_assoc]
    · rw [List.length_append]
      omega

theorem nested_single {node : Expr} (other : node.isCall = false) : Nested [node] := by
  intro k callee operands found
  cases List.mem_singleton.mp (List.mem_of_getElem? found)
  cases other

/-- The arguments of a call may be followed by the call. -/
theorem Nested.call {operands : List Expr} (nested : Nested (Expr.nodesOfList operands))
    (callee : Expr) : Nested (Expr.nodesOfList operands ++ [.call callee operands]) := by
  intro k callee' operands' found
  by_cases within : k < (Expr.nodesOfList operands).length
  · rw [List.getElem?_append_left within] at found
    obtain ⟨before, after, split, place⟩ := nested k callee' operands' found
    refine ⟨before, after ++ [.call callee operands], ?_, place⟩
    rw [← List.cons_append, ← List.append_assoc, ← split]
  · have beyond := Nat.le_of_not_lt within
    rw [List.getElem?_append_right beyond] at found
    have last := List.mem_singleton.mp (List.mem_of_getElem? found)
    cases last
    obtain ⟨inside, _⟩ := List.getElem?_eq_some_iff.mp found
    rw [List.length_singleton] at inside
    exact ⟨[], [], rfl, by simp; omega⟩

/-- Where arguments stand right before their calls, a call spans what lies in its arguments. -/
theorem Nested.inArguments_iff (nested : Nested nodes) {k j : Nat} :
    InArguments nodes k j ↔ Spans nodes k j := by
  constructor
  · intro inside
    obtain ⟨before, callee, operands, after, split, least, less, rfl⟩ := inside
    refine ⟨callee, operands, ?_, less, by omega⟩
    rw [split, ← List.length_append, List.getElem?_append_right (Nat.le_refl _), Nat.sub_self]
    rfl
  · intro spans
    obtain ⟨callee, operands, found, less, reach⟩ := spans
    obtain ⟨before, after, split, place⟩ := nested j callee operands found
    exact ⟨before, callee, operands, after, split, by omega, less, place.symm⟩

mutual

theorem nested_nodes (e : Expr) : Nested e.nodes := by
  cases e with
  | program body => exact (nested_nodes body).append (nested_single rfl)
  | literal | self | identifier => exact nested_single rfl
  | array elements => exact (nested_nodesOfList elements).append (nested_single rfl)
  | object properties => exact (nested_nodesOfProperties properties).append (nested_single rfl)
  | member owner name => exact (nested_nodes owner).append (nested_single rfl)
  | index owner key style =>
      exact ((nested_nodes owner).append (nested_nodes key)).append (nested_single rfl)
  | call callee operands =>
      rw [Expr.nodes, List.append_assoc]
      exact (nested_nodes callee).append ((nested_nodesOfList operands).call callee)
  | assign target value =>
      exact ((nested_nodes target).append (nested_nodes value)).append (nested_single rfl)
  | unary operator operand => exact (nested_nodes operand).append (nested_single rfl)

theorem nested_nodesOfList (es : List Expr) : Nested (Expr.nodesOfList es) := by
  cases es with
  | nil => exact nofun
  | cons e es => exact (nested_nodes e).append (nested_nodesOfList es)

theorem nested_nodesOfProperties (ps : List (PropertyKey × Expr)) :
    Nested (Expr.nodesOfProperties ps) := by
  match ps with
  | [] => exact nofun
  | (key, e) :: ps => exact (nested_nodes e).append (nested_nodesOfProperties ps)

end

end Nesting

section Skipping

variable {nodes nodes' : List Expr} {visits visits' : Visits} {k : Nat}

theorem InOrder.lt_of_mem_skipped (inOrder : InOrder nodes visits) {j : Nat}
    (member : j ∈ visits.skipped) : j < nodes.length := by
  obtain ⟨visit, there⟩ := Visits.exists_of_mem_skipped member
  obtain ⟨callee, operands, found⟩ := inOrder.calls j visit there
  exact (List.getElem?_eq_some_iff.mp found).1

theorem InOrder.lt_of_mem_invoked (inOrder : InOrder nodes visits) {j : Nat}
    (member : j ∈ visits.invoked) : j < nodes.length :=
  List.mem_range.mp (inOrder.invoked.subset member)

theorem mem_skipped_append {j : Nat} :
    j ∈ (visits ++ visits'.shift k).skipped ↔
      j ∈ visits.skipped ∨ ∃ i ∈ visits'.skipped, k + i = j := by
  rw [Visits.skipped_append, Visits.skipped_shift, List.mem_append, List.mem_map]

theorem mem_invoked_append {j : Nat} :
    j ∈ (visits ++ visits'.shift k).invoked ↔
      j ∈ visits.invoked ∨ ∃ i ∈ visits'.invoked, k + i = j := by
  rw [Visits.invoked_append, Visits.invoked_shift, List.mem_append, List.mem_map]

/-- What is skipped in the first part does not depend on the second. -/
theorem skips_append_left (left : InOrder nodes visits) (right : Complete nodes' visits')
    (within : k < nodes.length) :
    Skips (nodes ++ nodes') (visits ++ visits'.shift nodes.length) k ↔ Skips nodes visits k := by
  constructor
  · intro skips
    rcases skips with here | ⟨j, member, callee, operands, found, less, reach⟩
    · rcases mem_skipped_append.mp here with member | ⟨i, _, rfl⟩
      · exact .inl member
      · omega
    · rcases mem_skipped_append.mp member with member | ⟨i, later, rfl⟩
      · rw [List.getElem?_append_left (left.lt_of_mem_skipped member)] at found
        exact .inr ⟨j, member, callee, operands, found, less, reach⟩
      · rw [List.getElem?_append_right (Nat.le_add_right _ i), Nat.add_sub_cancel_left] at found
        -- the arguments of a call in the second part lie in that part
        have inner := right.inner i later callee operands found
        omega
  · intro skips
    rcases skips with here | ⟨j, member, callee, operands, found, less, reach⟩
    · exact .inl (mem_skipped_append.mpr (.inl here))
    · refine .inr ⟨j, mem_skipped_append.mpr (.inl member), callee, operands, ?_, less, reach⟩
      rw [List.getElem?_append_left (left.lt_of_mem_skipped member), found]

/-- What is skipped in the second part does not depend on the first. -/
theorem skips_append_right (left : InOrder nodes visits) :
    Skips (nodes ++ nodes') (visits ++ visits'.shift nodes.length) (nodes.length + k) ↔
      Skips nodes' visits' k := by
  constructor
  · intro skips
    rcases skips with here | ⟨j, member, callee, operands, found, less, reach⟩
    · rcases mem_skipped_append.mp here with earlier | ⟨i, later, same⟩
      · have within := left.lt_of_mem_skipped earlier
        omega
      · obtain rfl : i = k := by omega
        exact .inl later
    · rcases mem_skipped_append.mp member with earlier | ⟨i, later, rfl⟩
      · have within := left.lt_of_mem_skipped earlier
        omega
      · rw [List.getElem?_append_right (Nat.le_add_right _ i), Nat.add_sub_cancel_left] at found
        exact .inr ⟨i, later, callee, operands, found, by omega, by omega⟩
  · intro skips
    rcases skips with here | ⟨j, member, callee, operands, found, less, reach⟩
    · exact .inl (mem_skipped_append.mpr (.inr ⟨k, here, rfl⟩))
    · refine .inr ⟨nodes.length + j, mem_skipped_append.mpr (.inr ⟨j, member, rfl⟩), callee,
        operands, ?_, by omega, by omega⟩
      rw [List.getElem?_append_right (Nat.le_add_right _ j), Nat.add_sub_cancel_left, found]

/-- A nullish callee skips the call and all nodes of its arguments. -/
theorem skips_of_nullish {callee : Expr} {operands : List Expr} {v : Value}
    (nullish : v.isNullish = true)
    (within : k < (Expr.nodesOfList operands ++ [Expr.call callee operands]).length) :
    Skips (Expr.nodesOfList operands ++ [.call callee operands])
      [((Expr.nodesOfList operands).length, .callee v)] k := by
  unfold Skips
  rw [Visits.skipped_callee_of_nullish nullish]
  rw [List.length_append, List.length_singleton] at within
  rcases Nat.lt_or_eq_of_le (Nat.le_of_lt_succ within) with inside | here
  · exact .inr ⟨_, List.mem_singleton_self _, callee, operands, List.getElem?_concat_length, inside,
      Nat.le_add_left _ _⟩
  · exact .inl (List.mem_singleton.mpr here)

end Skipping

namespace Complete

variable {nodes nodes' : List Expr} {visits visits' : Visits}

theorem append (left : Complete nodes visits) (right : Complete nodes' visits') :
    Complete (nodes ++ nodes') (visits ++ visits'.shift nodes.length) where
  toInOrder := left.toInOrder.append right.toInOrder
  inner := by
    intro k member callee operands found
    rcases mem_skipped_append.mp member with earlier | ⟨i, later, rfl⟩
    · rw [List.getElem?_append_left (left.lt_of_mem_skipped earlier)] at found
      exact left.inner k earlier callee operands found
    · rw [List.getElem?_append_right (Nat.le_add_right _ i), Nat.add_sub_cancel_left] at found
      exact Nat.le_trans (right.inner i later callee operands found) (Nat.le_add_left _ _)
  settled := by
    intro k callee operands found
    by_cases within : k < nodes.length
    · rw [List.getElem?_append_left within] at found
      rw [skips_append_left left.toInOrder right within,
        ← left.settled k callee operands found, mem_invoked_append, not_or]
      refine and_iff_left fun later => ?_
      obtain ⟨i, _, same⟩ := later
      omega
    · obtain ⟨i, rfl⟩ := Nat.exists_eq_add_of_le (Nat.le_of_not_lt within)
      rw [List.getElem?_append_right (Nat.le_add_right _ i), Nat.add_sub_cancel_left] at found
      rw [skips_append_right left.toInOrder, ← right.settled i callee operands found,
        mem_invoked_append, not_or]
      constructor
      · intro neither member
        exact neither.2 ⟨i, member, rfl⟩
      · intro none
        refine ⟨fun earlier => within (left.lt_of_mem_invoked earlier), fun later => ?_⟩
        obtain ⟨j, member, same⟩ := later
        obtain rfl : j = i := by omega
        exact none member

theorem nil : Complete [] [] where
  toInOrder := .nil _
  inner _ member := by cases member
  settled _ _ _ found := by cases found

/-- A node that is no call is settled without visits. -/
theorem single {node : Expr} (other : node.isCall = false) : Complete [node] [] where
  toInOrder := .nil _
  inner _ member := by cases member
  settled := by
    intro k callee operands found
    cases List.mem_singleton.mp (List.mem_of_getElem? found)
    cases other

theorem invoke (callee : Expr) (operands : List Expr) (call : Invocation) :
    Complete [.call callee operands] [(0, .invoke call)] where
  toInOrder := .invoke callee operands call
  inner _ member := by cases member
  settled := by
    intro k callee' operands' found
    obtain ⟨inside, _⟩ := List.getElem?_eq_some_iff.mp found
    obtain rfl : k = 0 := Nat.lt_one_iff.mp inside
    refine ⟨fun none => absurd List.mem_cons_self none, fun skips => ?_⟩
    rcases skips with here | ⟨j, member, _⟩
    · cases here
    · cases member

/-- A callee that is not nullish skips nothing. -/
theorem callee {callee : Expr} {operands : List Expr} {v : Value} (given : v.isNullish = false)
    (complete : Complete (Expr.nodesOfList operands ++ [.call callee operands]) visits) :
    Complete (Expr.nodesOfList operands ++ [.call callee operands])
      (((Expr.nodesOfList operands).length, .callee v) :: visits) := by
  refine { toInOrder := .callee v complete.toInOrder, inner := ?_, settled := ?_ }
  · rw [Visits.skipped_callee_of_given given]
    exact complete.inner
  · unfold Skips
    rw [Visits.skipped_callee_of_given given]
    exact complete.settled

/-- A nullish callee skips the call and its arguments. -/
theorem skip (callee : Expr) (operands : List Expr) {v : Value} (nullish : v.isNullish = true) :
    Complete (Expr.nodesOfList operands ++ [.call callee operands])
      [((Expr.nodesOfList operands).length, .callee v)] := by
  refine { toInOrder := .callee v (.nil _), inner := ?_, settled := ?_ }
  · intro k member callee' operands' found
    rw [Visits.skipped_callee_of_nullish nullish, List.mem_singleton] at member
    subst member
    rw [List.getElem?_concat_length] at found
    cases found
    exact Nat.le_refl _
  · intro k callee' operands' found
    obtain ⟨within, _⟩ := List.getElem?_eq_some_iff.mp found
    exact ⟨fun _ => skips_of_nullish nullish within, fun _ member => by cases member⟩

end Complete

/-- The visits of nodes, part by part, at a good end: a node has ended as it should, or a nullish
callee has skipped it. -/
inductive Visited (Ends : Expr → Prop) : List Expr → Visits → Prop where
  | nil : Visited Ends [] []
  | append {nodes nodes' : List Expr} {visits visits' : Visits}
      (left : Visited Ends nodes visits) (right : Visited Ends nodes' visits') :
      Visited Ends (nodes ++ nodes') (visits ++ visits'.shift nodes.length)
  | node {node : Expr} (other : node.isCall = false) (ended : Ends node) : Visited Ends [node] []
  | invoke {callee : Expr} {operands : List Expr} (ended : Ends (.call callee operands))
      (call : Invocation) : Visited Ends [.call callee operands] [(0, .invoke call)]
  | callee {callee : Expr} {operands : List Expr} {v : Value} {visits : Visits}
      (given : v.isNullish = false)
      (visited : Visited Ends (Expr.nodesOfList operands ++ [.call callee operands]) visits) :
      Visited Ends (Expr.nodesOfList operands ++ [.call callee operands])
        (((Expr.nodesOfList operands).length, .callee v) :: visits)
  | skip {callee : Expr} {operands : List Expr} {v : Value} (nullish : v.isNullish = true) :
      Visited Ends (Expr.nodesOfList operands ++ [.call callee operands])
        [((Expr.nodesOfList operands).length, .callee v)]

namespace Visited

variable {Ends : Expr → Prop} {nodes nodes' : List Expr} {visits : Visits}

theorem complete (visited : Visited Ends nodes visits) : Complete nodes visits := by
  induction visited with
  | nil => exact .nil
  | append _ _ left right => exact left.append right
  | node other _ => exact .single other
  | invoke _ call => exact .invoke _ _ call
  | callee given _ complete => exact complete.callee given
  | skip nullish => exact .skip _ _ nullish

/-- What was not skipped has ended as it should. -/
theorem ends_or_skips (visited : Visited Ends nodes visits) {k : Nat} {node : Expr}
    (found : nodes[k]? = some node) : Ends node ∨ Skips nodes visits k := by
  induction visited generalizing k with
  | nil => cases found
  | @append nodes _ _ _ first second left right =>
      by_cases within : k < nodes.length
      · rw [List.getElem?_append_left within] at found
        rw [skips_append_left first.complete.toInOrder second.complete within]
        exact left found
      · obtain ⟨i, rfl⟩ := Nat.exists_eq_add_of_le (Nat.le_of_not_lt within)
        rw [List.getElem?_append_right (Nat.le_add_right _ i), Nat.add_sub_cancel_left] at found
        rw [skips_append_right first.complete.toInOrder]
        exact right found
  | node _ ended | invoke ended _ =>
      cases List.mem_singleton.mp (List.mem_of_getElem? found)
      exact .inl ended
  | callee given _ ends =>
      unfold Skips
      rw [Visits.skipped_callee_of_given given]
      exact ends found
  | skip nullish =>
      obtain ⟨within, _⟩ := List.getElem?_eq_some_iff.mp found
      exact .inr (skips_of_nullish nullish within)

/-- A node that is no call may follow. -/
theorem extend (visited : Visited Ends nodes visits) {node : Expr} (other : node.isCall = false)
    (ended : Ends node) : Visited Ends (nodes ++ [node]) visits := by
  have both := visited.append (.node other ended)
  rwa [Visits.shift_nil, List.append_nil] at both

/-- What goes on well after a part is visited with it. -/
theorem visitsThen {σ α : Type} {m : Run σ α} {w w' : World σ} {a : α}
    {next : α → World σ → Visits} (first : Visited Ends nodes visits)
    (ran : m.outcome w = (.ok a, w')) (rest : Visited Ends nodes' (next a w')) :
    Visited Ends (nodes ++ nodes') (m.visitsThen w nodes.length visits next) := by
  unfold Run.visitsThen
  rw [ran]
  exact first.append rest

end Visited

/-- The expression ends well, evaluated for some purpose from some world. -/
def Expr.EndsWell {σ : Type} (access : Access σ) (context : Context) (e : Expr) : Prop :=
  ∃ purpose w place w', (e.locate access context purpose).outcome w = (.ok place, w')

section Completeness

variable {σ : Type} {access : Access σ} {context : Context}

mutual

/-- **What ends well has ended every node well that it did not skip.** -/
theorem visited_visits (e : Expr) {purpose : Purpose} {w w' : World σ} {place : Place}
    (ran : (e.locate access context purpose).outcome w = (.ok place, w')) :
    Visited (Expr.EndsWell access context) e.nodes (e.visits access context purpose w) := by
  have ended : e.EndsWell access context := ⟨purpose, w, place, w', ran⟩
  cases e with
  | program body =>
      rw [Expr.locate] at ran
      obtain ⟨_, _, ran, _⟩ := outcome_bind_eq_ok.mp ran
      rw [Expr.visits, Expr.nodes]
      exact (visited_visits body ran).extend rfl ended
  | literal | self | identifier =>
      rw [Expr.visits]
      exact .node rfl ended
  | array elements =>
      rw [Expr.locate] at ran
      obtain ⟨_, _, ran, _⟩ := outcome_bind_eq_ok.mp ran
      rw [Expr.visits, Expr.nodes]
      exact (visited_visitsOfList elements ran).extend rfl ended
  | object properties =>
      rw [Expr.locate] at ran
      obtain ⟨_, _, ran, _⟩ := outcome_bind_eq_ok.mp ran
      rw [Expr.visits, Expr.nodes]
      exact (visited_visitsOfProperties properties ran).extend rfl ended
  | member owner name =>
      rw [Expr.locate] at ran
      obtain ⟨_, _, ran, _⟩ := outcome_bind_eq_ok.mp ran
      rw [Expr.visits, Expr.nodes]
      exact (visited_visits owner ran).extend rfl ended
  | index owner key style =>
      rw [Expr.locate] at ran
      obtain ⟨_, _, ran, goesOn⟩ := outcome_bind_eq_ok.mp ran
      obtain ⟨_, _, ran', _⟩ := outcome_bind_eq_ok.mp goesOn
      rw [Expr.visits, Expr.nodes]
      refine Visited.extend ?_ rfl ended
      exact (visited_visits owner ran).visitsThen ran (visited_visits key ran')
  | call callee operands =>
      rw [Expr.locate] at ran
      obtain ⟨place, w₁, ran, goesOn⟩ := outcome_bind_eq_ok.mp ran
      rw [Expr.visits, Expr.nodes, List.append_assoc]
      refine (visited_visits callee ran).visitsThen ran ?_
      by_cases nullish : place.value.isNullish = true
      · cases value : place.value with
        | undefined | null => exact .skip rfl
        | _ =>
            rw [value] at nullish
            cases nullish
      · rw [if_neg nullish] at goesOn
        refine .callee (Bool.eq_false_iff.mpr nullish) ?_
        cases checked : Guard.function place.value with
        | error what =>
            rw [checked] at goesOn
            cases goesOn
        | ok v =>
            rw [checked] at goesOn
            cases v with
            | function f =>
                obtain ⟨_, _, passed, goesOn⟩ := outcome_bind_eq_ok.mp goesOn
                cases passed
                obtain ⟨_, _, evaluated, _⟩ := outcome_bind_eq_ok.mp goesOn
                exact (visited_visitsOfArguments operands evaluated).visitsThen evaluated
                  (.invoke ended _)
            | _ => cases goesOn
  | assign target value =>
      rw [Expr.locate] at ran
      obtain ⟨_, _, ran, goesOn⟩ := outcome_bind_eq_ok.mp ran
      obtain ⟨_, _, ran', _⟩ := outcome_bind_eq_ok.mp goesOn
      rw [Expr.visits, Expr.nodes]
      refine Visited.extend ?_ rfl ended
      exact (visited_visits target ran).visitsThen ran (visited_visits value ran')
  | unary operator operand =>
      rw [Expr.locate] at ran
      obtain ⟨_, _, ran, _⟩ := outcome_bind_eq_ok.mp ran
      rw [Expr.visits, Expr.nodes]
      exact (visited_visits operand ran).extend rfl ended

theorem visited_visitsOfList (es : List Expr) {w w' : World σ} {vs : List Value}
    (ran : (Expr.evalList access context es).outcome w = (.ok vs, w')) :
    Visited (Expr.EndsWell access context) (Expr.nodesOfList es)
      (Expr.visitsOfList access context es w) := by
  cases es with
  | nil =>
      rw [Expr.visitsOfList]
      exact .nil
  | cons e es =>
      rw [Expr.evalList] at ran
      obtain ⟨_, _, ran, goesOn⟩ := outcome_bind_eq_ok.mp ran
      obtain ⟨_, _, ran', _⟩ := outcome_bind_eq_ok.mp goesOn
      rw [Expr.visitsOfList, Expr.nodesOfList]
      exact (visited_visits e ran).visitsThen ran (visited_visitsOfList es ran')

theorem visited_visitsOfArguments (es : List Expr) {w w' : World σ} {vs : List Value}
    (ran : (Expr.evalArguments access context es).outcome w = (.ok vs, w')) :
    Visited (Expr.EndsWell access context) (Expr.nodesOfList es)
      (Expr.visitsOfArguments access context es w) := by
  cases es with
  | nil =>
      rw [Expr.visitsOfArguments]
      exact .nil
  | cons e es =>
      rw [Expr.evalArguments] at ran
      obtain ⟨_, _, ran, goesOn⟩ := outcome_bind_eq_ok.mp ran
      obtain ⟨_, _, passed, goesOn⟩ := outcome_bind_eq_ok.mp goesOn
      obtain ⟨_, _, ran', _⟩ := outcome_bind_eq_ok.mp goesOn
      rw [Expr.visitsOfArguments, Expr.nodesOfList]
      refine (visited_visits e ran).visitsThen ran ?_
      exact Visited.nil.visitsThen passed (visited_visitsOfArguments es ran')

theorem visited_visitsOfProperties (ps : List (PropertyKey × Expr)) {w w' : World σ}
    {vs : List (String × Value)}
    (ran : (Expr.evalProperties access context ps).outcome w = (.ok vs, w')) :
    Visited (Expr.EndsWell access context) (Expr.nodesOfProperties ps)
      (Expr.visitsOfProperties access context ps w) := by
  match ps with
  | [] =>
      rw [Expr.visitsOfProperties]
      exact .nil
  | (key, e) :: ps =>
      rw [Expr.evalProperties] at ran
      obtain ⟨_, _, ran, goesOn⟩ := outcome_bind_eq_ok.mp ran
      obtain ⟨_, _, ran', _⟩ := outcome_bind_eq_ok.mp goesOn
      rw [Expr.visitsOfProperties, Expr.nodesOfProperties]
      exact (visited_visits e ran).visitsThen ran (visited_visitsOfProperties ps ran')

end

/-- What ends well has made or skipped every call. -/
theorem complete_visits (e : Expr) {purpose : Purpose} {w w' : World σ} {place : Place}
    (ran : (e.locate access context purpose).outcome w = (.ok place, w')) :
    Complete e.nodes (e.visits access context purpose w) :=
  (visited_visits e ran).complete

end Completeness

/-- The visits tell which nodes make the calls of an evaluation. -/
structure CallsInOrder {σ : Type} (access : Access σ) (context : Context) (e : Evaluator)
    (w : World σ) (visits : Visits) : Prop where
  result : ((e.eval access.recorded context).outcome w.recording).1 =
    ((e.eval access context).outcome w).1
  world : ((e.eval access.recorded context).outcome w.recording).2.forget =
    ((e.eval access context).outcome w).2
  /-- The calls on the record of the evaluation are those of the visits, one for one. -/
  record : ((e.eval access.recorded context).outcome w.recording).2.invocations =
    visits.invocations
  calls : ∀ k ∈ visits.invoked, ∃ callee operands,
    e.body.nodes[k]? = some (.call callee operands)
  /-- The numbers of the nodes that make calls ascend. -/
  order : visits.invoked.Sublist (List.range e.body.nodes.length)
  /-- At a good end, the calls that were not made are those that were skipped, and those in the
  arguments of such a call. -/
  settled : ∀ v, ((e.eval access context).outcome w).1 = .ok v → ∀ (k : Nat) callee operands,
    e.body.nodes[k]? = some (.call callee operands) → (k ∉ visits.invoked ↔
      k ∈ visits.skipped ∨ ∃ j ∈ visits.skipped, InArguments e.body.nodes k j)

/-- **Calls are made in order and once.** Whatever the host does, the calls that an evaluation puts
on record are made by call nodes of the tree in the order in which these stand there, each after the
nodes inside it, and by each node at most once. If the evaluation ends well, the call nodes that
make no call are those whose callee is nullish, and those in the argument list of such a call. -/
theorem callsInOrder_eval {σ : Type} (run : Invocation → Run σ Value) (context : Context)
    (e : Evaluator) (w : World σ) :
    CallsInOrder (Access.direct run) context e w
      (e.body.visits (Access.direct run) context .read w) := by
  obtain ⟨result, after, ran, ran', noted⟩ :=
    e.notes_eval (Access.direct run) context w.recording
  have inOrder := inOrder_visits (Access.direct run) context e.body .read w
  have plain : (e.eval (Access.direct run) context).outcome w = (result, after.forget) := ran'
  refine ⟨by rw [ran, plain], by rw [ran, plain], ?_, fun k member => ?_, inOrder.invoked, ?_⟩
  · rw [ran]
    exact noted
  · obtain ⟨visit, there⟩ := Visits.exists_of_mem_invoked member
    exact inOrder.calls k visit there
  · intro v ended k callee operands found
    obtain ⟨place, last, located, _⟩ := outcome_bind_eq_ok.mp (plain.trans (by
      rw [plain] at ended
      exact Prod.ext ended rfl))
    have complete := complete_visits e.body located
    simp only [(nested_nodes e.body).inArguments_iff]
    exact complete.settled k callee operands found

/-- A missing function skips the call in its argument, and the calls around it are made. -/
theorem callsInOrder_eval_missing :
    ∃ (run : Invocation → Run Unit Value) (context : Context) (e : Evaluator) (w : World Unit)
      (visits : Visits),
      CallsInOrder (Access.direct run) context e w visits ∧
      e.body.nodes.map Expr.isCall = [false, false, false, true, true, false, true, true] ∧
      visits.invoked = [6, 7] ∧ visits.skipped = [4] ∧
      ((e.eval (Access.direct run) context).outcome w).1 = .ok .null := by
  let run : Invocation → Run Unit Value := fun _ => return .null
  let context : Context := ⟨.object ⟨0, .plain⟩, .undefined⟩
  let inner : Expr := .call (.identifier "g") []
  let e : Evaluator :=
    ⟨"", .call (.identifier "f") [.call (.identifier "missing") [inner], inner]⟩
  let w : World Unit := ⟨(Heap.empty.newObject .plain
    [("f", .function (.host ⟨7, "f", .native⟩)), ("g", .function (.host ⟨8, "g", .native⟩))]).2, ()⟩
  refine ⟨run, context, e, w, _, callsInOrder_eval run context e w, ?_, ?_, ?_, ?_⟩
  · rfl
  · cbv
  · cbv
  · cbv

end GuardedExpr
