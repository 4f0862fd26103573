import GuardedExpr.Proofs.Wrapping

/-!
# Temporaries of listings

A listing takes temporaries one after another while it goes through a tree. Each
link that is read takes one for its value, and so do calls and assignments; a
link whose key is no literal takes one more for the key, before that. The target
of an assignment is not read, so it takes none for its value. The nodes take
consecutive temporaries in the order in which they are listed, and no temporary
twice.
-/

namespace GuardedExpr

namespace Expr

/-- The expression is a link whose key is known only when it runs. -/
def hasComputedKey : Expr → Bool
  | index _ key _ => (Listing.literalValue? key).isNone
  | _ => false

/-- The expression assigns to an identifier or to what ends with a link. -/
def storesToLink : Expr → Bool
  | assign target _ => target.isLink
  | _ => false

end Expr

namespace Listing

theorem temporary_injective : Function.Injective temporary := by
  intro i j same
  have digits : toString i = toString j := (String.append_right_inj _).mp same
  exact Nat.repr_injective digits

theorem bracketed_inj {owner key key' : String} :
    bracketed owner key = bracketed owner key' ↔ key = key' := by
  unfold bracketed
  rw [String.append_left_inj, String.append_right_inj]

/-- How many temporaries are taken when an expression has been listed. -/
def countAfter (purpose : Purpose) (e : Expr) (i : Nat) : Nat :=
  ((fragment purpose e).run i).2

def countAfterList (es : List Expr) (i : Nat) : Nat :=
  ((fragments es).run i).2

def countAfterProperties (ps : List (PropertyKey × Expr)) (i : Nat) : Nat :=
  ((propertyFragments ps).run i).2

/-- A node on its turn: what it is listed for, and how many temporaries are taken before it. -/
structure Listed where
  purpose : Purpose
  node : Expr
  before : Nat

mutual

/-- The nodes of an expression in the order in which they are listed, each after those inside it. -/
def listed (purpose : Purpose) (i : Nat) : Expr → List Listed
  | .program body => listed purpose.forBody i body ++ [⟨purpose, .program body, i⟩]
  | .literal value => [⟨purpose, .literal value, i⟩]
  | .array elements => listedList i elements ++ [⟨purpose, .array elements, i⟩]
  | .object properties => listedProperties i properties ++ [⟨purpose, .object properties, i⟩]
  | .identifier name => [⟨purpose, .identifier name, i⟩]
  | .self => [⟨purpose, .self, i⟩]
  | .member owner name => listed purpose.forOwner i owner ++ [⟨purpose, .member owner name, i⟩]
  | .index owner key style =>
    listed purpose.forOwner i owner ++ listed .read (countAfter purpose.forOwner owner i) key ++
      [⟨purpose, .index owner key style, i⟩]
  | .call callee arguments =>
    listed .read i callee ++ listedList (countAfter .read callee i) arguments ++
      [⟨purpose, .call callee arguments, i⟩]
  | .assign target value =>
    listed .store i target ++ listed .read (countAfter .store target i) value ++
      [⟨purpose, .assign target value, i⟩]
  | .unary operator operand => listed .read i operand ++ [⟨purpose, .unary operator operand, i⟩]

def listedList (i : Nat) : List Expr → List Listed
  | [] => []
  | e :: es => listed .read i e ++ listedList (countAfter .read e i) es

def listedProperties (i : Nat) : List (PropertyKey × Expr) → List Listed
  | [] => []
  | (_, e) :: ps => listed .read i e ++ listedProperties (countAfter .read e i) ps

end

/-- What a node takes a temporary for. -/
inductive Use where
  /-- For its key, once that is known. -/
  | key
  /-- For its value. -/
  | value
deriving DecidableEq

namespace Listed

/-- What the node lists as on its turn. -/
def fragment (l : Listed) : Fragment :=
  ((Listing.fragment l.purpose l.node).run l.before).1

/-- How many temporaries are taken after the node. -/
def after (l : Listed) : Nat :=
  countAfter l.purpose l.node l.before

/-- The node is a target: a link that is stored into and not read. -/
def isTarget (l : Listed) : Bool :=
  l.node.isLink && l.purpose = .store

/-- The node takes a temporary for this use. -/
def takes (l : Listed) : Use → Bool
  | .key => l.node.hasComputedKey
  | .value => l.node.isLink && !l.isTarget || l.node.isCall || l.node.isAssign

/-- The temporary is the one that the node's fragment has in this use: in place of the key, or as
the value of a node that is more than its parts. -/
inductive Receives (l : Listed) : Use → Nat → Prop where
  | key {owner key : Expr} {style : LinkStyle} {t : Nat} :
      l.node = .index owner key style → literalValue? key = none →
      l.fragment.place = bracketed
        ((Listing.fragment l.purpose.forOwner owner).run l.before).1.value (temporary t) →
      Receives l .key t
  | value {t : Nat} : l.takes .value = true → l.fragment.value = temporary t → Receives l .value t

/-- The number of the temporary that the node takes for a use. The value comes last. -/
def number (l : Listed) : Use → Nat
  | .key => if l.purpose = .store then l.after - 1 else l.after - 2
  | .value => l.after - 1

/-- The uses that the node takes temporaries for, in order. -/
def uses (l : Listed) : List Use :=
  [Use.key, Use.value].filter l.takes

/-- The temporaries that the node takes, in order. -/
def taken (l : Listed) : List Nat :=
  l.uses.map l.number

theorem mem_uses {l : Listed} {use : Use} : use ∈ l.uses ↔ l.takes use = true := by
  cases use <;> simp [uses]

/-- A node that takes a temporary for its key takes one for its value too, unless it is a target. -/
theorem uses_of_key {l : Listed} (computed : l.takes .key = true) :
    l.uses = if l.purpose = .store then [.key] else [.key, .value] := by
  have value : l.takes .value = !decide (l.purpose = .store) := by
    obtain ⟨purpose, node, i⟩ := l
    cases node with
    | index => simp [takes, isTarget, Expr.isLink, Expr.isCall, Expr.isAssign]
    | _ => cases computed
  by_cases store : l.purpose = .store <;> simp [uses, computed, value, store]

theorem taken_eq {l : Listed} {j : Nat} (all : l.after = j + l.uses.length) :
    l.taken = List.range' j (l.after - j) := by
  cases computed : l.takes .key with
  | true =>
      have uses := uses_of_key computed
      by_cases store : l.purpose = .store
      · rw [if_pos store] at uses
        rw [uses] at all
        simp [taken, uses, number, store, all]
      · rw [if_neg store] at uses
        rw [uses] at all
        simp [taken, uses, number, store, all, List.range']
  | false =>
      cases value : l.takes .value with
      | true =>
          have uses : l.uses = [.value] := by simp [Listed.uses, computed, value]
          rw [uses] at all
          simp [taken, uses, number, all]
      | false =>
          have uses : l.uses = [] := by simp [Listed.uses, computed, value]
          rw [uses] at all
          simp [taken, uses, all]

/-- The node takes its temporaries from this one on. -/
structure TakesFrom (l : Listed) (j : Nat) : Prop where
  after : l.after = j + l.uses.length
  receives : ∀ use ∈ l.uses, l.Receives use (l.number use)

section Kinds

variable {purpose : Purpose} {e : Expr} {i j : Nat}

theorem takesFrom_of_no_uses (none : (Listed.mk purpose e i).uses = [])
    (run : ((Listing.fragment purpose e).run i).2 = j) :
    (Listed.mk purpose e i).TakesFrom j where
  after := by rw [none, Listed.after, countAfter, run, List.length_nil, Nat.add_zero]
  receives := by
    rw [none]
    exact nofun

theorem takesFrom_of_value (only : (Listed.mk purpose e i).uses = [.value])
    (run : ((Listing.fragment purpose e).run i).1.value = temporary j ∧
      ((Listing.fragment purpose e).run i).2 = j + 1) : (Listed.mk purpose e i).TakesFrom j := by
  have after : (Listed.mk purpose e i).after = j + 1 := run.2
  constructor
  case after => rw [only, after, List.length_singleton]
  case receives =>
    intro use member
    have takes := mem_uses.mp member
    rw [only] at member
    obtain rfl := List.mem_singleton.mp member
    refine .value takes ?_
    rw [Listed.fragment, run.1, number, after, Nat.add_sub_cancel]

end Kinds

end Listed

section Runs

variable {purpose : Purpose} {i j : Nat} {name : String} {before : List Statement}
  {owner place : String}

theorem place_link : ((link purpose before owner place).run i).1.place = place := by
  unfold link
  split <;> rfl

theorem prefix_link : before <+: ((link purpose before owner place).run i).1.statements := by
  unfold link
  split
  · exact List.prefix_rfl
  · exact ⟨_, (List.append_assoc _ _ _).symm⟩

theorem run_link_store : ((link .store before owner place).run i).2 = i := rfl

theorem run_link_read (read : purpose ≠ .store) :
    ((link purpose before owner place).run i).1.value = temporary i ∧
      ((link purpose before owner place).run i).2 = i + 1 := by
  unfold link
  rw [if_neg read]
  exact ⟨rfl, rfl⟩

theorem run_identifier_read (read : purpose ≠ .store) :
    ((identifier purpose name).run i).1.value = temporary i ∧
      ((identifier purpose name).run i).2 = i + 1 := by
  unfold identifier
  rw [if_neg read]
  exact ⟨rfl, rfl⟩

theorem uses_of_fixed {node : Expr} (isLink : node.isLink = true)
    (fixed : node.hasComputedKey = false) :
    (Listed.mk purpose node i).uses = if purpose = .store then [] else [.value] := by
  have others : node.isCall = false ∧ node.isAssign = false := by
    cases node <;> first | exact ⟨rfl, rfl⟩ | cases isLink
  by_cases store : purpose = .store <;>
    simp [Listed.uses, Listed.takes, Listed.isTarget, isLink, fixed, others, store]

/-- A link whose key is known before takes a temporary if it is read. -/
theorem takesFrom_of_fixed {node : Expr} (isLink : node.isLink = true)
    (fixed : node.hasComputedKey = false)
    (store : purpose = .store → ((fragment purpose node).run i).2 = j)
    (read : purpose ≠ .store → ((fragment purpose node).run i).1.value = temporary j ∧
      ((fragment purpose node).run i).2 = j + 1) : (Listed.mk purpose node i).TakesFrom j := by
  have uses : (Listed.mk purpose node i).uses = if purpose = .store then [] else [.value] :=
    uses_of_fixed isLink fixed
  by_cases stored : purpose = .store
  · rw [if_pos stored] at uses
    exact Listed.takesFrom_of_no_uses uses (store stored)
  · rw [if_neg stored] at uses
    exact Listed.takesFrom_of_value uses (read stored)

theorem takesFrom_identifier : (Listed.mk purpose (.identifier name) i).TakesFrom i := by
  apply takesFrom_of_fixed rfl rfl
  · rintro rfl
    rfl
  · intro read
    rw [fragment]
    exact run_identifier_read read

theorem takesFrom_link {node : Expr} (isLink : node.isLink = true)
    (fixed : node.hasComputedKey = false)
    (run : (fragment purpose node).run i = (link purpose before owner place).run j) :
    (Listed.mk purpose node i).TakesFrom j := by
  apply takesFrom_of_fixed isLink fixed
  · rintro rfl
    rw [run, run_link_store]
  · intro read
    rw [run]
    exact run_link_read read

theorem takesFrom_index {owner key : Expr} {style : LinkStyle} (computed : literalValue? key = none)
    {owner' : String} (run : (fragment purpose (.index owner key style)).run i =
      (link purpose before owner' (bracketed
        ((fragment purpose.forOwner owner).run i).1.value (temporary j))).run (j + 1)) :
    (Listed.mk purpose (.index owner key style) i).TakesFrom j := by
  have takesKey : (Listed.mk purpose (.index owner key style) i).takes .key = true := by
    rw [Listed.takes, Expr.hasComputedKey, computed, Option.isNone_none]
  have uses := Listed.uses_of_key takesKey
  have place : (Listed.mk purpose (.index owner key style) i).fragment.place =
      bracketed ((fragment purpose.forOwner owner).run i).1.value (temporary j) := by
    rw [Listed.fragment, run, place_link]
  by_cases store : purpose = .store
  · rw [if_pos store] at uses
    have after : (Listed.mk purpose (.index owner key style) i).after = j + 1 := by
      rw [Listed.after, countAfter, run, store, run_link_store]
    refine ⟨by rw [uses, after]; rfl, fun use member => ?_⟩
    rw [uses] at member
    obtain rfl := List.mem_singleton.mp member
    refine .key rfl computed ?_
    rw [place, Listed.number, if_pos store, after, Nat.add_sub_cancel]
  · rw [if_neg store] at uses
    have after : (Listed.mk purpose (.index owner key style) i).after = j + 2 := by
      rw [Listed.after, countAfter, run, (run_link_read store).2]
    refine ⟨by rw [uses, after]; rfl, fun use member => ?_⟩
    cases use with
    | key =>
        refine .key rfl computed ?_
        rw [place, Listed.number, if_neg store, after, Nat.add_sub_cancel]
    | value =>
        refine .value (Listed.mem_uses.mp member) ?_
        rw [Listed.fragment, run, (run_link_read store).1, Listed.number, after]
        rfl

end Runs

/-- These nodes take the temporaries from `i` to `j`, in order, and what they list is part of these
statements. There are as many targets among them as there are assignments to links, and `outer`
more, whose assignments are not among them. -/
structure Taking (entries : List Listed) (nodes : List Expr) (statements : List Statement)
    (i j outer : Nat) : Prop where
  listed : entries.map Listed.node = nodes
  le : i ≤ j
  taken : entries.flatMap Listed.taken = List.range' i (j - i)
  receives : ∀ l ∈ entries, ∀ use ∈ l.uses, l.Receives use (l.number use)
  parts : ∀ l ∈ entries, l.fragment.statements <:+: statements
  targets : entries.countP Listed.isTarget = nodes.countP Expr.storesToLink + outer

theorem range'_append_range' {i j k : Nat} (first : i ≤ j) (second : j ≤ k) :
    List.range' i (j - i) ++ List.range' j (k - j) = List.range' i (k - i) := by
  obtain ⟨m, rfl⟩ := Nat.exists_eq_add_of_le first
  obtain ⟨n, rfl⟩ := Nat.exists_eq_add_of_le second
  rw [Nat.add_sub_cancel_left, Nat.add_sub_cancel_left, List.range'_append_1, Nat.add_assoc,
    Nat.add_sub_cancel_left]

namespace Taking

variable {entries entries' : List Listed} {nodes nodes' : List Expr}
  {statements statements' : List Statement} {i j k outer outer' : Nat}

theorem nil : Taking [] [] [] i i 0 where
  listed := rfl
  le := Nat.le_refl i
  taken := by simp
  receives := nofun
  parts := nofun
  targets := rfl

theorem append (first : Taking entries nodes statements i j outer)
    (second : Taking entries' nodes' statements' j k outer') :
    Taking (entries ++ entries') (nodes ++ nodes') (statements ++ statements') i k
      (outer + outer') where
  listed := by rw [List.map_append, first.listed, second.listed]
  le := Nat.le_trans first.le second.le
  taken := by
    rw [List.flatMap_append, first.taken, second.taken, range'_append_range' first.le second.le]
  receives := List.forall_mem_append.mpr ⟨first.receives, second.receives⟩
  parts := List.forall_mem_append.mpr
    ⟨fun l member => (first.parts l member).trans (List.infix_append [] statements statements'),
      fun l member =>
        (second.parts l member).trans (List.suffix_append statements statements').isInfix⟩
  targets := by
    rw [List.countP_append, first.targets, second.targets, List.countP_append]
    omega

/-- A node after those inside it, whose target is one of them if it is an assignment. -/
theorem extend {l : Listed} (inside : Taking entries nodes statements i j outer)
    (takes : l.TakesFrom j) (part : statements <:+: l.fragment.statements)
    (targets : outer + (if l.isTarget then 1 else 0) =
      (if l.node.storesToLink then 1 else 0) + outer') :
    Taking (entries ++ [l]) (nodes ++ [l.node]) l.fragment.statements i l.after outer' := by
  have le : j ≤ l.after := by
    rw [takes.after]
    exact Nat.le_add_right _ _
  constructor
  case listed => rw [List.map_append, inside.listed, List.map_singleton]
  case le => exact Nat.le_trans inside.le le
  case taken =>
    rw [List.flatMap_append, inside.taken, List.flatMap_singleton, Listed.taken_eq takes.after,
      range'_append_range' inside.le le]
  case receives =>
    exact List.forall_mem_append.mpr
      ⟨inside.receives, List.forall_mem_singleton.mpr takes.receives⟩
  case parts =>
    exact List.forall_mem_append.mpr ⟨fun l member => (inside.parts l member).trans part,
      List.forall_mem_singleton.mpr List.infix_rfl⟩
  case targets =>
    rw [List.countP_append, List.countP_append, inside.targets, List.countP_singleton,
      List.countP_singleton]
    omega

/-- A node that is no assignment to a link, after those inside it, all of which are read. -/
theorem extend_read {e : Expr} {purpose : Purpose} (inside : Taking entries nodes statements i j 0)
    (takes : (Listed.mk purpose e i).TakesFrom j) (other : e.storesToLink = false)
    (part : statements <:+: ((fragment purpose e).run i).1.statements) :
    Taking (entries ++ [⟨purpose, e, i⟩]) (nodes ++ [e]) ((fragment purpose e).run i).1.statements
      i (countAfter purpose e i) (if purpose = .store ∧ e.isLink then 1 else 0) := by
  refine inside.extend takes part ?_
  simp [Listed.isTarget, other, and_comm]

theorem of_read {e : Expr} {purpose : Purpose} (read : purpose ≠ .store)
    (taking : Taking entries nodes statements i j
      (if purpose = .store ∧ e.isLink then 1 else 0)) : Taking entries nodes statements i j 0 := by
  rwa [if_neg fun store => read store.1] at taking

end Taking

theorem forOwner_ne_store (purpose : Purpose) : purpose.forOwner ≠ .store := by
  cases purpose <;> exact nofun

theorem forBody_ne_store (purpose : Purpose) : purpose.forBody ≠ .store := by
  cases purpose <;> exact nofun

mutual

/-- **A tree takes consecutive temporaries.** Each node starts where those inside it have stopped,
and the next one where it stops. -/
theorem taking_listed (e : Expr) (purpose : Purpose) (i : Nat) :
    Taking (listed purpose i e) e.nodes ((fragment purpose e).run i).1.statements i
      (countAfter purpose e i) (if purpose = .store ∧ e.isLink then 1 else 0) := by
  cases e with
  | program body =>
      have inside := (taking_listed body purpose.forBody i).of_read (forBody_ne_store purpose)
      refine inside.extend_read (Listed.takesFrom_of_no_uses rfl ?_) rfl ?_
      · rw [fragment]
        rfl
      · rw [fragment]
        exact List.infix_rfl
  | literal value =>
      refine Taking.nil.extend_read (Listed.takesFrom_of_no_uses rfl ?_) rfl List.nil_infix
      rw [fragment]
      rfl
  | self =>
      refine Taking.nil.extend_read (Listed.takesFrom_of_no_uses rfl ?_) rfl List.nil_infix
      rw [fragment]
      rfl
  | identifier name => exact Taking.nil.extend_read takesFrom_identifier rfl List.nil_infix
  | array elements =>
      refine (taking_listedList elements i).extend_read (Listed.takesFrom_of_no_uses rfl ?_) rfl ?_
      · rw [fragment]
        rfl
      · rw [fragment]
        exact List.infix_rfl
  | object properties =>
      refine (taking_listedProperties properties i).extend_read
        (Listed.takesFrom_of_no_uses rfl ?_) rfl ?_
      · rw [fragment]
        rfl
      · rw [fragment]
        exact List.infix_rfl
  | member owner name =>
      have inside := (taking_listed owner purpose.forOwner i).of_read (forOwner_ne_store purpose)
      refine inside.extend_read ?_ rfl ?_
      · apply takesFrom_link rfl rfl
        rw [fragment]
        rfl
      · rw [fragment]
        exact ((List.prefix_append _ _).trans prefix_link).isInfix
  | index owner key style =>
      have first := (taking_listed owner purpose.forOwner i).of_read (forOwner_ne_store purpose)
      have second :=
        (taking_listed key .read (countAfter purpose.forOwner owner i)).of_read (by decide)
      cases computed : literalValue? key with
      | some value =>
          have fixed : (Expr.index owner key style).hasComputedKey = false := by
            rw [Expr.hasComputedKey, computed, Option.isNone_some]
          refine (first.append second).extend_read ?_ rfl ?_
          · apply takesFrom_link rfl fixed
            rw [fragment, computed]
            rfl
          · rw [fragment, computed]
            exact ((List.prefix_append _ _).trans prefix_link).isInfix
      | none =>
          refine (first.append second).extend_read ?_ rfl ?_
          · apply takesFrom_index computed
            rw [fragment, computed]
            rfl
          · rw [fragment, computed]
            exact ((List.prefix_append _ _).trans prefix_link).isInfix
  | call callee operands =>
      have first := (taking_listed callee .read i).of_read (by decide)
      have second := taking_listedList operands (countAfter .read callee i)
      refine (first.append second).extend_read (Listed.takesFrom_of_value rfl ?_) rfl ?_
      · rw [fragment]
        exact ⟨rfl, rfl⟩
      · rw [fragment]
        exact (List.prefix_append _ _).isInfix
  | assign target value =>
      have first := taking_listed target .store i
      have second := (taking_listed value .read (countAfter .store target i)).of_read (by decide)
      refine (first.append second).extend (l := ⟨purpose, .assign target value, i⟩)
        (Listed.takesFrom_of_value rfl ?_) ?_ ?_
      · rw [fragment]
        exact ⟨rfl, rfl⟩
      · rw [Listed.fragment, fragment]
        exact (List.prefix_append _ _).isInfix
      · -- a target that is a link was counted from outside, and here is its assignment
        have none : (Expr.assign target value).isLink = false := rfl
        by_cases link : target.isLink = true <;>
          simp [Listed.isTarget, Expr.storesToLink, none, link]
  | unary operator operand =>
      have inside := (taking_listed operand .read i).of_read (by decide)
      refine inside.extend_read (Listed.takesFrom_of_no_uses rfl ?_) rfl ?_
      · rw [fragment]
        rfl
      · rw [fragment]
        exact List.infix_rfl

theorem taking_listedList (es : List Expr) (i : Nat) :
    Taking (listedList i es) (Expr.nodesOfList es)
      (((fragments es).run i).1.flatMap Fragment.statements) i (countAfterList es i) 0 := by
  cases es with
  | nil =>
      rw [countAfterList, fragments]
      exact .nil
  | cons e es =>
      rw [countAfterList, fragments]
      have first := (taking_listed e .read i).of_read (by decide)
      exact first.append (taking_listedList es (countAfter .read e i))

theorem taking_listedProperties (ps : List (PropertyKey × Expr)) (i : Nat) :
    Taking (listedProperties i ps) (Expr.nodesOfProperties ps)
      (((propertyFragments ps).run i).1.flatMap fun p => p.2.statements) i
      (countAfterProperties ps i) 0 := by
  match ps with
  | [] =>
      rw [countAfterProperties, propertyFragments]
      exact .nil
  | (key, e) :: ps =>
      rw [countAfterProperties, propertyFragments]
      have first := (taking_listed e .read i).of_read (by decide)
      exact first.append (taking_listedProperties ps (countAfter .read e i))

end

namespace Listed

theorem Receives.takes {l : Listed} {use : Use} {t : Nat} (receives : l.Receives use t) :
    l.takes use = true := by
  cases receives with
  | key here computed => rw [Listed.takes, here, Expr.hasComputedKey, computed, Option.isNone_none]
  | value takes _ => exact takes

theorem Receives.unique {l : Listed} {use : Use} {t t' : Nat} (receives : l.Receives use t)
    (receives' : l.Receives use t') : t = t' := by
  cases receives with
  | key here computed place =>
      cases receives' with
      | key here' computed' place' =>
          cases here.symm.trans here'
          exact temporary_injective (bracketed_inj.mp (place.symm.trans place'))
  | value _ value =>
      cases receives' with
      | value _ value' => exact temporary_injective (value.symm.trans value')

/-- How many temporaries a node takes, by its kind. -/
theorem length_uses (l : Listed) :
    l.uses.length + (if l.isTarget then 1 else 0) =
      (if l.node.isLink then 1 else 0) + (if l.node.hasComputedKey then 1 else 0) +
        (if l.node.isCall then 1 else 0) + (if l.node.isAssign then 1 else 0) := by
  have length : l.uses.length =
      (if l.takes .key then 1 else 0) + (if l.takes .value then 1 else 0) := by
    cases key : l.takes .key <;> cases value : l.takes .value <;> simp [uses, key, value]
  rw [length]
  obtain ⟨purpose, node, i⟩ := l
  by_cases store : purpose = .store <;> cases node <;>
    simp [takes, isTarget, Expr.isLink, Expr.hasComputedKey, Expr.isCall, Expr.isAssign, store,
      Nat.add_comm]

/-- How many temporaries nodes take, by their kinds. -/
theorem length_taken (entries : List Listed) :
    (entries.flatMap taken).length + entries.countP isTarget =
      (entries.map node).countP Expr.isLink + (entries.map node).countP Expr.hasComputedKey +
        (entries.map node).countP Expr.isCall + (entries.map node).countP Expr.isAssign := by
  induction entries with
  | nil => rfl
  | cons l entries ih =>
      have here := l.length_uses
      simp only [List.flatMap_cons, List.length_append, List.map_cons, List.countP_cons, taken,
        List.length_map] at ih ⊢
      omega

end Listed

theorem eq_of_nodup_flatMap {α β : Type} {f : α → List β} {as : List α}
    (nodup : (as.flatMap f).Nodup) {k k' : Nat} {a a' : α} (found : as[k]? = some a)
    (found' : as[k']? = some a') {b : β} (member : b ∈ f a) (member' : b ∈ f a') : k = k' := by
  have apart := List.pairwise_iff_getElem.mp (List.nodup_flatMap.mp nodup).2
  obtain ⟨within, rfl⟩ := List.getElem?_eq_some_iff.mp found
  obtain ⟨within', rfl⟩ := List.getElem?_eq_some_iff.mp found'
  rcases Nat.lt_trichotomy k k' with before | same | after
  · exact absurd member' (apart k k' within within' before member)
  · exact same
  · exact absurd member (apart k' k within' within after member')

namespace Taking

variable {entries : List Listed} {nodes : List Expr} {statements : List Statement}
  {i j outer t : Nat}

/-- What a node receives is among what it takes. -/
theorem number_eq (taking : Taking entries nodes statements i j outer) {l : Listed}
    (member : l ∈ entries) {use : Use} (receives : l.Receives use t) :
    use ∈ l.uses ∧ l.number use = t := by
  have uses := Listed.mem_uses.mpr receives.takes
  exact ⟨uses, (taking.receives l member use uses).unique receives⟩

/-- The temporaries that are received are those that are taken. -/
theorem received_iff (taking : Taking entries nodes statements i j outer) :
    (∃ l ∈ entries, ∃ use, l.Receives use t) ↔ i ≤ t ∧ t < j := by
  have le := taking.le
  have bounds : t ∈ entries.flatMap Listed.taken ↔ i ≤ t ∧ t < j := by
    rw [taking.taken, List.mem_range'_1]
    omega
  rw [← bounds, List.mem_flatMap]
  refine exists_congr fun l => and_congr_right fun member => ?_
  rw [Listed.taken, List.mem_map]
  constructor
  · exact fun ⟨use, receives⟩ => ⟨use, taking.number_eq member receives⟩
  · rintro ⟨use, uses, rfl⟩
    exact ⟨use, taking.receives l member use uses⟩

theorem eq_of_receives (taking : Taking entries nodes statements i j outer) {k k' : Nat}
    {l l' : Listed} {use use' : Use} (found : entries[k]? = some l)
    (found' : entries[k']? = some l') (receives : l.Receives use t)
    (receives' : l'.Receives use' t) : k = k' ∧ use = use' := by
  have nodup : (entries.flatMap Listed.taken).Nodup := by
    rw [taking.taken]
    exact List.nodup_range'
  have taken := taking.number_eq (List.mem_of_getElem? found) receives
  have taken' := taking.number_eq (List.mem_of_getElem? found') receives'
  obtain rfl := eq_of_nodup_flatMap nodup found found'
    (List.mem_map.mpr ⟨use, taken⟩) (List.mem_map.mpr ⟨use', taken'⟩)
  obtain rfl := Option.some.inj (found.symm.trans found')
  have once := (List.nodup_flatMap.mp nodup).1 l (List.mem_of_getElem? found)
  exact ⟨rfl, List.inj_on_of_nodup_map once taken.1 taken'.1 (taken.2.trans taken'.2.symm)⟩

theorem countP_storesToLink_le (taking : Taking entries nodes statements i j outer) :
    nodes.countP Expr.storesToLink ≤ nodes.countP Expr.isLink := by
  have le : entries.countP Listed.isTarget ≤ entries.countP (Expr.isLink ∘ Listed.node) :=
    List.countP_mono_left fun l _ target => (Bool.and_eq_true_iff.mp target).1
  rw [taking.targets, ← List.countP_map, taking.listed] at le
  exact Nat.le_of_add_right_le le

end Taking

end Listing

open Listing

/-- The temporaries of the listing of a tree. -/
structure DeclaresTemporaries (listing : Listing) (tree : Expr) : Prop where
  /-- There is one for each link that is no target, each key that is computed, each call and each
  assignment. -/
  count : listing.temporaries =
    tree.nodes.countP Expr.isLink - tree.nodes.countP Expr.storesToLink +
      tree.nodes.countP Expr.hasComputedKey + tree.nodes.countP Expr.isCall +
      tree.nodes.countP Expr.isAssign
  targets : tree.nodes.countP Expr.storesToLink ≤ tree.nodes.countP Expr.isLink
  declared : listing.declared =
    (List.range listing.temporaries).map fun i => "v" ++ toString i
  nodup : listing.declared.Nodup
  /-- They are declared at the head of the text, unless there are none. -/
  head : listing.text = "function(s, l) \x7b " ++
    (if listing.temporaries = 0 then "" else "var " ++ ", ".intercalate listing.declared ++ "; ") ++
    " ".intercalate (listing.statements.map Statement.text ++
      ["return " ++ listing.result ++ ";"]) ++ " \x7d"
  /-- The nodes of the tree, each with what it is listed for and after how many temporaries. What
  each lists is part of the listing. -/
  nodes : (listed .read 0 tree).map Listed.node = tree.nodes
  parts : ∀ l ∈ listed .read 0 tree, l.fragment.statements <:+: listing.statements
  /-- Each node receives a temporary for each of its uses, and every temporary is received. -/
  receives : ∀ l ∈ listed .read 0 tree, ∀ use, l.takes use = true →
    ∃ t < listing.temporaries, l.Receives use t
  received : ∀ t < listing.temporaries, ∃ l ∈ listed .read 0 tree, ∃ use, l.Receives use t
  /-- No two nodes receive the same temporary, and no node receives it twice. -/
  apart {k k' t : Nat} {l l' : Listed} {use use' : Use} :
    (listed .read 0 tree)[k]? = some l → (listed .read 0 tree)[k']? = some l' →
    l.Receives use t → l'.Receives use' t → k = k' ∧ use = use'

/-- **Temporaries are numbered and not shared.** A listing declares as many temporaries as its tree
has links that are read, computed keys, calls and assignments, by number and each one once; every
one of them is received by a single node, for a single use. -/
theorem declaresTemporaries (tree : Expr) :
    DeclaresTemporaries (Evaluator.ofExpr tree).listing tree := by
  have same : (Evaluator.ofExpr tree).listing = Listing.of tree := Evaluator.listing_body tree
  have taking : Taking (listed .read 0 tree) tree.nodes (Listing.of tree).statements 0
      (Listing.of tree).temporaries 0 := (taking_listed tree .read 0).of_read (by decide)
  have count := Listed.length_taken (listed .read 0 tree)
  rw [taking.taken, List.length_range', taking.listed, taking.targets] at count
  have targets := taking.countP_storesToLink_le
  rw [same]
  constructor
  case count => omega
  case targets => exact targets
  case declared => rfl
  case nodup => exact List.nodup_range.map temporary_injective
  case head => rfl
  case nodes => exact taking.listed
  case parts => exact taking.parts
  case receives =>
    intro l member use takes
    have receives := taking.receives l member use (Listed.mem_uses.mpr takes)
    exact ⟨l.number use, (taking.received_iff.mp ⟨l, member, use, receives⟩).2, receives⟩
  case received => exact fun t below => taking.received_iff.mpr ⟨Nat.zero_le t, below⟩
  case apart => exact taking.eq_of_receives

/-- Three identifiers, a key that is not known, the link that it is the key of, and a call. -/
example : (Evaluator.ofExpr (.call (.index (.identifier "a") (.identifier "b") .bracketed)
    [.unary .minus (.identifier "c")])).listing.temporaries = 6 :=
  rfl

end GuardedExpr
