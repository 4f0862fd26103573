import GuardedExpr.Proofs.ChainAssignment
import GuardedExpr.Proofs.ReadOnly

/-!
# Assignments that stop on the way

On the way to its target, an assignment makes the links that are missing. Then a
name, a value or a store may still be refused, and what was made stays. However
far an assignment comes, and wherever the chain meets itself in the heap, only
slots that a link of the chain names are given objects, gaps before these slots
are filled, and everything else is as it was.
-/

namespace GuardedExpr

open Run

namespace Expr

/-- The expression is an identifier or ends with a link. -/
def isLink : Expr → Bool
  | identifier _ | member _ _ | index _ _ _ => true
  | _ => false

/-- The links of the chain that the expression ends, from the first one on. -/
def chainLinks : Expr → List Expr
  | program body => body.chainLinks
  | identifier name => [identifier name]
  | member owner name => owner.chainLinks ++ [member owner name]
  | index owner key style => owner.chainLinks ++ [index owner key style]
  | _ => []

/-- What the last link of the expression is a link of. -/
def owner? : Expr → Option Expr
  | member owner _ | index owner _ _ => some owner
  | _ => none

/-- The links on the way to the last one. -/
def way (e : Expr) : List Expr :=
  (e.owner?.map chainLinks).getD []

variable {σ : Type}

/-- Once the links before it are made, the link denotes the slot of the container. -/
def Names (access : Access σ) (context : Context) (w : World σ) (link : Expr) (c : Container)
    (slot : Slot) : Prop :=
  ∃ key found v, (link.locate access context .store).outcome w =
    (.ok (.slot c.value key found), v) ∧ c.slot? key = some slot

/-- One of the links denotes the slot of the container. -/
def NamedBy (access : Access σ) (context : Context) (w : World σ) (links : List Expr)
    (c : Container) (slot : Slot) : Prop :=
  ∃ link ∈ links, link.Names access context w c slot

end Expr

namespace Heap

/-- The slot was missing or nullish, and now it holds an object that was made in between. -/
structure MadeAt (named : Container → Slot → Prop) (h h' : Heap) (c : Container) (slot : Slot) :
    Prop where
  named : named c slot
  missing : ∀ v, h.child? c slot = some v → v.isNullish = true
  holds : ∃ o, (Value.object o).MadeBetween h h' ∧ h'.child? c slot = some (.object o)

/-- The slot has been stored into, or it lies in a gap before a slot of the same array that has been
stored into. -/
inductive FilledUpTo (Stored : Container → Slot → Prop) (h h' : Heap) (c : Container)
    (slot : Slot) : Prop where
  | stored (stored : Stored c slot)
  | gap (last : Slot) (stored : Stored c last) (before : slot.isBefore last = true)
      (missing : h.child? c slot = none) (filled : h'.child? c slot = some .undefined)

/-- A slot after a store holds what it held, or it is the slot stored into, or a gap before that is
filled. -/
theorem Puts.cases {h h' : Heap} {c : Container} {target : Slot} {v : Value}
    (put : Puts h h' c target v) (slot : Slot) :
    h'.child? c slot = h.child? c slot ∨ slot = target ∨
      slot.isBefore target = true ∧ h.child? c slot = none ∧
        h'.child? c slot = some .undefined := by
  have held := put slot
  by_cases same : slot = target
  · exact .inr (.inl same)
  · rw [if_neg same] at held
    by_cases before : slot.isBefore target = true
    · rw [if_pos before] at held
      cases there : h.child? c slot with
      | none =>
          rw [there] at held
          exact .inr (.inr ⟨before, rfl, held⟩)
      | some u =>
          rw [there] at held
          exact .inl held
    · rw [if_neg before] at held
      exact .inl held

theorem Puts.self {h h' : Heap} {c : Container} {target : Slot} {v : Value}
    (put : Puts h h' c target v) : h'.child? c target = some v :=
  (put target).trans (if_pos rfl)

end Heap

/-- Missing links that are named may have been made since a world, and nothing else has happened to
what was there. -/
structure World.Vivified {σ : Type} (named : Container → Slot → Prop) (before w : World σ) :
    Prop where
  grows : before.heap.next ≤ w.heap.next
  host : w.host = before.host
  slots : ∀ c : Container, c.id < before.heap.next → ∀ slot,
    w.heap.child? c slot = before.heap.child? c slot ∨
      Heap.FilledUpTo (before.heap.MadeAt named w.heap) before.heap w.heap c slot

namespace World.Vivified

variable {σ : Type} {named : Container → Slot → Prop} {before w u : World σ}

theorem refl (w : World σ) : w.Vivified named w :=
  ⟨Nat.le_refl _, rfl, fun _ _ _ => .inl rfl⟩

/-- What has become of a slot stays so while the slots of its container do, as far as they hold what
was made. -/
theorem keep {h h' m : Heap} {c : Container} {slot : Slot}
    (stays : ∀ other, h.MadeAt named m c other → h.MadeAt named h' c other)
    (same : h'.child? c slot = m.child? c slot)
    (became : m.child? c slot = h.child? c slot ∨
      Heap.FilledUpTo (h.MadeAt named m) h m c slot) :
    h'.child? c slot = h.child? c slot ∨ Heap.FilledUpTo (h.MadeAt named h') h h' c slot := by
  rcases became with kept | made | ⟨last, made, first, missing, filled⟩
  · exact .inl (same.trans kept)
  · exact .inr (.stored (stays slot made))
  · exact .inr (.gap last (stays last made) first missing (same.trans filled))

/-- Reading on changes nothing of it. -/
theorem then_untouched (vivified : before.Vivified named w) (untouched : w.Untouched u) :
    before.Vivified named u where
  grows := Nat.le_trans vivified.grows untouched.changes.grows
  host := untouched.host.trans vivified.host
  slots := by
    intro c old slot
    have kept (slot : Slot) : u.heap.child? c slot = w.heap.child? c slot :=
      untouched.changes.kept c
        ⟨Nat.lt_of_lt_of_le old vivified.grows, Set.notMem_empty _⟩ slot
    refine keep (fun other made => ?_) (kept slot) (vivified.slots c old slot)
    obtain ⟨o, new, holds⟩ := made.holds
    exact ⟨made.named, made.missing, o, new.mono untouched.changes.grows, (kept other).trans holds⟩

/-- A slot that nothing was stored into since holds what it held, so what is missing now was missing
before. -/
theorem missing_before (vivified : before.Vivified named w) {c : Container}
    (old : c.id < before.heap.next) {slot : Slot}
    (missing : ∀ v, w.heap.child? c slot = some v → v.isNullish = true) :
    ∀ v, before.heap.child? c slot = some v → v.isNullish = true := by
  intro v there
  rcases vivified.slots c old slot with kept | made | ⟨_, _, _, none, _⟩
  · exact missing v (kept.trans there)
  · exact made.missing v there
  · rw [none] at there
    cases there

theorem none_before (vivified : before.Vivified named w) {c : Container}
    (old : c.id < before.heap.next) {slot : Slot} (none : w.heap.child? c slot = none) :
    before.heap.child? c slot = .none := by
  rcases vivified.slots c old slot with kept | made | ⟨_, _, _, missing, _⟩
  · exact kept.symm.trans none
  · obtain ⟨o, _, holds⟩ := made.holds
    rw [none] at holds
    cases holds
  · exact missing

/-- **Storing.** Besides the links that may have been made, the slot that is stored into and the gap
before it are all that changes. -/
theorem store (vivified : before.Vivified named w) {c : Container} {slot : Slot} {key : String}
    (fits : c.slot? key = some slot) (v : Value) {Stored : Container → Slot → Prop}
    (stored : c.id < before.heap.next → Stored c slot) {d : Container}
    (old : d.id < before.heap.next) (other : Slot) :
    (w.heap.putChild c slot v).child? d other = before.heap.child? d other ∨
      Heap.FilledUpTo (before.heap.MadeAt named (w.heap.putChild c slot v)) before.heap
        (w.heap.putChild c slot v) d other ∨
      Heap.FilledUpTo Stored before.heap (w.heap.putChild c slot v) d other := by
  have put := Heap.puts_putChild_of_slot? (h := w.heap) fits v
  have stays {d : Container} {third : Slot}
      (same : (w.heap.putChild c slot v).child? d third = w.heap.child? d third)
      (made : before.heap.MadeAt named w.heap d third) :
      before.heap.MadeAt named (w.heap.putChild c slot v) d third := by
    obtain ⟨o, new, holds⟩ := made.holds
    exact ⟨made.named, made.missing, o, new.mono (Heap.next_putChild w.heap c slot v).ge,
      same.trans holds⟩
  by_cases here : d = c
  · subst here
    rcases put.cases other with same | rfl | ⟨first, none, filled⟩
    · rcases vivified.slots d old other with kept | made | ⟨last, made, first, missing, filled⟩
      · exact .inl (same.trans kept)
      · exact .inr (.inl (.stored (stays same made)))
      · rcases put.cases last with same' | rfl | ⟨_, none, _⟩
        · exact .inr (.inl (.gap last (stays same' made) first missing (same.trans filled)))
        · exact .inr (.inr (.gap last (stored old) first missing (same.trans filled)))
        · obtain ⟨o, _, holds⟩ := made.holds
          rw [none] at holds
          cases holds
    · exact .inr (.inr (.stored (stored old)))
    · exact .inr (.inr (.gap slot (stored old) first (vivified.none_before old none) filled))
  · have same (third : Slot) := Heap.child?_putChild_of_ne w.heap here slot v third
    have became := keep (fun third => stays (same third)) (same other)
      (vivified.slots d old other)
    exact became.imp_right .inl

/-- **Making a link.** A new object in a slot that is named and missing is one of the changes that
may have happened. -/
theorem make (vivified : before.Vivified named w) {c : Container} {slot : Slot} {key : String}
    (fits : c.slot? key = some slot) (isNamed : named c slot)
    (missing : c.id < before.heap.next →
      ∀ v, w.heap.child? c slot = some v → v.isNullish = true) {o : ObjectRef}
    (new : (Value.object o).MadeBetween before.heap w.heap) :
    before.Vivified named { w with heap := w.heap.putChild c slot (.object o) } where
  grows := by
    rw [Heap.next_putChild]
    exact vivified.grows
  host := vivified.host
  slots := by
    intro d old other
    have target (old : c.id < before.heap.next) :
        before.heap.MadeAt named (w.heap.putChild c slot (.object o)) c slot :=
      ⟨isNamed, vivified.missing_before old (missing old), o,
        new.mono (Heap.next_putChild w.heap c slot _).ge,
        (Heap.puts_putChild_of_slot? fits (.object o)).self⟩
    rcases vivified.store fits (.object o) target old other with kept | made | made
    · exact .inl kept
    · exact .inr made
    · exact .inr made

end World.Vivified

/-- What holds after a run that fails and after what follows a run that ends well holds at the
end. -/
theorem Run.bind_leaves {σ α β : Type} {P : World σ → Prop} {m : Run σ α} {f : α → Run σ β}
    {w : World σ} (failed : ∀ e v, m.outcome w = (.error e, v) → P v)
    (goesOn : ∀ a v, m.outcome w = (.ok a, v) → P ((f a).outcome v).2) :
    P ((m >>= f).outcome w).2 := by
  rcases ran : m.outcome w with ⟨e | a, v⟩
  · rw [Run.outcome_bind_error ran]
    exact failed e v ran
  · rw [Run.outcome_bind_ok ran]
    exact goesOn a v ran

/-- A second part that changes nothing leaves what the first one does. -/
theorem Run.bind_leaves_first {σ α β : Type} {P : World σ → Prop} {m : Run σ α} {f : α → Run σ β}
    {w : World σ} (first : P (m.outcome w).2) (same : ∀ a v, ((f a).outcome v).2 = v) :
    P ((m >>= f).outcome w).2 := by
  refine bind_leaves (fun e v failed => ?_) fun a v ran => ?_
  · rw [failed] at first
    exact first
  · rw [ran] at first
    rw [same]
    exact first

namespace Expr

section Links

variable {σ : Type} {access : Access σ} {context : Context}

/-- Goes to the owner and the key of the last link, with the links on the way made. -/
def approach (access : Access σ) (context : Context) : Expr → Run σ (Value × String)
  | .identifier name => do
    return (context.owner (← Run.heap) name, name)
  | .member owner name => do
    let owner := (← owner.locate access context .make).value
    return (owner, name)
  | .index owner key _ => do
    let owner := (← owner.locate access context .make).value
    let key := (← key.locate access context .read).value
    return (owner, (← Run.heap).text key)
  | _ => Run.fail .notAssignable

/-- A link that is not just read is approached first. -/
theorem locate_eq_approach {e : Expr} (link : e.isLink = true) {purpose : Purpose}
    (writes : purpose.forOwner = .make) :
    e.locate access context purpose =
      e.approach access context >>= fun p => memberPlace access purpose p.1 p.2 := by
  cases e with
  | identifier name =>
      rw [locate, approach]
      simp only [bind_assoc, pure_bind]
  | member owner name =>
      rw [locate, approach, writes]
      simp only [bind_assoc, pure_bind]
  | index owner key style =>
      rw [locate, approach, writes]
      simp only [bind_assoc, pure_bind]
  | _ => cases link

end Links

section Runs

variable {σ : Type} {named : Container → Slot → Prop} {before u : World σ}
  (run : Invocation → Run σ Value)

theorem untouched_lookUp (owner : Value) (key : String) (u : World σ) :
    u.Untouched (outcome
      (if owner.isTruthy then (Access.direct run).read owner key else pure .undefined) u).2 := by
  split
  · rw [Access.direct_read, outcome_onHeap]
    exact ⟨u.heap.changedWithin_readMember owner key, rfl⟩
  · exact .refl u

/-- What is missing under a key of a container is a slot that is missing, or the key names none. -/
theorem outcome_lookUp_of_container {c : Container} {key : String} {found : Value} {v : World σ}
    (looked : outcome (if c.value.isTruthy then (Access.direct run).read c.value key
      else pure .undefined) u = (.ok found, v)) :
    v = u ∧ ∀ slot, c.slot? key = some slot → found = (u.heap.child? c slot).getD .undefined := by
  rw [if_pos (isTruthy_value c), Access.direct_read, outcome_onHeap] at looked
  obtain ⟨found_eq, world_eq⟩ := Prod.mk.inj looked
  obtain rfl := Except.ok.inj found_eq
  constructor
  · rw [← world_eq]
    cases c <;> rfl
  · intro slot fits
    rw [Heap.readMember_of_slot? fits]

/-- A missing link is made where it is named. -/
theorem vivified_makeMissing (vivified : before.Vivified named u) {owner found : Value}
    {key : String} (isNamed : ∀ c slot, owner = c.value → c.slot? key = some slot → named c slot)
    (looked : ∀ c slot, owner = c.value → c.slot? key = some slot →
      found = (u.heap.child? c slot).getD .undefined) :
    before.Vivified named (outcome (makeMissing (Access.direct run) owner key found) u).2 := by
  by_cases makes : (found.isNullish && owner.isContainer) = true
  · obtain ⟨missing, container⟩ := Bool.and_eq_true_iff.mp makes
    obtain ⟨c, rfl⟩ : ∃ c : Container, owner = c.value := by
      cases owner with
      | array a => exact ⟨.array a, rfl⟩
      | object o => exact ⟨.object o, rfl⟩
      | _ => cases container
    have new : u.Untouched { u with heap := (u.heap.newObject .plain []).2 } :=
      ⟨u.heap.changedWithin_newObject [], rfl⟩
    rw [outcome_makeMissing run u key missing container]
    cases fits : c.slot? key with
    | none =>
        rw [Heap.writeMember_of_slot?_eq_none fits]
        exact vivified.then_untouched new
    | some slot =>
        rw [Heap.writeMember_of_slot? fits]
        by_cases inRange : slot.inRange = true
        · rw [if_pos inRange]
          refine (vivified.then_untouched new).make fits (isNamed c slot rfl fits) ?_ ?_
          · intro old v there
            have kept := new.changes.kept c
              ⟨Nat.lt_of_lt_of_le old vivified.grows, Set.notMem_empty _⟩ slot
            rw [looked c slot rfl fits, ← kept, there] at missing
            exact missing
          · exact ⟨rfl, vivified.grows, Nat.lt_succ_self _⟩
        · rw [if_neg inRange]
          exact vivified.then_untouched new
  · have kept : makeMissing (Access.direct run) owner key found = pure found := if_neg makes
    rw [kept]
    exact vivified

theorem vivified_readLink (vivified : before.Vivified named u) (purpose : Purpose) {owner : Value}
    {key : String} (isNamed : ∀ c slot, owner = c.value → c.slot? key = some slot → named c slot) :
    before.Vivified named (outcome (readLink (Access.direct run) purpose owner key) u).2 := by
  have looks := vivified.then_untouched (untouched_lookUp run owner key u)
  rw [readLink_eq]
  refine bind_leaves (fun e v failed => ?_) fun found v read => ?_
  · rw [failed] at looks
    exact looks
  · rw [read] at looks
    have guards (u : Value) (v : World σ) : (outcome (guardObject u) v).2 = v := by
      rw [outcome_guardObject_eq]
    refine bind_leaves_first ?_ guards
    split
    · refine vivified_makeMissing run looks isNamed fun c slot same fits => ?_
      subst same
      obtain ⟨rfl, found_eq⟩ := outcome_lookUp_of_container run read
      exact found_eq slot fits
    · exact looks

/-- Going along a link makes it where it is named. -/
theorem vivified_memberPlace (vivified : before.Vivified named u) {owner : Value} {key : String}
    (isNamed : ∀ c slot, key ∉ forbiddenNames → owner = c.value → c.slot? key = some slot →
      named c slot) :
    before.Vivified named (outcome (memberPlace (Access.direct run) .make owner key) u).2 := by
  by_cases forbidden : key ∈ forbiddenNames
  · rw [memberPlace_of_forbidden forbidden]
    exact vivified
  · rw [memberPlace_eq_readLink (by decide) forbidden]
    refine bind_leaves_first ?_ fun _ _ => rfl
    exact vivified_readLink run vivified .make fun c slot => isNamed c slot forbidden

omit before named in
/-- A target is not made. -/
theorem outcome_memberPlace_store (access : Access σ) (owner : Value) (key : String)
    (u : World σ) : (outcome (memberPlace access .store owner key) u).2 = u := by
  by_cases forbidden : key ∈ forbiddenNames
  · rw [memberPlace_of_forbidden forbidden]
    rfl
  · rw [memberPlace_store forbidden]
    rfl

end Runs

section Chain

variable {σ : Type} (run : Invocation → Run σ Value) (context : Context) {w : World σ}
  {links : List Expr}

/-- On the way to the last link, its owner is made as far as it is missing, and its key is read. -/
theorem vivified_approach {e : Expr} (reads : e.OnlyReads) {named : Container → Slot → Prop}
    (owners : ∀ owner, e.owner? = some owner →
      w.Vivified named (outcome (owner.locate (Access.direct run) context .make) w).2) :
    w.Vivified named (outcome (e.approach (Access.direct run) context) w).2 := by
  cases e with
  | member owner name => exact bind_leaves_first (owners owner rfl) fun _ _ => rfl
  | index owner key style =>
      have made := owners owner rfl
      refine bind_leaves (fun e u failed => ?_) fun place u ran => ?_
      · rw [failed] at made
        exact made
      · rw [ran] at made
        refine bind_leaves_first ?_ fun _ _ => rfl
        have keyed := (untouched_keeps run context u).locate key .read (.inl rfl) fun node inside =>
          reads node (by simp [nodes, inside])
        exact made.then_untouched (keyed u (.refl u)).1
  | _ => exact .refl w

/-- A link of the chain is made where it is named, after the links before it. -/
theorem vivified_link {e : Expr} (link : e.isLink = true) (listed : e ∈ links)
    (approached : w.Vivified (NamedBy (Access.direct run) context w links)
      (outcome (e.approach (Access.direct run) context) w).2) :
    w.Vivified (NamedBy (Access.direct run) context w links)
      (outcome (e.locate (Access.direct run) context .make) w).2 := by
  rw [locate_eq_approach link rfl]
  refine bind_leaves (fun e u failed => ?_) fun p u ran => ?_
  · rw [failed] at approached
    exact approached
  · obtain ⟨owner, key⟩ := p
    rw [ran] at approached
    refine vivified_memberPlace run approached fun c slot allowed same fits => ?_
    refine ⟨e, listed, key, .undefined, u, ?_, fits⟩
    rw [locate_eq_approach link rfl, outcome_bind_ok ran, memberPlace_store allowed, ← same]
    rfl

/-- **The links on the way are made where they are named.** By induction on the chain. -/
theorem vivified_locate (e : Expr) (reads : e.OnlyReads)
    (listed : ∀ link ∈ e.chainLinks, link ∈ links) :
    w.Vivified (NamedBy (Access.direct run) context w links)
      (outcome (e.locate (Access.direct run) context .make) w).2 := by
  have plain (same : e.locate (Access.direct run) context .make =
      e.locate (Access.direct run) context .read) :
      w.Vivified (NamedBy (Access.direct run) context w links)
        (outcome (e.locate (Access.direct run) context .make) w).2 := by
    rw [same]
    have kept := (untouched_keeps run context w).locate e .read (.inl rfl) reads
    exact (World.Vivified.refl w).then_untouched (kept w (.refl w)).1
  match e with
  | .program body =>
      rw [locate]
      have inner := vivified_locate body (fun node inside => reads node (by simp [nodes, inside]))
        listed
      exact bind_leaves_first inner fun _ _ => rfl
  | .identifier name =>
      refine vivified_link run context rfl (listed _ List.mem_cons_self) ?_
      exact vivified_approach run context reads fun _ none => by cases none
  | .member owner name =>
      have inner := vivified_locate owner (fun node inside => reads node (by simp [nodes, inside]))
        fun link there => listed link (List.mem_append_left _ there)
      refine vivified_link run context rfl (listed _ (by simp [chainLinks])) ?_
      exact vivified_approach run context reads fun _ same => Option.some.inj same ▸ inner
  | .index owner key style =>
      have inner := vivified_locate owner (fun node inside => reads node (by simp [nodes, inside]))
        fun link there => listed link (List.mem_append_left _ there)
      refine vivified_link run context rfl (listed _ (by simp [chainLinks])) ?_
      exact vivified_approach run context reads fun _ same => Option.some.inj same ▸ inner
  | .literal _ | .array _ | .object _ | .self | .call _ _ | .assign _ _ | .unary _ _ =>
      exact plain (by rw [locate, locate])

/-- Up to its target, an assignment makes the links on the way. -/
theorem vivified_target {e : Expr} (link : e.isLink = true) (reads : e.OnlyReads) :
    w.Vivified (NamedBy (Access.direct run) context w e.way)
      (outcome (e.locate (Access.direct run) context .store) w).2 := by
  rw [locate_eq_approach link rfl]
  refine bind_leaves_first (vivified_approach run context reads fun owner same => ?_) fun _ _ =>
    outcome_memberPlace_store _ _ _ _
  have inside : ∀ node ∈ owner.nodes, node ∈ e.nodes := by
    intro node there
    cases e with
    | member _ _ =>
        obtain rfl := Option.some.inj same
        simp [nodes, there]
    | index _ _ _ =>
        obtain rfl := Option.some.inj same
        simp [nodes, there]
    | _ => cases same
  refine vivified_locate run context owner (fun node there => reads node (inside node there)) ?_
  rw [way, same]
  exact fun _ there => there

end Chain

end Expr

/-- **What an assignment leaves.** If it fails, it leaves the world that its way to the target
leaves: the value has no part in it, and missing links are made where they are named. If it ends
well, the value is in the slot that the target names, and besides that only links are made. -/
def ChangesOnlyNamed {σ : Type} (access : Access σ) (context : Context) (e : Expr) (v : Value)
    (w : World σ) : Except Error Value × World σ → Prop
  | (.error _, after) =>
    after = ((e.locate access context .store).outcome w).2 ∧
      w.Vivified (Expr.NamedBy access context w e.way) after
  | (.ok result, after) =>
    let Stored (c : Container) (slot : Slot) : Prop :=
      e.Names access context w c slot ∧ after.heap.child? c slot = some v
    result = v ∧ after.host = w.host ∧ (∃ c slot, Stored c slot) ∧
      ∀ c : Container, c.id < w.heap.next → ∀ slot,
        after.heap.child? c slot = w.heap.child? c slot ∨
          Heap.FilledUpTo
            (w.heap.MadeAt (Expr.NamedBy access context w e.way) after.heap)
            w.heap after.heap c slot ∨
          Heap.FilledUpTo Stored w.heap after.heap c slot

/-- At a place that has been found, the value is put into a slot of a container, or nothing is. -/
theorem outcome_guardObject_store {σ : Type} (run : Invocation → Run σ Value) (place : Place)
    (v : Value) (u : World σ) :
    (∃ error, (do
        let v ← Expr.guardObject v
        Expr.store (Access.direct run) place v
        return v).outcome u = (.error error, u)) ∨
    ∃ c slot key found, place = .slot c.value key found ∧ c.slot? key = some slot ∧
      slot.inRange = true ∧ (do
        let v ← Expr.guardObject v
        Expr.store (Access.direct run) place v
        return v).outcome u = (.ok v, { u with heap := u.heap.putChild c slot v }) := by
  have guarded := Expr.outcome_guardObject_eq v u
  cases passes : Guard.object u.heap v with
  | error error =>
      rw [passes] at guarded
      exact .inl ⟨_, outcome_bind_error guarded⟩
  | ok v' =>
      obtain rfl := Guard.eq_of_object passes
      rw [passes] at guarded
      rw [outcome_bind_ok guarded]
      cases place with
      | plain _ => exact .inl ⟨_, rfl⟩
      | slot owner key found =>
          have written : (Expr.store (Access.direct run) (.slot owner key found) v).outcome u = _ :=
            Expr.outcome_write run owner v key u
          cases stored : u.heap.writeMember owner key v with
          | error error =>
              rw [stored] at written
              exact .inl ⟨_, outcome_bind_error written⟩
          | ok h =>
              rw [stored] at written
              obtain ⟨c, slot, rfl, fits, inRange, rfl⟩ := Heap.exists_slot?_of_writeMember stored
              exact .inr ⟨c, slot, key, found, rfl, fits, inRange, outcome_bind_ok written⟩

/-- **Assignments change what they name.** However the chain meets itself in the heap, a container
that was there holds what it held, up to missing links on the way that have become new objects, the
slot that the target names, and the gaps before them. An assignment that fails has only made links,
and it has not stored the value. -/
theorem assign_changesOnlyNamed {σ : Type} (run : Invocation → Run σ Value) (context : Context)
    (e : Evaluator) (link : e.body.isLink = true) (reads : e.body.OnlyReads) (v : Value)
    (w : World σ) :
    ChangesOnlyNamed (Access.direct run) context e.body v w
      ((e.assign (Access.direct run) context v).outcome w) := by
  have assignable : e.isAssignable = true := by
    unfold Evaluator.isAssignable
    cases body : e.body <;> first | rfl | simp [body, Expr.isLink] at link
  have vivified := Expr.vivified_target run context (w := w) link reads
  unfold Evaluator.assign
  rw [if_pos assignable]
  rcases located : (e.body.locate (Access.direct run) context .store).outcome w with ⟨x | place, u⟩
  · rw [outcome_bind_error located]
    rw [located] at vivified
    exact ⟨by rw [located], vivified⟩
  · rw [located] at vivified
    rw [outcome_bind_ok located]
    rcases outcome_guardObject_store run place v u with
      ⟨x, refused⟩ | ⟨c, slot, key, found, rfl, fits, _, stored⟩
    · rw [refused]
      exact ⟨by rw [located], vivified⟩
    · rw [stored]
      have names : e.body.Names (Access.direct run) context w c slot :=
        ⟨key, found, u, located, fits⟩
      have put := Heap.puts_putChild_of_slot? (h := u.heap) fits v
      refine ⟨rfl, vivified.host, ⟨c, slot, names, put.self⟩, fun d old other => ?_⟩
      exact vivified.store fits v (fun _ => ⟨names, put.self⟩) old other

/-- A link that is null is made, so are the missing ones below it, and then a name is refused. -/
theorem assign_changesOnlyNamed_refused :
    ∃ (run : Invocation → Run Unit Value) (context : Context) (e : Evaluator) (w : World Unit),
      e.body.isLink = true ∧ e.body.OnlyReads ∧
      ChangesOnlyNamed (Access.direct run) context e.body .null w
        ((e.assign (Access.direct run) context .null).outcome w) ∧
      ((e.assign (Access.direct run) context .null).outcome w).1 =
        .error (.security (.memberName "constructor")) ∧
      ((e.assign (Access.direct run) context .null).outcome w).2.heap.property
        ⟨0, .plain⟩ "a" = .object ⟨1, .plain⟩ ∧
      ((e.assign (Access.direct run) context .null).outcome w).2.heap.property
        ⟨1, .plain⟩ "b" = .object ⟨2, .plain⟩ := by
  let run : Invocation → Run Unit Value := fun _ => return .undefined
  let context : Context := ⟨.object ⟨0, .plain⟩, .undefined⟩
  let e : Evaluator :=
    ⟨"", .member (.member (.member (.identifier "a") "b") "c") "constructor"⟩
  let w : World Unit := ⟨(Heap.empty.newObject .plain [("a", .null)]).2, ()⟩
  have reads : e.body.OnlyReads := by
    simp [e, Expr.OnlyReads, Expr.nodes, Expr.isCall, Expr.isAssign]
  refine ⟨run, context, e, w, rfl, reads, ?_, ?_, ?_, ?_⟩
  · exact assign_changesOnlyNamed run context e rfl reads .null w
  · cbv
  · cbv
  · cbv

end GuardedExpr
