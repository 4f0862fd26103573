import Mathlib
import GuardedExpr.Evaluator
import GuardedExpr.Proofs.Agreement
import GuardedExpr.Proofs.Parsing
import GuardedExpr.Proofs.Unrolling

/-!
# Assignment along a chain of keys

Storing a scalar under a chain of keys does to the scope what the update of a
document along the keys does to its document. The evaluator goes down the chain
container by container and makes what is missing; the children that it does not
go into lie elsewhere in the heap, so one step down is the same step in the
document, and the steps add up by induction on the chain.
-/

namespace GuardedExpr

open Grammar Run

/-- A chain of keys: an identifier, and links with a fixed name or a string in brackets. -/
inductive Expr.IsChain : Expr → List String → Prop where
  | identifier (name : String) : IsChain (.identifier name) [name]
  | member {owner : Expr} {keys : List String} (chain : IsChain owner keys) (name : String) :
      IsChain (.member owner name) (keys ++ [name])
  | index {owner : Expr} {keys : List String} (chain : IsChain owner keys) (key : String) :
      IsChain (.index owner (.literal (.string key)) .bracketed) (keys ++ [key])

/-- How a chain of keys is written: an identifier that is no keyword, and each further key after a
dot or as a string in brackets. -/
inductive SpellsChain : List Token → List String → Prop where
  | identifier {name : List Char} {i : Nat} (free : String.ofList name ∉ keywords) :
      SpellsChain [⟨.identifier name, i⟩] [String.ofList name]
  | dotted {tokens : List Token} {keys : List String} {name : List Char} {i k : Nat}
      (chain : SpellsChain tokens keys) :
      SpellsChain (tokens ++ [⟨.symbol .dot, i⟩, ⟨.identifier name, k⟩])
        (keys ++ [String.ofList name])
  | bracketed {tokens : List Token} {keys : List String} {text value : List Char} {i k l : Nat}
      (chain : SpellsChain tokens keys) :
      SpellsChain (tokens ++
          [⟨.symbol .openBracket, i⟩, ⟨.string text value, k⟩, ⟨.symbol .closeBracket, l⟩])
        (keys ++ [String.ofList value])

theorem SpellsChain.exists_isChain {tokens : List Token} {keys : List String}
    (spelled : SpellsChain tokens keys) : ∃ e, Primary tokens e ∧ e.IsChain keys := by
  induction spelled with
  | identifier free => exact ⟨_, .base (.word (.identifier free)), .identifier _⟩
  | dotted _ ih =>
      obtain ⟨owner, spelled, chain⟩ := ih
      exact ⟨_, .member spelled, .member chain _⟩
  | @bracketed tokens keys text value i k l _ ih =>
      obtain ⟨owner, spelled, chain⟩ := ih
      have key : Assignment [⟨.string text value, k⟩] (.literal (.string (String.ofList value))) :=
        .operand (.primary (.base (.word (.literal .string))))
      exact ⟨_, .index spelled key, .index chain _⟩

/-- A text that is written as a chain is read as that chain. -/
theorem isChain_of_ofText {text : String} {limit : Nat} {e : Evaluator} {tokens : List Token}
    {keys : List String} (compiled : Evaluator.ofText text limit = .ok e)
    (lexed : tokenize text = .ok tokens) (spelled : SpellsChain tokens keys) :
    e.body.IsChain keys := by
  obtain ⟨chain, primary, isChain⟩ := spelled.exists_isChain
  unfold Evaluator.ofText at compiled
  cases parsed : parse text limit with
  | error e => simp [parsed] at compiled
  | ok tree =>
      simp only [parsed, Except.ok.injEq] at compiled
      subst compiled
      obtain ⟨tokens', lexed', read⟩ := parse_eq_ok_iff.mp parsed
      obtain rfl := Except.ok.inj (lexed.symm.trans lexed')
      have plain := Token.isPlain_of_tokenize lexed
      obtain ⟨body, rfl, assignment, _⟩ := (parseTokens_eq_ok_iff plain).mp read
      rw [Expr.body, assignment.unique plain (.operand (.primary primary))]
      exact isChain

/-- A text is compiled to what its tokens spell. -/
theorem ofText_of_spelled {text : String} {limit : Nat} {tokens : List Token} {body : Expr}
    (lexed : tokenize text = .ok tokens) (spelled : Assignment tokens body)
    (fits : body.nesting ≤ limit) : Evaluator.ofText text limit = .ok ⟨text, body⟩ := by
  unfold Evaluator.ofText
  rw [parse_of_spelled lexed spelled fits]
  rfl

/-- A name and one link with a string as its key are compiled to an item of what the name holds. -/
theorem ofText_of_item {text key : String} {limit : Nat} {name written : List Char} {i j k l : Nat}
    (lexed : tokenize text = .ok [⟨.identifier name, i⟩, ⟨.symbol .openBracket, j⟩,
      ⟨.string written key.toList, k⟩, ⟨.symbol .closeBracket, l⟩])
    (free : String.ofList name ∉ keywords) (wide : 3 ≤ limit) :
    Evaluator.ofText text limit = .ok
      ⟨text, .index (.identifier (String.ofList name)) (.literal (.string key)) .bracketed⟩ := by
  have owner : Primary [⟨.identifier name, i⟩] (.identifier (String.ofList name)) :=
    .base (.word (.identifier free))
  have word : Assignment [⟨.string written key.toList, k⟩]
      (.literal (.string (String.ofList key.toList))) :=
    .operand (.primary (.base (.word (.literal .string))))
  rw [String.ofList_toList] at word
  refine ofText_of_spelled lexed (.operand (.primary (Primary.index owner word :))) ?_
  simpa [Expr.nesting, Expr.links] using wide

/-- A text that is written as a chain is read under every limit that its tokens cannot reach. -/
theorem exists_ofText_of_spellsChain {text : String} {limit : Nat} {tokens : List Token}
    {keys : List String} (lexed : tokenize text = .ok tokens) (spelled : SpellsChain tokens keys)
    (wide : tokens.length ≤ limit) : ∃ e, Evaluator.ofText text limit = .ok e := by
  obtain ⟨chain, primary, _⟩ := spelled.exists_isChain
  have assignment : Assignment tokens chain := .operand (.primary primary)
  exact ⟨_, ofText_of_spelled lexed assignment (Nat.le_trans assignment.nesting_le_length wide)⟩

namespace Run

variable {σ α β : Type}

theorem ext {m n : Run σ α} (same : ∀ w, outcome m w = outcome n w) : m = n :=
  funext same

theorem outcome_bind_ok {m : Run σ α} {f : α → Run σ β} {w w' : World σ} {a : α}
    (ran : outcome m w = (.ok a, w')) : outcome (m >>= f) w = outcome (f a) w' := by
  rw [outcome_bind, ran]

theorem outcome_bind_error {m : Run σ α} {f : α → Run σ β} {w w' : World σ} {e : Error}
    (ran : outcome m w = (.error e, w')) : outcome (m >>= f) w = (.error e, w') := by
  rw [outcome_bind, ran]

end Run

namespace Expr

variable {σ : Type} {access : Access σ}

/-- Goes from a value along keys, each read for the same purpose. -/
def follow (access : Access σ) (purpose : Purpose) : Value → List String → Run σ Value
  | v, [] => return v
  | v, key :: keys => do follow access purpose (← memberPlace access purpose v key).value keys

/-- Stores a value under the last key of a chain, from the value that the chain starts at. -/
def storeAlong (access : Access σ) (owner : Value) (keys : List String) (last : String)
    (v : Value) : Run σ Value := do
  let owner ← follow access .make owner keys
  let place ← memberPlace access .store owner last
  let v ← guardObject v
  store access place v
  return v

theorem follow_append (purpose : Purpose) (v : Value) (keys : List String) (last : String) :
    follow access purpose v (keys ++ [last]) = do
      let owner ← follow access purpose v keys
      return (← memberPlace access purpose owner last).value := by
  induction keys generalizing v with
  | nil => simp [follow]
  | cons key keys ih => simp [follow, ih]

/-- A chain starts at the scope and denotes the place under its last key. -/
theorem IsChain.locate_eq {e : Expr} {keys : List String} (chain : e.IsChain keys)
    (access : Access σ) (scope : Value) : ∃ init last, keys = init ++ [last] ∧ ∀ purpose,
      e.locate access ⟨scope, .undefined⟩ purpose =
        follow access purpose.forOwner scope init >>= fun owner =>
          memberPlace access purpose owner last := by
  induction chain with
  | identifier name =>
      refine ⟨[], name, rfl, fun purpose => ?_⟩
      apply Run.ext
      intro w
      rfl
  | member chain name ih =>
      obtain ⟨init, last, rfl, located⟩ := ih
      refine ⟨init ++ [last], name, rfl, fun purpose => ?_⟩
      have again : purpose.forOwner.forOwner = purpose.forOwner := by cases purpose <;> rfl
      simp only [locate, located, follow_append, again, bind_assoc, pure_bind]
  | index chain key ih =>
      obtain ⟨init, last, rfl, located⟩ := ih
      refine ⟨init ++ [last], key, rfl, fun purpose => ?_⟩
      have again : purpose.forOwner.forOwner = purpose.forOwner := by cases purpose <;> rfl
      have text (owner : Value) : (do
          let key := (← (literal (.string key)).locate access ⟨scope, .undefined⟩ .read).value
          memberPlace access purpose owner ((← Run.heap).text key)) =
            memberPlace access purpose owner key := by
        apply Run.ext
        intro w
        rfl
      rw [locate, located]
      simp only [text, follow_append, again, bind_assoc, pure_bind]

section Steps

variable {run : Invocation → Run σ Value} {w : World σ} {v u found : Value} {key last : String}
  {keys : List String}

theorem guardName_eq_pure (allowed : key ∉ forbiddenNames) :
    (guardName key : Run σ String) = pure key := by
  unfold guardName
  rw [Guard.name_eq_ok_iff.mpr allowed]
  rfl

theorem outcome_guardObject (passes : w.heap.forbidden? v = none) :
    outcome (guardObject v) w = (.ok v, w) := by
  unfold guardObject
  rw [outcome_bind_ok (outcome_heap w)]
  unfold Guard.object
  rw [passes]
  rfl

theorem forbidden?_of_isScalar {h : Heap} (scalar : v.isScalar = true) :
    h.forbidden? v = none := by
  cases v with
  | object o => cases scalar
  | function f => cases scalar
  | _ => rfl

/-- A link is looked up, made if that is what it is evaluated for, and guarded. -/
theorem readLink_eq (purpose : Purpose) (owner : Value) (key : String) :
    readLink access purpose owner key =
      (if owner.isTruthy then access.read owner key else pure .undefined) >>= fun found =>
        (if purpose = .make then makeMissing access owner key found else pure found) >>=
          guardObject := by
  unfold readLink
  by_cases truthy : owner.isTruthy = true
  · rw [if_pos truthy, if_pos truthy]
    by_cases make : purpose = .make
    · simp only [if_pos make]
    · simp only [if_neg make]
  · rw [if_neg truthy, if_neg truthy]
    by_cases make : purpose = .make
    · simp only [if_pos make]
    · simp only [if_neg make]

theorem memberPlace_eq_readLink {purpose : Purpose} (reads : purpose ≠ .store)
    (allowed : key ∉ forbiddenNames) : memberPlace access purpose u key =
      readLink access purpose u key >>= fun v => pure (.slot u key v) := by
  unfold memberPlace
  rw [guardName_eq_pure allowed, pure_bind, if_neg reads]

theorem memberPlace_store (allowed : key ∉ forbiddenNames) :
    memberPlace access .store u key = pure (.slot u key .undefined) := by
  unfold memberPlace
  rw [guardName_eq_pure allowed, pure_bind, if_pos rfl]

theorem follow_cons {purpose : Purpose} (reads : purpose ≠ .store)
    (allowed : key ∉ forbiddenNames) :
    follow access purpose u (key :: keys) =
      readLink access purpose u key >>= fun v => follow access purpose v keys := by
  rw [follow, memberPlace_eq_readLink reads allowed]
  simp only [bind_assoc, pure_bind, Place.value]

theorem storeAlong_nil (allowed : last ∉ forbiddenNames) :
    storeAlong access u [] last v =
      guardObject v >>= fun v => access.write u last v >>= fun _ => pure v := by
  unfold storeAlong follow
  rw [pure_bind, memberPlace_store allowed, pure_bind]
  rfl

theorem storeAlong_cons (allowed : key ∉ forbiddenNames) :
    storeAlong access u (key :: keys) last v =
      readLink access .make u key >>= fun u => storeAlong access u keys last v := by
  unfold storeAlong
  rw [follow_cons (by decide) allowed, bind_assoc]

theorem outcome_write (run : Invocation → Run σ Value) (u v : Value) (key : String) (w : World σ) :
    outcome ((Access.direct run).write u key v) w =
      match w.heap.writeMember u key v with
      | .ok h => (.ok (), { w with heap := h })
      | .error e => (.error (.runtime e), w) :=
  outcome_onHeapOrFail (fun h => h.writeMember u key v) w

theorem outcome_lookUp (read : w.heap.readMember u key = (found, w.heap))
    (truthy : u.isTruthy = true) :
    outcome (if u.isTruthy then (Access.direct run).read u key else pure .undefined) w =
      (.ok found, w) := by
  rw [if_pos truthy]
  change outcome (Run.onHeap fun h => h.readMember u key) w = _
  rw [outcome_onHeap, read]

/-- A link has the value that its owner has under the key. -/
theorem outcome_readLink_read (read : w.heap.readMember u key = (found, w.heap))
    (truthy : u.isTruthy = true) (passes : w.heap.forbidden? found = none) :
    outcome (readLink (Access.direct run) .read u key) w = (.ok found, w) := by
  rw [readLink_eq, outcome_bind_ok (outcome_lookUp read truthy), if_neg (by decide), pure_bind]
  exact outcome_guardObject passes

/-- On the way to a target, a link that is not missing is kept. -/
theorem outcome_readLink_kept (read : w.heap.readMember u key = (found, w.heap))
    (truthy : u.isTruthy = true) (there : found.isNullish = false)
    (passes : w.heap.forbidden? found = none) :
    outcome (readLink (Access.direct run) .make u key) w = (.ok found, w) := by
  have kept : makeMissing (Access.direct run) u key found = pure found := by
    unfold makeMissing
    rw [there]
    rfl
  rw [readLink_eq, outcome_bind_ok (outcome_lookUp read truthy), if_pos rfl, kept, pure_bind]
  exact outcome_guardObject passes

/-- A missing link of a container is an empty object that is made first and stored then. -/
theorem outcome_makeMissing (run : Invocation → Run σ Value) (w : World σ) (key : String)
    (missing : found.isNullish = true) (container : u.isContainer = true) :
    outcome (makeMissing (Access.direct run) u key found) w =
      match (w.heap.newObject .plain []).2.writeMember u key
          (.object (w.heap.newObject .plain []).1) with
      | .ok m => (.ok (.object (w.heap.newObject .plain []).1), { w with heap := m })
      | .error e => (.error (.runtime e), { w with heap := (w.heap.newObject .plain []).2 }) := by
  have made : outcome ((Access.direct run).makeObject []) w =
      (.ok (.object (w.heap.newObject .plain []).1),
        { w with heap := (w.heap.newObject .plain []).2 }) := rfl
  have written := outcome_write run u (.object (w.heap.newObject .plain []).1) key
    { w with heap := (w.heap.newObject .plain []).2 }
  unfold makeMissing
  rw [missing, container, Bool.and_true, if_pos rfl, outcome_bind_ok made]
  cases stored : (w.heap.newObject .plain []).2.writeMember u key
      (.object (w.heap.newObject .plain []).1) with
  | ok m =>
      rw [stored] at written
      rw [outcome_bind_ok written]
      rfl
  | error e =>
      rw [stored] at written
      exact outcome_bind_error written

/-- A scalar has scalars for members, and none of them is made. -/
theorem outcome_readLink_scalar (run : Invocation → Run σ Value) (w : World σ) (key : String)
    (scalar : u.isScalar = true) :
    ∃ v, v.isScalar = true ∧
      outcome (readLink (Access.direct run) .make u key) w = (.ok v, w) := by
  obtain ⟨found, isScalar, looked⟩ : ∃ found, found.isScalar = true ∧
      outcome (if u.isTruthy then (Access.direct run).read u key else pure .undefined) w =
        (.ok found, w) := by
    by_cases truthy : u.isTruthy = true
    · obtain ⟨found, isScalar, read⟩ : ∃ found, found.isScalar = true ∧
          w.heap.readMember u key = (found, w.heap) := by
        cases u with
        | string s => exact ⟨_, Heap.isScalar_stringMember s key, rfl⟩
        | array a => cases scalar
        | object o => cases scalar
        | function f => cases scalar
        | _ => exact ⟨.undefined, rfl, rfl⟩
      exact ⟨found, isScalar, outcome_lookUp read truthy⟩
    · rw [if_neg truthy]
      exact ⟨.undefined, rfl, rfl⟩
  have kept : makeMissing (Access.direct run) u key found = pure found := by
    have noContainer : u.isContainer = false := by
      cases u with
      | array a => cases scalar
      | object o => cases scalar
      | _ => rfl
    unfold makeMissing
    rw [noContainer, Bool.and_false]
    rfl
  refine ⟨found, isScalar, ?_⟩
  rw [readLink_eq, outcome_bind_ok looked, if_pos rfl, kept, pure_bind]
  exact outcome_guardObject (forbidden?_of_isScalar isScalar)

/-- Nothing can be stored below a scalar, and nothing is changed by trying. -/
theorem outcome_storeAlong_scalar (run : Invocation → Run σ Value) (w : World σ)
    (scalar : u.isScalar = true) (passes : w.heap.forbidden? v = none)
    (allowed : ∀ key ∈ keys ++ [last], key ∉ forbiddenNames) :
    outcome (storeAlong (Access.direct run) u keys last v) w =
      (.error (.runtime (.cannotSetProperty last)), w) := by
  induction keys generalizing u with
  | nil =>
      have refused : w.heap.writeMember u last v = .error (.cannotSetProperty last) := by
        cases u with
        | array a => cases scalar
        | object o => cases scalar
        | _ => rfl
      have failed : outcome ((Access.direct run).write u last v) w =
          (.error (.runtime (.cannotSetProperty last)), w) := by
        rw [outcome_write, refused]
      rw [storeAlong_nil (allowed last (by simp)), outcome_bind_ok (outcome_guardObject passes)]
      exact outcome_bind_error failed
  | cons key keys ih =>
      obtain ⟨u', scalar', read⟩ := outcome_readLink_scalar run w key scalar
      rw [storeAlong_cons (allowed key (by simp)), outcome_bind_ok read]
      exact ih scalar' fun key there => allowed key (List.mem_cons_of_mem _ there)

end Steps

section Layouts

variable {run : Invocation → Run σ Value} {w : World σ} {j value : Json} {val : Value}
  {c : Container} {ids : Set Nat} {part : Slot → Set Nat} {slot : Slot} {key last : String}
  {keys : List String}

theorem isTruthy_value (c : Container) : c.value.isTruthy = true := by
  cases c <;> rfl

theorem isContainer_value (c : Container) : c.value.isContainer = true := by
  cases c <;> rfl

/-- Under a key without a slot, an array has a scalar, or nothing that can be made. -/
theorem outcome_readLink_of_no_slot (run : Invocation → Run σ Value) (w : World σ)
    (fits : j.Fits c) (none : j.slot? key = none) :
    (∃ u, u.isScalar = true ∧
      outcome (readLink (Access.direct run) .make c.value key) w = (.ok u, w)) ∨
    outcome (readLink (Access.direct run) .make c.value key) w =
      (.error (.runtime (.cannotSetProperty key)),
        { w with heap := (w.heap.newObject .plain []).2 }) := by
  obtain ⟨same, scalar⟩ := Heap.readMember_of_no_slot (h := w.heap) fits none
  have read : w.heap.readMember c.value key = ((w.heap.readMember c.value key).1, w.heap) :=
    Prod.ext rfl same
  cases missing : (w.heap.readMember c.value key).1.isNullish with
  | false =>
      exact .inl ⟨_, scalar, outcome_readLink_kept read (isTruthy_value c) missing
        (forbidden?_of_isScalar scalar)⟩
  | true =>
      have failed := outcome_makeMissing run w key missing (isContainer_value c)
      rw [Heap.writeMember_of_no_slot fits none] at failed
      right
      rw [readLink_eq, outcome_bind_ok (outcome_lookUp read (isTruthy_value c)), if_pos rfl]
      exact outcome_bind_error failed

/-- A missing link of a container is stored and guarded on the way. -/
theorem outcome_readLink_make (run : Invocation → Run σ Value) (parted : w.heap.Parted j c ids part)
    (below : ids ⊆ Set.Iio w.heap.next) (named : j.slot? key = some slot)
    (inRange : slot.inRange = true) :
    ∃ m u new, outcome (readLink (Access.direct run) .make c.value key) w =
        (.ok u, { w with heap := m }) ∧
      Heap.Linked w.heap m j c part slot u new := by
  have read := Heap.readMember_of_fits (h := w.heap) parted.fits named
  cases missing : ((w.heap.child? c slot).getD .undefined).isNullish with
  | false =>
      obtain ⟨u, found⟩ : ∃ u, w.heap.child? c slot = some u := by
        cases found : w.heap.child? c slot with
        | none => simp [found, Value.isNullish] at missing
        | some u => exact ⟨u, rfl⟩
      rw [found, Option.getD_some] at missing read
      have linked := parted.linked_of_found found missing
      exact ⟨w.heap, u, _, outcome_readLink_kept read (isTruthy_value c) missing
        linked.unrolls.forbidden?_eq_none, linked⟩
  | true =>
      have linked := parted.linked_of_missing below named missing
      have made := outcome_makeMissing run w key missing (isContainer_value c)
      rw [Heap.writeMember_of_fits parted.fits named inRange] at made
      refine ⟨_, _, _, ?_, linked⟩
      rw [readLink_eq, outcome_bind_ok (outcome_lookUp read (isTruthy_value c)), if_pos rfl,
        outcome_bind_ok made]
      exact outcome_guardObject linked.unrolls.forbidden?_eq_none

/-- **The run does what the update does.** Where there is an updated document, the run stores the
value, changes the layout and new places only, and leaves a layout of that document in which the
chain is read back. Where there is none, it fails at a key of the chain and leaves every layout as
it is. -/
def Refines (access : Access σ) (w : World σ) (u val : Value) (ids : Set Nat) (keys : List String)
    (updated : Option Json) (result : Except Error Value × World σ) : Prop :=
  match updated with
  | some j => ∃ h, result = (.ok val, ⟨h, w.host⟩) ∧ Heap.ChangedWithin ids w.heap h ∧
      h.Unrolls j u (ids ∪ Set.Ico w.heap.next h.next) ∧
      outcome (follow access .read u keys) ⟨h, w.host⟩ = (.ok val, ⟨h, w.host⟩)
  | none => ∃ key h, key ∈ keys ∧
      result = (.error (.runtime (.cannotSetProperty key)), ⟨h, w.host⟩) ∧
      Heap.ChangedWithin ∅ w.heap h

/-- What is read under a key in a layout, if it holds the value in its slot. -/
theorem outcome_follow_cons {u : Value} (fits : j.Fits c) (named : j.slot? key = some slot)
    (found : w.heap.child? c slot = some u) (passes : w.heap.forbidden? u = none)
    (allowed : key ∉ forbiddenNames) :
    outcome (follow (Access.direct run) .read c.value (key :: keys)) w =
      outcome (follow (Access.direct run) .read u keys) w := by
  have read := Heap.readMember_of_fits (h := w.heap) fits named
  rw [found, Option.getD_some] at read
  rw [follow_cons (by decide) allowed]
  exact outcome_bind_ok (outcome_readLink_read read (isTruthy_value c) passes)

/-- Below a scalar there is no update, and the run fails. -/
theorem refines_storeAlong_scalar (run : Invocation → Run σ Value) (w : World σ) {u : Value}
    (scalar : val.isScalar = true) (owner : u.isScalar = true) (none : ∀ key, j.slot? key = .none)
    (allowed : ∀ key ∈ keys ++ [last], key ∉ forbiddenNames) :
    Refines (Access.direct run) w u val ids (keys ++ [last]) (j.update? (keys ++ [last]) value)
      (outcome (storeAlong (Access.direct run) u keys last val) w) := by
  have failed := outcome_storeAlong_scalar run w owner (forbidden?_of_isScalar scalar) allowed
  have undefined : j.update? (keys ++ [last]) value = .none := by
    cases keys with
    | nil => exact Json.update?_cons_of_no_slot (none last) [] value
    | cons key keys => exact Json.update?_cons_of_no_slot (none key) (keys ++ [last]) value
  rw [undefined]
  exact ⟨last, w.heap, by simp, failed, .refl ∅ w.heap⟩

/-- Storing under one key puts the value into the slot that the key names. -/
theorem refines_storeAlong_nil (run : Invocation → Run σ Value) (scalar : val.isScalar = true)
    (given : val ≠ .undefined) (unrolls : ∀ h : Heap, h.Unrolls value val ∅)
    (parted : w.heap.Parted j c ids part) (below : ids ⊆ Set.Iio w.heap.next)
    (allowed : last ∉ forbiddenNames) (other : last ≠ "children")
    (counted : j.staysInRange [last] = true) :
    Refines (Access.direct run) w c.value val ids [last] (j.update? [last] value)
      (outcome (storeAlong (Access.direct run) c.value [] last val) w) := by
  have guarded := outcome_guardObject (forbidden?_of_isScalar (h := w.heap) scalar)
  have written := outcome_write run c.value val last w
  rw [storeAlong_nil allowed, outcome_bind_ok guarded]
  cases named : j.slot? last with
  | none =>
      rw [Json.update?_cons_of_no_slot named]
      rw [Heap.writeMember_of_no_slot parted.fits named] at written
      exact ⟨last, w.heap, by simp, outcome_bind_error written, .refl ∅ w.heap⟩
  | some slot =>
      rw [Json.staysInRange_cons named, Bool.and_eq_true] at counted
      rw [Json.update?_cons_of_slot named, Json.update?, Option.map_some]
      rw [Heap.writeMember_of_fits parted.fits named counted.1] at written
      have put := Heap.puts_putChild (h := w.heap) parted.fits named val
      have changed := Heap.changedWithin_putChild w.heap c slot val
      have rest : (ids \ part slot) \ {c.id} ⊆ Set.Iio w.heap.next \ {c.id} := by
        rintro id ⟨⟨mine, _⟩, elsewhere⟩
        exact ⟨below mine, elsewhere⟩
      have whole := parted.putChild named other put (changed.kept.mono rest)
        (unrolls (w.heap.putChild c slot val)) given (Set.empty_disjoint _)
      refine ⟨_, outcome_bind_ok written, changed.mono ?_, whole.unrolls.mono ?_, ?_⟩
      · exact Set.singleton_subset_iff.mpr parted.own
      · exact Set.union_subset_union_right ids (Set.empty_subset _)
      · exact outcome_follow_cons parted.fits named ((put slot).trans (if_pos rfl))
          (forbidden?_of_isScalar scalar) allowed

/-- Going one key down to a child, the run refines the update if it does so from the child on. -/
theorem refines_storeAlong_cons (run : Invocation → Run σ Value)
    (parted : w.heap.Parted j c ids part) (below : ids ⊆ Set.Iio w.heap.next)
    (allowed : key ∉ forbiddenNames) (other : key ≠ "children") (named : j.slot? key = some slot)
    (inRange : slot.inRange = true)
    (child : ∀ m u new, Heap.Linked w.heap m j c part slot u new →
      Refines (Access.direct run) { w with heap := m } u val new (keys ++ [last])
        ((Json.link (j.child? slot)).update? (keys ++ [last]) value)
        (outcome (storeAlong (Access.direct run) u keys last val) { w with heap := m })) :
    Refines (Access.direct run) w c.value val ids (key :: (keys ++ [last]))
      (j.update? (key :: (keys ++ [last])) value)
      (outcome (storeAlong (Access.direct run) c.value (key :: keys) last val) w) := by
  obtain ⟨m, u, new, read, linked⟩ := outcome_readLink_make run parted below named inRange
  have child := child m u new linked
  rw [Json.update?_cons_of_slot named, storeAlong_cons allowed, outcome_bind_ok read]
  cases updated : (Json.link (j.child? slot)).update? (keys ++ [last]) value with
  | none =>
      rw [updated] at child
      obtain ⟨failing, h, there, failed, changed⟩ := child
      refine ⟨failing, h, List.mem_cons_of_mem _ there, failed, ?_⟩
      rcases linked.kept with kept | made
      · exact kept.trans changed (Set.empty_subset _)
      · have always := Json.isSome_update?_nil (keys ++ [last]) value
        rw [← made, updated] at always
        cases always
  | some j' =>
      rw [updated] at child
      obtain ⟨h, done, after, unrolls, readBack⟩ := child
      obtain ⟨found, changed, whole⟩ :=
        linked.unrolls_putChild parted below named other after unrolls
      refine ⟨h, done, changed, whole, ?_⟩
      rw [outcome_follow_cons parted.fits named found unrolls.forbidden?_eq_none allowed]
      exact readBack

/-- In an array, a key that is no index ends the chain: there, or at the store below its length. -/
theorem refines_storeAlong_of_no_slot (run : Invocation → Run σ Value) (w : World σ)
    (scalar : val.isScalar = true) (fits : j.Fits c) (none : j.slot? key = .none)
    (free : key ∉ forbiddenNames) (allowed : ∀ key ∈ keys ++ [last], key ∉ forbiddenNames) :
    Refines (Access.direct run) w c.value val ids (key :: (keys ++ [last]))
      (j.update? (key :: (keys ++ [last])) value)
      (outcome (storeAlong (Access.direct run) c.value (key :: keys) last val) w) := by
  rw [Json.update?_cons_of_no_slot none, storeAlong_cons free]
  rcases outcome_readLink_of_no_slot run w fits none with ⟨u, owner, read⟩ | failed
  · rw [outcome_bind_ok read]
    have failed := outcome_storeAlong_scalar run w owner (forbidden?_of_isScalar scalar) allowed
    exact ⟨last, w.heap, by simp, failed, .refl ∅ w.heap⟩
  · exact ⟨key, _, by simp, outcome_bind_error failed, Heap.changedWithin_newObject w.heap []⟩

/-- **Storing along a chain refines the update along its keys.** By induction on the keys before the
last: the first is one step down in the layout, and in the document. -/
theorem refines_storeAlong (run : Invocation → Run σ Value) (scalar : val.isScalar = true)
    (given : val ≠ .undefined) (unrolls : ∀ h : Heap, h.Unrolls value val ∅)
    (init : List String) (last : String) (w : World σ) (u : Value) (j : Json) (ids : Set Nat)
    (layout : w.heap.Unrolls j u ids) (below : ids ⊆ Set.Iio w.heap.next)
    (allowed : ∀ key ∈ init ++ [last], key ∉ forbiddenNames ∧ key ≠ "children")
    (counted : j.staysInRange (init ++ [last]) = true) :
    Refines (Access.direct run) w u val ids (init ++ [last]) (j.update? (init ++ [last]) value)
      (outcome (storeAlong (Access.direct run) u init last val) w) := by
  induction init generalizing w u j ids with
  | nil =>
      obtain ⟨free, other⟩ := allowed last (by simp)
      rcases layout.scalar_or_container with ⟨owner, none⟩ | ⟨c, part, rfl, parted⟩
      · exact refines_storeAlong_scalar run w scalar owner none fun key there =>
          (allowed key there).1
      · exact refines_storeAlong_nil run scalar given unrolls parted below free other counted
  | cons key init ih =>
      obtain ⟨free, other⟩ := allowed key (by simp)
      have later : ∀ key ∈ init ++ [last], key ∉ forbiddenNames ∧ key ≠ "children" :=
        fun key there => allowed key (List.mem_cons_of_mem _ there)
      rcases layout.scalar_or_container with ⟨owner, none⟩ | ⟨c, part, rfl, parted⟩
      · exact refines_storeAlong_scalar run w scalar owner none fun key there =>
          (allowed key there).1
      · cases named : j.slot? key with
        | some slot =>
            rw [List.cons_append, Json.staysInRange_cons named, Bool.and_eq_true] at counted
            refine refines_storeAlong_cons run parted below free other named counted.1 ?_
            intro m u new linked
            exact ih { w with heap := m } u _ new linked.unrolls (linked.below parted below) later
              counted.2
        | none =>
            exact refines_storeAlong_of_no_slot run w scalar parted.fits named free fun key there =>
              (later key there).1

end Layouts

theorem IsChain.isAssignable {e : Expr} {keys : List String} (chain : e.IsChain keys) :
    e.isAssignable = true := by
  cases chain <;> rfl

end Expr

section Evaluators

variable {σ : Type} {e : Evaluator} {keys : List String} {members : List (String × Json)}
  {value : Json}

/-- Assigning along a chain is storing under its last key; evaluating it is following its keys. -/
theorem assign_and_eval_of_isChain (access : Access σ) (chain : e.body.IsChain keys)
    (scope : Value) : ∃ init last, keys = init ++ [last] ∧
      (∀ v, e.assign access ⟨scope, .undefined⟩ v = Expr.storeAlong access scope init last v) ∧
      e.eval access ⟨scope, .undefined⟩ = Expr.follow access .read scope keys := by
  obtain ⟨init, last, rfl, located⟩ := chain.locate_eq access scope
  refine ⟨init, last, rfl, ?_, ?_⟩
  · intro v
    unfold Evaluator.assign Evaluator.isAssignable Expr.storeAlong
    rw [if_pos chain.isAssignable, located, bind_assoc]
    rfl
  · unfold Evaluator.eval Expr.eval
    rw [located, Expr.follow_append, bind_assoc]
    rfl

/-- A scalar document takes no heap: its value is a scalar that unrolls to it in every heap. -/
theorem ofJson_of_isScalar (h : Heap) (scalar : value.isScalar = true)
    (document : value.IsDocument) :
    (h.ofJson value).2 = h ∧ (h.ofJson value).1.isScalar = true ∧
      (h.ofJson value).1 ≠ .undefined ∧ ∀ g : Heap, g.Unrolls value (h.ofJson value).1 ∅ := by
  obtain ⟨unchanged, isScalar, keyless⟩ : (h.ofJson value).2 = h ∧
      (h.ofJson value).1.isScalar = true ∧ value.keys = [] := by
    cases value with
    | array items => cases scalar
    | object members => cases scalar
    | _ => exact ⟨rfl, rfl, rfl⟩
  have made := Heap.made_ofJson h value document (by simp [keyless])
  refine ⟨unchanged, isScalar, made.given, fun g => ?_⟩
  have alone := made.unrolls
  rw [unchanged, Set.Ico_self] at alone
  exact alone.frame fun c member => member.elim

/-- Assigning to an item of an array that the scope holds is the store into that array. -/
theorem outcome_assign_item (run : Invocation → Run σ Value) {name key : String}
    (chain : e.body.IsChain [name, key]) (free : name ∉ forbiddenNames)
    (allowed : key ∉ forbiddenNames) {w : World σ} {o : ObjectRef} {a : ArrayRef}
    (held : w.heap.property o name = .array a) {v : Value} (scalar : v.isScalar = true) :
    (outcome (e.assign (Access.direct run) ⟨.object o, .undefined⟩ v) w).1 =
      match w.heap.writeMember (.array a) key v with
      | .ok _ => .ok v
      | .error e => .error (.runtime e) := by
  obtain ⟨init, last, keys, assigns, _⟩ :=
    assign_and_eval_of_isChain (Access.direct run) chain (.object o)
  have parts : [name] ++ [key] = init ++ [last] := keys
  obtain ⟨rfl, same⟩ := List.append_inj' parts rfl
  obtain rfl : key = last := List.singleton_inj.mp same
  have read : w.heap.readMember (.object o) name = (.array a, w.heap) := Prod.ext held rfl
  have guarded := Expr.outcome_guardObject (Expr.forbidden?_of_isScalar (h := w.heap) scalar)
  have written := Expr.outcome_write run (.array a) v key w
  rw [assigns, Expr.storeAlong_cons free,
    outcome_bind_ok (Expr.outcome_readLink_kept read rfl rfl rfl), Expr.storeAlong_nil allowed,
    outcome_bind_ok guarded]
  cases stored : w.heap.writeMember (.array a) key v with
  | ok h =>
      rw [stored] at written
      rw [outcome_bind_ok written]
      rfl
  | error e =>
      rw [stored] at written
      rw [outcome_bind_error written]

/-- **Assignment refines the update of a document.** For a scope made from a document without the
key `children`, a text that is written as a chain of keys that are neither forbidden nor `children`
and whose update keeps the lengths of arrays in range, and a scalar: where the document has an
update along the chain, the assignment ends with the scalar, the scope has become the updated
document, and evaluating the chain gives the scalar back. Where it has none, the assignment fails
because a property cannot be set, and the scope is the document it was. -/
theorem assign_refines_update (run : Invocation → Run σ Value) (host : σ) (h : Heap)
    {text : String} {limit : Nat} {tokens : List Token}
    (compiled : Evaluator.ofText text limit = .ok e) (lexed : tokenize text = .ok tokens)
    (spelled : SpellsChain tokens keys)
    (allowed : ∀ key ∈ keys, key ∉ forbiddenNames ∧ key ≠ "children")
    (document : (Json.object members).IsDocument)
    (childless : "children" ∉ (Json.object members).keys)
    (counted : (Json.object members).staysInRange keys = true)
    (scalar : value.isScalar = true) (valueDocument : value.IsDocument) :
    let scope := (h.ofJson (.object members)).1
    let val := ((h.ofJson (.object members)).2.ofJson value).1
    let before := ((h.ofJson (.object members)).2.ofJson value).2
    let assigned := outcome (e.assign (Access.direct run) ⟨scope, .undefined⟩ val) ⟨before, host⟩
    match (Json.object members).update? keys value with
    | some updated => ∃ after, assigned = (.ok val, ⟨after, host⟩) ∧
        after.toJson scope = some updated.asFloats ∧
        outcome (e.eval (Access.direct run) ⟨scope, .undefined⟩) ⟨after, host⟩ =
          (.ok val, ⟨after, host⟩)
    | none => ∃ key ∈ keys, ∃ after,
        assigned = (.error (.runtime (.cannotSetProperty key)), ⟨after, host⟩) ∧
        before.toJson scope = some (Json.object members).asFloats ∧
        after.toJson scope = before.toJson scope := by
  intro scope val before assigned
  have chain := isChain_of_ofText compiled lexed spelled
  have made := Heap.made_ofJson h (.object members) document childless
  obtain ⟨same, scalarValue, given, unrolls⟩ :=
    ofJson_of_isScalar (h.ofJson (.object members)).2 scalar valueDocument
  obtain ⟨init, last, rfl, assigns, evals⟩ :=
    assign_and_eval_of_isChain (Access.direct run) chain scope
  have run_eq : assigned = outcome (Expr.storeAlong (Access.direct run) scope init last val)
      ⟨(h.ofJson (.object members)).2, host⟩ := by
    simp only [assigned, assigns, before, same]
  have refined := Expr.refines_storeAlong run scalarValue given unrolls init last
    ⟨(h.ofJson (.object members)).2, host⟩ scope (.object members) _ made.unrolls
    (fun id inside => inside.2) allowed counted
  rw [← run_eq] at refined
  cases updated : (Json.object members).update? (init ++ [last]) value with
  | some j =>
      rw [updated] at refined
      obtain ⟨after, done, _, layout, readBack⟩ := refined
      exact ⟨after, done, layout.toJson made.given, evals ▸ readBack⟩
  | none =>
      rw [updated] at refined
      obtain ⟨key, after, there, failed, changed⟩ := refined
      have layout := made.unrolls.frame_of_changed (fun _ inside => inside.2)
        (Set.disjoint_empty _) changed
      have still := layout.toJson made.given
      have first : before.toJson scope = some (Json.object members).asFloats := by
        simp only [before, same]
        exact made.unrolls.toJson made.given
      exact ⟨key, there, after, failed, first, still.trans first.symm⟩

/-- A gap in an array is filled, a missing link is made there, and a number next to it is kept. -/
theorem assign_refines_update_gap :
    let document := Json.object [("a", .object [("keep", .int 7), ("list", .array [.null])])]
    let updated := Json.object [("a", .object [("keep", .float (Number.ofInt 7)),
      ("list", .array [.null, .null, .object [("x", .bool true)]])])]
    let scope := (Heap.empty.ofJson document).1
    ∃ e, Evaluator.ofText "a.list['2'].x" 128 = .ok e ∧ ∃ after,
      outcome (e.assign (Access.direct fun _ => Run.fail .callsTooDeep) ⟨scope, .undefined⟩
        (.bool true)) ⟨(Heap.empty.ofJson document).2, ()⟩ = (.ok (.bool true), ⟨after, ()⟩) ∧
      after.toJson scope = some updated ∧
      outcome (e.eval (Access.direct fun _ => Run.fail .callsTooDeep) ⟨scope, .undefined⟩)
        ⟨after, ()⟩ = (.ok (.bool true), ⟨after, ()⟩) := by
  intro document updated scope
  have lexed : tokenize "a.list['2'].x" = .ok [⟨.identifier ['a'], 0⟩, ⟨.symbol .dot, 1⟩,
      ⟨.identifier ['l', 'i', 's', 't'], 2⟩, ⟨.symbol .openBracket, 6⟩,
      ⟨.string ['\x27', '2', '\x27'] ['2'], 7⟩, ⟨.symbol .closeBracket, 10⟩, ⟨.symbol .dot, 11⟩,
      ⟨.identifier ['x'], 12⟩] := by cbv
  have start : SpellsChain [⟨.identifier ['a'], 0⟩] ["a"] := .identifier (by decide)
  have spelled : SpellsChain [⟨.identifier ['a'], 0⟩, ⟨.symbol .dot, 1⟩,
      ⟨.identifier ['l', 'i', 's', 't'], 2⟩, ⟨.symbol .openBracket, 6⟩,
      ⟨.string ['\x27', '2', '\x27'] ['2'], 7⟩, ⟨.symbol .closeBracket, 10⟩, ⟨.symbol .dot, 11⟩,
      ⟨.identifier ['x'], 12⟩] ["a", "list", "2", "x"] :=
    (SpellsChain.dotted (.bracketed (.dotted start)) :)
  obtain ⟨e, compiled⟩ : ∃ e, Evaluator.ofText "a.list['2'].x" 128 = .ok e :=
    exists_ofText_of_spellsChain lexed spelled (by decide)
  have list : Json.IsDocument (.array [.null]) :=
    .array _ (List.forall_mem_singleton.mpr .null)
  have inner : Json.IsDocument (.object [("keep", .int 7), ("list", .array [.null])]) := by
    refine .object _ (List.pairwise_pair.mpr (by decide)) ?_
    rw [List.forall_mem_cons, List.forall_mem_singleton]
    exact ⟨.int 7 (by decide) (by decide), list⟩
  have isDocument : document.IsDocument :=
    .object _ (List.pairwise_singleton _ _) (List.forall_mem_singleton.mpr inner)
  obtain ⟨after, done, layout, readBack⟩ := assign_refines_update
    (fun _ => Run.fail .callsTooDeep) () Heap.empty compiled lexed spelled (by decide) isDocument
    (by decide) (by decide) rfl (.bool true)
  exact ⟨e, compiled, after, done, layout, readBack⟩

/-- Where lengths end, assignment is no update. At the greatest index the document has one, and the
run breaks off; the canonical text of the next number is refused as a key. -/
theorem not_refines_update_where_lengths_end :
    let document := Json.object [("a", .array [])]
    let start : World Unit := ⟨(Heap.empty.ofJson document).2, ()⟩
    let ends (e : Evaluator) (result : Except Error Value) : Prop :=
      (outcome (e.assign (Access.direct fun _ => Run.fail .callsTooDeep)
        ⟨(Heap.empty.ofJson document).1, .undefined⟩ (.bool true)) start).1 = result
    (∃ updated, document.update? ["a", "18446744073709551615"] (.bool true) = some updated) ∧
    (∃ e, Evaluator.ofText "a['18446744073709551615']" 128 = .ok e ∧
      ends e (.error (.runtime .brokenOff))) ∧
    indexText (2 ^ 64) = "18446744073709551616" ∧
    ∃ e, Evaluator.ofText "a['18446744073709551616']" 128 = .ok e ∧
      ends e (.error (.runtime (.cannotSetProperty "18446744073709551616"))) := by
  intro document start ends
  have greatest : indexOfText? "18446744073709551615" = some (indexLimit - 1) := by decide
  have beyond : indexOfText? "18446744073709551616" = none := by decide
  have held : start.heap.property ⟨1, .plain⟩ "a" = .array ⟨0⟩ := by cbv
  let item (text key : String) : Evaluator :=
    ⟨text, .index (.identifier "a") (.literal (.string key)) .bracketed⟩
  have ran (text key : String) (allowed : key ∉ forbiddenNames) :=
    outcome_assign_item (fun _ => Run.fail .callsTooDeep) (e := item text key)
      (.index (.identifier "a") key) (by decide) allowed held (v := .bool true) rfl
  have lexed : tokenize "a['18446744073709551615']" = .ok [⟨.identifier ['a'], 0⟩,
      ⟨.symbol .openBracket, 1⟩, ⟨.string "'18446744073709551615'".toList
        "18446744073709551615".toList, 2⟩, ⟨.symbol .closeBracket, 24⟩] := by cbv
  have lexed' : tokenize "a['18446744073709551616']" = .ok [⟨.identifier ['a'], 0⟩,
      ⟨.symbol .openBracket, 1⟩, ⟨.string "'18446744073709551616'".toList
        "18446744073709551616".toList, 2⟩, ⟨.symbol .closeBracket, 24⟩] := by cbv
  have compiled : Evaluator.ofText "a['18446744073709551615']" 128 = .ok (item _ _) :=
    ofText_of_item lexed (by decide) (by decide)
  have compiled' : Evaluator.ofText "a['18446744073709551616']" 128 = .ok (item _ _) :=
    ofText_of_item lexed' (by decide) (by decide)
  refine ⟨?_, ⟨_, compiled, ?_⟩, by cbv, ⟨_, compiled', ?_⟩⟩
  · apply Option.isSome_iff_exists.mp
    have first : document.slot? "a" = some (.member "a") := rfl
    have linked : Json.link (document.child? (.member "a")) = .array [] := rfl
    have second : (Json.array []).slot? "18446744073709551615" = some (.item (indexLimit - 1)) :=
      congrArg (Option.map Slot.item) greatest
    rw [Json.update?_cons_of_slot first, linked, Json.update?_cons_of_slot second]
    rfl
  · exact (ran _ _ (by decide)).trans (by simp only [Heap.writeMember, greatest]; rfl)
  · exact (ran _ _ (by decide)).trans (by simp only [Heap.writeMember, beyond])

end Evaluators

end GuardedExpr
