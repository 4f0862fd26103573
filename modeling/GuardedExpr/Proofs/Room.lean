import GuardedExpr.Proofs.Reader

/-!
# Room for nesting

A limit on nesting only cuts reading short. Two readers that differ in their
room alone take the same steps until the one with less room runs out of it, so
all that more room can change is an error for want of room. Every place of room
is taken together with a token, so room that no list of tokens can fill never
runs out.
-/

namespace GuardedExpr

/-- The tokens are nested too deep for the room. -/
def ParseError.IsTooDeep (e : ParseError) : Prop :=
  ∃ limit, e = .tooDeep limit

namespace Reader

variable {α β : Type} {m n k l : Nat}

/-- The reader never runs out of room. -/
def Roomy (p : Reader n α) : Prop :=
  ∀ tokens e, p.run tokens = .error e → ¬ e.IsTooDeep

/-- Reading has ended for want of room, and there are at least so many tokens; or it has ended in
another way, and the other reading has ended alike. -/
def CutShort (least : Nat) (tokens : List FreeToken) (a b : Except ParseError α) : Prop :=
  (∃ e, a = .error e ∧ e.IsTooDeep ∧ least ≤ tokens.length) ∨
    (∀ e, a = .error e → ¬ e.IsTooDeep) ∧ b = a

/-- The first reader reads as the second one does, unless it runs out of room. That takes at least
so many tokens. -/
def Shortens (least : Nat) (p q : Reader n α) : Prop :=
  ∀ tokens, CutShort least tokens (p.run tokens) (q.run tokens)

section Rules

variable {p q : Reader m α}

theorem cutShort_ok {least : Nat} {tokens : List FreeToken} (a : α) :
    CutShort least tokens (.ok a) (.ok a) :=
  .inr ⟨fun _ equal => (nomatch equal), rfl⟩

theorem cutShort_error {least : Nat} {tokens : List FreeToken} {e : ParseError}
    (shallow : ¬ e.IsTooDeep) :
    CutShort least tokens (.error e : Except ParseError α) (.error e) := by
  refine .inr ⟨fun e' equal => ?_, rfl⟩
  cases equal
  exact shallow

theorem roomy_pure (a : α) : (pure a).Roomy := by
  intro tokens e failed
  cases failed

theorem roomy_token (expected : Expectation) (meaning : FreeToken → Option α) :
    (token expected meaning).Roomy := by
  intro tokens e failed deep
  obtain ⟨limit, rfl⟩ := deep
  cases tokens with
  | nil => cases failed
  | cons t tokens =>
      simp only [token] at failed
      cases found : meaning t with
      | none =>
          rw [found] at failed
          cases failed
      | some a =>
          rw [found] at failed
          cases failed

theorem roomy_endOfTokens : endOfTokens.Roomy := by
  intro tokens e failed deep
  obtain ⟨limit, rfl⟩ := deep
  cases tokens with
  | nil => cases failed
  | cons t tokens => cases failed

theorem Roomy.shortens (roomy : p.Roomy) (least : Nat) : Shortens least p p :=
  fun tokens => .inr ⟨roomy tokens, rfl⟩

theorem shortens_fail (limit : Nat) (q : Reader m α) :
    Shortens 0 (fail (.tooDeep limit) : Reader m α) q :=
  fun _ => .inl ⟨_, rfl, ⟨limit, rfl⟩, Nat.zero_le _⟩

theorem Shortens.weaken (shortens : Shortens k p q) (fewer : n ≤ m) :
    Shortens k (p.weaken fewer) (q.weaken fewer) :=
  shortens

theorem shortens_peek {f g : Option FreeToken → Reader m α}
    (each : ∀ next, Shortens k (f next) (g next)) : Shortens k (peek f) (peek g) :=
  fun tokens => each tokens.head? tokens

/-- The second part reads only what the first one leaves. -/
theorem Shortens.bind {f g : α → Reader n β} (first : Shortens k p q)
    (second : ∀ a, Shortens l (f a) (g a)) (enough : k ≤ m + l) :
    Shortens k (p.bind f) (q.bind g) := by
  intro tokens
  simp only [Reader.bind]
  rcases first tokens with ⟨e, failed, deep, within⟩ | ⟨other, same⟩
  · rw [failed]
    exact .inl ⟨e, rfl, deep, within⟩
  · rw [same]
    cases read : p.run tokens with
    | error e => exact cutShort_error (other e read)
    | ok result =>
        obtain ⟨a, rest⟩ := result
        rcases second a rest with ⟨e, failed, deep, within⟩ | ended
        · have taken := p.takes read
          exact .inl ⟨e, failed, deep, by omega⟩
        · exact .inr ended

/-- What is read in three steps may be read with the last two taken together. -/
theorem run_bind_bind {γ : Type} (p : Reader m α) (f : α → Reader n β)
    (g : β → Reader l γ) (tokens : List FreeToken) :
    ((p.bind f).bind g).run tokens = (p.bind fun a => (f a).bind g).run tokens := by
  simp only [Reader.bind]
  cases p.run tokens with
  | error e => rfl
  | ok result => rfl

theorem Shortens.map (shortens : Shortens k p q) (f : α → β) : Shortens k (p.map f) (q.map f) :=
  shortens.bind (fun a => (roomy_pure (f a)).shortens k) (Nat.le_add_left k m)

end Rules

section Lists

variable {item item' : Reader 1 α} {close : Symbol} {trailing : Bool}

/-- The loop reads one item, and goes on as long as commas ask for more. -/
theorem itemsLoop_eq (tokens : List FreeToken) : itemsLoop item close trailing tokens =
    match item.run tokens with
    | .error e => .error e
    | .ok (a, []) => .ok ([a], [])
    | .ok (a, next :: rest) =>
      if !next.isSymbol .comma then .ok ([a], next :: rest)
      else if trailing && isNext close rest.head? then .ok ([a], rest)
      else
        match itemsLoop item close trailing rest with
        | .error e => .error e
        | .ok (as, rest) => .ok (a :: as, rest) := by
  rw [itemsLoop]
  split
  · rename_i e read
    rw [read]
  · rename_i a read
    rw [read]
  · rename_i a next rest read
    grind

/-- Every item of a list is read with the same room. -/
theorem Shortens.items (shortens : Shortens k item item') :
    Shortens k (items item close trailing) (items item' close trailing) := by
  intro tokens
  change CutShort k tokens (itemsLoop item close trailing tokens)
    (itemsLoop item' close trailing tokens)
  induction size : tokens.length using Nat.strongRecOn generalizing tokens with
  | ind size ih =>
      rw [itemsLoop_eq tokens, itemsLoop_eq tokens]
      rcases shortens tokens with ⟨e, failed, deep, enough⟩ | ⟨other, same⟩
      · rw [failed]
        exact .inl ⟨e, rfl, deep, enough⟩
      rw [same]
      cases read : item.run tokens with
      | error e => exact cutShort_error (other e read)
      | ok result =>
          obtain ⟨a, left⟩ := result
          cases left with
          | nil => exact cutShort_ok _
          | cons next rest =>
              have taken := item.takes read
              rw [List.length_cons] at taken
              dsimp only
              split
              · exact cutShort_ok _
              split
              · exact cutShort_ok _
              -- the other items are read from fewer tokens
              rcases ih rest.length (by omega) rest rfl with
                ⟨e, failed, deep, enough⟩ | ⟨other, same⟩
              · rw [failed]
                exact .inl ⟨e, rfl, deep, by omega⟩
              rw [same]
              cases loop : itemsLoop item close trailing rest with
              | error e => exact cutShort_error (other e loop)
              | ok result => exact cutShort_ok _

theorem Shortens.listUntil (shortens : Shortens k item item') :
    Shortens k (listUntil item close trailing) (listUntil item' close trailing) := by
  refine shortens_peek fun next => ?_
  split
  · exact (Roomy.shortens (roomy_token _ _) k).map _
  · refine (shortens.items.bind (fun as => ?_) (Nat.le_add_left k 1)).weaken _
    exact (Roomy.shortens (roomy_token _ _) k).map _

end Lists

end Reader

namespace Parser

open Reader

variable {operand operand' : Reader 1 Expr} {k : Nat}

theorem shortens_assignment (shortens : Shortens k operand operand') :
    Shortens k (assignment operand) (assignment operand') := by
  refine (shortens.bind (fun left => shortens_peek fun next => ?_) (Nat.le_add_left k 1)).weaken _
  split
  · refine (Shortens.bind ((roomy_token _ _).shortens k) (fun _ => ?_)
      (Nat.le_add_left k 1)).weaken _
    exact shortens.map _
  · exact (roomy_pure left).shortens k

theorem shortens_property (shortens : Shortens k operand operand') :
    Shortens k (property operand) (property operand') := by
  refine (Shortens.bind ((roomy_token _ _).shortens k) (fun key => ?_)
    (Nat.le_add_left k 1)).weaken _
  refine Shortens.bind ((roomy_token _ _).shortens k) (fun _ => ?_) (Nat.le_add_left k 1)
  exact (shortens_assignment shortens).map _

/-- A literal list or object takes a token before what it nests. -/
theorem shortens_base (shortens : Shortens k operand operand') :
    Shortens (k + 1) (base operand) (base operand') := by
  refine shortens_peek fun next => ?_
  split
  · refine (Shortens.bind ((roomy_token _ _).shortens (k + 1)) (fun _ => ?_)
      (Nat.le_of_eq (Nat.add_comm k 1))).weaken _
    exact (shortens_assignment shortens).listUntil.map _
  split
  · refine (Shortens.bind ((roomy_token _ _).shortens (k + 1)) (fun _ => ?_)
      (Nat.le_of_eq (Nat.add_comm k 1))).weaken _
    exact (shortens_property shortens).listUntil.map _
  split
  · exact (Roomy.shortens (roomy_token _ _) (k + 1)).map _
  · exact (Roomy.shortens (roomy_token _ _) (k + 1)).map _

theorem shortens_linkAfter (shortens : Shortens k operand operand') (object : Expr)
    (opening : Symbol) :
    Shortens k (linkAfter operand object opening) (linkAfter operand' object opening) := by
  cases opening with
  | openBracket =>
      refine ((shortens_assignment shortens).bind (fun key => ?_) (Nat.le_add_left k 1)).weaken
        (by decide)
      exact (Roomy.shortens (roomy_token _ _) k).map _
  | dot => exact (Roomy.shortens (roomy_token _ _) k).map _
  | _ => exact (shortens_assignment shortens).listUntil.map _

/-- **Less room only cuts short.** In less room, operands and further links are read as in more, as
long as the tokens do not fill it. -/
theorem shortens_unary_and_links (limit limit' room room' : Nat) (le : room ≤ room') :
    Shortens room (unary limit room) (unary limit' room') ∧
      ∀ object, Shortens room (links limit room object) (links limit' room' object) := by
  induction room generalizing room' with
  | zero =>
      refine ⟨shortens_fail limit _, fun object => ?_⟩
      cases room' with
      | zero =>
          refine shortens_peek fun next => ?_
          split
          · refine (Shortens.bind ((roomy_token _ _).shortens 0) (fun _ => ?_)
              (Nat.zero_le (1 + 0))).weaken (Nat.zero_le _)
            exact shortens_fail limit _
          · exact (roomy_pure object).shortens 0
      | succ room' =>
          refine shortens_peek fun next => ?_
          split
          · have cut : Shortens 0
                (linkSymbol.bind fun _ => (fail (.tooDeep limit) : Reader (1 + 0) Expr))
                (linkSymbol.bind fun opening =>
                  (linkAfter (unary limit' room') object opening).bind (links limit' room')) :=
              Shortens.bind ((roomy_token _ _).shortens 0) (fun _ => shortens_fail limit _)
                (Nat.zero_le (1 + 0))
            intro tokens
            rw [run_weaken, run_weaken, run_bind_bind]
            exact cut tokens
          · exact (roomy_pure object).shortens 0
  | succ room ih =>
      cases room' with
      | zero => exact absurd le (Nat.not_succ_le_zero room)
      | succ room' =>
      obtain ⟨operand, further⟩ := ih room' (Nat.le_of_succ_le_succ le)
      constructor
      · refine shortens_peek fun next => ?_
        split
        · refine (Shortens.bind ((roomy_token _ _).shortens (room + 1)) (fun _ => ?_)
            (Nat.le_of_eq (Nat.add_comm room 1))).weaken _
          exact operand.map _
        · exact (shortens_base operand).bind further (Nat.le_of_eq (Nat.add_comm room 1))
      · intro object
        refine shortens_peek fun next => ?_
        split
        · refine (Shortens.bind (Shortens.bind ((roomy_token _ _).shortens (room + 1))
            (fun opening => shortens_linkAfter operand object opening)
            (Nat.le_of_eq (Nat.add_comm room 1))) further (by omega)).weaken _
        · exact (roomy_pure object).shortens _

theorem shortens_program {limit limit' : Nat} (le : limit ≤ limit') :
    Shortens limit (program limit) (program limit') := by
  refine Shortens.bind (shortens_assignment (shortens_unary_and_links limit limit' _ _ le).1)
    (fun body => ?_) (Nat.le_add_left limit 1)
  exact (roomy_endOfTokens.shortens limit).map _

end Parser

theorem cutShort_buildTree {limit limit' : Nat} (le : limit ≤ limit') (tokens : List FreeToken) :
    Reader.CutShort limit tokens (buildTree limit tokens) (buildTree limit' tokens) := by
  unfold buildTree
  rcases Parser.shortens_program le tokens with ⟨e, failed, deep, enough⟩ | ⟨other, same⟩
  · rw [failed]
    exact .inl ⟨e, rfl, deep, enough⟩
  · rw [same]
    cases whole : (Parser.program limit).run tokens with
    | error e => exact Reader.cutShort_error (other e whole)
    | ok result => exact Reader.cutShort_ok _

/-- **More room changes nothing else.** What any tokens give under a limit, whether or not a text
has them, they give under every greater limit, an expression or an error, unless the error is that
they are nested too deep. Tokens that are fewer than the limit are never nested too deep. -/
theorem buildTree_of_le {limit limit' : Nat} (le : limit ≤ limit') (tokens : List FreeToken) :
    (∀ tree, buildTree limit tokens = .ok tree → buildTree limit' tokens = .ok tree) ∧
      (∀ e, buildTree limit tokens = .error e → ¬ e.IsTooDeep →
        buildTree limit' tokens = .error e) ∧
      ∀ wide, tokens.length + 1 ≤ wide →
        ∀ e, buildTree wide tokens = .error e → ¬ e.IsTooDeep := by
  refine ⟨fun tree parsed => ?_, fun e failed shallow => ?_, fun wide fewer e failed deep => ?_⟩
  · rcases cutShort_buildTree le tokens with ⟨e, failed, _⟩ | ⟨_, same⟩
    · rw [parsed] at failed
      cases failed
    · rw [same, parsed]
  · rcases cutShort_buildTree le tokens with ⟨e', failed', deep, _⟩ | ⟨_, same⟩
    · rw [failed] at failed'
      cases failed'
      exact absurd deep shallow
    · rw [same, failed]
  · rcases cutShort_buildTree (Nat.le_refl wide) tokens with ⟨_, _, _, enough⟩ | ⟨other, _⟩
    · omega
    · exact other e failed deep

/-- A negation takes two places of room, an identifier written as an equals sign stores, and a
bracket that nothing opens is wrong in any room. -/
theorem buildTree_of_le_negation :
    buildTree 1 [⟨"!", none, false, 0⟩, ⟨"a", none, true, 1⟩] = .error (.tooDeep 1) ∧
      buildTree 7 [⟨"!", none, false, 0⟩, ⟨"a", none, true, 1⟩] =
        .ok (.program (.unary .not (.identifier "a"))) ∧
      buildTree 7 [⟨"a", none, true, 0⟩, ⟨"=", none, true, 1⟩, ⟨"b", none, true, 2⟩] =
        .ok (.program (.assign (.identifier "a") (.identifier "b"))) ∧
      buildTree 7 [⟨"a", none, true, 0⟩, ⟨")", some (.bool true), false, 1⟩] =
        .error (.unexpectedToken .endOfExpression ")") ∧
      ∀ e, buildTree 4 [⟨"!", none, false, 0⟩, ⟨"!", none, true, 1⟩, ⟨"!", none, false, 2⟩] =
        .error e → ¬ e.IsTooDeep := by
  refine ⟨rfl, ?_, ?_, ?_, ?_⟩
  · exact (buildTree_of_le (show 2 ≤ 7 by omega) _).1 _ rfl
  · exact (buildTree_of_le (show 1 ≤ 7 by omega) _).1 _ rfl
  · refine (buildTree_of_le (show 1 ≤ 7 by omega) _).2.1 _ rfl ?_
    intro deep
    obtain ⟨limit, equal⟩ := deep
    cases equal
  · exact (buildTree_of_le (Nat.le_refl 0) _).2.2 4 (by decide)

end GuardedExpr
