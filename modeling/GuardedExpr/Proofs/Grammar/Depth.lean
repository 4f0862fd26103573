import GuardedExpr.Proofs.Grammar
import GuardedExpr.Proofs.Lexing

/-!
# Depth and length of spelled expressions

Reading takes no more room than there are tokens. The level of a spelled
expression may exceed its nesting, because the start of a chain and what stands
in its links are charged for the links before them and not for those after; a
spelled expression of nesting `n` has at most the `n`-th triangular number of
levels, and for every `n` one has exactly so many.
-/

namespace GuardedExpr.Grammar

variable {Spells : List Token → Expr → Prop} {tokens : List Token}

/-- Items that take no more room than they have tokens do so together. -/
theorem Separated.nestingOfList_le {es : List Expr} (separated : Separated Spells tokens es)
    (bound : ∀ {part e}, Spells part e → e.nesting ≤ part.length) :
    Expr.nestingOfList es ≤ tokens.length := by
  refine Expr.nestingOfList_le_iff.mpr fun e member => ?_
  obtain ⟨part, spelled, shorter⟩ := separated.exists_of_mem member
  exact Nat.le_trans (bound spelled) shorter

theorem Separated.nestingOfProperties_le {ps : List (PropertyKey × Expr)}
    (separated : Separated (Entry Spells) tokens ps)
    (bound : ∀ {part e}, Spells part e → e.nesting ≤ part.length) :
    Expr.nestingOfProperties ps ≤ tokens.length := by
  refine Expr.nestingOfProperties_le_iff.mpr fun p member => ?_
  obtain ⟨part, entry, shorter⟩ := separated.exists_of_mem member
  cases entry with
  | mk _ spelled =>
      refine Nat.le_trans (bound spelled) (Nat.le_trans ?_ shorter)
      simp only [List.length_cons]
      omega

/-- Every level of nesting takes a token. -/
theorem Assignment.nesting_le_length {e : Expr} (spelled : Assignment tokens e) :
    e.nesting ≤ tokens.length := by
  refine spelled.rule_induction (A := fun tokens e => e.nesting ≤ tokens.length)
    (U := fun tokens e => e.nesting ≤ tokens.length)
    (P := fun tokens e => e.nesting ≤ tokens.length ∧ e.links + 1 ≤ tokens.length)
    (B := fun tokens e => e.nesting ≤ tokens.length) ?operand ?store ?operator ?primary ?base
    ?member ?index ?call ?word ?array ?arrayTrailing ?object
  case operand => exact fun shorter => shorter
  case primary => exact fun shorter => shorter.1
  case store =>
    intro left right target value i target value
    simp only [Expr.nesting, List.length_append, List.length_cons]
    omega
  case operator => exact fun shorter => Nat.succ_le_succ shorter
  case base =>
    intro tokens e base shorter
    have := e.one_le_nesting
    rw [base.links_eq_zero]
    omega
  case member =>
    intro chain owner name i j _ ⟨shorter, links⟩
    simp only [Expr.nesting, Expr.links, List.length_append, List.length_cons, List.length_nil]
    omega
  case index =>
    intro chain tokens owner key i j _ ⟨shorter, links⟩ key
    simp only [Expr.nesting, Expr.links, List.length_append, List.length_cons, List.length_nil]
    omega
  case call =>
    intro chain tokens callee arguments i j _ ⟨shorter, links⟩ separated
    have arguments := separated.nestingOfList_le fun spelled => spelled.2
    simp only [Expr.nesting, Expr.links, List.length_append, List.length_cons, List.length_nil]
    omega
  case word => exact fun word => Nat.le_of_eq word.nesting_eq_one
  case array =>
    intro tokens elements i j separated
    have elements := separated.nestingOfList_le fun spelled => spelled.2
    simp only [Expr.nesting, List.length_append, List.length_cons, List.length_nil]
    omega
  case arrayTrailing =>
    intro tokens e es i j k separated
    have elements := separated.nestingOfList_le fun spelled => spelled.2
    simp only [Expr.nesting, List.length_append, List.length_cons, List.length_nil]
    omega
  case object =>
    intro tokens properties i j separated
    have values := separated.nestingOfProperties_le fun spelled => spelled.2
    simp only [Expr.nesting, List.length_append, List.length_cons, List.length_nil]
    omega

/-- The sum of the numbers up to this one. -/
def triangle : Nat → Nat
  | 0 => 0
  | n + 1 => triangle n + (n + 1)

theorem two_mul_triangle (n : Nat) : 2 * triangle n = n * (n + 1) := by
  induction n with
  | zero => rfl
  | succ n ih =>
      rw [triangle, Nat.mul_add, ih, ← Nat.add_mul, Nat.mul_comm, Nat.add_comm n 2]

theorem triangle_mono {m n : Nat} (le : m ≤ n) : triangle m ≤ triangle n := by
  induction le with
  | refl => exact Nat.le_refl _
  | step _ ih => exact Nat.le_trans ih (Nat.le_add_right ..)

/-- A list of parts within the bound lies within the bound of the part that takes most room. -/
theorem Separated.levelOfList_le {es : List Expr} (separated : Separated Spells tokens es)
    (bound : ∀ {part e}, Spells part e → e.level ≤ triangle e.nesting) :
    Expr.levelOfList es ≤ triangle (Expr.nestingOfList es) := by
  refine Expr.levelOfList_le_iff.mpr fun e member => ?_
  obtain ⟨part, spelled, _⟩ := separated.exists_of_mem member
  exact Nat.le_trans (bound spelled)
    (triangle_mono (Expr.nestingOfList_le_iff.mp (Nat.le_refl _) e member))

theorem Separated.levelOfProperties_le {ps : List (PropertyKey × Expr)}
    (separated : Separated (Entry Spells) tokens ps)
    (bound : ∀ {part e}, Spells part e → e.level ≤ triangle e.nesting) :
    Expr.levelOfProperties ps ≤ triangle (Expr.nestingOfProperties ps) := by
  refine Expr.levelOfProperties_le_iff.mpr fun p member => ?_
  obtain ⟨part, entry, _⟩ := separated.exists_of_mem member
  cases entry with
  | mk _ spelled =>
      exact Nat.le_trans (bound spelled)
        (triangle_mono (Expr.nestingOfProperties_le_iff.mp (Nat.le_refl _) _ member))

/-- The level is bounded by the triangle of the nesting. For a chain, the bound grows by one with
each link, and there are fewer links than the nesting. -/
theorem Assignment.level_le {e : Expr} (spelled : Assignment tokens e) :
    e.level ≤ triangle e.nesting := by
  refine spelled.rule_induction (A := fun _ e => e.level ≤ triangle e.nesting)
    (U := fun _ e => e.level ≤ triangle e.nesting)
    (P := fun _ e => ∃ n, e.nesting = n + 1 ∧ e.level ≤ triangle n + 1 + e.links ∧ e.links ≤ n)
    (B := fun _ e => ∃ n, e.nesting = n + 1 ∧ e.level ≤ triangle n + 1) ?operand ?store
    ?operator ?primary ?base ?member ?index ?call ?word ?array ?arrayTrailing ?object
  case operand => exact fun bounded => bounded
  case primary =>
    rintro tokens e ⟨n, room, bounded, links⟩
    rw [room, triangle]
    omega
  case store =>
    intro left right target value i boundedTarget boundedValue
    refine Nat.max_le.mpr ⟨?_, ?_⟩
    · exact Nat.le_trans boundedTarget (triangle_mono (Nat.le_max_left ..))
    · exact Nat.le_trans boundedValue (triangle_mono (Nat.le_max_right ..))
  case operator =>
    intro operator tokens e i bounded
    simp only [Expr.level, Expr.nesting, triangle]
    omega
  case base =>
    rintro tokens e base ⟨n, room, bounded⟩
    exact ⟨n, room, by rw [base.links_eq_zero]; omega⟩
  case member =>
    rintro chain owner name i j _ ⟨n, room, bounded, links⟩
    refine ⟨max n (owner.links + 1), ?_⟩
    have mono := triangle_mono (Nat.le_max_left n (owner.links + 1))
    simp only [Expr.nesting, Expr.level, Expr.links]
    omega
  case index =>
    rintro chain tokens owner key i j _ ⟨n, room, bounded, links⟩ boundedKey
    refine ⟨max n (owner.links + 1 + key.nesting), ?_⟩
    have mono := triangle_mono (Nat.le_max_left n (owner.links + 1 + key.nesting))
    have monoKey := triangle_mono (m := key.nesting) (n := max n (owner.links + 1 + key.nesting))
      (by omega)
    simp only [Expr.nesting, Expr.level, Expr.links]
    omega
  case call =>
    rintro chain tokens callee arguments i j _ ⟨n, room, bounded, links⟩ separated
    have boundedArguments := separated.levelOfList_le fun spelled => spelled.2
    refine ⟨max n (callee.links + 1 + Expr.nestingOfList arguments), ?_⟩
    have mono := triangle_mono
      (Nat.le_max_left n (callee.links + 1 + Expr.nestingOfList arguments))
    have monoArguments := triangle_mono (m := Expr.nestingOfList arguments)
      (n := max n (callee.links + 1 + Expr.nestingOfList arguments)) (by omega)
    simp only [Expr.nesting, Expr.level, Expr.links]
    omega
  case word => exact fun word => ⟨0, word.nesting_eq_one, by rw [word.level_eq_one]; decide⟩
  case array =>
    intro tokens elements i j separated
    exact ⟨_, rfl, Nat.succ_le_succ (separated.levelOfList_le fun spelled => spelled.2)⟩
  case arrayTrailing =>
    intro tokens e es i j k separated
    exact ⟨_, rfl, Nat.succ_le_succ (separated.levelOfList_le fun spelled => spelled.2)⟩
  case object =>
    intro tokens properties i j separated
    exact ⟨_, rfl, Nat.succ_le_succ (separated.levelOfProperties_le fun spelled => spelled.2)⟩

/-- A chain may get any number of further links. -/
theorem Primary.exists_links {e : Expr} (spelled : Primary tokens e)
    (plain : ∀ t ∈ tokens, t.IsPlain) (count : Nat) :
    ∃ tokens' e', Primary tokens' e' ∧ (∀ t ∈ tokens', t.IsPlain) ∧
      e'.links = e.links + count ∧ e'.level = e.level + count ∧
      e'.nesting ≤ max e.nesting (e.links + count + 1) := by
  induction count with
  | zero => exact ⟨tokens, e, spelled, plain, rfl, rfl, Nat.le_max_left ..⟩
  | succ count ih =>
      obtain ⟨tokens', e', spelled', plain', links, level, nesting⟩ := ih
      have longer : Primary (tokens' ++ [⟨.symbol .dot, 0⟩, ⟨.identifier ['a'], 0⟩])
          (.member e' (String.ofList ['a'])) := .member spelled'
      have name : Token.IsPlain ⟨.identifier ['a'], 0⟩ := fun symbol => by cases symbol <;> decide
      refine ⟨_, _, longer, ?_, ?_⟩
      · exact List.forall_mem_append.mpr ⟨plain', List.forall_mem_cons.mpr
          ⟨Token.isPlain_symbol .dot 0, List.forall_mem_singleton.mpr name⟩⟩
      · simp only [Expr.links, Expr.level, Expr.nesting]
        omega

/-- The bound on the level is reached for every nesting: a list around the expression for the
nesting below it, and as many links after that list as the nesting allows. -/
theorem exists_level_eq_triangle (n : Nat) :
    ∃ tokens e, Assignment tokens e ∧ (∀ t ∈ tokens, t.IsPlain) ∧ e.nesting ≤ n + 1 ∧
      e.level = triangle (n + 1) := by
  induction n with
  | zero =>
      have word : Word ⟨.string [] [], 0⟩ (.literal (.string (String.ofList []))) :=
        .literal .string
      have plain : Token.IsPlain ⟨.string [] [], 0⟩ := fun _ written => nomatch written
      exact ⟨_, _, .operand (.primary (.base (.word word))), List.forall_mem_singleton.mpr plain,
        Nat.le_refl 1, rfl⟩
  | succ n ih =>
      obtain ⟨tokens, e, spelled, plain, nesting, level⟩ := ih
      have list : Primary (⟨.symbol .openBracket, 0⟩ :: (tokens ++ [⟨.symbol .closeBracket, 0⟩]))
          (.array [e]) := .base (.array (.one spelled))
      have plainList : ∀ t ∈ (⟨.symbol .openBracket, 0⟩ : Token) ::
          (tokens ++ [⟨.symbol .closeBracket, 0⟩]), t.IsPlain :=
        List.forall_mem_cons.mpr ⟨Token.isPlain_symbol .openBracket 0,
          List.forall_mem_append.mpr ⟨plain,
            List.forall_mem_singleton.mpr (Token.isPlain_symbol .closeBracket 0)⟩⟩
      obtain ⟨tokens', e', spelled', plain', -, level', nesting'⟩ :=
        list.exists_links plainList (n + 1)
      refine ⟨tokens', e', .operand (.primary spelled'), plain', ?_, ?_⟩
      · simp only [Expr.nesting, Expr.nestingOfList, Expr.links] at nesting'
        omega
      · rw [level', triangle]
        simp only [Expr.level, Expr.levelOfList]
        omega

end GuardedExpr.Grammar
