import GuardedExpr.Expr.Parser
import GuardedExpr.Proofs.Nesting

/-!
# The grammar, as a relation

Which tokens spell which expression, said without a reader: one relation for
each line of the grammar, between a list of tokens and a tree. A chain is
spelled from its last link inwards, so the tree of a chain and the derivation
of its spelling have the same shape. A list of things with commas between is
spelled by `GuardedExpr.Grammar.Separated` whatever the things are.
-/

namespace GuardedExpr

/-- The symbol that an operator is written as. -/
def UnaryOperator.symbol : UnaryOperator → Symbol
  | .plus => .plus
  | .minus => .minus
  | .not => .bang

namespace Grammar

/-- The names that stand for constants at the start of a chain. -/
def keywords : List String :=
  ["null", "true", "false", "this"]

/-- A number or a string, and the document that it is. -/
inductive Literal : Token → Json → Prop
  | number {text : List Char} {value : Float} {i : Nat} :
      Literal ⟨.number text value, i⟩ (.float value)
  | string {text value : List Char} {i : Nat} :
      Literal ⟨.string text value, i⟩ (.string (String.ofList value))

/-- A key of an object literal: any identifier, keyword or not, or a literal. -/
inductive Key : Token → PropertyKey → Prop
  | name {name : List Char} {i : Nat} : Key ⟨.identifier name, i⟩ (.name (String.ofList name))
  | literal {token : Token} {value : Json} : Literal token value → Key token (.literal value)

/-- The starts of chains that are a single token. -/
inductive Word : Token → Expr → Prop
  | null {name : List Char} {i : Nat} :
      String.ofList name = "null" → Word ⟨.identifier name, i⟩ (.literal .null)
  | true {name : List Char} {i : Nat} :
      String.ofList name = "true" → Word ⟨.identifier name, i⟩ (.literal (.bool Bool.true))
  | false {name : List Char} {i : Nat} :
      String.ofList name = "false" → Word ⟨.identifier name, i⟩ (.literal (.bool Bool.false))
  | self {name : List Char} {i : Nat} :
      String.ofList name = "this" → Word ⟨.identifier name, i⟩ .self
  | identifier {name : List Char} {i : Nat} :
      String.ofList name ∉ keywords →
        Word ⟨.identifier name, i⟩ (.identifier (String.ofList name))
  | literal {token : Token} {value : Json} : Literal token value → Word token (.literal value)

/-- Any number of things, with a comma between each and the next. -/
inductive Separated {α : Type} (Spells : List Token → α → Prop) : List Token → List α → Prop
  | nil : Separated Spells [] []
  | one {tokens : List Token} {a : α} : Spells tokens a → Separated Spells tokens [a]
  | more {tokens rest : List Token} {a b : α} {bs : List α} {i : Nat} :
      Spells tokens a → Separated Spells rest (b :: bs) →
        Separated Spells (tokens ++ ⟨.symbol .comma, i⟩ :: rest) (a :: b :: bs)

/-- A key and the value under it. -/
inductive Entry (Spells : List Token → Expr → Prop) : List Token → PropertyKey × Expr → Prop
  | mk {token : Token} {tokens : List Token} {key : PropertyKey} {e : Expr} {i : Nat} :
      Key token key → Spells tokens e →
        Entry Spells (token :: ⟨.symbol .colon, i⟩ :: tokens) (key, e)

mutual

/-- An operand, or a target and the operand to store into it. -/
inductive Assignment : List Token → Expr → Prop
  | operand {tokens : List Token} {e : Expr} : Unary tokens e → Assignment tokens e
  | store {left right : List Token} {target value : Expr} {i : Nat} :
      Unary left target → Unary right value →
        Assignment (left ++ ⟨.symbol .equals, i⟩ :: right) (.assign target value)

/-- A chain behind any number of operators. -/
inductive Unary : List Token → Expr → Prop
  | operator {operator : UnaryOperator} {tokens : List Token} {e : Expr} {i : Nat} :
      Unary tokens e → Unary (⟨.symbol operator.symbol, i⟩ :: tokens) (.unary operator e)
  | primary {tokens : List Token} {e : Expr} : Primary tokens e → Unary tokens e

/-- The start of a chain, or a chain and one more link. -/
inductive Primary : List Token → Expr → Prop
  | base {tokens : List Token} {e : Expr} : Base tokens e → Primary tokens e
  | member {chain : List Token} {owner : Expr} {name : List Char} {i j : Nat} :
      Primary chain owner →
        Primary (chain ++ [⟨.symbol .dot, i⟩, ⟨.identifier name, j⟩])
          (.member owner (String.ofList name))
  | index {chain tokens : List Token} {owner key : Expr} {i j : Nat} :
      Primary chain owner → Assignment tokens key →
        Primary (chain ++ ⟨.symbol .openBracket, i⟩ :: (tokens ++ [⟨.symbol .closeBracket, j⟩]))
          (.index owner key .bracketed)
  | call {chain tokens : List Token} {callee : Expr} {arguments : List Expr} {i j : Nat} :
      Primary chain callee → Separated Assignment tokens arguments →
        Primary (chain ++ ⟨.symbol .openParen, i⟩ :: (tokens ++ [⟨.symbol .closeParen, j⟩]))
          (.call callee arguments)

/-- The start of a chain. -/
inductive Base : List Token → Expr → Prop
  | word {token : Token} {e : Expr} : Word token e → Base [token] e
  | array {tokens : List Token} {elements : List Expr} {i j : Nat} :
      Separated Assignment tokens elements →
        Base (⟨.symbol .openBracket, i⟩ :: (tokens ++ [⟨.symbol .closeBracket, j⟩]))
          (.array elements)
  /-- One more comma may follow the last element. -/
  | arrayTrailing {tokens : List Token} {e : Expr} {es : List Expr} {i j k : Nat} :
      Separated Assignment tokens (e :: es) →
        Base (⟨.symbol .openBracket, i⟩ ::
          (tokens ++ [⟨.symbol .comma, j⟩, ⟨.symbol .closeBracket, k⟩])) (.array (e :: es))
  | object {tokens : List Token} {properties : List (PropertyKey × Expr)} {i j : Nat} :
      Separated (Entry Assignment) tokens properties →
        Base (⟨.symbol .openBrace, i⟩ :: (tokens ++ [⟨.symbol .closeBrace, j⟩]))
          (.object properties)

end

namespace Separated

variable {α : Type} {Spells Spells' : List Token → α → Prop} {tokens : List Token} {as : List α}

/-- Spellings of the single things may be exchanged for others. -/
theorem imp (separated : Separated Spells tokens as)
    (weaker : ∀ {part a}, a ∈ as → Spells part a → Spells' part a) :
    Separated Spells' tokens as := by
  induction separated with
  | nil => exact .nil
  | one spelled => exact .one (weaker List.mem_cons_self spelled)
  | more spelled _ ih =>
      exact .more (weaker List.mem_cons_self spelled)
        (ih fun member => weaker (List.mem_cons_of_mem _ member))

/-- What holds of all the tokens holds of those of each part. -/
theorem and_forall (separated : Separated Spells tokens as) {Holds : Token → Prop}
    (all : ∀ t ∈ tokens, Holds t) :
    Separated (fun part a => Spells part a ∧ ∀ t ∈ part, Holds t) tokens as := by
  induction separated with
  | nil => exact .nil
  | one spelled => exact .one ⟨spelled, all⟩
  | more spelled _ ih =>
      obtain ⟨here, later⟩ := List.forall_mem_append.mp all
      exact .more ⟨spelled, here⟩ (ih (List.forall_mem_cons.mp later).2)

/-- Every one of the things has a spelling among the tokens. -/
theorem exists_of_mem (separated : Separated Spells tokens as) {a : α} (member : a ∈ as) :
    ∃ part, Spells part a ∧ part.length ≤ tokens.length := by
  induction separated with
  | nil => cases member
  | one spelled =>
      obtain rfl := List.mem_singleton.mp member
      exact ⟨_, spelled, Nat.le_refl _⟩
  | more spelled _ ih =>
      rcases List.mem_cons.mp member with rfl | later
      · refine ⟨_, spelled, ?_⟩
        simp only [List.length_append, List.length_cons]
        omega
      · obtain ⟨part, spelled, shorter⟩ := ih later
        refine ⟨part, spelled, ?_⟩
        simp only [List.length_append, List.length_cons]
        omega

end Separated

/-- Spellings of the value may be exchanged for others. -/
theorem Entry.imp {Spells Spells' : List Token → Expr → Prop} {tokens : List Token}
    {property : PropertyKey × Expr} (entry : Entry Spells tokens property)
    (weaker : ∀ {part}, Spells part property.2 → Spells' part property.2) :
    Entry Spells' tokens property := by
  cases entry with
  | mk key spelled => exact .mk key (weaker spelled)

theorem Word.nesting_eq_one {token : Token} {e : Expr} (word : Word token e) : e.nesting = 1 := by
  cases word <;> rfl

theorem Word.level_eq_one {token : Token} {e : Expr} (word : Word token e) : e.level = 1 := by
  cases word <;> rfl

/-- The start of a chain has no links. -/
theorem Base.links_eq_zero {tokens : List Token} {e : Expr} (base : Base tokens e) :
    e.links = 0 := by
  cases base with
  | word word => cases word <;> rfl
  | array | arrayTrailing | object => rfl

/-- Rule induction over the spellings of an expression: in a list, every part has the fact that is
shown of it. -/
theorem Assignment.rule_induction {A U P B : List Token → Expr → Prop}
    (operand : ∀ {tokens e}, U tokens e → A tokens e)
    (store : ∀ {left right target value i}, U left target → U right value →
      A (left ++ ⟨.symbol .equals, i⟩ :: right) (.assign target value))
    (operator : ∀ {operator : UnaryOperator} {tokens e i}, U tokens e →
      U (⟨.symbol operator.symbol, i⟩ :: tokens) (.unary operator e))
    (primary : ∀ {tokens e}, P tokens e → U tokens e)
    (base : ∀ {tokens e}, Base tokens e → B tokens e → P tokens e)
    (member : ∀ {chain owner name i j}, Primary chain owner → P chain owner →
      P (chain ++ [⟨.symbol .dot, i⟩, ⟨.identifier name, j⟩])
        (.member owner (String.ofList name)))
    (index : ∀ {chain tokens owner key i j}, Primary chain owner → P chain owner → A tokens key →
      P (chain ++ ⟨.symbol .openBracket, i⟩ :: (tokens ++ [⟨.symbol .closeBracket, j⟩]))
        (.index owner key .bracketed))
    (call : ∀ {chain tokens callee arguments i j}, Primary chain callee → P chain callee →
      Separated (fun part e => Assignment part e ∧ A part e) tokens arguments →
        P (chain ++ ⟨.symbol .openParen, i⟩ :: (tokens ++ [⟨.symbol .closeParen, j⟩]))
          (.call callee arguments))
    (word : ∀ {token e}, Word token e → B [token] e)
    (array : ∀ {tokens elements i j},
      Separated (fun part e => Assignment part e ∧ A part e) tokens elements →
        B (⟨.symbol .openBracket, i⟩ :: (tokens ++ [⟨.symbol .closeBracket, j⟩]))
          (.array elements))
    (arrayTrailing : ∀ {tokens e es i j k},
      Separated (fun part e => Assignment part e ∧ A part e) tokens (e :: es) →
        B (⟨.symbol .openBracket, i⟩ ::
          (tokens ++ [⟨.symbol .comma, j⟩, ⟨.symbol .closeBracket, k⟩])) (.array (e :: es)))
    (object : ∀ {tokens properties i j},
      Separated (Entry fun part e => Assignment part e ∧ A part e) tokens properties →
        B (⟨.symbol .openBrace, i⟩ :: (tokens ++ [⟨.symbol .closeBrace, j⟩]))
          (.object properties))
    {tokens : List Token} {e : Expr} (spelled : Assignment tokens e) : A tokens e :=
  @Assignment.rec (fun tokens e _ => A tokens e) (fun tokens e _ => U tokens e)
    (fun tokens e _ => P tokens e) (fun tokens e _ => B tokens e)
    (fun tokens es _ => Separated (fun part e => Assignment part e ∧ A part e) tokens es)
    (fun tokens ps _ => Separated (Entry fun part e => Assignment part e ∧ A part e) tokens ps)
    (fun tokens p _ => Entry (fun part e => Assignment part e ∧ A part e) tokens p)
    (fun _ ih => operand ih) (fun _ _ left right => store left right)
    (fun _ ih => operator ih) (fun _ ih => primary ih)
    (fun spelled ih => base spelled ih) (fun spelled ih => member spelled ih)
    (fun spelled _ ih key => index spelled ih key) (fun spelled _ ih parts => call spelled ih parts)
    (fun spelled => word spelled) (fun _ parts => array parts)
    (fun _ parts => arrayTrailing parts) (fun _ parts => object parts)
    .nil (fun spelled ih => .one ⟨spelled, ih⟩)
    (fun spelled _ ih parts => .more ⟨spelled, ih⟩ parts)
    .nil (fun _ ih => .one ih) (fun _ _ ih parts => .more ih parts)
    (fun key spelled ih => .mk key ⟨spelled, ih⟩) _ _ spelled

end Grammar

end GuardedExpr
