import GuardedExpr.Proofs.Grammar
import GuardedExpr.Proofs.Lexing

/-!
# Laws of readers

A reader is sound for a way of spelling if everything it reads is spelled by
the tokens it took. Readers run on tokens in their free form, and spellings are
of the tokens of a text, which are plain: what is written as a symbol is one.
Soundness goes through every way of composing readers. In the other direction
there is one equation for each reader, for tokens that begin with what the
reader looks for.
-/

namespace GuardedExpr.Reader

variable {α β : Type} {m n : Nat}

/-- Whatever the reader reads from plain tokens is spelled by those that it takes. -/
def Sound (p : Reader n α) (Spells : List Token → α → Prop) : Prop :=
  ∀ tokens a left, (∀ t ∈ tokens, t.IsPlain) → p.run (tokens.map Token.free) = .ok (a, left) →
    ∃ taken rest, tokens = taken ++ rest ∧ left = rest.map Token.free ∧ Spells taken a

/-- The same for tokens of which the first one, if any, is known. -/
def SoundFrom (p : Reader n α) (next : Option FreeToken) (Spells : List Token → α → Prop) : Prop :=
  ∀ tokens a left, (∀ t ∈ tokens, t.IsPlain) → (tokens.map Token.free).head? = next →
    p.run (tokens.map Token.free) = .ok (a, left) →
      ∃ taken rest, tokens = taken ++ rest ∧ left = rest.map Token.free ∧ Spells taken a

section Soundness

variable {p : Reader m α} {Spells Spells' : List Token → α → Prop}

theorem Sound.imp (sound : p.Sound Spells) (weaker : ∀ taken a, Spells taken a → Spells' taken a) :
    p.Sound Spells' := by
  intro tokens a left plain read
  obtain ⟨taken, rest, split, remain, spelled⟩ := sound tokens a left plain read
  exact ⟨taken, rest, split, remain, weaker taken a spelled⟩

theorem sound_pure {a : α} (spelled : Spells [] a) : (pure a).Sound Spells := by
  intro tokens b left _ read
  simp only [pure, Except.ok.injEq, Prod.mk.injEq] at read
  obtain ⟨rfl, rfl⟩ := read
  exact ⟨[], tokens, rfl, rfl, spelled⟩

theorem sound_fail {e : ParseError} : (fail e : Reader m α).Sound Spells := by
  intro tokens a left _ read
  cases read

theorem Sound.of_head (sound : p.Sound Spells) (next : Option FreeToken) :
    p.SoundFrom next Spells :=
  fun tokens a left plain _ read => sound tokens a left plain read

theorem SoundFrom.bind {next : Option FreeToken} {f : α → Reader n β}
    {Whole : List Token → β → Prop} (first : p.SoundFrom next Spells)
    (second : ∀ taken a, Spells taken a → (f a).Sound fun more b => Whole (taken ++ more) b) :
    (p.bind f).SoundFrom next Whole := by
  intro tokens b left plain head read
  simp only [Reader.bind] at read
  cases start : p.run (tokens.map Token.free) with
  | error e => simp [start] at read
  | ok result =>
      obtain ⟨a, between⟩ := result
      simp only [start] at read
      obtain ⟨taken, middle, rfl, rfl, spelled⟩ := first tokens a between plain head start
      have plain' : ∀ t ∈ middle, t.IsPlain :=
        fun t member => plain t (List.mem_append_right taken member)
      obtain ⟨more, rest, rfl, rfl, whole⟩ := second taken a spelled middle b left plain' read
      exact ⟨taken ++ more, rest, (List.append_assoc ..).symm, rfl, whole⟩

theorem SoundFrom.weaken {next : Option FreeToken} (sound : p.SoundFrom next Spells)
    (fewer : n ≤ m) : (p.weaken fewer).SoundFrom next Spells :=
  sound

theorem Sound.bind {f : α → Reader n β} {Whole : List Token → β → Prop} (first : p.Sound Spells)
    (second : ∀ taken a, Spells taken a → (f a).Sound fun more b => Whole (taken ++ more) b) :
    (p.bind f).Sound Whole :=
  fun tokens b left plain read => (first.of_head _).bind second tokens b left plain rfl read

theorem Sound.map {f : α → β} {Image : List Token → β → Prop} (sound : p.Sound Spells)
    (image : ∀ taken a, Spells taken a → Image taken (f a)) : (p.map f).Sound Image :=
  sound.bind fun taken a spelled => sound_pure (by simpa using image taken a spelled)

theorem Sound.weaken (sound : p.Sound Spells) (fewer : n ≤ m) : (p.weaken fewer).Sound Spells :=
  sound

/-- The reader chosen has to be sound for the token that it was chosen by. -/
theorem sound_peek {f : Option FreeToken → Reader m α}
    (sound : ∀ next, (f next).SoundFrom next Spells) : (peek f).Sound Spells :=
  fun tokens a left plain read =>
    sound (tokens.map Token.free).head? tokens a left plain rfl read

theorem soundFrom_token {next : Option FreeToken} {expected : Expectation}
    {meaning : FreeToken → Option α} :
    (token expected meaning).SoundFrom next fun taken a =>
      ∃ t : Token, taken = [t] ∧ t.IsPlain ∧ next = some t.free ∧ meaning t.free = some a := by
  intro tokens a left plain head read
  cases tokens with
  | nil => simp [token] at read
  | cons t tokens =>
      simp only [List.map_cons, token] at read
      cases found : meaning t.free with
      | none => simp [found] at read
      | some b =>
          simp only [found, Except.ok.injEq, Prod.mk.injEq] at read
          obtain ⟨rfl, rfl⟩ := read
          exact ⟨[t], tokens, rfl, rfl, t, rfl, plain t List.mem_cons_self, head.symm, found⟩

theorem sound_token {expected : Expectation} {meaning : FreeToken → Option α} :
    (token expected meaning).Sound fun taken a =>
      ∃ t : Token, taken = [t] ∧ t.IsPlain ∧ meaning t.free = some a := by
  intro tokens a left plain read
  obtain ⟨taken, rest, split, remain, t, single, isPlain, _, found⟩ :=
    soundFrom_token tokens a left plain rfl read
  exact ⟨taken, rest, split, remain, t, single, isPlain, found⟩

theorem sound_symbol {s : Symbol} :
    (symbol s).Sound fun taken _ => ∃ i, taken = [⟨.symbol s, i⟩] := by
  refine sound_token.imp ?_
  rintro taken _ ⟨⟨lexeme, i⟩, rfl, plain, found⟩
  rw [Option.ite_none_right_eq_some, plain.isSymbol_free_iff] at found
  obtain rfl : lexeme = .symbol s := found.1
  exact ⟨i, rfl⟩

end Soundness

section Lists

open Grammar

variable {item : Reader 1 α} {Spells : List Token → α → Prop} {close : Symbol} {trailing : Bool}

/-- Items have commas between them, and one more comma may be taken after the last. -/
theorem sound_items (sound : item.Sound Spells) :
    (items item close trailing).Sound fun taken as => as ≠ [] ∧ ∃ part, Separated Spells part as ∧
      (taken = part ∨ trailing = true ∧ ∃ i, taken = part ++ [⟨.symbol .comma, i⟩]) := by
  intro tokens as left plain read
  change itemsLoop item close trailing (tokens.map Token.free) = _ at read
  generalize same : tokens.map Token.free = free at read
  have isComma {next : Token} (isPlain : next.IsPlain)
      (comma : ¬(!next.free.isSymbol .comma) = true) : ∃ i, next = ⟨.symbol .comma, i⟩ := by
    obtain ⟨lexeme, i⟩ := next
    obtain rfl : lexeme = .symbol .comma := isPlain.isSymbol_free_iff.mp (by simpa using comma)
    exact ⟨i, rfl⟩
  fun_induction itemsLoop item close trailing free generalizing tokens as left with
  | case1 => cases read
  | case2 free a first =>
      cases read
      subst same
      obtain ⟨taken, rest, split, remain, spelled⟩ := sound _ _ _ plain first
      exact ⟨taken, rest, split, remain, by simp, taken, .one spelled, .inl rfl⟩
  | case3 free a next after first noComma =>
      cases read
      subst same
      obtain ⟨taken, rest, split, remain, spelled⟩ := sound _ _ _ plain first
      exact ⟨taken, rest, split, remain, by simp, taken, .one spelled, .inl rfl⟩
  | case4 free a next after first comma ends =>
      cases read
      subst same
      obtain ⟨taken, rest, rfl, remain, spelled⟩ := sound _ _ _ plain first
      obtain ⟨token, rest, rfl, rfl, rfl⟩ := List.map_eq_cons_iff.mp remain.symm
      obtain ⟨i, rfl⟩ := isComma (plain token (by simp)) comma
      simp only [Bool.and_eq_true] at ends
      refine ⟨taken ++ [⟨.symbol .comma, i⟩], rest, by simp, rfl, by simp, taken,
        .one spelled, ?_⟩
      exact .inr ⟨ends.1, i, rfl⟩
  | case5 => cases read
  | case6 free a next after first comma _ _ bs after' loop ih =>
      cases read
      subst same
      obtain ⟨taken, rest, rfl, remain, spelled⟩ := sound _ _ _ plain first
      obtain ⟨token, rest, rfl, rfl, rfl⟩ := List.map_eq_cons_iff.mp remain.symm
      obtain ⟨i, rfl⟩ := isComma (plain token (by simp)) comma
      have plain' : ∀ t ∈ rest, t.IsPlain := fun t member => plain t (by simp [member])
      obtain ⟨more, rest, rfl, remain', some, part, separated, comma'⟩ :=
        ih rest bs after' plain' rfl loop
      obtain ⟨b, bs, rfl⟩ := List.exists_cons_of_ne_nil some
      refine ⟨taken ++ ⟨.symbol .comma, i⟩ :: more, rest, by simp, remain', by simp,
        taken ++ ⟨.symbol .comma, i⟩ :: part, .more spelled separated, ?_⟩
      rcases comma' with rfl | ⟨allowed, j, rfl⟩
      · exact .inl rfl
      · exact .inr ⟨allowed, j, by simp⟩

/-- A list is spelled by its items and the closing symbol, and perhaps a comma between them. -/
theorem sound_listUntil (sound : item.Sound Spells) :
    (listUntil item close trailing).Sound fun taken as => ∃ part, Separated Spells part as ∧
      ((∃ i, taken = part ++ [⟨.symbol close, i⟩]) ∨ as ≠ [] ∧ trailing = true ∧
        ∃ i j, taken = part ++ [⟨.symbol .comma, i⟩, ⟨.symbol close, j⟩]) := by
  refine sound_peek fun next => Sound.of_head ?_ next
  split
  · refine sound_symbol.map ?_
    rintro taken _ ⟨i, rfl⟩
    exact ⟨[], .nil, .inl ⟨i, rfl⟩⟩
  · refine ((sound_items sound).bind ?_).weaken _
    rintro taken as ⟨some, part, separated, comma⟩
    refine sound_symbol.map ?_
    rintro _ _ ⟨j, rfl⟩
    rcases comma with rfl | ⟨allowed, i, rfl⟩
    · exact ⟨taken, separated, .inl ⟨j, rfl⟩⟩
    · exact ⟨part, separated, .inr ⟨some, allowed, i, j, by simp⟩⟩

end Lists

section Completeness

variable {tokens rest : List FreeToken} {a : α}

@[simp] theorem run_pure : (pure a).run tokens = .ok (a, tokens) := rfl

@[simp] theorem run_weaken (p : Reader m α) (fewer : n ≤ m) :
    (p.weaken fewer).run tokens = p.run tokens := rfl

@[simp] theorem run_peek (f : Option FreeToken → Reader m α) :
    (peek f).run tokens = (f tokens.head?).run tokens := rfl

theorem run_bind_of_ok {p : Reader m α} {f : α → Reader n β}
    (first : p.run tokens = .ok (a, rest)) : (p.bind f).run tokens = (f a).run rest := by
  simp [Reader.bind, first]

theorem run_map_of_ok {p : Reader m α} {f : α → β} (read : p.run tokens = .ok (a, rest)) :
    (p.map f).run tokens = .ok (f a, rest) :=
  run_bind_of_ok read

theorem run_token {expected : Expectation} {meaning : FreeToken → Option α} {t : FreeToken}
    (found : meaning t = some a) : (token expected meaning).run (t :: rest) = .ok (a, rest) := by
  simp [token, found]

@[simp] theorem isSymbol_free_symbol {s s' : Symbol} {i : Nat} :
    (Token.free ⟨.symbol s', i⟩).isSymbol s = decide (s' = s) := by
  rw [Bool.eq_iff_iff, (Token.isPlain_symbol s' i).isSymbol_free_iff, decide_eq_true_eq]
  exact Lexeme.symbol.injEq s' s ▸ Iff.rfl

@[simp] theorem isNext_symbol {s s' : Symbol} {i : Nat} :
    isNext s (some (Token.free ⟨.symbol s', i⟩)) = decide (s' = s) := by
  rw [isNext, Option.any_some, isSymbol_free_symbol]

theorem run_symbol {s : Symbol} {i : Nat} :
    (symbol s).run (Token.free ⟨.symbol s, i⟩ :: rest) = .ok ((), rest) :=
  run_token (by simp)

variable {item : Reader 1 α} {close : Symbol} {trailing : Bool} {i : Nat}

/-- The loop ends with an item that no comma follows. -/
theorem itemsLoop_of_last (read : item.run tokens = .ok (a, rest))
    (last : isNext .comma rest.head? = false) :
    itemsLoop item close trailing tokens = .ok ([a], rest) := by
  rw [itemsLoop]
  split
  · simp_all
  · simp_all
  · rename_i b next after first
    obtain ⟨rfl, rfl⟩ : b = a ∧ next :: after = rest := by simpa [first] using read
    have noComma : next.isSymbol .comma = false := last
    simp [noComma]

/-- The loop ends with a comma if the closing symbol follows it. -/
theorem itemsLoop_of_trailing
    (read : item.run tokens = .ok (a, Token.free ⟨.symbol .comma, i⟩ :: rest))
    (ends : isNext close rest.head? = true) :
    itemsLoop item close true tokens = .ok ([a], rest) := by
  rw [itemsLoop]
  split
  · simp_all
  · simp_all
  · rename_i b next after first
    obtain ⟨rfl, rfl, rfl⟩ : b = a ∧ next = Token.free ⟨.symbol .comma, i⟩ ∧ after = rest := by
      simpa [first] using read
    simp [ends]

/-- The loop goes on after a comma if the closing symbol does not follow it. -/
theorem itemsLoop_of_comma {as : List α} {left : List FreeToken}
    (read : item.run tokens = .ok (a, Token.free ⟨.symbol .comma, i⟩ :: rest))
    (open' : isNext close rest.head? = false)
    (loop : itemsLoop item close trailing rest = .ok (as, left)) :
    itemsLoop item close trailing tokens = .ok (a :: as, left) := by
  rw [itemsLoop]
  split
  · simp_all
  · simp_all
  · rename_i b next after first
    obtain ⟨rfl, rfl, rfl⟩ : b = a ∧ next = Token.free ⟨.symbol .comma, i⟩ ∧ after = rest := by
      simpa [first] using read
    simp [open', loop]

/-- The symbols that close a list. -/
def closers : List Symbol :=
  [.closeBracket, .closeBrace, .closeParen]

/-- An item may start with this token, which is no symbol that closes a list. -/
def startsItem (next : Option FreeToken) : Bool :=
  next.any fun t => closers.all fun s => !t.isSymbol s

/-- An item may end before this token, which is a comma or closes a list. -/
def endsItem (next : Option FreeToken) : Bool :=
  isNext .comma next || closers.any fun s => isNext s next

/-- The reader reads exactly this from these tokens, whatever ends an item after them. -/
structure ReadsItem (item : Reader 1 α) (part : List Token) (a : α) : Prop where
  starts : startsItem (part.map Token.free).head? = true
  run : ∀ rest, endsItem rest.head? = true →
    item.run (part.map Token.free ++ rest) = .ok (a, rest)

theorem isNext_eq_false_of_startsItem {next : Option FreeToken} (starts : startsItem next = true)
    (closing : close ∈ closers) : isNext close next = false := by
  cases next with
  | none => rfl
  | some t =>
      simp only [startsItem, Option.any_some, List.all_eq_true, Bool.not_eq_eq_eq_not,
        Bool.not_true] at starts
      exact starts close closing

theorem head?_append_of_startsItem {part : List FreeToken} (starts : startsItem part.head? = true)
    (rest : List FreeToken) : (part ++ rest).head? = part.head? := by
  cases part with
  | nil => cases starts
  | cons => rfl

open Grammar

variable {spelled : List Token}

theorem startsItem_of_separated {as : List α} (separated : Separated (ReadsItem item) spelled as)
    (some : as ≠ []) : startsItem (spelled.map Token.free).head? = true := by
  cases separated with
  | nil => exact absurd rfl some
  | one reads => exact reads.starts
  | more reads =>
      rw [List.map_append, head?_append_of_startsItem reads.starts]
      exact reads.starts

/-- The items before a tail are read if the loop ends right before that tail. -/
theorem itemsLoop_append {as : List α} {tail left : List FreeToken} (closing : close ∈ closers)
    (ends : endsItem tail.head? = true)
    (last : ∀ tokens a, item.run tokens = .ok (a, tail) →
      itemsLoop item close trailing tokens = .ok ([a], left))
    (separated : Separated (ReadsItem item) spelled as) (some : as ≠ []) :
    itemsLoop item close trailing (spelled.map Token.free ++ tail) = .ok (as, left) := by
  induction separated with
  | nil => exact absurd rfl some
  | one reads => exact last _ _ (reads.run tail ends)
  | @more part rest a b bs j reads separated ih =>
      have starts := startsItem_of_separated separated (List.cons_ne_nil b bs)
      rw [List.map_append, List.map_cons, List.append_assoc, List.cons_append]
      refine itemsLoop_of_comma (reads.run _ (by simp [endsItem])) ?_ (ih (List.cons_ne_nil b bs))
      rw [head?_append_of_startsItem starts]
      exact isNext_eq_false_of_startsItem starts closing

theorem endsItem_of_closing (closing : close ∈ closers) :
    endsItem (some (Token.free ⟨.symbol close, i⟩)) = true := by
  simp only [endsItem, Bool.or_eq_true, List.any_eq_true]
  exact .inr ⟨close, closing, by simp⟩

/-- A list is read up to the symbol that closes it. -/
theorem run_listUntil {as : List α} (closing : close ∈ closers)
    (separated : Separated (ReadsItem item) spelled as) :
    (listUntil item close trailing).run
        (spelled.map Token.free ++ Token.free ⟨.symbol close, i⟩ :: rest) = .ok (as, rest) := by
  cases as with
  | nil =>
      cases separated
      simp only [listUntil, run_peek, List.map_nil, List.nil_append, List.head?_cons,
        isNext_symbol, decide_true, ↓reduceIte]
      exact run_map_of_ok run_symbol
  | cons a as =>
      have starts := startsItem_of_separated separated (List.cons_ne_nil a as)
      have more := isNext_eq_false_of_startsItem starts closing
      have noComma : close ≠ .comma := by rintro rfl; simp [closers] at closing
      have read : (items item close trailing).run
          (spelled.map Token.free ++ Token.free ⟨.symbol close, i⟩ :: rest) =
            .ok (a :: as, Token.free ⟨.symbol close, i⟩ :: rest) :=
        itemsLoop_append closing (endsItem_of_closing closing)
          (fun _ _ read => itemsLoop_of_last read (by simpa using noComma)) separated
          (List.cons_ne_nil a as)
      simp only [listUntil, run_peek, head?_append_of_startsItem starts, more,
        Bool.false_eq_true, ↓reduceIte, run_weaken]
      rw [run_bind_of_ok read]
      exact run_map_of_ok run_symbol

/-- Where it is allowed, a comma may follow the last item. -/
theorem run_listUntil_trailing {as : List α} {j : Nat} (closing : close ∈ closers)
    (separated : Separated (ReadsItem item) spelled as) (some : as ≠ []) :
    (listUntil item close true).run (spelled.map Token.free ++
        Token.free ⟨.symbol .comma, i⟩ :: Token.free ⟨.symbol close, j⟩ :: rest) =
      .ok (as, rest) := by
  have starts := startsItem_of_separated separated some
  have more := isNext_eq_false_of_startsItem starts closing
  have read : (items item close true).run (spelled.map Token.free ++
      Token.free ⟨.symbol .comma, i⟩ :: Token.free ⟨.symbol close, j⟩ :: rest) =
        .ok (as, Token.free ⟨.symbol close, j⟩ :: rest) :=
    itemsLoop_append closing (by simp [endsItem])
      (fun _ _ read => itemsLoop_of_trailing read (by simp)) separated some
  simp only [listUntil, run_peek, head?_append_of_startsItem starts, more,
    Bool.false_eq_true, ↓reduceIte, run_weaken]
  rw [run_bind_of_ok read]
  exact run_map_of_ok run_symbol

end Completeness

end GuardedExpr.Reader

namespace GuardedExpr

theorem UnaryOperator.text_eq_singleton (operator : UnaryOperator) :
    operator.text = String.singleton operator.symbol.char := by
  cases operator <;> rfl

/-- A plain token is taken for the operators that it is. -/
theorem Token.IsPlain.operator?_free_iff {t : Token} (plain : t.IsPlain)
    {operator : UnaryOperator} :
    Parser.operator? t.free = some operator ↔ t.lexeme = .symbol operator.symbol := by
  constructor
  · intro found
    have written : operator.text = t.text := by simpa [Token.free] using List.find?_some found
    rw [operator.text_eq_singleton] at written
    exact plain _ (text_eq_singleton_iff.mp written.symm)
  · intro same
    have written : t.text = operator.text := by
      rw [operator.text_eq_singleton, text_eq_singleton_iff, same]
      rfl
    change UnaryOperator.ofText? t.text = some operator
    rw [written, UnaryOperator.ofText?_text]

/-- No text is written as two symbols. -/
theorem FreeToken.isSymbol_unique {t : FreeToken} {s s' : Symbol} (first : t.isSymbol s = true)
    (second : t.isSymbol s' = true) : s = s' := by
  have same : String.singleton s.char = String.singleton s'.char :=
    (beq_iff_eq.mp first).symm.trans (beq_iff_eq.mp second)
  rw [String.singleton_eq_ofList, String.singleton_eq_ofList, String.ofList_inj] at same
  exact Symbol.char_inj.mp (List.singleton_inj.mp same)

end GuardedExpr
