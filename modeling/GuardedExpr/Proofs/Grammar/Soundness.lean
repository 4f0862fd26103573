import GuardedExpr.Proofs.Reader

/-!
# What the parser reads is spelled

Every expression that a reader of the grammar gives is spelled by the tokens
it took, and its nesting fits the room that the reader was given. The readers
of one level are sound if the reader of operands one level below is, so one
induction on the room ties them together.
-/

namespace GuardedExpr.Parser

open Reader Grammar

theorem literal_of_value? {t : Token} {value : Json} (found : t.value? = some value) :
    Literal t value := by
  obtain ⟨lexeme, i⟩ := t
  cases lexeme with
  | number text x =>
      obtain rfl : .float x = value := Option.some.inj found
      exact .number
  | string text s =>
      obtain rfl : .string (String.ofList s) = value := Option.some.inj found
      exact .string
  | identifier name => cases found
  | symbol s => cases found

theorem eq_identifier_of_name? {t : Token} {name : String} (found : name? t.free = some name) :
    ∃ cs i, t = ⟨.identifier cs, i⟩ ∧ name = String.ofList cs := by
  obtain ⟨lexeme, i⟩ := t
  cases lexeme with
  | identifier cs => exact ⟨cs, i, rfl, (Option.some.inj found).symm⟩
  | number | string | symbol => cases found

/-- Keywords are constants at the start of a chain, and any other name is an identifier. -/
theorem word_ofName (name : List Char) (i : Nat) :
    Word ⟨.identifier name, i⟩ (ofName (String.ofList name)) := by
  unfold ofName
  split
  · exact .null ‹_›
  split
  · exact .true ‹_›
  split
  · exact .false ‹_›
  split
  · exact .self ‹_›
  · refine .identifier ?_
    simp_all [keywords]

theorem sound_literal : literal.Sound fun taken value => ∃ t, taken = [t] ∧ Literal t value := by
  refine sound_token.imp ?_
  rintro taken value ⟨t, rfl, _, found⟩
  exact ⟨t, rfl, literal_of_value? found⟩

theorem sound_identifier : identifier.Sound fun taken name =>
    ∃ cs i, taken = [⟨.identifier cs, i⟩] ∧ name = String.ofList cs := by
  refine sound_token.imp ?_
  rintro taken name ⟨t, rfl, _, found⟩
  obtain ⟨cs, i, rfl, rfl⟩ := eq_identifier_of_name? found
  exact ⟨cs, i, rfl, rfl⟩

theorem sound_propertyKey : propertyKey.Sound fun taken key => ∃ t, taken = [t] ∧ Key t key := by
  refine sound_token.imp ?_
  rintro taken key ⟨t, rfl, _, found⟩
  refine ⟨t, rfl, ?_⟩
  split at found
  · rename_i name named
    obtain ⟨cs, i, rfl, rfl⟩ := eq_identifier_of_name? named
    obtain rfl := Option.some.inj found
    exact .name
  · obtain ⟨value, spelled, rfl⟩ := Option.map_eq_some_iff.mp found
    exact .literal (literal_of_value? spelled)

section Level

variable {unary : Reader 1 Expr} {room : Nat}

/-- A reader of operands that take at most so much room. -/
def SoundWithin (unary : Reader 1 Expr) (room : Nat) : Prop :=
  unary.Sound fun taken e => Unary taken e ∧ e.nesting ≤ room

theorem sound_assignment (sound : SoundWithin unary room) :
    (assignment unary).Sound fun taken e => Assignment taken e ∧ e.nesting ≤ room := by
  refine (Sound.bind sound ?_).weaken _
  rintro left target ⟨spelled, fits⟩
  refine sound_peek fun next => Sound.of_head ?_ next
  split
  · refine (sound_symbol.bind ?_).weaken _
    rintro _ _ ⟨i, rfl⟩
    refine Sound.map sound ?_
    rintro right value ⟨spelled', fits'⟩
    exact ⟨.store spelled spelled', Nat.max_le.mpr ⟨fits, fits'⟩⟩
  · refine sound_pure ⟨?_, fits⟩
    rw [List.append_nil]
    exact .operand spelled

theorem sound_property (sound : SoundWithin unary room) :
    (property unary).Sound (Entry fun part e => Assignment part e ∧ e.nesting ≤ room) := by
  refine (sound_propertyKey.bind ?_).weaken _
  rintro _ key ⟨t, rfl, spelled⟩
  refine sound_symbol.bind ?_
  rintro _ _ ⟨i, rfl⟩
  refine (sound_assignment sound).map ?_
  intro taken e fits
  exact .mk spelled fits

/-- An array literal after its opening bracket. -/
theorem sound_array (sound : SoundWithin unary room) :
    ((listUntil (assignment unary) .closeBracket true).map Expr.array).Sound fun taken e =>
      ∀ i, Base (⟨.symbol .openBracket, i⟩ :: taken) e ∧ e.nesting ≤ room + 1 := by
  refine (sound_listUntil (sound_assignment sound)).map ?_
  rintro taken elements ⟨part, separated, ends⟩ i
  have fits : (Expr.array elements).nesting ≤ room + 1 := by
    refine Nat.succ_le_succ (Expr.nestingOfList_le_iff.mpr fun e member => ?_)
    obtain ⟨_, ⟨_, fits⟩, _⟩ := separated.exists_of_mem member
    exact fits
  have spelled : Separated Assignment part elements := separated.imp fun _ spelled => spelled.1
  rcases ends with ⟨j, rfl⟩ | ⟨some, _, j, k, rfl⟩
  · exact ⟨.array spelled, fits⟩
  · obtain ⟨e, es, rfl⟩ := List.exists_cons_of_ne_nil some
    exact ⟨.arrayTrailing spelled, fits⟩

/-- An object literal after its opening brace. -/
theorem sound_object (sound : SoundWithin unary room) :
    ((listUntil (property unary) .closeBrace false).map Expr.object).Sound fun taken e =>
      ∀ i, Base (⟨.symbol .openBrace, i⟩ :: taken) e ∧ e.nesting ≤ room + 1 := by
  refine (sound_listUntil (sound_property sound)).map ?_
  rintro taken properties ⟨part, separated, ends⟩ i
  have fits : (Expr.object properties).nesting ≤ room + 1 := by
    refine Nat.succ_le_succ (Expr.nestingOfProperties_le_iff.mpr fun p member => ?_)
    obtain ⟨_, entry, _⟩ := separated.exists_of_mem member
    cases entry with
    | mk _ fits => exact fits.2
  have spelled : Separated (Entry Assignment) part properties :=
    separated.imp fun _ entry => entry.imp fun spelled => spelled.1
  rcases ends with ⟨j, rfl⟩ | ⟨_, impossible, _⟩
  · exact ⟨.object spelled, fits⟩
  · cases impossible

theorem sound_base (sound : SoundWithin unary room) :
    (base unary).Sound fun taken e => Base taken e ∧ e.nesting ≤ room + 1 := by
  refine sound_peek fun next => Sound.of_head ?_ next
  split
  · refine (sound_symbol.bind ?_).weaken _
    rintro _ _ ⟨i, rfl⟩
    exact (sound_array sound).imp fun taken e spelled => spelled i
  split
  · refine (sound_symbol.bind ?_).weaken _
    rintro _ _ ⟨i, rfl⟩
    exact (sound_object sound).imp fun taken e spelled => spelled i
  split
  · refine sound_identifier.map ?_
    rintro _ _ ⟨cs, i, rfl, rfl⟩
    have spelled := word_ofName cs i
    exact ⟨.word spelled, by rw [spelled.nesting_eq_one]; exact Nat.le_add_left 1 room⟩
  · refine sound_literal.map ?_
    rintro _ value ⟨t, rfl, spelled⟩
    exact ⟨.word (.literal spelled), Nat.le_add_left 1 room⟩

theorem sound_linkSymbol :
    linkSymbol.Sound fun taken s => s ∈ linkSymbols ∧ ∃ i, taken = [⟨.symbol s, i⟩] := by
  refine sound_token.imp ?_
  rintro taken s ⟨⟨lexeme, i⟩, rfl, plain, found⟩
  obtain rfl : lexeme = .symbol s := plain.isSymbol_free_iff.mp (List.find?_some found)
  exact ⟨List.mem_of_find?_eq_some found, i, rfl⟩

/-- One link of a chain, from the symbol that opens it. -/
theorem sound_link (sound : SoundWithin unary room) {chain : List Token} {owner : Expr}
    (spelled : Primary chain owner) :
    (linkSymbol.bind fun opening => linkAfter unary owner opening).Sound fun taken e =>
      Primary (chain ++ taken) e ∧ e.links = owner.links + 1 ∧
        e.nesting ≤ max owner.nesting (owner.links + 2 + room) := by
  refine sound_linkSymbol.bind ?_
  rintro _ opening ⟨opens, i, rfl⟩
  cases opening with
  | dot =>
      refine sound_identifier.map ?_
      rintro _ _ ⟨cs, j, rfl, rfl⟩
      refine ⟨.member spelled, rfl, ?_⟩
      simp only [Expr.nesting]
      omega
  | openBracket =>
      refine ((sound_assignment sound).bind ?_).weaken (by decide)
      rintro part key ⟨spelledKey, fits⟩
      refine sound_symbol.map ?_
      rintro _ _ ⟨j, rfl⟩
      refine ⟨.index spelled spelledKey, rfl, ?_⟩
      simp only [Expr.nesting]
      omega
  | openParen =>
      refine (sound_listUntil (sound_assignment sound)).map ?_
      rintro taken arguments ⟨part, separated, ⟨j, rfl⟩ | ⟨_, impossible, _⟩⟩
      · have fits : Expr.nestingOfList arguments ≤ room := by
          refine Expr.nestingOfList_le_iff.mpr fun e member => ?_
          obtain ⟨_, ⟨_, fits⟩, _⟩ := separated.exists_of_mem member
          exact fits
        refine ⟨.call spelled (separated.imp fun _ spelled => spelled.1), rfl, ?_⟩
        simp only [Expr.nesting]
        omega
      · cases impossible
  | closeBracket | comma | openBrace | closeBrace | colon | closeParen | equals | plus | bang
  | minus =>
      simp [linkSymbols] at opens

end Level

/-- In the room that is left, the reader of operands and the reader of further links are sound. -/
theorem sound_unary_and_links (limit room : Nat) :
    SoundWithin (unary limit room) room ∧
      ∀ {chain owner}, Primary chain owner →
        (links limit room owner).Sound fun taken e => Primary (chain ++ taken) e ∧
          e.nesting ≤ max owner.nesting (owner.links + 1 + room) := by
  induction room with
  | zero =>
      refine ⟨sound_fail, fun {chain owner} spelled => ?_⟩
      refine sound_peek fun next => Sound.of_head ?_ next
      split
      · refine (Sound.bind sound_token ?_).weaken _
        intro _ _ _
        exact sound_fail
      · refine sound_pure ⟨?_, Nat.le_max_left ..⟩
        rwa [List.append_nil]
  | succ room ih =>
      obtain ⟨operand, further⟩ := ih
      constructor
      · refine sound_peek fun next => ?_
        split
        · rename_i operator leads
          refine (soundFrom_token.bind ?_).weaken _
          rintro _ operator' ⟨t, rfl, plain, rfl, found⟩
          obtain rfl : operator' = operator := Option.some.inj (found.symm.trans leads)
          obtain ⟨lexeme, i⟩ := t
          obtain rfl : lexeme = .symbol _ := plain.operator?_free_iff.mp found
          refine operand.map ?_
          rintro taken e ⟨spelled, fits⟩
          exact ⟨.operator spelled, Nat.succ_le_succ fits⟩
        · refine Sound.of_head ((sound_base operand).bind ?_) next
          rintro taken start ⟨spelled, fits⟩
          refine (further (.base spelled)).imp ?_
          rintro more e ⟨chain, fits'⟩
          rw [spelled.links_eq_zero] at fits'
          exact ⟨.primary chain, by omega⟩
      · intro chain owner spelled
        refine sound_peek fun next => Sound.of_head ?_ next
        split
        · refine ((sound_link operand spelled).bind ?_).weaken _
          rintro link e ⟨spelled', counted, fits⟩
          refine (further spelled').imp ?_
          rintro more e' ⟨spelled'', fits'⟩
          rw [List.append_assoc] at spelled''
          exact ⟨spelled'', by omega⟩
        · refine sound_pure ⟨?_, Nat.le_max_left ..⟩
          rwa [List.append_nil]

end GuardedExpr.Parser
