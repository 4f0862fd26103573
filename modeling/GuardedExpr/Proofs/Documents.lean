import GuardedExpr.Proofs.Unrolling

/-!
# Values and documents

The value of a document unfolds to a tree of the document, through containers
that are new. So a document is found again in the heap that it was made in, and
a value has a document unless it leads to a container that holds itself or there
is nothing in it for a document.
-/

namespace GuardedExpr

namespace Heap

section OfDocument

variable {h h' : Heap} {v : Value} {j : Json}

/-- The value has the document, through identities that have been given out. -/
structure Settled (h : Heap) (v : Value) (j : Json) : Prop where
  unfolds : ∃ tree, h.Unfolds v tree ∧ tree.json? = some j.asFloats
  below : ∀ c, h.Leads v c → c.id < h.next

/-- What is settled stays so when the heap grows. -/
theorem Settled.later (settled : h.Settled v j) (grown : ChangedWithin ∅ h h') :
    h'.Settled v j := by
  have same (c : Container) (leads : h.Leads v c) : h'.entries c = h.entries c :=
    entries_eq_of_child? (grown.kept c ⟨settled.below c leads, Set.notMem_empty _⟩)
  obtain ⟨tree, unfolds, document⟩ := settled.unfolds
  refine ⟨⟨tree, unfolds.frame same, document⟩, fun c leads => ?_⟩
  exact Nat.lt_of_lt_of_le (settled.below c (leads.of_frame same)) grown.grows

theorem settled_leaf (plain : v.container? = none)
    (unfolds : ∃ tree, h.Unfolds v tree ∧ tree.json? = some j.asFloats) : h.Settled v j :=
  ⟨unfolds, fun _ leads => absurd leads (not_leads_of_container?_eq_none plain)⟩

/-- A container leads to what its entries lead to. -/
theorem below_of_entries {c : Container} (refers : v.container? = some c) (own : c.id < h.next)
    (each : ∀ e ∈ h.entries c, ∃ j, h.Settled e.2 j) (d : Container) (leads : h.Leads v d) :
    d.id < h.next := by
  cases leads with
  | here refers' =>
      rw [refers] at refers'
      exact Option.some.inj refers' ▸ own
  | through refers' held leads =>
      rw [refers] at refers'
      obtain rfl := Option.some.inj refers'
      obtain ⟨j, settled⟩ := each _ held
      exact settled.below d leads

theorem settled_newArray {vs : List Value} {items : List Json}
    (all : List.Forall₂ h.Settled vs items) :
    (h.newArray vs.toArray).2.Settled (.array (h.newArray vs.toArray).1) (.array items) := by
  have here : (h.newArray vs.toArray).2.items (h.newArray vs.toArray).1 = vs.toArray :=
    (items_newArray h vs.toArray _).trans (if_pos rfl)
  have later : List.Forall₂ (h.newArray vs.toArray).2.Settled vs items :=
    all.imp fun v item settled => settled.later (changedWithin_newArray h vs.toArray)
  constructor
  · apply unfolds_array_of_documents
    rw [here]
    refine later.imp fun v item settled => ?_
    obtain ⟨tree, unfolds, document⟩ := settled.unfolds
    exact ⟨tree, unfolds, by rw [document, Option.getD_some]⟩
  · refine below_of_entries rfl (Nat.lt_succ_self h.next) fun e held => ?_
    have member := List.mem_map_of_mem (f := Prod.snd) held
    rw [entries_array_map_snd, here] at member
    exact exists_of_forall₂ later member

/-- An object made of properties in ascending order has these for its entries. -/
theorem entries_newObject {ps : List (String × Value)} (sorted : ps.Pairwise fun p q => p.1 < q.1)
    (h : Heap) : (h.newObject .plain ps).2.entries (.object (h.newObject .plain ps).1) = ps := by
  have here : (h.newObject .plain ps).2.properties (h.newObject .plain ps).1 =
      Std.TreeMap.ofList ps := (properties_newObject h .plain ps _).trans (if_pos rfl)
  refine eq_of_mem_iff_of_ascending (sorted_entries_object _ _) sorted fun key v => ?_
  rw [mem_entries_object, here, getElem?_ofList sorted, Json.lookup_eq_some_iff sorted]

theorem settled_newObject {ps : List (String × Value)} {members : List (String × Json)}
    (sorted : ps.Pairwise fun p q => p.1 < q.1)
    (all : List.Forall₂ (SameEntry h.Settled) ps members) :
    (h.newObject .plain ps).2.Settled (.object (h.newObject .plain ps).1) (.object members) := by
  have later : List.Forall₂ (SameEntry (h.newObject .plain ps).2.Settled)
      ((h.newObject .plain ps).2.entries (.object (h.newObject .plain ps).1)) members := by
    rw [entries_newObject sorted]
    exact all.imp fun p m same => ⟨same.1, same.2.later (changedWithin_newObject h ps)⟩
  constructor
  · exact unfolds_object_of_documents (later.imp fun e m same => ⟨same.1, same.2.unfolds⟩)
  · refine below_of_entries rfl (Nat.lt_succ_self h.next) fun e held => ?_
    obtain ⟨m, same⟩ := exists_of_forall₂ later held
    exact ⟨m.2, same.2⟩

mutual

/-- **The value of a document has the document**, up to numbers, which are floats. -/
theorem settled_ofJson (h : Heap) (j : Json) (document : j.IsDocument) :
    ChangedWithin ∅ h (h.ofJson j).2 ∧ (h.ofJson j).2.Settled (h.ofJson j).1 j :=
  match j with
  | .null | .bool _ | .string _ => ⟨.refl ∅ h, settled_leaf rfl ⟨_, .leaf rfl, rfl⟩⟩
  | .int n => by
      cases document with
      | int n least below =>
          have finite : (Number.ofInt n).isFinite = true := Number.isFinite_ofInt (by omega)
          exact ⟨.refl ∅ h, settled_leaf rfl (unfolds_float finite)⟩
  | .float x => by
      cases document with
      | float x finite => exact ⟨.refl ∅ h, settled_leaf rfl (unfolds_float finite)⟩
  | .array items => by
      cases document with
      | array items each =>
          obtain ⟨grown, all⟩ := settled_ofJsonItems h items each
          have made := changedWithin_newArray (h.ofJsonItems items).2
            (h.ofJsonItems items).1.toArray
          exact ⟨grown.trans made (Set.empty_subset _), settled_newArray all⟩
  | .object members => by
      cases document with
      | object members sorted each =>
          obtain ⟨grown, all⟩ := settled_ofJsonMembers h members each
          have ascending : (h.ofJsonMembers members).1.Pairwise fun p q => p.1 < q.1 := by
            rw [← List.pairwise_map (f := Prod.fst), keys_ofJsonMembers, List.pairwise_map]
            exact sorted
          have made := changedWithin_newObject (h.ofJsonMembers members).2
            (h.ofJsonMembers members).1
          exact ⟨grown.trans made (Set.empty_subset _), settled_newObject ascending all⟩

theorem settled_ofJsonItems (h : Heap) (items : List Json)
    (documents : ∀ item ∈ items, item.IsDocument) :
    ChangedWithin ∅ h (h.ofJsonItems items).2 ∧
      List.Forall₂ (h.ofJsonItems items).2.Settled (h.ofJsonItems items).1 items :=
  match items with
  | [] => ⟨.refl ∅ h, .nil⟩
  | item :: items => by
      obtain ⟨first, rest⟩ := List.forall_mem_cons.mp documents
      obtain ⟨grown, settled⟩ := settled_ofJson h item first
      obtain ⟨grown', all⟩ := settled_ofJsonItems (h.ofJson item).2 items rest
      exact ⟨grown.trans grown' (Set.empty_subset _), .cons (settled.later grown') all⟩

theorem settled_ofJsonMembers (h : Heap) (members : List (String × Json))
    (documents : ∀ member ∈ members, member.2.IsDocument) :
    ChangedWithin ∅ h (h.ofJsonMembers members).2 ∧
      List.Forall₂ (SameEntry (h.ofJsonMembers members).2.Settled) (h.ofJsonMembers members).1
        members :=
  match members with
  | [] => ⟨.refl ∅ h, .nil⟩
  | (key, member) :: members => by
      obtain ⟨first, rest⟩ := List.forall_mem_cons.mp documents
      obtain ⟨grown, settled⟩ := settled_ofJson h member first
      obtain ⟨grown', all⟩ := settled_ofJsonMembers (h.ofJson member).2 members rest
      exact ⟨grown.trans grown' (Set.empty_subset _), .cons ⟨rfl, settled.later grown'⟩ all⟩

end

end OfDocument

/-- **The document of a value is that of its unfolding.** There is none exactly for `undefined`, for
functions, and for what leads to a container that holds itself. Nothing but such a container keeps a
value from unfolding to a tree, and the document of the tree is the document of the value. The value
of a document gives the document back, with every number as a float. -/
theorem toJson_unfolding (h : Heap) (v : Value) :
    (h.toJson v = none ↔
      (v = .undefined ∨ ∃ f, v = .function f) ∨ ∃ c, h.Leads v c ∧ h.Cyclic c) ∧
    ((∃ tree, h.Unfolds v tree) ↔ ∀ c, h.Leads v c → ¬ h.Cyclic c) ∧
    (∀ tree, h.Unfolds v tree → h.toJson v = tree.json?) ∧
    ∀ j, j.IsDocument → (h.ofJson j).2.toJson (h.ofJson j).1 = some j.asFloats := by
  refine ⟨h.toJson_eq_none_iff v, h.exists_unfolds_iff v, fun tree unfolds => unfolds.toJson_eq, ?_⟩
  intro j document
  obtain ⟨tree, unfolds, written⟩ := (settled_ofJson h j document).2.unfolds
  rw [unfolds.toJson_eq, written]

/-- A list that stands twice in another one is written twice; an object in itself has no end. -/
theorem toJson_unfolding_shared_and_cyclic :
    let h := ((Heap.empty.setItems ⟨0⟩ #[.string "x", .undefined]).setItems ⟨1⟩
      #[.array ⟨0⟩, .array ⟨0⟩]).setProperty ⟨2, .plain⟩ "self" (.object ⟨2, .plain⟩)
    h.toJson (.array ⟨1⟩) =
        some (.array [.array [.string "x", .null], .array [.string "x", .null]]) ∧
      h.toJson (.object ⟨2, .plain⟩) = none := by
  intro h
  constructor
  · have inner : h.Unfolds (.array ⟨0⟩) (.array [.leaf (.string "x"), .leaf .undefined]) :=
      unfolds_array_of_forall₂ (.cons (.leaf rfl) (.cons (.leaf rfl) .nil))
    have outer : h.Unfolds (.array ⟨1⟩) (.array [.array [.leaf (.string "x"), .leaf .undefined],
        .array [.leaf (.string "x"), .leaf .undefined]]) :=
      unfolds_array_of_forall₂ (.cons inner (.cons inner .nil))
    exact (toJson_unfolding h _).2.2.1 _ outer
  · refine (toJson_unfolding h _).1.mpr (.inr ⟨.object ⟨2, .plain⟩, .here rfl, ?_⟩)
    exact ⟨"self", .object ⟨2, .plain⟩, List.mem_singleton.mpr rfl, .here rfl⟩

end Heap

end GuardedExpr
