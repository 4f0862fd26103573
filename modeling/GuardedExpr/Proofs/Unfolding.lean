import Mathlib
import GuardedExpr.Proofs.Contents
import GuardedExpr.Proofs.PathUpdate

/-!
# Unfolding values

A value unfolds to a finite tree when every container it leads to is written
out wherever it is met. Sharing does no harm: a container that is met twice
stands in the tree twice. Only a container that holds itself has no end. The
walk that turns a value into a document gives the document of its tree, or it
gives up, and then the value leads to a container that holds itself.
-/

namespace GuardedExpr

/-- The document of what is no container. `undefined` and functions have none. -/
def Value.leafJson? : Value → Option Json
  | .null => some .null
  | .bool b => some (.bool b)
  | .number x => some (if x.isFinite then .float x else .null)
  | .string s => some (.string s)
  | .undefined | .function _ | .array _ | .object _ => none

/-- A value with every container written out where it is met. -/
inductive Unfolding where
  | leaf (v : Value)
  | array (items : List Unfolding)
  | object (members : List (String × Unfolding))
deriving Inhabited

namespace Unfolding

mutual

/-- The document of the tree. What has no document is `null` among items, and left out among
members. -/
def json? : Unfolding → Option Json
  | leaf v => v.leafJson?
  | array items => some (.array (jsonOfItems items))
  | object members => some (.object (jsonOfMembers members))

def jsonOfItems : List Unfolding → List Json
  | [] => []
  | item :: items => item.json?.getD .null :: jsonOfItems items

def jsonOfMembers : List (String × Unfolding) → List (String × Json)
  | [] => []
  | (key, member) :: members =>
    match member.json? with
    | none => jsonOfMembers members
    | some j => (key, j) :: jsonOfMembers members

end

theorem jsonOfItems_eq_map (items : List Unfolding) :
    jsonOfItems items = items.map fun item => item.json?.getD .null := by
  induction items with
  | nil => rfl
  | cons item items ih => rw [jsonOfItems, ih, List.map_cons]

theorem jsonOfMembers_eq_filterMap (members : List (String × Unfolding)) :
    jsonOfMembers members = members.filterMap fun m => m.2.json?.map fun j => (m.1, j) := by
  induction members with
  | nil => rfl
  | cons member members ih =>
      obtain ⟨key, member⟩ := member
      rw [jsonOfMembers, ih]
      cases found : member.json? with
      | none => simp [found]
      | some j => simp [found]

/-- Among items, what has no document stands for `null`. -/
theorem jsonOfItems_eq_asFloats {trees : List Unfolding} {items : List Json}
    (all : List.Forall₂ (fun tree item => tree.json?.getD .null = item.asFloats) trees items) :
    jsonOfItems trees = Json.itemsAsFloats items := by
  induction all with
  | nil => rfl
  | cons first _ ih => rw [jsonOfItems, first, ih, Json.itemsAsFloats]

theorem jsonOfMembers_eq_asFloats {trees : List (String × Unfolding)}
    {members : List (String × Json)}
    (all : List.Forall₂ (SameEntry fun tree j => tree.json? = some j.asFloats) trees members) :
    jsonOfMembers trees = Json.membersAsFloats members := by
  induction all with
  | nil => rfl
  | cons first _ ih => simp only [jsonOfMembers, first.2, first.1, ih, Json.membersAsFloats]

end Unfolding

namespace Heap

/-- The value unfolds to the tree: one subtree for each entry of a container, in order. -/
inductive Unfolds (h : Heap) : Value → Unfolding → Prop where
  | leaf {v : Value} (plain : v.container? = none) : h.Unfolds v (.leaf v)
  | array {a : ArrayRef} {items : List Unfolding}
      (size : (h.entries (.array a)).length = items.length)
      (each : ∀ (i : Nat) e item, (h.entries (.array a))[i]? = some e → items[i]? = some item →
        h.Unfolds e.2 item) : h.Unfolds (.array a) (.array items)
  | object {o : ObjectRef} {members : List (String × Unfolding)}
      (keys : (h.entries (.object o)).map Prod.fst = members.map Prod.fst)
      (each : ∀ (i : Nat) e m, (h.entries (.object o))[i]? = some e → members[i]? = some m →
        h.Unfolds e.2 m.2) : h.Unfolds (.object o) (.object members)

section Unfolds

variable {h h' : Heap} {v : Value} {tree tree' : Unfolding} {c : Container}

theorem unfolds_array_of_forall₂ {a : ArrayRef} {items : List Unfolding}
    (all : List.Forall₂ (fun e item => h.Unfolds e.2 item) (h.entries (.array a)) items) :
    h.Unfolds (.array a) (.array items) := by
  obtain ⟨size, each⟩ := forall₂_iff_getElem?.mp all
  exact .array size each

theorem unfolds_object_of_forall₂ {o : ObjectRef} {members : List (String × Unfolding)}
    (all : List.Forall₂ (SameEntry h.Unfolds) (h.entries (.object o)) members) :
    h.Unfolds (.object o) (.object members) := by
  refine .object (map_fst_eq_of_sameEntry all) fun i e m found found' => ?_
  exact ((forall₂_iff_getElem?.mp all).2 i e m found found').2

/-- A value has one unfolding. -/
theorem Unfolds.unique (unfolds : h.Unfolds v tree) (unfolds' : h.Unfolds v tree') :
    tree = tree' := by
  induction unfolds generalizing tree' with
  | leaf plain =>
      cases unfolds' with
      | leaf => rfl
      | array => cases plain
      | object => cases plain
  | @array a items size each ih =>
      cases unfolds' with
      | leaf plain => cases plain
      | @array _ items' size' each' =>
          congr 1
          rw [← List.forall₂_eq_eq_eq, forall₂_iff_getElem?]
          refine ⟨size.symm.trans size', fun i item item' found found' => ?_⟩
          obtain ⟨within, _⟩ := List.getElem?_eq_some_iff.mp found
          have place := List.getElem?_eq_getElem (size ▸ within)
          exact ih i _ item place found (each' i _ item' place found')
  | @object o members keys each ih =>
      cases unfolds' with
      | leaf plain => cases plain
      | @object _ members' keys' each' =>
          congr 1
          have same := keys.symm.trans keys'
          rw [← List.forall₂_eq_eq_eq, forall₂_iff_getElem?]
          refine ⟨by simpa using congrArg List.length same, fun i m m' found found' => ?_⟩
          obtain ⟨e, place⟩ := exists_getElem?_of_map_eq keys.symm found
          refine Prod.ext (fst_eq_of_map_eq same found found') ?_
          exact ih i e m place found (each' i e m' place found')

/-- If nothing in the container leads to a cycle, the container does not. -/
theorem not_cyclic_of_entries (refers : v.container? = some c)
    (each : ∀ e ∈ h.entries c, ∀ d, h.Leads e.2 d → ¬ h.Cyclic d) {d : Container}
    (leads : h.Leads v d) : ¬ h.Cyclic d := by
  cases leads with
  | here refers' =>
      rw [refers] at refers'
      obtain rfl := Option.some.inj refers'
      intro cyclic
      obtain ⟨key, w, held, leads⟩ := cyclic
      exact each (key, w) held c leads ⟨key, w, held, leads⟩
  | through refers' held leads =>
      rw [refers] at refers'
      obtain rfl := Option.some.inj refers'
      exact each _ held d leads

/-- **What unfolds leads to no cycle.** -/
theorem Unfolds.not_cyclic (unfolds : h.Unfolds v tree) (leads : h.Leads v c) :
    ¬ h.Cyclic c := by
  induction unfolds generalizing c with
  | leaf plain => exact absurd leads (not_leads_of_container?_eq_none plain)
  | @array a items size each ih =>
      refine not_cyclic_of_entries rfl (fun e held d there => ?_) leads
      obtain ⟨i, place⟩ := List.mem_iff_getElem?.mp held
      obtain ⟨within, _⟩ := List.getElem?_eq_some_iff.mp place
      exact ih i e _ place (List.getElem?_eq_getElem (size ▸ within)) there
  | @object o members keys each ih =>
      refine not_cyclic_of_entries rfl (fun e held d there => ?_) leads
      obtain ⟨i, place⟩ := List.mem_iff_getElem?.mp held
      obtain ⟨m, found⟩ := exists_getElem?_of_map_eq keys place
      exact ih i e m place found there

/-- An unfolding depends only on the containers that the value leads to. -/
theorem Unfolds.frame (unfolds : h.Unfolds v tree)
    (same : ∀ c, h.Leads v c → h'.entries c = h.entries c) : h'.Unfolds v tree := by
  induction unfolds with
  | leaf plain => exact .leaf plain
  | @array a items size each ih =>
      have here := same _ (.here rfl)
      refine .array (here ▸ size) fun i e item place found => ?_
      rw [here] at place
      exact ih i e item place found fun c leads =>
        same c (.through rfl (List.mem_of_getElem? place) leads)
  | @object o members keys each ih =>
      have here := same _ (.here rfl)
      refine .object (here ▸ keys) fun i e m place found => ?_
      rw [here] at place
      exact ih i e m place found fun c leads =>
        same c (.through rfl (List.mem_of_getElem? place) leads)

theorem unfolds_float {x : Float} (finite : x.isFinite = true) :
    ∃ tree, h.Unfolds (.number x) tree ∧ tree.json? = some (.float x) :=
  ⟨_, .leaf rfl, by rw [Unfolding.json?, Value.leafJson?, if_pos finite]⟩

theorem entries_array_map_snd (h : Heap) (a : ArrayRef) :
    (h.entries (.array a)).map Prod.snd = (h.items a).toList := by
  rw [entries, List.map_map]
  exact List.zipIdx_map_fst 0 _

/-- An array has the document that its items make up. -/
theorem unfolds_array_of_documents {a : ArrayRef} {items : List Json}
    (all : List.Forall₂ (fun v item => ∃ tree, h.Unfolds v tree ∧
      tree.json?.getD .null = item.asFloats) (h.items a).toList items) :
    ∃ tree, h.Unfolds (.array a) tree ∧ tree.json? = some (Json.array items).asFloats := by
  obtain ⟨trees, unfold, documents⟩ := exists_between all
  rw [← entries_array_map_snd, List.forall₂_map_left_iff] at unfold
  refine ⟨.array trees, unfolds_array_of_forall₂ unfold, ?_⟩
  rw [Unfolding.json?, Unfolding.jsonOfItems_eq_asFloats documents, Json.asFloats]

/-- An object has the document that its properties make up. -/
theorem unfolds_object_of_documents {o : ObjectRef} {members : List (String × Json)}
    (all : List.Forall₂ (SameEntry fun v j => ∃ tree, h.Unfolds v tree ∧
      tree.json? = some j.asFloats) (h.entries (.object o)) members) :
    ∃ tree, h.Unfolds (.object o) tree ∧ tree.json? = some (Json.object members).asFloats := by
  have each : List.Forall₂ (fun e m => ∃ t : String × Unfolding, SameEntry h.Unfolds e t ∧
      SameEntry (fun tree j => tree.json? = some j.asFloats) t m)
      (h.entries (.object o)) members := by
    refine all.imp fun e m same => ?_
    obtain ⟨key, tree, unfolds, document⟩ := same
    exact ⟨(e.1, tree), ⟨rfl, unfolds⟩, key, document⟩
  obtain ⟨trees, unfold, documents⟩ := exists_between each
  refine ⟨.object trees, unfolds_object_of_forall₂ unfold, ?_⟩
  rw [Unfolding.json?, Unfolding.jsonOfMembers_eq_asFloats documents, Json.asFloats]

end Unfolds

section ToDocument

theorem mapM_eq_some_map {α β : Type} {f : α → Option β} {g : α → β} {l : List α}
    (all : ∀ a ∈ l, f a = some (g a)) : l.mapM f = some (l.map g) := by
  induction l with
  | nil => rfl
  | cons a l ih =>
      obtain ⟨first, rest⟩ := List.forall_mem_cons.mp all
      rw [List.mapM_cons, first, ih rest]
      rfl

theorem mapM_eq_none_of_mem {α β : Type} {f : α → Option β} {l : List α} {a : α} (member : a ∈ l)
    (fails : f a = none) : l.mapM f = none := by
  induction l with
  | nil => cases member
  | cons b l ih =>
      rw [List.mapM_cons]
      rcases List.mem_cons.mp member with rfl | later
      · rw [fails]
        rfl
      · rw [ih later]
        cases f b <;> rfl

variable {h : Heap} {way : List Container} {v : Value} {c : Container}

theorem toJsonOn_array {a : ArrayRef} (new : .array a ∉ way) :
    h.toJsonOn way (.array a) =
      ((h.items a).toList.mapM (h.toJsonOn (.array a :: way))).map fun items =>
        some (.array (items.map fun item => item.getD .null)) := by
  rw [Heap.toJsonOn, if_neg new,
    List.mapM_subtype (g := h.toJsonOn (.array a :: way)) fun _ _ => rfl, List.unattach_attach]
  cases (h.items a).toList.mapM (h.toJsonOn (.array a :: way)) <;> rfl

theorem toJsonOn_object {o : ObjectRef} (new : .object o ∉ way) :
    h.toJsonOn way (.object o) =
      ((h.entries (.object o)).mapM fun e =>
        (h.toJsonOn (.object o :: way) e.2).map fun j => j.map fun j => (e.1, j)).map
          fun members => some (.object (members.filterMap fun member => member)) := by
  have member (e : String × Value) : (do
      let j ← h.toJsonOn (.object o :: way) e.2
      some (j.map fun j => (e.1, j))) =
        (h.toJsonOn (.object o :: way) e.2).map fun j => j.map fun j => (e.1, j) := by
    cases h.toJsonOn (.object o :: way) e.2 <;> rfl
  rw [Heap.toJsonOn, if_neg new, List.mapM_subtype (m := Option) fun e _ => member e,
    List.unattach_attach]
  exact Option.map_eq_bind.symm

/-- A walk gives the document of the tree that the value unfolds to, or it gives up: then the value
leads to a container that is on the way, or to one that holds itself. -/
def WalkEnds (h : Heap) (way : List Container) (v : Value) : Prop :=
  (∃ tree, h.Unfolds v tree ∧ h.toJsonOn way v = some tree.json?) ∨
    h.toJsonOn way v = none ∧ ∃ c, h.Leads v c ∧ (c ∈ way ∨ h.Cyclic c)

/-- In a container, all walks give the documents of trees, or one gives up. The container itself
is on their way, and holds itself if they meet it again. -/
theorem walks_of_entries (v : Value) (refers : v.container? = some c)
    (each : ∀ e ∈ h.entries c, h.WalkEnds (c :: way) e.2) :
    (∃ tree : String × Value → Unfolding, ∀ e ∈ h.entries c,
      h.Unfolds e.2 (tree e) ∧ h.toJsonOn (c :: way) e.2 = some (tree e).json?) ∨
      (∃ e ∈ h.entries c, h.toJsonOn (c :: way) e.2 = none) ∧
        ∃ d, h.Leads v d ∧ (d ∈ way ∨ h.Cyclic d) := by
  by_cases all : ∀ e ∈ h.entries c, ∃ tree,
      h.Unfolds e.2 tree ∧ h.toJsonOn (c :: way) e.2 = some tree.json?
  · left
    choose! tree unfolds using all
    exact ⟨tree, unfolds⟩
  · right
    push Not at all
    obtain ⟨e, held, none⟩ := all
    rcases each e held with ⟨tree, unfolds, done⟩ | ⟨fails, d, leads, back⟩
    · exact absurd done (none tree unfolds)
    refine ⟨⟨e, held, fails⟩, ?_⟩
    have through : h.Leads v d := .through refers held leads
    rcases back with met | cyclic
    · rcases List.mem_cons.mp met with rfl | met
      · exact ⟨d, .here refers, .inr ⟨e.1, e.2, held, leads⟩⟩
      · exact ⟨d, through, .inl met⟩
    · exact ⟨d, through, .inr cyclic⟩

/-- **Walking is unfolding.** -/
theorem walkEnds (h : Heap) (way : List Container) (v : Value) : h.WalkEnds way v := by
  induction way, v using Heap.toJsonOn.induct h with
  | case7 way a met | case9 way o met =>
      refine .inr ⟨?_, _, .here rfl, .inl met⟩
      rw [toJsonOn, if_pos met]
  | case8 way a new ih =>
      have each : ∀ e ∈ h.entries (.array a), h.WalkEnds (.array a :: way) e.2 := by
        intro e held
        apply ih
        rw [← entries_array_map_snd]
        exact List.mem_map_of_mem held
      have steps : h.toJsonOn way (.array a) =
          ((h.entries (.array a)).mapM fun e => h.toJsonOn (.array a :: way) e.2).map fun items =>
            some (.array (items.map fun item => item.getD .null)) := by
        rw [toJsonOn_array new, ← entries_array_map_snd, List.mapM_map]
        rfl
      rcases walks_of_entries (.array a) rfl each with ⟨tree, all⟩ | ⟨⟨e, held, fails⟩, back⟩
      · refine .inl ⟨.array ((h.entries (.array a)).map tree), unfolds_array_of_forall₂ ?_, ?_⟩
        · rw [List.forall₂_map_right_iff, List.forall₂_same]
          exact fun e held => (all e held).1
        · rw [steps, mapM_eq_some_map fun e held => (all e held).2, Option.map_some,
            Unfolding.json?, Unfolding.jsonOfItems_eq_map, List.map_map, List.map_map]
          rfl
      · refine .inr ⟨?_, back⟩
        rw [steps, mapM_eq_none_of_mem held fails]
        rfl
  | case10 way o new ih =>
      rcases walks_of_entries (.object o) rfl fun e held => ih e.1 e.2 held with
        ⟨tree, all⟩ | ⟨⟨e, held, fails⟩, back⟩
      · refine .inl ⟨.object ((h.entries (.object o)).map fun e => (e.1, tree e)),
          unfolds_object_of_forall₂ ?_, ?_⟩
        · rw [List.forall₂_map_right_iff, List.forall₂_same]
          exact fun e held => ⟨rfl, (all e held).1⟩
        · have member (e) (held : e ∈ h.entries (.object o)) :
              ((h.toJsonOn (.object o :: way) e.2).map fun j => j.map fun j => (e.1, j)) =
                some ((tree e).json?.map fun j => (e.1, j)) := by
            rw [(all e held).2, Option.map_some]
          rw [toJsonOn_object new, mapM_eq_some_map member, Option.map_some, Unfolding.json?,
            Unfolding.jsonOfMembers_eq_filterMap, List.filterMap_map, List.filterMap_map]
          rfl
      · refine .inr ⟨?_, back⟩
        rw [toJsonOn_object new, mapM_eq_none_of_mem held (by rw [fails]; rfl)]
        rfl
  | _ => exact .inl ⟨.leaf _, .leaf rfl, by simp [toJsonOn, Unfolding.json?, Value.leafJson?]⟩

theorem Unfolds.json?_eq_none_iff {tree : Unfolding} (unfolds : h.Unfolds v tree) :
    tree.json? = none ↔ v = .undefined ∨ ∃ f, v = .function f := by
  cases unfolds with
  | leaf plain =>
      cases v with
      | array a => cases plain
      | object o => cases plain
      | _ => simp [Unfolding.json?, Value.leafJson?]
  | array => simp [Unfolding.json?]
  | object => simp [Unfolding.json?]

theorem unfolds_or_cyclic (h : Heap) (v : Value) :
    (∃ tree, h.Unfolds v tree ∧ h.toJson v = tree.json?) ∨
      h.toJson v = none ∧ ∃ c, h.Leads v c ∧ h.Cyclic c := by
  unfold toJson
  rcases walkEnds h [] v with ⟨tree, unfolds, done⟩ | ⟨fails, c, leads, met | cyclic⟩
  · exact .inl ⟨tree, unfolds, by rw [done, Option.join_some]⟩
  · cases met
  · exact .inr ⟨by rw [fails, Option.join_none], c, leads, cyclic⟩

/-- The document of a value is that of the tree it unfolds to. -/
theorem Unfolds.toJson_eq {tree : Unfolding} (unfolds : h.Unfolds v tree) :
    h.toJson v = tree.json? := by
  rcases unfolds_or_cyclic h v with ⟨other, unfolds', done⟩ | ⟨_, c, leads, cyclic⟩
  · rw [done, unfolds.unique unfolds']
  · exact absurd cyclic (unfolds.not_cyclic leads)

/-- A value has no document if it is `undefined` or a function, or leads to a cycle. -/
theorem toJson_eq_none_iff (h : Heap) (v : Value) :
    h.toJson v = none ↔
      (v = .undefined ∨ ∃ f, v = .function f) ∨ ∃ c, h.Leads v c ∧ h.Cyclic c := by
  constructor
  · intro none
    rcases unfolds_or_cyclic h v with ⟨tree, unfolds, done⟩ | ⟨_, cycle⟩
    · exact .inl (unfolds.json?_eq_none_iff.mp (done.symm.trans none))
    · exact .inr cycle
  · intro reason
    rcases unfolds_or_cyclic h v with ⟨tree, unfolds, done⟩ | ⟨none, _⟩
    · rcases reason with empty | ⟨c, leads, cyclic⟩
      · exact done.trans (unfolds.json?_eq_none_iff.mpr empty)
      · exact absurd cyclic (unfolds.not_cyclic leads)
    · exact none

/-- A value unfolds unless it leads to a cycle. -/
theorem exists_unfolds_iff (h : Heap) (v : Value) :
    (∃ tree, h.Unfolds v tree) ↔ ∀ c, h.Leads v c → ¬ h.Cyclic c := by
  constructor
  · intro unfolding c leads
    obtain ⟨tree, unfolds⟩ := unfolding
    exact unfolds.not_cyclic leads
  · intro acyclic
    rcases unfolds_or_cyclic h v with ⟨tree, unfolds, _⟩ | ⟨_, c, leads, cyclic⟩
    · exact ⟨tree, unfolds⟩
    · exact absurd cyclic (acyclic c leads)

end ToDocument

end Heap

end GuardedExpr
