import Flowchart.Layout.Engine
import Flowchart.Proofs.Blocks.Listing
import Flowchart.Proofs.Blocks.Membership

/-!
# Blocks are laminar

In a diagram that was read, two blocks either have no node in common or one encloses the other. At
the end of the text every node has at most one owner, and a block lists exactly the nodes whose
owner is the block itself or lies inside it. So the blocks that list a node are its owner and all
blocks around that one, and everything else follows: `parseDocument_laminar`.
-/

namespace Flowchart

/-! ## Blocks in a listing -/

/-- The block at a position of a listing lists a node. -/
def Lists (flat : List FlatBlock) (i : Nat) (id : String) : Prop :=
  ∃ f, flat[i]? = some f ∧ id ∈ f.block.members

/-- The block at the position `i` of a listing is right around the one at `j` or further out. -/
def Encloses (flat : List FlatBlock) : Nat → Nat → Prop :=
  Relation.TransGen fun i j => ∃ f, flat[j]? = some f ∧ f.parent = some i

/-- The blocks of a diagram are laminar, and nodes know the innermost block around them. -/
structure Diagram.Laminar {α : Type} (g : Diagram α) : Prop where
  /-- blocks list nodes -/
  known : ∀ i id, Lists g.flatBlocks i id → g.hasNode id = true
  /-- a block lists a node once -/
  once : ∀ f ∈ g.flatBlocks, f.block.members.Nodup
  /-- a block lists what the blocks directly inside it list -/
  children : ∀ f ∈ g.flatBlocks, ∀ c ∈ f.block.children, ∀ id ∈ c.members, id ∈ f.block.members
  /-- a block lists what the blocks that it encloses list -/
  inherited : ∀ i j id, Encloses g.flatBlocks i j → Lists g.flatBlocks j id →
    Lists g.flatBlocks i id
  /-- of two blocks with a common node one encloses the other -/
  apart : ∀ i j id, i ≠ j → ¬ Encloses g.flatBlocks i j → ¬ Encloses g.flatBlocks j i →
    ¬ (Lists g.flatBlocks i id ∧ Lists g.flatBlocks j id)
  /-- the nodes with a parent are those that some block lists -/
  parent_isSome : ∀ n ∈ g.nodes, n.parent.isSome ↔ ∃ i, Lists g.flatBlocks i n.id
  /-- the parent is the one block that lists the node deepest -/
  parent_deepest : ∀ n ∈ g.nodes, ∀ p, n.parent = some p → ∃ (i : Nat) (f : FlatBlock),
    g.flatBlocks[i]? = some f ∧ f.block.id = p ∧ n.id ∈ f.block.members ∧
    ∀ (j : Nat) (f' : FlatBlock), g.flatBlocks[j]? = some f' → n.id ∈ f'.block.members → j ≠ i →
      f'.depth < f.depth
  /-- the path of a node has exactly the blocks that list it -/
  mem_path : ∀ n ∈ g.nodes, ∀ i, i ∈ Layout.clusterPath g.flatBlocks n.id ↔
    Lists g.flatBlocks i n.id
  /-- each block of a path encloses those after it -/
  path_nested : ∀ n ∈ g.nodes, (Layout.clusterPath g.flatBlocks n.id).Pairwise
    (Encloses g.flatBlocks)

/-! ## The innermost block -/

/-- Whether a block contains a node is looked up in its members. -/
theorem Block.contains_iff {b : Block} {id : String} : b.contains id = true ↔ id ∈ b.members := by
  simp [Block.contains]

/-- A block lists a node, and lists it deeper than every other block. -/
structure Deepest (flat : List FlatBlock) (id : String) (i : Nat) (f : FlatBlock) : Prop where
  entry : flat[i]? = some f
  lists : id ∈ f.block.members
  depth_lt : ∀ (j : Nat) f', flat[j]? = some f' → id ∈ f'.block.members → j ≠ i →
    f'.depth < f.depth

namespace Layout

/-- The block that is kept while the innermost one is looked for. -/
def deeper (id : String) (best : Option (Nat × Nat)) (entry : FlatBlock × Nat) :
    Option (Nat × Nat) :=
  if entry.1.block.contains id then
    match best with
    | some (depth, _) => if depth < entry.1.depth then some (entry.1.depth, entry.2) else best
    | none => some (entry.1.depth, entry.2)
  else best

/-- The innermost block is found in one pass over the listing that keeps the deepest block so far
and its number. -/
theorem innermost?_eq (flat : List FlatBlock) (id : String) :
    innermost? flat id = (flat.zipIdx.foldl (deeper id) none).map Prod.snd := rfl

end Layout

open Layout

/-- A node that no block lists has no innermost block. -/
theorem Layout.innermost?_of_not_listed {flat : List FlatBlock} {id : String}
    (h : ∀ i, ¬ Lists flat i id) : innermost? flat id = none := by
  have hfold : ∀ l : List (FlatBlock × Nat), (∀ e ∈ l, e.1.block.contains id = false) →
      l.foldl (deeper id) none = none := by
    intro l
    induction l with
    | nil => exact fun _ => rfl
    | cons e l ih =>
      intro hl
      have he : deeper id none e = none := by rw [deeper, hl e List.mem_cons_self]; rfl
      rw [List.foldl_cons, he]
      exact ih fun e' he' => hl e' (List.mem_cons_of_mem e he')
  rw [innermost?_eq, hfold _ fun e he => ?_]
  · rfl
  · rw [← Bool.not_eq_true, Block.contains_iff]
    exact fun hid => h e.2 ⟨e.1, List.mk_mem_zipIdx_iff_getElem?.mp he, hid⟩

namespace Deepest

variable {flat : List FlatBlock} {l : List (FlatBlock × Nat)} {id : String} {i : Nat}
  {f : FlatBlock} {e : FlatBlock × Nat} {best : Option (Nat × Nat)}

/-- The deepest block is met once in the listing, under its own number. -/
theorem eq_entry (h : Deepest flat id i f) (he : e ∈ flat.zipIdx) (hei : e.2 = i) : e = (f, i) :=
  Prod.ext (Option.some.inj ((List.mk_mem_zipIdx_iff_getElem?.mp he).symm.trans (hei ▸ h.entry))) hei

/-- Every other block that lists the node is less deep, so no tie has to be broken. -/
theorem lt_of_ne (h : Deepest flat id i f) (he : e ∈ flat.zipIdx) (hei : e.2 ≠ i)
    (hid : e.1.block.contains id = true) : e.1.depth < f.depth :=
  h.depth_lt e.2 e.1 (List.mk_mem_zipIdx_iff_getElem?.mp he) (Block.contains_iff.mp hid) hei

/-- Until the deepest block is met, what is kept is not as deep. -/
theorem deeper_other (h : Deepest flat id i f) (he : e ∈ flat.zipIdx) (hei : e.2 ≠ i)
    (hbest : ∀ p ∈ best, p.1 < f.depth) : ∀ p ∈ deeper id best e, p.1 < f.depth := by
  unfold deeper
  split
  next hid =>
    have hnew : ∀ p ∈ some (e.1.depth, e.2), p.1 < f.depth := fun p hp =>
      Option.some.inj hp ▸ h.lt_of_ne he hei hid
    split
    · split
      · exact hnew
      · exact hbest
    · exact hnew
  next => exact hbest

/-- When the deepest block is met, it is kept, since every block kept before it lies less deep. -/
theorem deeper_meet (h : Deepest flat id i f) (hbest : ∀ p ∈ best, p.1 < f.depth) :
    deeper id best (f, i) = some (f.depth, i) := by
  have hid := Block.contains_iff.mpr h.lists
  cases best with
  | none => rw [deeper, if_pos hid]
  | some p =>
    rw [deeper, if_pos hid]
    exact if_pos (hbest p rfl)

/-- Once it is kept, no entry of the listing replaces it, for none that lists the node lies as
deep. -/
theorem deeper_keep (h : Deepest flat id i f) (he : e ∈ flat.zipIdx) :
    deeper id (some (f.depth, i)) e = some (f.depth, i) := by
  unfold deeper
  split
  next hid =>
    refine if_neg ?_
    by_cases hei : e.2 = i
    · rw [h.eq_entry he hei]
      exact Nat.lt_irrefl _
    · exact Nat.lt_asymm (h.lt_of_ne he hei hid)
  next => rfl

/-- Once the deepest block is kept, it is kept to the end, as all others are less deep. -/
theorem foldl_keep (h : Deepest flat id i f) (hl : l ⊆ flat.zipIdx) :
    l.foldl (deeper id) (some (f.depth, i)) = some (f.depth, i) := by
  induction l with
  | nil => rfl
  | cons e l ih =>
    rw [List.foldl_cons, h.deeper_keep (hl List.mem_cons_self)]
    exact ih fun x hx => hl (List.mem_cons_of_mem e hx)

/-- The pass ends with the deepest block wherever that stands in the listing, if what was kept
before is less deep. -/
theorem foldl_meet (h : Deepest flat id i f) (hl : l ⊆ flat.zipIdx) (hmem : (f, i) ∈ l)
    (hbest : ∀ p ∈ best, p.1 < f.depth) : l.foldl (deeper id) best = some (f.depth, i) := by
  induction l generalizing best with
  | nil => cases hmem
  | cons e l ih =>
    have he := hl List.mem_cons_self
    have hrest : l ⊆ flat.zipIdx := fun x hx => hl (List.mem_cons_of_mem e hx)
    rw [List.foldl_cons]
    by_cases hei : e.2 = i
    · rw [h.eq_entry he hei, h.deeper_meet hbest, h.foldl_keep hrest]
    · have hlater := (List.mem_cons.mp hmem).resolve_left fun h => hei (congrArg Prod.snd h).symm
      exact ih hrest hlater (h.deeper_other he hei hbest)

/-- The deepest block is found as the innermost one. -/
theorem innermost?_eq (h : Deepest flat id i f) : innermost? flat id = some i := by
  rw [Layout.innermost?_eq, h.foldl_meet (List.Subset.refl _)
    (List.mk_mem_zipIdx_iff_getElem?.mpr h.entry) (fun p hp => by cases hp)]
  rfl

end Deepest

/-! ## Listings of drafts -/

/-- The positions in a listing are those of the drafts it was made of. -/
structure ListingOf (drafts : List Draft) (flat : List FlatBlock) : Prop where
  nested : Nested drafts
  length_eq : flat.length = drafts.length
  entries : ∀ {i f}, flat[i]? = some f →
    drafts[i]?.map Draft.bare = some f.draft ∧ f.depth = (ancestors drafts i).length

/-- Blocks made of nested drafts are listed in the order of the drafts, each with the number of the
draft around it as its parent. -/
theorem listingOf_nestBlocks {drafts : List Draft} (hl : Linked drafts) (hn : Nested drafts) :
    ListingOf drafts (Block.listAllFrom 0 0 none (Builder.nestBlocks drafts)) :=
  ⟨hn, length_listing hl hn, getElem?_listing hl hn⟩

/-- An ancestor has fewer ancestors than what it is an ancestor of, for the parents of drafts come
before them. -/
theorem Nested.length_ancestors_lt {drafts : List Draft} (hn : Nested drafts) {i o : Nat}
    (hi : i ∈ ancestors drafts o) : (ancestors drafts i).length < (ancestors drafts o).length := by
  induction o using Nat.strongRecOn with
  | ind o ih =>
    cases hp : parentOf drafts o with
    | none => simp [ancestors_of_none hp] at hi
    | some p =>
      rw [hn.ancestors_of_some hp] at hi ⊢
      rw [List.length_cons]
      rcases List.mem_cons.mp hi with rfl | hi
      · exact Nat.lt_succ_self _
      · exact (ih p (hn.parent_lt hp) hi).trans (Nat.lt_succ_self _)

namespace ListingOf

variable {drafts : List Draft} {flat : List FlatBlock} {i j o : Nat} {id : String}

/-- Every draft has an entry in the listing, with what the draft says apart from its children. -/
theorem exists_entry (h : ListingOf drafts flat) {d : Draft} (hd : drafts[i]? = some d) :
    ∃ f, flat[i]? = some f ∧ f.draft = d.bare := by
  have hlt : i < flat.length := h.length_eq ▸ (List.getElem?_eq_some_iff.mp hd).1
  obtain ⟨hf, -⟩ := h.entries (List.getElem?_eq_getElem hlt)
  rw [hd] at hf
  exact ⟨_, List.getElem?_eq_getElem hlt, (Option.some.inj hf).symm⟩

/-- Every entry of the listing is made of a draft. -/
theorem exists_draft (h : ListingOf drafts flat) {f : FlatBlock} (hf : flat[i]? = some f) :
    ∃ d, drafts[i]? = some d ∧ f.draft = d.bare := by
  obtain ⟨d, hd, hdraft⟩ := Option.map_eq_some_iff.mp (h.entries hf).1
  exact ⟨d, hd, hdraft.symm⟩

/-- A block lists what is a member of its draft. -/
theorem lists_iff (h : ListingOf drafts flat) : Lists flat i id ↔ id ∈ membersOf drafts i := by
  rw [mem_membersOf]
  constructor
  · rintro ⟨f, hf, hid⟩
    obtain ⟨d, hd, hdraft⟩ := h.exists_draft hf
    have hmembers : f.block.members = d.members := congrArg Draft.members hdraft
    exact ⟨d, hd, hmembers ▸ hid⟩
  · rintro ⟨d, hd, hid⟩
    obtain ⟨f, hf, hdraft⟩ := h.exists_entry hd
    have hmembers : f.block.members = d.members := congrArg Draft.members hdraft
    exact ⟨f, hf, hmembers ▸ hid⟩

/-- Parents in the listing are parents of drafts. -/
theorem parent_iff (h : ListingOf drafts flat) :
    (∃ f, flat[j]? = some f ∧ f.parent = some i) ↔ parentOf drafts j = some i := by
  rw [parentOf, Option.bind_eq_some_iff]
  constructor
  · rintro ⟨f, hf, hp⟩
    obtain ⟨d, hd, hdraft⟩ := h.exists_draft hf
    exact ⟨d, hd, (congrArg Draft.parent hdraft).symm.trans hp⟩
  · rintro ⟨d, hd, hp⟩
    obtain ⟨f, hf, hdraft⟩ := h.exists_entry hd
    exact ⟨f, hf, (congrArg Draft.parent hdraft).trans hp⟩

/-- The parent of an entry is the parent of its draft, where there is an entry, and otherwise there
is no parent on either side. -/
theorem bind_parent (h : ListingOf drafts flat) :
    (flat[i]?).bind FlatBlock.parent = parentOf drafts i := by
  ext p
  rw [Option.bind_eq_some_iff]
  exact h.parent_iff

/-- A block encloses another one if its draft is an ancestor. -/
theorem encloses_iff (h : ListingOf drafts flat) : Encloses flat i j ↔ i ∈ ancestors drafts j := by
  have hparent : ∀ {i j}, parentOf drafts j = some i → i ∈ ancestors drafts j := fun hp =>
    h.nested.ancestors_of_some hp ▸ List.mem_cons_self
  constructor
  · intro henc
    induction henc with
    | single hp => exact hparent (h.parent_iff.mp hp)
    | tail _ hp ih => exact h.nested.mem_ancestors_trans ih (hparent (h.parent_iff.mp hp))
  · intro hi
    induction j using Nat.strongRecOn with
    | ind j ih =>
      cases hp : parentOf drafts j with
      | none => simp [Nested.ancestors_of_none hp] at hi
      | some p =>
        rw [h.nested.ancestors_of_some hp] at hi
        rcases List.mem_cons.mp hi with rfl | hi
        · exact .single (h.parent_iff.mpr hp)
        · exact .tail (ih p (h.nested.parent_lt hp) hi) (h.parent_iff.mpr hp)

/-- The blocks around a block are its draft and the ancestors of it. -/
theorem enclosing_eq (h : ListingOf drafts flat) {fuel : Nat} (hi : i < fuel) :
    Layout.enclosing flat fuel i = (i :: ancestors drafts i).reverse := by
  induction fuel generalizing i with
  | zero => exact absurd hi (Nat.not_lt_zero i)
  | succ fuel ih =>
    rw [Layout.enclosing, h.bind_parent]
    cases hp : parentOf drafts i with
    | none => rw [Nested.ancestors_of_none hp]; rfl
    | some p =>
      have hlt := h.nested.parent_lt hp
      dsimp only
      rw [ih (by omega), h.nested.ancestors_of_some hp, List.reverse_cons (a := i)]

/-- If one draft and its ancestors are what lists a node, then they are the path of the node, and
the one draft lists it deepest. -/
theorem clusterPath_eq (h : ListingOf drafts flat)
    (hlists : ∀ i, Lists flat i id ↔ i ∈ o :: ancestors drafts o) :
    Layout.clusterPath flat id = (o :: ancestors drafts o).reverse ∧ ∃ f, Deepest flat id o f := by
  obtain ⟨f, hf, hid⟩ := (hlists o).mpr List.mem_cons_self
  have hdeep : Deepest flat id o f := by
    refine ⟨hf, hid, fun j f' hf' hid' hne => ?_⟩
    rw [(h.entries hf).2, (h.entries hf').2]
    exact h.nested.length_ancestors_lt
      ((List.mem_cons.mp ((hlists j).mp ⟨f', hf', hid'⟩)).resolve_left hne)
  refine ⟨?_, f, hdeep⟩
  rw [Layout.clusterPath, hdeep.innermost?_eq]
  exact h.enclosing_eq (List.getElem?_eq_some_iff.mp hf).1

end ListingOf

/-! ## The end of the text -/

namespace Builder

variable {b : Builder} {i : Nat} {m : String}

/-- The ids that only stand for blocks. -/
def standIns (b : Builder) : List String := placeholders b.applyRequests b.drafts

/-- The owners of the nodes that stay. -/
def keptOwners (b : Builder) : List (String × Nat) :=
  b.owners.filter fun p => !b.standIns.contains p.1

/-- The drafts with the members that belong to them or to drafts inside them. -/
def keptDrafts (b : Builder) : List Draft :=
  b.drafts.zipIdx.map fun p => { p.1 with members := ownMembers b.drafts b.keptOwners p.2 p.1 }

/-- The nodes at the end are those that stand in for nothing, and each one that is owned by a draft
has the id of that draft as its parent. -/
theorem nodes_finish (b : Builder) : b.finish.nodes =
    (b.applyRequests.nodes.filter fun n => !b.standIns.contains n.id).map fun n =>
      match (b.keptOwners.lookup n.id).bind fun i => b.drafts[i]? with
      | some d => { n with parent := some d.id }
      | none => n := rfl

/-- The blocks of the diagram are listed from those that were nested out of the drafts that are
kept. -/
theorem flatBlocks_finish (b : Builder) :
    b.finish.flatBlocks = Block.listAllFrom 0 0 none (nestBlocks b.keptDrafts) := rfl

/-- The drafts that are kept are those of the builder with the members that belong to them in the
end. -/
theorem getElem?_keptDrafts : b.keptDrafts[i]? = b.drafts[i]?.map fun d =>
    { d with members := ownMembers b.drafts b.keptOwners i d } := by
  rw [keptDrafts, List.getElem?_map, List.getElem?_zipIdx]
  cases b.drafts[i]? <;> simp

theorem map_parent_keptDrafts (b : Builder) :
    b.keptDrafts.map Draft.parent = b.drafts.map Draft.parent := by
  refine List.ext_getElem? fun i => ?_
  rw [List.getElem?_map, List.getElem?_map, getElem?_keptDrafts]
  cases b.drafts[i]? <;> rfl

theorem map_children_keptDrafts (b : Builder) :
    b.keptDrafts.map Draft.children = b.drafts.map Draft.children := by
  refine List.ext_getElem? fun i => ?_
  rw [List.getElem?_map, List.getElem?_map, getElem?_keptDrafts]
  cases b.drafts[i]? <;> rfl

/-- A node has its owner in the end, unless it is a stand-in for a block that was referred to by its
id. -/
theorem lookup_keptOwners : b.keptOwners.lookup m =
    if b.standIns.contains m then none else b.owners.lookup m := by
  rw [keptOwners, lookup_filter_key fun id => !b.standIns.contains id]
  cases b.standIns.contains m <;> rfl

/-- Requests change neither the ids nor the parents of nodes. -/
theorem applyRequests_spec (b : Builder) :
    (∀ id, b.applyRequests.hasNode id = b.diagram.hasNode id) ∧
      ((∀ n ∈ b.diagram.nodes, n.parent = none) → ∀ n ∈ b.applyRequests.nodes, n.parent = none) := by
  have hclass : ∀ (r : String × String) (n : Node Float32),
      (addClass r.2 n).id = n.id ∧ (addClass r.2 n).parent = n.parent := by
    intro r n
    unfold addClass
    split <;> exact ⟨rfl, rfl⟩
  obtain ⟨hid, hparent⟩ := Diagram.foldl_updateNode_spec hclass Prod.fst b.classRequests b.diagram
  obtain ⟨hid', hparent'⟩ := Diagram.foldl_updateNode_spec
    (f := fun (r : String × NodeStyle Float32) n => { n with style := n.style.merge r.2 })
    (fun r n => ⟨rfl, rfl⟩) Prod.fst b.styleRequests
    (b.classRequests.foldl (fun g r => g.updateNode r.1 (addClass r.2)) b.diagram)
  exact ⟨fun id => (hid' id).trans (hid id), fun hg => hparent' (hparent hg)⟩

namespace Orderly

/-- Filtering the members of drafts leaves them nested. -/
theorem nested_keptDrafts (hb : b.Orderly) : Nested b.keptDrafts :=
  hb.nested.congr (map_parent_keptDrafts b)

/-- What a draft has as a member all its ancestors have, since a node is added to every open
block. -/
theorem mem_of_mem_ancestors (hb : b.Orderly) {o : Nat} (hi : i ∈ ancestors b.drafts o)
    (hm : m ∈ membersOf b.drafts o) : m ∈ membersOf b.drafts i := by
  induction o using Nat.strongRecOn with
  | ind o ih =>
    cases hp : parentOf b.drafts o with
    | none => simp [Nested.ancestors_of_none hp] at hi
    | some p =>
      rw [hb.nested.ancestors_of_some hp] at hi
      have hup := hb.inherited hp hm
      rcases List.mem_cons.mp hi with rfl | hi
      · exact hup
      · exact ih p (hb.nested.parent_lt hp) hi hup

/-- **The drafts that keep a node** are its owner and the drafts around the owner. -/
theorem mem_keptDrafts (hb : b.Orderly) : m ∈ membersOf b.keptDrafts i ↔
    ∃ o, b.keptOwners.lookup m = some o ∧ i ∈ o :: ancestors b.drafts o := by
  have hkeeps : ∀ d : Draft, m ∈ ownMembers b.drafts b.keptOwners i d ↔ m ∈ d.members ∧
      ∃ o, b.keptOwners.lookup m = some o ∧ i ∈ o :: ancestors b.drafts o := by
    intro d
    rw [ownMembers, List.mem_filter]
    refine and_congr_right fun _ => ?_
    cases b.keptOwners.lookup m with
    | none => simp
    | some o => simp [liesInside, eq_comm (a := i)]
  rw [mem_membersOf]
  constructor
  · rintro ⟨d, hd, hm⟩
    rw [getElem?_keptDrafts] at hd
    obtain ⟨d', -, rfl⟩ := Option.map_eq_some_iff.mp hd
    exact ((hkeeps d').mp hm).2
  · rintro ⟨o, ho, hi⟩
    have howner : b.owners.lookup m = some o := by
      rw [lookup_keptOwners] at ho
      split at ho
      · cases ho
      · exact ho
    have hmember : m ∈ membersOf b.drafts i := by
      rcases List.mem_cons.mp hi with rfl | hi
      · exact hb.owner_lists howner
      · exact hb.mem_of_mem_ancestors hi (hb.owner_lists howner)
    obtain ⟨d, hd, hm⟩ := mem_membersOf.mp hmember
    refine ⟨_, by rw [getElem?_keptDrafts, hd, Option.map_some], ?_⟩
    exact (hkeeps d).mpr ⟨hm, o, ho, hi⟩

/-- The parent of a node is the id of its owner. -/
theorem parent_finish (hb : b.Orderly) {n : Node Float32} (hn : n ∈ b.finish.nodes) :
    n.parent = ((b.keptOwners.lookup n.id).bind fun i => b.drafts[i]?).map Draft.id := by
  rw [nodes_finish] at hn
  obtain ⟨n', hn', rfl⟩ := List.mem_map.mp hn
  have hnone := (applyRequests_spec b).2 hb.unassigned n' (List.mem_filter.mp hn').1
  cases howner : (b.keptOwners.lookup n'.id).bind fun i => b.drafts[i]? with
  | none => rw [howner, hnone]; rfl
  | some d => rw [howner]; rfl

/-- A node that has an owner at the end is a node of the diagram. -/
theorem hasNode_finish (hb : b.Orderly) {o : Nat} (ho : b.keptOwners.lookup m = some o) :
    b.finish.hasNode m = true := by
  rw [lookup_keptOwners] at ho
  split at ho
  · cases ho
  · next hstays =>
    have hthere : b.applyRequests.hasNode m = true :=
      (applyRequests_spec b).1 m ▸ hb.known (hb.owner_lists ho)
    obtain ⟨n, hn, rfl⟩ := Diagram.hasNode_iff.mp hthere
    refine Diagram.hasNode_iff.mpr ⟨_, nodes_finish b ▸ List.mem_map_of_mem (List.mem_filter.mpr
      ⟨hn, by simpa using hstays⟩), ?_⟩
    split <;> rfl

/-! ### The listing of the blocks -/

theorem ancestors_keptDrafts (b : Builder) : ancestors b.keptDrafts = ancestors b.drafts :=
  ancestors_congr (map_parent_keptDrafts b)

/-- The drafts that are kept are listed as blocks of the diagram. -/
theorem listingOf_finish (hb : b.Orderly) : ListingOf b.keptDrafts b.finish.flatBlocks :=
  flatBlocks_finish b ▸ listingOf_nestBlocks
    (hb.linked.congr (map_parent_keptDrafts b) (map_children_keptDrafts b)) hb.nested_keptDrafts

/-- A block is listed with the id of its draft and with the members that belong there. -/
theorem draft_finish (hb : b.Orderly) {f : FlatBlock} (hf : b.finish.flatBlocks[i]? = some f) :
    ∃ d, b.drafts[i]? = some d ∧ f.block.id = d.id ∧
      f.block.members = ownMembers b.drafts b.keptOwners i d := by
  obtain ⟨kept, hkept, hdraft⟩ := hb.listingOf_finish.exists_draft hf
  rw [getElem?_keptDrafts] at hkept
  obtain ⟨d, hd, rfl⟩ := Option.map_eq_some_iff.mp hkept
  exact ⟨d, hd, congrArg Draft.id hdraft, congrArg Draft.members hdraft⟩

/-- The blocks that list a node are its owner and those around the owner. -/
theorem lists_finish (hb : b.Orderly) : Lists b.finish.flatBlocks i m ↔
    ∃ o, b.keptOwners.lookup m = some o ∧ i ∈ o :: ancestors b.drafts o :=
  hb.listingOf_finish.lists_iff.trans hb.mem_keptDrafts

/-- Blocks of the diagram enclose each other as their drafts are ancestors of each other. -/
theorem encloses_finish (hb : b.Orderly) {j : Nat} :
    Encloses b.finish.flatBlocks i j ↔ i ∈ ancestors b.drafts j :=
  ancestors_keptDrafts b ▸ hb.listingOf_finish.encloses_iff

/-- A block lists what is listed inside it. -/
theorem inherited_finish (hb : b.Orderly) {j : Nat} (hij : Encloses b.finish.flatBlocks i j)
    (hj : Lists b.finish.flatBlocks j m) : Lists b.finish.flatBlocks i m := by
  obtain ⟨o, ho, hj⟩ := hb.lists_finish.mp hj
  have hij := hb.encloses_finish.mp hij
  refine hb.lists_finish.mpr ⟨o, ho, List.mem_cons_of_mem o ?_⟩
  rcases List.mem_cons.mp hj with rfl | hj
  · exact hij
  · exact hb.nested.mem_ancestors_trans hij hj

/-- The path of a node leads to its owner. -/
theorem clusterPath_finish (hb : b.Orderly) {o : Nat} (ho : b.keptOwners.lookup m = some o) :
    Layout.clusterPath b.finish.flatBlocks m = (o :: ancestors b.drafts o).reverse ∧
      ∃ f, Deepest b.finish.flatBlocks m o f := by
  rw [← ancestors_keptDrafts]
  refine hb.listingOf_finish.clusterPath_eq fun i => hb.lists_finish.trans ?_
  rw [ancestors_keptDrafts]
  constructor
  · rintro ⟨o', ho', hi⟩
    exact Option.some.inj (ho.symm.trans ho') ▸ hi
  · exact fun hi => ⟨o, ho, hi⟩

/-- A node without an owner lies in no block, so its path is empty. -/
theorem clusterPath_finish_of_none (hb : b.Orderly) (hm : b.keptOwners.lookup m = none) :
    Layout.clusterPath b.finish.flatBlocks m = [] := by
  rw [Layout.clusterPath, Layout.innermost?_of_not_listed fun i hi => ?_]
  obtain ⟨o, ho, -⟩ := hb.lists_finish.mp hi
  cases hm.symm.trans ho

/-- A block lists a node once, since its draft does. -/
theorem nodup_members_finish (hb : b.Orderly) {f : FlatBlock} (hf : f ∈ b.finish.flatBlocks) :
    f.block.members.Nodup := by
  obtain ⟨i, hi⟩ := List.getElem?_of_mem hf
  obtain ⟨d, hd, -, hmembers⟩ := hb.draft_finish hi
  have hnodup := hb.once i
  rw [membersOf, hd] at hnodup
  rw [hmembers]
  exact hnodup.filter _

/-- The blocks written inside a block are listed with it as their parent, so it lists what they
list. -/
theorem children_members_finish (hb : b.Orderly) {f : FlatBlock} (hf : f ∈ b.finish.flatBlocks)
    {c : Block} (hc : c ∈ f.block.children) (hm : m ∈ c.members) : m ∈ f.block.members := by
  obtain ⟨i, hi⟩ := List.getElem?_of_mem hf
  obtain ⟨j, f', hj, rfl, hparent⟩ := Block.child_listAllFrom 0 0 none b.finish.blocks hi hc
  rw [Nat.zero_add] at hparent
  obtain ⟨f'', hf'', hm⟩ := hb.inherited_finish (.single ⟨f', hj, hparent⟩) ⟨f', hj, hm⟩
  exact Option.some.inj (hf''.symm.trans hi) ▸ hm

/-- Two blocks that list the same node both stand on the chain of blocks around its owner, so they
are the same or one encloses the other. -/
theorem comparable_finish (hb : b.Orderly) {j : Nat} (hi : Lists b.finish.flatBlocks i m)
    (hj : Lists b.finish.flatBlocks j m) :
    i = j ∨ Encloses b.finish.flatBlocks i j ∨ Encloses b.finish.flatBlocks j i := by
  obtain ⟨o, ho, hi⟩ := hb.lists_finish.mp hi
  obtain ⟨o', ho', hj⟩ := hb.lists_finish.mp hj
  obtain rfl := Option.some.inj (ho.symm.trans ho')
  rw [hb.encloses_finish, hb.encloses_finish]
  exact hb.nested.comparable hi hj

/-- A node has a parent exactly if it has an owner, and the owner lists it. -/
theorem isSome_parent_finish (hb : b.Orderly) {n : Node Float32} (hn : n ∈ b.finish.nodes) :
    n.parent.isSome ↔ ∃ i, Lists b.finish.flatBlocks i n.id := by
  rw [hb.parent_finish hn, Option.isSome_map]
  constructor
  · intro h
    obtain ⟨d, hd⟩ := Option.isSome_iff_exists.mp h
    obtain ⟨o, ho, -⟩ := Option.bind_eq_some_iff.mp hd
    exact ⟨o, hb.lists_finish.mpr ⟨o, ho, List.mem_cons_self⟩⟩
  · rintro ⟨i, hi⟩
    obtain ⟨o, ho, -⟩ := hb.lists_finish.mp hi
    obtain ⟨-, f, hf⟩ := hb.clusterPath_finish ho
    obtain ⟨d, hd, -⟩ := hb.draft_finish hf.entry
    rw [ho, Option.bind_some, hd]
    rfl

/-- The parent of a node is the block that its owner became, which lists it deepest. -/
theorem deepest_parent_finish (hb : b.Orderly) {n : Node Float32} (hn : n ∈ b.finish.nodes)
    {p : String} (hp : n.parent = some p) :
    ∃ i f, f.block.id = p ∧ Deepest b.finish.flatBlocks n.id i f := by
  rw [hb.parent_finish hn] at hp
  obtain ⟨d, hd, rfl⟩ := Option.map_eq_some_iff.mp hp
  obtain ⟨o, ho, hd⟩ := Option.bind_eq_some_iff.mp hd
  obtain ⟨-, f, hf⟩ := hb.clusterPath_finish ho
  obtain ⟨d', hd', hid, -⟩ := hb.draft_finish hf.entry
  obtain rfl := Option.some.inj (hd.symm.trans hd')
  exact ⟨o, f, hid, hf⟩

/-- The path of a node has the blocks that list it: its owner and the blocks around the owner, or
none. -/
theorem mem_clusterPath_finish (hb : b.Orderly) :
    i ∈ Layout.clusterPath b.finish.flatBlocks m ↔ Lists b.finish.flatBlocks i m := by
  rw [hb.lists_finish]
  cases ho : b.keptOwners.lookup m with
  | none => simp [hb.clusterPath_finish_of_none ho]
  | some o =>
    rw [(hb.clusterPath_finish ho).1, List.mem_reverse]
    constructor
    · exact fun hi => ⟨o, rfl, hi⟩
    · rintro ⟨o', ho', hi⟩
      exact Option.some.inj ho' ▸ hi

/-- Along the path of a node every block encloses those after it. -/
theorem pairwise_clusterPath_finish (hb : b.Orderly) (m : String) :
    (Layout.clusterPath b.finish.flatBlocks m).Pairwise (Encloses b.finish.flatBlocks) := by
  cases ho : b.keptOwners.lookup m with
  | none =>
    rw [hb.clusterPath_finish_of_none ho]
    exact List.Pairwise.nil
  | some o =>
    rw [(hb.clusterPath_finish ho).1, List.pairwise_reverse]
    exact (hb.nested.pairwise_ancestors o).imp fun h => hb.encloses_finish.mpr h

/-- **The blocks made by an orderly builder are laminar.** -/
theorem laminar_finish (hb : b.Orderly) : b.finish.Laminar where
  known i m hi := by
    obtain ⟨o, ho, -⟩ := hb.lists_finish.mp hi
    exact hb.hasNode_finish ho
  once f hf := hb.nodup_members_finish hf
  children f hf c hc m hm := hb.children_members_finish hf hc hm
  inherited i j m := hb.inherited_finish
  apart i j m hne hij hji := by
    rintro ⟨hi, hj⟩
    rcases hb.comparable_finish hi hj with h | h | h
    · exact hne h
    · exact hij h
    · exact hji h
  parent_isSome n hn := hb.isSome_parent_finish hn
  parent_deepest n hn p hp := by
    obtain ⟨i, f, hid, hf⟩ := hb.deepest_parent_finish hn hp
    exact ⟨i, f, hf.entry, hid, hf.lists, hf.depth_lt⟩
  mem_path n hn i := hb.mem_clusterPath_finish
  path_nested n hn := hb.pairwise_clusterPath_finish n.id

end Orderly

end Builder

/-- **In every text that is read the blocks are laminar**: they list nodes of the diagram, each
once, and what the blocks inside them list; blocks of which neither encloses the other have no node
in common; a node has a parent if some block lists it, and then this is the deepest such block; and
the path of a node leads through exactly the blocks that list it, from the outermost to the
innermost. -/
theorem parseDocument_laminar {text : String} {doc : Document}
    (h : parseDocument text = .ok doc) : doc.diagram.Laminar := by
  obtain ⟨b, hb, hdoc⟩ := Builder.exists_orderly h
  exact hdoc ▸ hb.laminar_finish

/-- A node is mentioned in a block, in one inside it and in one beside it. -/
def mentionedThrice : String :=
  "graph TD\nsubgraph p\na --> b\nsubgraph q\nb\nend\nend\nsubgraph r\nb --> c\nend"

/-- It belongs to the inner one of the two blocks that nest and is not listed beside them. -/
theorem parseDocument_laminar_thrice : ∃ doc, parseDocument mentionedThrice = .ok doc ∧
    doc.diagram.Laminar ∧ Layout.clusterPath doc.diagram.flatBlocks "b" = [0, 1] ∧
    doc.diagram.flatBlocks.map (fun f => f.block.members) = [["a", "b"], ["b"], ["c"]] := by
  have hread : (parseDocument mentionedThrice).toOption.map (fun doc =>
      (Layout.clusterPath doc.diagram.flatBlocks "b",
        doc.diagram.flatBlocks.map fun f => f.block.members)) =
      some ([0, 1], [["a", "b"], ["b"], ["c"]]) := by decide +kernel
  cases h : parseDocument mentionedThrice with
  | error e =>
    rw [h] at hread
    cases hread
  | ok doc =>
    rw [h] at hread
    obtain ⟨hpath, hmembers⟩ := Prod.mk.inj (Option.some.inj hread)
    exact ⟨doc, rfl, parseDocument_laminar h, hpath, hmembers⟩

end Flowchart
