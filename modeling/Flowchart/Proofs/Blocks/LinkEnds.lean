import Flowchart.Proofs.Blocks.Laminar
import Mathlib.Data.List.Nodup

/-!
# Links to blocks

A link may be written to a block instead of a node. Its end then means a node of the block, and this
node is chosen by what was mentioned inside the block: the first node mentioned there that is no
placeholder, `parseDocument_linkEnds`. Which nodes the block lists is settled only afterwards. A
node that was mentioned in another block before belongs to the other one, and then a link to the
block leads to a node that the block does not list, or is kept although the block lists no node at
all, `parseDocument_linkEnds_astray`. So an end is the first node that the block lists exactly if
the first node mentioned inside stays.

Every end of a link was mentioned, so it is a node until the placeholders are removed: `EndsKnown`
says this of builders.
-/

namespace Flowchart

namespace Builder

variable {b : Builder} {text : String}

/-! ## Ends are nodes -/

/-- Both ends of every link are nodes. -/
def EndsKnown (b : Builder) : Prop :=
  ∀ e ∈ b.diagram.edges, b.diagram.hasNode e.source = true ∧ b.diagram.hasNode e.target = true

/-- The ends of the links of a chain are mentioned in it. -/
theorem ends_chainEdges (group : List NodeRef) (rest : List (Link × List NodeRef)) {e : Edge}
    (he : e ∈ chainEdges group rest) :
    ∀ id, id = e.source ∨ id = e.target → ∃ r ∈ group ++ rest.flatMap Prod.snd, r.id = id := by
  induction rest generalizing group with
  | nil => cases he
  | cons p rest ih =>
    obtain ⟨link, next⟩ := p
    rw [chainEdges] at he
    intro id hid
    rcases List.mem_append.mp he with he | he
    · obtain ⟨s, hs, he⟩ := List.mem_flatMap.mp he
      obtain ⟨t, ht, rfl⟩ := List.mem_map.mp he
      rcases hid with rfl | rfl
      · exact ⟨s, List.mem_append_left _ hs, rfl⟩
      · exact ⟨t, List.mem_append_right _ (List.mem_flatMap.mpr ⟨_, List.mem_cons_self, ht⟩), rfl⟩
    · obtain ⟨r, hr, hrid⟩ := ih next he id hid
      refine ⟨r, List.mem_append_right _ ?_, hrid⟩
      rw [List.flatMap_cons]
      exact hr

theorem diagram_mention (b : Builder) (r : NodeRef) :
    (b.mention r).diagram = b.diagram.mention r.id r.label r.shape := by
  unfold mention register
  split <;> rfl

theorem edges_mention (b : Builder) (r : NodeRef) :
    (b.mention r).diagram.edges = b.diagram.edges := by
  rw [diagram_mention]
  rfl

theorem hasNode_mention {r : NodeRef} {id : String} :
    (b.mention r).diagram.hasNode id = true ↔ b.diagram.hasNode id = true ∨ id = r.id := by
  rw [diagram_mention]
  exact Diagram.hasNode_mention

/-- Mentions add the nodes that are mentioned and no links. -/
theorem foldl_mention (refs : List NodeRef) (b : Builder) :
    (refs.foldl mention b).diagram.edges = b.diagram.edges ∧
      ∀ id, (refs.foldl mention b).diagram.hasNode id = true ↔
        b.diagram.hasNode id = true ∨ ∃ r ∈ refs, r.id = id := by
  induction refs generalizing b with
  | nil => simp
  | cons r refs ih =>
    obtain ⟨hedges, hnodes⟩ := ih (b.mention r)
    refine ⟨hedges.trans (edges_mention b r), fun id => (hnodes id).trans ?_⟩
    simp [hasNode_mention, or_assoc, eq_comm (a := id)]

theorem EndsKnown.addChain (hb : b.EndsKnown) (c : Chain) : (b.addChain c).EndsKnown := by
  obtain ⟨hedges, hnodes⟩ := foldl_mention c.references b
  intro e he
  have hknown : ∀ id, (b.addChain c).diagram.hasNode id = true ↔
      b.diagram.hasNode id = true ∨ ∃ r ∈ c.references, r.id = id := hnodes
  rw [hknown, hknown]
  have he' : e ∈ (c.references.foldl mention b).diagram.edges ++ chainEdges c.first c.rest := he
  rw [hedges] at he'
  rcases List.mem_append.mp he' with he' | he'
  · exact (hb e he').imp .inl .inl
  · have hends := ends_chainEdges c.first c.rest he'
    exact ⟨.inr (hends _ (.inl rfl)), .inr (hends _ (.inr rfl))⟩

theorem EndsKnown.run (hb : b.EndsKnown) (line : Nat) (s : Statement) :
    (b.run line s).EndsKnown := by
  by_cases hs : ∃ c, s = .chain c
  · obtain ⟨c, rfl⟩ := hs
    exact hb.addChain c
  · obtain ⟨hnodes, -, hedges, -⟩ := b.run_of_not_chain line fun c hc => hs ⟨c, hc⟩
    intro e he
    rw [Diagram.hasNode, Diagram.hasNode, hnodes]
    exact hb e (hedges ▸ he)

theorem endsKnown_buildText (h : buildText text = .ok b) : b.EndsKnown :=
  buildText_induct (fun _ e he => by cases he) (fun _ line s hb => hb.run line s) h

/-! ## What the ends of links mean -/

/-- The node that the end of a link means, if there is one. -/
def endMeaning? (b : Builder) (id : String) : Option String :=
  resolveEnd? b.applyRequests b.drafts b.standIns id

/-- A link between the nodes that its ends mean. -/
def edgeMeaning? (b : Builder) (e : Edge) : Option Edge :=
  resolveEdge? b.applyRequests b.drafts b.standIns e

/-- The nodes mentioned inside a block and those inside it, placeholders apart, in the order in
which they were first mentioned there. -/
def mentionedIn (b : Builder) (i : Nat) : List String :=
  (membersOf b.drafts i).filter fun m => !b.standIns.contains m

/-- A link is dropped if one of its ends means nothing; else it joins what its ends mean. -/
theorem edgeMeaning?_eq (b : Builder) (e : Edge) : b.edgeMeaning? e =
    (b.endMeaning? e.source).bind fun s => (b.endMeaning? e.target).map fun t =>
      { e with source := s, target := t } := by
  unfold edgeMeaning? resolveEdge? endMeaning?
  cases resolveEnd? b.applyRequests b.drafts b.standIns e.source <;>
    cases resolveEnd? b.applyRequests b.drafts b.standIns e.target <;> rfl

/-- Whatever single classes and styles do not change is the same after applying all requests. -/
theorem applyRequests_keeps {γ : Type} {f : Diagram Float32 → γ}
    (hclass : ∀ g id name, f (g.updateNode id (addClass name)) = f g)
    (hstyle : ∀ g id (style : NodeStyle Float32),
      f (g.updateNode id fun n => { n with style := n.style.merge style }) = f g)
    (b : Builder) : f b.applyRequests = f b.diagram := by
  have hclasses : ∀ (l : List (String × String)) (g : Diagram Float32),
      f (l.foldl (fun g r => g.updateNode r.1 (addClass r.2)) g) = f g := by
    intro l
    induction l with
    | nil => exact fun g => rfl
    | cons r l ih => exact fun g => (ih _).trans (hclass g r.1 r.2)
  have hstyles : ∀ (l : List (String × NodeStyle Float32)) (g : Diagram Float32),
      f (l.foldl (fun g r => g.updateNode r.1 fun n => { n with style := n.style.merge r.2 }) g) =
        f g := by
    intro l
    induction l with
    | nil => exact fun g => rfl
    | cons r l ih => exact fun g => (ih _).trans (hstyle g r.1 r.2)
  exact (hstyles _ _).trans (hclasses _ _)

/-- Requests change neither the ids nor the labels of nodes. -/
theorem map_applyRequests (b : Builder) :
    b.applyRequests.nodes.map (fun n => (n.id, n.label)) =
      b.diagram.nodes.map fun n => (n.id, n.label) := by
  have hupdate : ∀ (g : Diagram Float32) (id : String) (f : Node Float32 → Node Float32),
      (∀ n, ((f n).id, (f n).label) = (n.id, n.label)) →
      (g.updateNode id f).nodes.map (fun n => (n.id, n.label)) =
        g.nodes.map fun n => (n.id, n.label) := by
    intro g id f hf
    rw [Diagram.updateNode, List.map_map]
    refine List.map_congr_left fun n _ => ?_
    dsimp only [Function.comp_apply]
    split
    · exact hf n
    · rfl
  refine applyRequests_keeps (f := fun g => g.nodes.map fun n => (n.id, n.label))
    (fun g id name => hupdate g id (addClass name) fun n => ?_)
    (fun g id style => hupdate g id (fun n => { n with style := n.style.merge style })
      fun n => rfl) b
  unfold addClass
  split <;> rfl

/-- Placeholders are the nodes without a label that have the id of a block. -/
theorem mem_standIns {id : String} : id ∈ b.standIns ↔
    (∃ n ∈ b.diagram.nodes, n.id = id ∧ n.label = none) ∧ id ∈ b.drafts.map Draft.id := by
  have hnodes : (∃ n ∈ b.applyRequests.nodes, n.id = id ∧ n.label = none) ↔
      ∃ n ∈ b.diagram.nodes, n.id = id ∧ n.label = none := by
    have hmem : ∀ l : List (Node Float32), (∃ n ∈ l, n.id = id ∧ n.label = none) ↔
        (id, none) ∈ l.map fun n => (n.id, n.label) := fun l => by simp
    rw [hmem, hmem, map_applyRequests]
  rw [← hnodes, standIns, placeholders, List.mem_map]
  simp only [List.mem_filter, Bool.and_eq_true, List.any_eq_true, beq_iff_eq, List.mem_map,
    Option.isNone_iff_eq_none]
  constructor
  · rintro ⟨n, ⟨hn, hlabel, d, hd, hid⟩, rfl⟩
    exact ⟨⟨n, hn, rfl, hlabel⟩, d, hd, hid⟩
  · rintro ⟨⟨n, hn, rfl, hlabel⟩, d, hd, hid⟩
    exact ⟨n, ⟨hn, hlabel, d, hd, hid⟩, rfl⟩

/-- A node that is no placeholder means itself. -/
theorem endMeaning?_node {id : String} (hknown : b.diagram.hasNode id = true)
    (hid : id ∉ b.standIns) : b.endMeaning? id = some id := by
  rw [endMeaning?, resolveEnd?, if_neg (by simpa using hid),
    if_pos (((applyRequests_spec b).1 id).trans hknown)]

/-- A placeholder means the first node mentioned inside its block. -/
theorem endMeaning?_block {i : Nat} {d : Draft} (hids : (b.drafts.map Draft.id).Nodup)
    (hd : b.drafts[i]? = some d) (hid : d.id ∈ b.standIns) :
    b.endMeaning? d.id = (b.mentionedIn i).head? := by
  have hfind : b.drafts.reverse.find? (·.id == d.id) = some d := by
    have hmem : d ∈ b.drafts.reverse := List.mem_reverse.mpr (List.mem_of_getElem? hd)
    obtain ⟨d', hd'⟩ := Option.isSome_iff_exists.mp
      (List.find?_isSome.mpr ⟨d, hmem, beq_iff_eq.mpr rfl⟩ :
        (b.drafts.reverse.find? (·.id == d.id)).isSome)
    have hsame := beq_iff_eq.mp (List.find?_some (p := fun x : Draft => x.id == d.id) hd')
    rw [hd', List.inj_on_of_nodup_map hids (List.mem_reverse.mp (List.mem_of_find?_eq_some hd'))
      (List.mem_reverse.mp hmem) hsame]
  rw [endMeaning?, resolveEnd?, if_pos (by simpa using hid), firstMember?, hfind, mentionedIn,
    membersOf, hd, List.head?_filter]
  rfl

/-- The links that stay, between the nodes that their ends mean. -/
theorem edges_finish (b : Builder) : b.finish.edges = b.diagram.edges.filterMap b.edgeMeaning? := by
  have hedges : b.applyRequests.edges = b.diagram.edges :=
    applyRequests_keeps (fun _ _ _ => rfl) (fun _ _ _ => rfl) b
  have hfinish : b.finish.edges = (b.applyRequests.edges.map b.edgeMeaning?).filterMap id := rfl
  rw [hfinish, hedges, List.filterMap_map]
  rfl

/-! ## What blocks list in the end -/

/-- A block lists those of the nodes mentioned inside it that belong to it or to a block inside.
Placeholders are gone from the list, for at the end none of them has an owner any more. -/
theorem Orderly.members_finish (hb : b.Orderly) {i : Nat} {f : FlatBlock}
    (hf : b.finish.flatBlocks[i]? = some f) :
    ∃ own : String → Bool, f.block.members = (b.mentionedIn i).filter own := by
  obtain ⟨d, hd, -, hmembers⟩ := hb.draft_finish hf
  refine ⟨fun m => (b.keptOwners.lookup m).any fun o => o == i || liesInside b.drafts o i, ?_⟩
  rw [hmembers, mentionedIn, membersOf, hd, ownMembers, List.filter_filter]
  refine List.filter_congr fun m _ => ?_
  cases hm : b.standIns.contains m with
  | true => rw [lookup_keptOwners, if_pos hm]; rfl
  | false => cases b.keptOwners.lookup m <;> exact (Bool.and_true _).symm

theorem Orderly.ids_finish (hb : b.Orderly) :
    (b.finish.flatBlocks.map fun f => f.block.id) = b.drafts.map Draft.id := by
  refine List.ext_getElem? fun i => ?_
  rw [List.getElem?_map, List.getElem?_map]
  cases hf : b.finish.flatBlocks[i]? with
  | some f =>
    obtain ⟨d, hd, hid, -⟩ := hb.draft_finish hf
    rw [hd, Option.map_some, Option.map_some, hid]
  | none =>
    have hlength : b.finish.flatBlocks.length = b.drafts.length := by
      rw [hb.listingOf_finish.length_eq]
      simpa using congrArg List.length (map_parent_keptDrafts b)
    rw [List.getElem?_eq_none (hlength ▸ List.getElem?_eq_none_iff.mp hf)]
    rfl

/-- A filtered list begins as the whole list does exactly if the first member stays. -/
theorem head?_eq_filter_iff {l : List String} {p : String → Bool} :
    l.head? = (l.filter p).head? ↔ ∀ m, l.head? = some m → m ∈ l.filter p := by
  cases l with
  | nil => simp
  | cons m l =>
    rw [List.head?_cons]
    constructor
    · rintro h m' hm'
      exact List.mem_of_mem_head? (h.symm.trans hm')
    · intro h
      have hm := (List.mem_filter.mp (h m rfl)).2
      rw [List.filter_cons_of_pos hm, List.head?_cons]

/-- How the links of a finished diagram come from those that were entered in its builder. -/
structure LinkEnds (b : Builder) (g : Diagram Float32) : Prop where
  /-- the links that mean something, in their order -/
  edges : g.edges = b.diagram.edges.filterMap b.edgeMeaning?
  /-- a link means one between the nodes that its ends mean, and nothing if one of them does -/
  edge : ∀ e, b.edgeMeaning? e = (b.endMeaning? e.source).bind fun s =>
    (b.endMeaning? e.target).map fun t => { e with source := s, target := t }
  /-- an end that names no block, or a labelled node, means the node -/
  node : ∀ e ∈ b.diagram.edges, ∀ id, id = e.source ∨ id = e.target →
    (id ∉ g.flatBlocks.map (fun f => f.block.id) ∨
      ∀ n ∈ b.diagram.nodes, n.id = id → n.label.isSome) → b.endMeaning? id = some id
  /-- an end that names a block means the first node mentioned inside, if there is one -/
  block : ∀ e ∈ b.diagram.edges, ∀ id, id = e.source ∨ id = e.target →
    (∀ n ∈ b.diagram.nodes, n.id = id → n.label = none) →
    ∀ (i : Nat) (f : FlatBlock), g.flatBlocks[i]? = some f → f.block.id = id →
      b.endMeaning? id = (b.mentionedIn i).head?
  /-- this is the first node that the block lists exactly if the block still lists it -/
  first_listed : ∀ e ∈ b.diagram.edges, ∀ id, id = e.source ∨ id = e.target →
    (∀ n ∈ b.diagram.nodes, n.id = id → n.label = none) →
    ∀ (i : Nat) (f : FlatBlock), g.flatBlocks[i]? = some f → f.block.id = id →
      (b.endMeaning? id = f.block.members.head? ↔
        ∀ m, (b.mentionedIn i).head? = some m → m ∈ f.block.members)

/-- The links of an orderly builder, if no two blocks have the same id. -/
theorem Orderly.linkEnds (hb : b.Orderly) (hends : b.EndsKnown)
    (hids : (b.drafts.map Draft.id).Nodup) : b.LinkEnds b.finish := by
  have hknown : ∀ e ∈ b.diagram.edges, ∀ id, id = e.source ∨ id = e.target →
      b.diagram.hasNode id = true := by
    rintro e he id (rfl | rfl)
    · exact (hends e he).1
    · exact (hends e he).2
  have hblock : ∀ e ∈ b.diagram.edges, ∀ id, id = e.source ∨ id = e.target →
      (∀ n ∈ b.diagram.nodes, n.id = id → n.label = none) →
      ∀ (i : Nat) (f : FlatBlock), b.finish.flatBlocks[i]? = some f → f.block.id = id →
        b.endMeaning? id = (b.mentionedIn i).head? := by
    intro e he id hid hlabel i f hf hfid
    obtain ⟨d, hd, hdid, -⟩ := hb.draft_finish hf
    obtain ⟨n, hn, hnid⟩ := Diagram.hasNode_iff.mp (hknown e he id hid)
    obtain rfl : id = d.id := hfid.symm.trans hdid
    exact endMeaning?_block hids hd (mem_standIns.mpr
      ⟨⟨n, hn, hnid, hlabel n hn hnid⟩, List.mem_map_of_mem (List.mem_of_getElem? hd)⟩)
  constructor
  case edges => exact edges_finish b
  case edge => exact edgeMeaning?_eq b
  case node =>
    intro e he id hid hnode
    refine endMeaning?_node (hknown e he id hid) fun hstand => ?_
    obtain ⟨⟨n, hn, hnid, hlabel⟩, hmem⟩ := mem_standIns.mp hstand
    rcases hnode with hnode | hnode
    · exact hnode (hb.ids_finish ▸ hmem)
    · have hsome := hnode n hn hnid
      rw [hlabel] at hsome
      cases hsome
  case block => exact hblock
  case first_listed =>
    intro e he id hid hlabel i f hf hfid
    obtain ⟨own, hmembers⟩ := hb.members_finish hf
    rw [hblock e he id hid hlabel i f hf hfid, hmembers]
    exact head?_eq_filter_iff

end Builder

/-- **Ends of links that are written as blocks.** The links of a diagram that was read are those
that its text writes, each between the nodes that its ends mean, and without those one end of which
means nothing. An end that names a block, with no labelled node of the same id, means the first node
mentioned inside the block that is no placeholder, and nothing if there is none; this is the first
node that the block lists exactly if the block still lists it. -/
theorem parseDocument_linkEnds {text : String} {doc : Document} (h : parseDocument text = .ok doc)
    (hids : (doc.diagram.flatBlocks.map fun f => f.block.id).Nodup) :
    ∃ b, buildText text = .ok b ∧ b.LinkEnds doc.diagram := by
  obtain ⟨b, hbuild, hdoc⟩ := exists_buildText h
  have hb := Builder.orderly_buildText hbuild
  rw [hdoc] at hids ⊢
  rw [hb.ids_finish] at hids
  exact ⟨b, hbuild, hb.linkEnds (Builder.endsKnown_buildText hbuild) hids⟩

/-- A link leads to a block in which a placeholder, a block and two nodes are mentioned. -/
def linkToBlock : String :=
  "graph TD\nsubgraph p\nq --> b\nsubgraph q\na\nend\nend\nx --> p"

/-- The link leads to the node that stands first in the block. -/
theorem parseDocument_linkEnds_within : ∃ doc, parseDocument linkToBlock = .ok doc ∧
    (doc.diagram.flatBlocks.map fun f => f.block.id).Nodup ∧
    (∃ b, buildText linkToBlock = .ok b ∧ b.LinkEnds doc.diagram) ∧
    (doc.diagram.flatBlocks.map fun f => (f.block.id, f.block.members)) =
      [("p", ["b", "a"]), ("q", ["a"])] ∧
    doc.diagram.edges.map (fun e => (e.source, e.target)) = [("a", "b"), ("x", "b")] := by
  have hread : (parseDocument linkToBlock).toOption.map (fun doc =>
      (doc.diagram.flatBlocks.map (fun f => (f.block.id, f.block.members)),
        doc.diagram.edges.map fun e => (e.source, e.target))) =
      some ([("p", ["b", "a"]), ("q", ["a"])], [("a", "b"), ("x", "b")]) := by decide +kernel
  obtain ⟨doc, h, hdoc⟩ := exists_ok_of_map hread
  obtain ⟨hblocks, hedges⟩ := Prod.mk.inj hdoc
  have hids : (doc.diagram.flatBlocks.map fun f => f.block.id) = ["p", "q"] := by
    simpa [Function.comp_def] using congrArg (List.map Prod.fst) hblocks
  have hnodup : (doc.diagram.flatBlocks.map fun f => f.block.id).Nodup := by
    rw [hids]
    decide
  exact ⟨doc, h, hnodup, parseDocument_linkEnds h hnodup, hblocks, hedges⟩

/-- A node is mentioned in one block and then in two others, and links lead to these. -/
def mentionedElsewhere : String :=
  "graph TD\nsubgraph p\na\nend\nsubgraph q\na\nb\nend\nsubgraph r\na\nend\nx --> q\ny --> r"

/-- **Not every link to a block leads to a node that the block lists.** The second block lists
another node than the one its link leads to, and the link to the third one stays although this block
lists nothing. -/
theorem parseDocument_linkEnds_astray : ∃ doc, parseDocument mentionedElsewhere = .ok doc ∧
    (doc.diagram.flatBlocks.map fun f => (f.block.id, f.block.members)) =
      [("p", ["a"]), ("q", ["b"]), ("r", [])] ∧
    doc.diagram.edges.map (fun e => (e.source, e.target)) = [("x", "a"), ("y", "a")] := by
  have hread : (parseDocument mentionedElsewhere).toOption.map (fun doc =>
      (doc.diagram.flatBlocks.map (fun f => (f.block.id, f.block.members)),
        doc.diagram.edges.map fun e => (e.source, e.target))) =
      some ([("p", ["a"]), ("q", ["b"]), ("r", [])], [("x", "a"), ("y", "a")]) := by decide +kernel
  obtain ⟨doc, h, hdoc⟩ := exists_ok_of_map hread
  obtain ⟨hblocks, hedges⟩ := Prod.mk.inj hdoc
  exact ⟨doc, h, hblocks, hedges⟩

end Flowchart
