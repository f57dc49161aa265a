import Flowchart.Proofs.Document.Mentions

/-!
# Diagrams that were read are closed

A diagram that was read refers to its own nodes and links only: links join nodes, the nodes that
only stood for blocks are gone, and styles are given to links that are there. What it says about a
node is what the text says: nodes are listed by first mention, label and shape come from the first
mention with a label, and classes stand in the order in which they were given,
`parseDocument_closed`.

The placeholders are removed from the nodes, from the table with the numbers of nodes, from the ends
of links and from the numbers of links at once; each of these has its own lemma on the finished
diagram. That the table still has exactly the ids of the nodes as its keys is `keys_finish`.
-/

namespace Flowchart

/-! ## Classes and styles -/

/-- What a list gives to one id, in order. -/
def givenTo {β : Type} (l : List (String × β)) (id : String) : List β :=
  (l.filter fun p => p.1 == id).map Prod.snd

theorem givenTo_cons {β : Type} (p : String × β) (l : List (String × β)) (id : String) :
    givenTo (p :: l) id = if p.1 == id then p.2 :: givenTo l id else givenTo l id := by
  rw [givenTo, List.filter_cons]
  split <;> rfl

namespace Builder

variable {b : Builder} {refs : List NodeRef} {pairs : List (String × String)} {n : Node Float32}

/-- Requests change every node by what they give to its id. -/
theorem nodes_foldl_updateNode {β : Type} {f : β → Node Float32 → Node Float32}
    (hf : ∀ x n, (f x n).id = n.id) (l : List (String × β)) (g : Diagram Float32) :
    (l.foldl (fun g p => g.updateNode p.1 (f p.2)) g).nodes =
      g.nodes.map fun n => (givenTo l n.id).foldl (fun n x => f x n) n := by
  induction l generalizing g with
  | nil => exact (List.map_id' g.nodes).symm
  | cons p l ih =>
    rw [List.foldl_cons, ih, Diagram.updateNode, List.map_map]
    refine List.map_congr_left fun n _ => ?_
    rw [Function.comp_apply, givenTo_cons]
    by_cases hp : n.id = p.1
    · simp [hp, hf]
    · simp [hp, Ne.symm hp]

/-- Adding classes one after the other gives each of them once, in the order in which they came
first. -/
theorem foldl_addClass (hn : n.classes = []) (names : List String) :
    names.foldl (fun n name => addClass name n) n = { n with classes := names.eraseDups } := by
  induction names using List.reverseRecOn with
  | nil => cases n; simp_all
  | append_singleton names name ih =>
    rw [List.foldl_concat, ih, Table.eraseDups_concat, addClass]
    by_cases hname : name ∈ names <;> simp [hname]

theorem foldl_mergeStyle (styles : List (NodeStyle Float32)) (n : Node Float32) :
    styles.foldl (fun n style => { n with style := n.style.merge style }) n =
      { n with style := styles.foldl NodeStyle.merge n.style } := by
  induction styles generalizing n with
  | nil => rfl
  | cons style styles ih => exact ih _

/-- **Requests at the end.** Every node gets the classes that were given to its id, each once, and
the styles, one over the other. -/
theorem nodes_applyRequests (hb : ∀ n ∈ b.diagram.nodes, n.classes = []) :
    b.applyRequests.nodes = b.diagram.nodes.map fun n => { n with
      classes := (givenTo b.classRequests n.id).eraseDups
      style := (givenTo b.styleRequests n.id).foldl NodeStyle.merge n.style } := by
  have hclass : ∀ (name : String) (n : Node Float32), (addClass name n).id = n.id := by
    intro name n
    unfold addClass
    split <;> rfl
  have hstyles := nodes_foldl_updateNode
    (f := fun style (n : Node Float32) => { n with style := n.style.merge style }) (fun _ _ => rfl)
    b.styleRequests (b.classRequests.foldl (fun g p => g.updateNode p.1 (addClass p.2)) b.diagram)
  rw [nodes_foldl_updateNode hclass, List.map_map] at hstyles
  refine hstyles.trans (List.map_congr_left fun n hn => ?_)
  rw [Function.comp_apply, foldl_addClass (hb n hn), foldl_mergeStyle]

/-! ## Nodes that stay -/

/-- Requests change nodes and leave their numbers alone. -/
theorem nodeOrder_applyRequests (b : Builder) :
    b.applyRequests.nodeOrder = b.diagram.nodeOrder := by
  have hfold : ∀ {β : Type} (l : List (String × β)) (f : β → Node Float32 → Node Float32)
      (g : Diagram Float32), (l.foldl (fun g p => g.updateNode p.1 (f p.2)) g).nodeOrder =
        g.nodeOrder := by
    intro β l f
    induction l with
    | nil => exact fun g => rfl
    | cons p l ih => exact fun g => ih _
  exact (hfold b.styleRequests (fun style n => { n with style := n.style.merge style }) _).trans
    (hfold b.classRequests addClass _)

/-- The numbers that stay are those of the ids that are no placeholders. -/
theorem nodeOrder_finish (b : Builder) : b.finish.nodeOrder =
    b.diagram.nodeOrder.filter fun p => !b.standIns.contains p.1 :=
  nodeOrder_applyRequests b ▸ rfl

/-- Telling nodes their blocks changes nothing else about them. -/
theorem map_nodes_finish {β : Type} {f : Node Float32 → β}
    (hf : ∀ (n : Node Float32) p, f { n with parent := p } = f n) (b : Builder) :
    b.finish.nodes.map f =
      (b.applyRequests.nodes.filter fun n => !b.standIns.contains n.id).map f := by
  rw [nodes_finish, List.map_map]
  refine List.map_congr_left fun n _ => ?_
  rw [Function.comp_apply]
  split
  · exact hf n _
  · rfl

namespace Entered

variable (hb : b.Entered refs pairs)
include hb

/-- The nodes before placeholders are removed: those that were mentioned, with the classes that were
given to them. -/
theorem map_nodes_applyRequests {β : Type} {f : Node Float32 → β}
    (hf : ∀ (n : Node Float32) style, f { n with style := style } = f n) :
    b.applyRequests.nodes.map f = (mentionedNodes refs).map fun n =>
      f { n with classes := (givenTo pairs n.id).eraseDups } := by
  have hplain : ∀ n ∈ b.diagram.nodes, n.classes = [] := by
    rw [hb.nodes]
    intro n hn
    obtain ⟨id, -, rfl⟩ := List.mem_map.mp hn
    rfl
  rw [nodes_applyRequests hplain, hb.nodes, hb.classRequests, List.map_map]
  refine List.map_congr_left fun n _ => ?_
  exact hf { n with classes := (givenTo pairs n.id).eraseDups } _

theorem ids_finish : b.finish.nodes.map Node.id =
    (mentionedIds refs).filter fun id => !b.standIns.contains id := by
  have hids := hb.map_nodes_applyRequests (f := Node.id) fun _ _ => rfl
  rw [map_nodes_finish (fun _ _ => rfl), ← map_id_mentionedNodes, ← hids, List.filter_map]
  rfl

/-- **The table of numbers has the ids of the nodes as its keys**, in the same order. -/
theorem keys_finish : b.finish.nodeOrder.map Prod.fst = b.finish.nodes.map Node.id := by
  calc b.finish.nodeOrder.map Prod.fst
      = ((mentionedNumbers refs).filter fun p => !b.standIns.contains p.1).map Prod.fst := by
        rw [nodeOrder_finish, hb.nodeOrder]
    _ = ((mentionedNumbers refs).map Prod.fst).filter fun id => !b.standIns.contains id := by
        rw [List.filter_map]
        rfl
    _ = b.finish.nodes.map Node.id := by rw [keys_mentionedNumbers, hb.ids_finish]

/-- Numbers rise in the order of the table, also where placeholders left gaps. -/
theorem numbers_finish : (b.finish.nodeOrder.map Prod.snd).Pairwise (· < ·) := by
  have hsub : (b.finish.nodeOrder.map Prod.snd).Sublist ((mentionedNumbers refs).map Prod.snd) := by
    rw [nodeOrder_finish, hb.nodeOrder]
    exact List.filter_sublist.map Prod.snd
  refine List.Pairwise.sublist hsub ?_
  rw [mentionedNumbers, List.zipIdx_map_snd, ← List.range_eq_range']
  exact List.pairwise_lt_range

theorem ids_nodup : (b.finish.nodes.map Node.id).Nodup := by
  rw [hb.ids_finish]
  exact (Table.nodup_eraseDups _).filter _

/-- The listing of the nodes is the order in which they were first mentioned. -/
theorem listedNodes_finish : b.finish.listedNodes = b.finish.nodes := by
  have hkeys : (b.finish.nodeOrder.map Prod.fst).Nodup := hb.keys_finish ▸ hb.ids_nodup
  have hrising : (b.finish.nodeOrder.map Prod.fst).Pairwise fun id id' =>
      ∃ i j, b.finish.orderOf? id = some i ∧ b.finish.orderOf? id' = some j ∧ i < j :=
    List.pairwise_map.mpr ((List.pairwise_map.mp hb.numbers_finish).imp_of_mem fun hp hq hlt =>
      ⟨_, _, lookup_of_mem hkeys hp, lookup_of_mem hkeys hq, hlt⟩)
  rw [hb.keys_finish] at hrising
  refine List.mergeSort_of_pairwise ((List.pairwise_map.mp hrising).imp ?_)
  rintro n n' ⟨i, j, hi, hj, hlt⟩
  simp [Diagram.listedBefore, hi, hj, hlt]

/-- Label, shape and classes of a node that stays are what the statements say about its id. -/
theorem of_mem_finish {n : Node Float32} (hn : n ∈ b.finish.nodes) :
    n.label = (labelling? refs n.id).bind NodeRef.label ∧
      n.shape = ((labelling? refs n.id).bind NodeRef.shape).getD .rectangle ∧
      n.classes = (givenTo pairs n.id).eraseDups := by
  let said (n : Node Float32) := (n.id, n.label, n.shape, n.classes)
  have hsaid : said n ∈ b.applyRequests.nodes.map said := by
    have hmem := List.mem_map_of_mem (f := said) hn
    rw [map_nodes_finish (fun _ _ => rfl)] at hmem
    exact (List.filter_sublist.map said).subset hmem
  rw [hb.map_nodes_applyRequests (f := said) fun _ _ => rfl] at hsaid
  obtain ⟨m, hm, hmn⟩ := List.mem_map.mp hsaid
  obtain ⟨id, -, rfl⟩ := List.mem_map.mp hm
  simp only [said, mentionedNode, Prod.mk.injEq] at hmn
  obtain ⟨hid, hlabel, hshape, hclasses⟩ := hmn
  rw [← hid]
  exact ⟨hlabel.symm, hshape.symm, hclasses.symm⟩

end Entered

/-! ## Placeholders -/

/-- The nodes that stay are those that are no placeholders. -/
theorem hasNode_finish_iff {id : String} : b.finish.hasNode id = true ↔
    b.diagram.hasNode id = true ∧ id ∉ b.standIns := by
  have hids := map_nodes_finish (f := Node.id) (fun _ _ => rfl) b
  rw [← (applyRequests_spec b).1, Diagram.hasNode_iff, Diagram.hasNode_iff, ← List.mem_map, hids]
  simp only [List.mem_map, List.mem_filter, Bool.not_eq_true', List.contains_eq_mem,
    decide_eq_false_iff_not]
  constructor
  · rintro ⟨n, ⟨hn, hstays⟩, rfl⟩
    exact ⟨⟨n, hn, rfl⟩, hstays⟩
  · rintro ⟨⟨n, hn, rfl⟩, hstays⟩
    exact ⟨n, ⟨hn, hstays⟩, rfl⟩

/-- What an end of a link means is a node that stays. If the end is a placeholder, it means a member
of its block, and members are nodes. -/
theorem Orderly.hasNode_endMeaning? (hb : b.Orderly) {id m : String}
    (h : b.endMeaning? id = some m) : b.finish.hasNode m = true := by
  rw [hasNode_finish_iff]
  unfold endMeaning? resolveEnd? at h
  split at h
  next =>
    -- a placeholder means a member of its block
    unfold firstMember? at h
    split at h
    next d hd =>
      obtain ⟨i, hi⟩ := List.getElem?_of_mem
        (List.mem_reverse.mp (List.mem_of_find?_eq_some hd))
      have hmember := List.mem_of_find?_eq_some h
      exact ⟨hb.known (mem_membersOf.mpr ⟨d, hi, hmember⟩), by simpa using List.find?_some h⟩
    next => cases h
  next hstays =>
    split at h
    next hknown =>
      obtain rfl := Option.some.inj h
      exact ⟨(applyRequests_spec b).1 id ▸ hknown, by simpa using hstays⟩
    next => cases h

theorem Orderly.hasNode_ends (hb : b.Orderly) {e : Edge} (he : e ∈ b.finish.edges) :
    b.finish.hasNode e.source = true ∧ b.finish.hasNode e.target = true := by
  rw [edges_finish] at he
  obtain ⟨e', -, he⟩ := List.mem_filterMap.mp he
  rw [edgeMeaning?_eq] at he
  obtain ⟨s, hs, he⟩ := Option.bind_eq_some_iff.mp he
  obtain ⟨t, ht, rfl⟩ := Option.map_eq_some_iff.mp he
  exact ⟨hb.hasNode_endMeaning? hs, hb.hasNode_endMeaning? ht⟩

/-- A link that stays is counted among those that stay before any later one. -/
theorem count_take_lt {kept : List Bool} {i k : Nat} (hi : kept.getD i false = true) (hik : i < k) :
    (kept.take i).count true < (kept.take k).count true := by
  obtain ⟨hlt, htrue⟩ : ∃ h : i < kept.length, kept[i] = true := by
    by_cases hlt : i < kept.length
    · exact ⟨hlt, by simpa [hlt] using hi⟩
    · simp [hlt] at hi
  calc (kept.take i).count true < (kept.take (i + 1)).count true := by
        rw [List.take_succ_eq_append_getElem hlt, htrue]
        simp
    _ ≤ (kept.take k).count true := (List.take_prefix_take_left hik).sublist.count_le true

/-- Styles of links that are renumbered keep to the links that stayed. -/
theorem lt_of_mem_renumberStyles {kept : List Bool} {styles : List (Nat × EdgeStyle Float32)}
    {s : Nat × EdgeStyle Float32} (hs : s ∈ renumberStyles kept styles) :
    s.1 < kept.count true := by
  obtain ⟨⟨i, style⟩, -, hs⟩ := List.mem_filterMap.mp hs
  dsimp only at hs
  split at hs
  next hkept =>
    obtain rfl := Option.some.inj hs
    have hi : i < kept.length := by
      by_contra hi
      simp [hi] at hkept
    calc (kept.take i).count true < (kept.take kept.length).count true := count_take_lt hkept hi
      _ = kept.count true := by rw [List.take_length]
  next => cases hs

/-- The links that stay are as many as the marks that say so. -/
theorem count_isSome (l : List (Option Edge)) :
    (l.map Option.isSome).count true = (l.filterMap id).length := by
  induction l with
  | nil => rfl
  | cons e l ih => cases e <;> simp [ih]

theorem lt_of_mem_edgeStyles {s : Nat × EdgeStyle Float32} (hs : s ∈ b.finish.edgeStyles) :
    s.1 < b.finish.edges.length := by
  let resolved := b.applyRequests.edges.map b.edgeMeaning?
  have hstyles : b.finish.edgeStyles =
      renumberStyles (resolved.map Option.isSome) b.applyRequests.edgeStyles := rfl
  rw [hstyles] at hs
  calc s.1 < (resolved.map Option.isSome).count true := lt_of_mem_renumberStyles hs
    _ = b.finish.edges.length := count_isSome resolved

/-- A placeholder is a node that no mention gives a label and that has the id of a block. -/
theorem Entered.mem_standIns_iff (hb : b.Entered refs pairs) {id : String}
    (hid : id ∈ mentionedIds refs) :
    id ∈ b.standIns ↔ labelling? refs id = none ∧ id ∈ b.drafts.map Draft.id := by
  rw [mem_standIns, hb.nodes, ← label_labelling?_eq_none]
  refine and_congr_left fun _ => ?_
  constructor
  · rintro ⟨n, hn, rfl, hlabel⟩
    obtain ⟨id, -, rfl⟩ := List.mem_map.mp hn
    exact hlabel
  · exact fun hlabel => ⟨_, List.mem_map_of_mem hid, rfl, hlabel⟩

end Builder

/-! ## The whole text -/

/-- A diagram refers to its own nodes and links only, and its nodes are as a text says. -/
structure Diagram.ClosedOver (refs : List NodeRef) (pairs : List (String × String))
    (g : Diagram Float32) : Prop where
  /-- links join nodes -/
  ends : ∀ e ∈ g.edges, g.hasNode e.source = true ∧ g.hasNode e.target = true
  /-- no two nodes have the same id -/
  ids : (g.nodes.map Node.id).Nodup
  /-- exactly the ids of nodes have a number, each one -/
  order_keys : (g.nodeOrder.map Prod.fst).Perm (g.nodes.map Node.id)
  /-- no two numbers are the same -/
  orders : (g.nodeOrder.map Prod.snd).Nodup
  /-- a node without a label does not have the id of a block -/
  no_placeholder : ∀ n ∈ g.nodes, n.label = none → ∀ f ∈ g.flatBlocks, f.block.id ≠ n.id
  /-- styles are given to links that are there -/
  edgeStyles : ∀ s ∈ g.edgeStyles, s.1 < g.edges.length
  /-- nodes are listed by first mention, without the ids that only stand for blocks -/
  listed : g.listedNodes.map Node.id = (mentionedIds refs).filter fun id =>
    (labelling? refs id).isSome || !(g.flatBlocks.map fun f => f.block.id).contains id
  /-- the label is the first one that a mention gives -/
  label : ∀ n ∈ g.nodes, n.label = (labelling? refs n.id).bind NodeRef.label
  /-- the shape is the one that stands with this label -/
  shape : ∀ n ∈ g.nodes, n.shape = ((labelling? refs n.id).bind NodeRef.shape).getD .rectangle
  /-- no class is given twice -/
  classes_nodup : ∀ n ∈ g.nodes, n.classes.Nodup
  /-- classes stand in the order in which they are given first -/
  classes : ∀ n ∈ g.nodes, n.classes = (givenTo pairs n.id).eraseDups

namespace Builder

variable {b : Builder} {refs : List NodeRef} {pairs : List (String × String)}

/-- The diagram that a builder ends with is closed and follows what was entered. -/
theorem Entered.closedOver (hb : b.Entered refs pairs) (horderly : b.Orderly) :
    b.finish.ClosedOver refs pairs := by
  have hblocks : (b.finish.flatBlocks.map fun f => f.block.id) = b.drafts.map Draft.id :=
    horderly.ids_finish
  have hids := hb.ids_finish
  have hmem : ∀ n ∈ b.finish.nodes, n.id ∈ mentionedIds refs ∧ n.id ∉ b.standIns := by
    intro n hn
    have hid := List.mem_map_of_mem (f := Node.id) hn
    rw [hids] at hid
    simpa using hid
  constructor
  case ends => exact fun e he => horderly.hasNode_ends he
  case ids => exact hb.ids_nodup
  case order_keys => exact .of_eq hb.keys_finish
  case orders => exact hb.numbers_finish.imp Nat.ne_of_lt
  case no_placeholder =>
    intro n hn hlabel f hf hid
    obtain ⟨hknown, hstays⟩ := hmem n hn
    refine hstays ((hb.mem_standIns_iff hknown).mpr ⟨?_, ?_⟩)
    · rw [← label_labelling?_eq_none, ← (hb.of_mem_finish hn).1]
      exact hlabel
    · rw [← hblocks, ← hid]
      exact List.mem_map_of_mem hf
  case edgeStyles => exact fun s hs => lt_of_mem_edgeStyles hs
  case listed =>
    rw [hb.listedNodes_finish, hids, hblocks]
    refine List.filter_congr fun id hid => ?_
    have hstays := hb.mem_standIns_iff hid
    cases hlabel : labelling? refs id <;> simp [hstays, hlabel]
  case label => exact fun n hn => (hb.of_mem_finish hn).1
  case shape => exact fun n hn => (hb.of_mem_finish hn).2.1
  case classes_nodup =>
    intro n hn
    rw [(hb.of_mem_finish hn).2.2]
    exact Table.nodup_eraseDups _
  case classes => exact fun n hn => (hb.of_mem_finish hn).2.2

end Builder

/-- **Diagrams that were read are closed and follow their texts.** Links join nodes, no two nodes
share an id, exactly the ids of nodes have a number and no two share one, no node without a label
has the id of a block, and styles are given to links that are there. The nodes are listed in the
order in which the statements that were not skipped first mention them; each has the label of the
first mention that gives it one and the shape that stands with this label; and its classes stand in
the order in which the text first gives them. -/
theorem parseDocument_closed {text : String} {doc : Document} (h : parseDocument text = .ok doc) :
    doc.diagram.ClosedOver (mentionsIn text) (assignmentsIn text) := by
  obtain ⟨b, hbuild, hdoc⟩ := exists_buildText h
  exact hdoc ▸ (Builder.entered_buildText hbuild).closedOver (Builder.orderly_buildText hbuild)

/-- Classes are given before their nodes are mentioned, labels after, and links lead to and from a
block without nodes. -/
def lateLabels : String :=
  "graph TD\nclass b,a hot\na --> b & q\nsubgraph p\nb[B]:::cold:::hot --> c\nend\nq --> p\n" ++
  "subgraph q\nend\na((A)) & c & b(No)\nlinkStyle 0,1,2,9 stroke:red"

set_option synthInstance.maxSize 256 in
/-- The links of the empty block are dropped with their styles, the numbers of the two blocks that
were linked to go with their placeholders, and the second label of a node is not used. -/
theorem parseDocument_closed_late : ∃ doc, parseDocument lateLabels = .ok doc ∧
    doc.diagram.ClosedOver (mentionsIn lateLabels) (assignmentsIn lateLabels) ∧
    doc.diagram.nodes.map (fun n => (n.id, n.label, n.classes)) =
      [("a", some "A", ["hot"]), ("b", some "B", ["hot", "cold"]), ("c", none, [])] ∧
    doc.diagram.nodeOrder = [("a", 0), ("b", 1), ("c", 3)] ∧
    doc.diagram.edges.map (fun e => (e.source, e.target)) = [("a", "b"), ("b", "c")] ∧
    doc.diagram.edgeStyles.map Prod.fst = [0, 1] := by
  have hread : (parseDocument lateLabels).toOption.map (fun doc =>
      (doc.diagram.nodes.map (fun n => (n.id, n.label, n.classes)), doc.diagram.nodeOrder,
        doc.diagram.edges.map (fun e => (e.source, e.target)),
        doc.diagram.edgeStyles.map Prod.fst)) =
      some ([("a", some "A", ["hot"]), ("b", some "B", ["hot", "cold"]), ("c", none, [])],
        [("a", 0), ("b", 1), ("c", 3)], [("a", "b"), ("b", "c")], [0, 1]) := by decide +kernel
  obtain ⟨doc, h, hdoc⟩ := exists_ok_of_map hread
  simp only [Prod.mk.injEq] at hdoc
  exact ⟨doc, h, parseDocument_closed h, hdoc⟩

end Flowchart
