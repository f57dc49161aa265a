import Flowchart.Proofs.Blocks.LinkEnds
import Flowchart.Proofs.Table

/-!
# Nodes by their mentions

The nodes of a builder are a function of the mentions that were entered, `mentionedNodes`: there is
one for every id, in the order of the first mentions, and its label and shape are those of the first
mention that gives it a label. The numbers of the nodes are entered beside them, and they count the
ids in this order. Every statement keeps both, `Entered.run`. At the end each node gets
the classes that were given to its id, without repetitions, and the styles, one over the other.
-/

namespace Flowchart

/-! ## The node that mentions make -/

/-- The first mention of a node that gives it a label. -/
def labelling? (refs : List NodeRef) (id : String) : Option NodeRef :=
  refs.find? fun r => r.id == id && r.label.isSome

/-- The ids that are mentioned, by first mention. -/
def mentionedIds (refs : List NodeRef) : List String := (refs.map NodeRef.id).eraseDups

/-- A node with the label and the shape of the first mention that gives it a label. -/
def mentionedNode (refs : List NodeRef) (id : String) : Node Float32 where
  id := id
  label := (labelling? refs id).bind NodeRef.label
  shape := ((labelling? refs id).bind NodeRef.shape).getD .rectangle

/-- The nodes that are mentioned, by first mention. -/
def mentionedNodes (refs : List NodeRef) : List (Node Float32) :=
  (mentionedIds refs).map (mentionedNode refs)

section Mentions

variable {refs : List NodeRef} {id : String} {r : NodeRef}

theorem labelling?_spec (h : labelling? refs id = some r) :
    r ∈ refs ∧ r.id = id ∧ r.label.isSome = true := by
  obtain ⟨hid, hlabel⟩ := Bool.and_eq_true_iff.mp
    (List.find?_some (p := fun r : NodeRef => r.id == id && r.label.isSome) h)
  exact ⟨List.mem_of_find?_eq_some h, beq_iff_eq.mp hid, hlabel⟩

theorem label_labelling?_eq_none :
    (labelling? refs id).bind NodeRef.label = none ↔ labelling? refs id = none := by
  cases h : labelling? refs id with
  | none => simp
  | some r =>
    obtain ⟨text, htext⟩ := Option.isSome_iff_exists.mp (labelling?_spec h).2.2
    simp [htext]

theorem labelling?_of_not_mem (h : id ∉ mentionedIds refs) : labelling? refs id = none := by
  refine List.find?_eq_none.mpr fun r hr hlabel => h ?_
  obtain ⟨hid, -⟩ := Bool.and_eq_true_iff.mp hlabel
  exact List.mem_eraseDups.mpr (beq_iff_eq.mp hid ▸ List.mem_map_of_mem hr)

theorem mentionedIds_concat (refs : List NodeRef) (r : NodeRef) : mentionedIds (refs ++ [r]) =
    if r.id ∈ mentionedIds refs then mentionedIds refs else mentionedIds refs ++ [r.id] := by
  simp only [mentionedIds, List.map_append, List.map_cons, List.map_nil, Table.eraseDups_concat,
    List.mem_eraseDups]

/-- One more mention fills in the label if it is still missing. -/
theorem mentionedNode_concat (refs : List NodeRef) (r : NodeRef) (id : String) :
    mentionedNode (refs ++ [r]) id =
      if id == r.id then (mentionedNode refs id).fillLabel r.label r.shape
      else mentionedNode refs id := by
  have hfind : labelling? (refs ++ [r]) id =
      (labelling? refs id).or (if r.id == id && r.label.isSome then some r else none) := by
    rw [labelling?, labelling?, List.find?_append, List.find?_singleton]
  rw [mentionedNode, mentionedNode, hfind]
  cases hfirst : labelling? refs id with
  | some r' =>
    obtain ⟨text, htext⟩ := Option.isSome_iff_exists.mp (labelling?_spec hfirst).2.2
    simp [Node.fillLabel, htext]
  | none =>
    by_cases hid : id = r.id
    · subst hid
      cases hlabel : r.label <;> simp [Node.fillLabel, hlabel]
    · simp [hid, Ne.symm hid]

/-- A node that is mentioned for the first time has what this mention gives it. -/
theorem mentionedNode_first (h : r.id ∉ mentionedIds refs) (hr : r.shape.isSome = r.label.isSome) :
    mentionedNode (refs ++ [r]) r.id =
      { id := r.id, label := r.label, shape := r.shape.getD .rectangle } := by
  rw [mentionedNode_concat, if_pos (beq_iff_eq.mpr rfl), mentionedNode, labelling?_of_not_mem h]
  cases hlabel : r.label with
  | none =>
    have hshape : r.shape = none := by simpa [hlabel] using hr
    simp [Node.fillLabel, hshape]
  | some text => simp [Node.fillLabel]

theorem map_id_mentionedNodes (refs : List NodeRef) :
    (mentionedNodes refs).map Node.id = mentionedIds refs := by
  rw [mentionedNodes, List.map_map]
  exact List.map_id' _

/-- Mentioning one more node: it is entered if it is new, a label is filled in that was missing, and
no other node gets anything from the mention. -/
theorem nodes_mention {g : Diagram Float32} (hg : g.nodes = mentionedNodes refs)
    (hr : r.shape.isSome = r.label.isSome) :
    (g.mention r.id r.label r.shape).nodes = mentionedNodes (refs ++ [r]) := by
  have hknown : g.hasNode r.id = true ↔ r.id ∈ mentionedIds refs := by
    rw [Diagram.hasNode_iff, ← map_id_mentionedNodes, List.mem_map, hg]
  rw [Diagram.nodes_mention]
  split
  next h =>
    rw [mentionedNodes, mentionedIds_concat, if_pos (hknown.mp h), Diagram.updateNode, hg,
      mentionedNodes, List.map_map]
    exact List.map_congr_left fun id _ => (mentionedNode_concat refs r id).symm
  next h =>
    have hnew := mt hknown.mpr h
    rw [mentionedNodes, mentionedIds_concat, if_neg hnew, List.map_append, List.map_singleton,
      mentionedNode_first hnew hr, hg, mentionedNodes]
    refine congrArg₂ (· ++ ·) (List.map_congr_left fun id hid => ?_) rfl
    have hne : id ≠ r.id := fun he => hnew (he ▸ hid)
    rw [mentionedNode_concat, if_neg (by simpa using hne)]

/-- The numbers that mentions give to ids: first mentions are counted. -/
def mentionedNumbers (refs : List NodeRef) : List (String × Nat) := (mentionedIds refs).zipIdx

theorem keys_mentionedNumbers (refs : List NodeRef) :
    (mentionedNumbers refs).map Prod.fst = mentionedIds refs :=
  List.zipIdx_map_fst 0 _

/-- Mentioning one more node numbers it if it is new, whether or not nodes are looked at. -/
theorem nodeOrder_mention {g : Diagram Float32} (hg : g.nodeOrder = mentionedNumbers refs) :
    (g.mention r.id r.label r.shape).nodeOrder = mentionedNumbers (refs ++ [r]) := by
  change addKey r.id g.nodeOrder.length g.nodeOrder = _
  rw [hg]
  by_cases hknown : r.id ∈ mentionedIds refs
  · rw [addKey_of_known (by rwa [keys_mentionedNumbers]), mentionedNumbers, mentionedNumbers,
      mentionedIds_concat, if_pos hknown]
  · rw [addKey_of_new (by rwa [keys_mentionedNumbers]), mentionedNumbers, mentionedNumbers,
      mentionedIds_concat, if_neg hknown, List.zipIdx_append, List.length_zipIdx]
    simp

end Mentions

/-! ## What statements enter -/

namespace Builder

variable {b : Builder} {refs : List NodeRef} {pairs : List (String × String)}

/-- A builder into which some mentions were entered, and some classes that nodes are to have. -/
structure Entered (refs : List NodeRef) (pairs : List (String × String)) (b : Builder) : Prop where
  nodes : b.diagram.nodes = mentionedNodes refs
  nodeOrder : b.diagram.nodeOrder = mentionedNumbers refs
  classRequests : b.classRequests = pairs

theorem classRequests_mention (b : Builder) (r : NodeRef) : (b.mention r).classRequests =
    b.classRequests ++ r.classes.map fun name => (r.id, name) := by
  unfold mention register
  split <;> rfl

namespace Entered

theorem mention (hb : b.Entered refs pairs) {r : NodeRef} (hr : r.shape.isSome = r.label.isSome) :
    (b.mention r).Entered (refs ++ [r]) (pairs ++ r.classes.map fun name => (r.id, name)) := by
  refine ⟨?_, ?_, ?_⟩
  · rw [diagram_mention]
    exact nodes_mention hb.nodes hr
  · rw [diagram_mention]
    exact nodeOrder_mention hb.nodeOrder
  · rw [classRequests_mention, hb.classRequests]

theorem foldl_mention {more : List NodeRef} (hb : b.Entered refs pairs)
    (hmore : ∀ r ∈ more, r.shape.isSome = r.label.isSome) :
    (more.foldl Builder.mention b).Entered (refs ++ more)
      (pairs ++ more.flatMap fun r => r.classes.map fun name => (r.id, name)) := by
  induction more generalizing b refs pairs with
  | nil => simpa using hb
  | cons r more ih =>
    have hrest := ih (hb.mention (hmore r List.mem_cons_self)) fun r' hr' =>
      hmore r' (List.mem_cons_of_mem r hr')
    simpa using hrest

/-- **One statement** enters its mentions and the classes it gives to nodes, and nothing else of
either kind. -/
theorem run (hb : b.Entered refs pairs) (line : Nat) {s : Statement}
    (hs : ∀ r ∈ s.mentions, r.shape.isSome = r.label.isSome) :
    (b.run line s).Entered (refs ++ s.mentions) (pairs ++ s.assignments) := by
  by_cases hchain : ∃ c, s = .chain c
  · obtain ⟨c, rfl⟩ := hchain
    obtain ⟨hnodes, horder, hrequests⟩ := hb.foldl_mention hs
    exact ⟨hnodes, horder, hrequests⟩
  · have hmentions : s.mentions = [] := by
      cases s with
      | chain c => exact absurd ⟨c, rfl⟩ hchain
      | _ => rfl
    obtain ⟨hnodes, horder, -, hrequests⟩ := b.run_of_not_chain line fun c hc => hchain ⟨c, hc⟩
    rw [hmentions, List.append_nil]
    exact ⟨hnodes.trans hb.nodes, horder.trans hb.nodeOrder, hb.classRequests ▸ hrequests⟩

theorem runAll (hb : b.Entered refs pairs) (statements : List (Nat × Statement))
    (hs : ∀ s ∈ statements, ∀ r ∈ s.2.mentions, r.shape.isSome = r.label.isSome) :
    (b.runAll statements).Entered (refs ++ statements.flatMap fun s => s.2.mentions)
      (pairs ++ statements.flatMap fun s => s.2.assignments) := by
  induction statements generalizing b refs pairs with
  | nil => simpa using hb
  | cons s statements ih =>
    have hrest := ih (hb.run s.1 (hs s List.mem_cons_self)) fun s' hs' =>
      hs s' (List.mem_cons_of_mem s hs')
    rw [runAll_cons]
    simpa using hrest

end Entered

/-- Into the builder of a text all its mentions were entered and all classes it gives to nodes. -/
theorem entered_buildText {text : String} (h : buildText text = .ok b) :
    b.Entered (mentionsIn text) (assignmentsIn text) := by
  obtain ⟨d, rfl⟩ := buildText_runAll h
  have hempty : Entered [] [] { diagram := { direction := d } } := ⟨rfl, rfl, rfl⟩
  have hall := hempty.runAll (statementsOf text) fun s hs r hr =>
    isSome_shape_mentionsIn text r (List.mem_flatMap.mpr ⟨s, hs, hr⟩)
  rwa [List.nil_append, List.nil_append] at hall

end Builder

end Flowchart
