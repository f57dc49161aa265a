import Flowchart.Proofs.LayerGraph.RoundTrip

/-!
# The graph that placement works on

Placement finds vertices by their ids and enters one arc for every connection between two different
known nodes. `arcs_workingGraph` lists these arcs: they stand in the order of the connections, so
that connections with different indices have arcs of different origin.
-/

namespace Flowchart

variable {α : Type}

namespace LayerGraph

variable {g g' : LayerGraph α} {id : String} {v : Nat}

/-! ## Finding vertices -/

theorem find?_congr (h : g'.index = g.index) : g'.find? = g.find? := by
  funext id
  rw [find?, find?, h]

section Building

variable [Scalar α] {width height : α} {cluster : List Nat}

theorem arcs_addNode : (g.addNode id width height cluster).arcs = g.arcs := by
  unfold addNode
  split <;> rfl

/-- A vertex that was added is found by its id, and so it is if the id was known before. -/
theorem find?_addNode_isSome (g : LayerGraph α) (id : String) (width height : α)
    (cluster : List Nat) : ((g.addNode id width height cluster).find? id).isSome := by
  unfold addNode
  split
  · assumption
  · change ((setKey id g.size g.index).lookup id).isSome
    simp [lookup_setKey]

/-- What is found is still found when more is added. -/
theorem find?_addNode (hv : g.find? id = some v) (id' : String) :
    (g.addNode id' width height cluster).find? id = some v := by
  unfold addNode
  split
  · exact hv
  · rename_i hnew
    have hne : id ≠ id' := fun h => hnew (Option.isSome_iff_exists.mpr ⟨v, h ▸ hv⟩)
    change (setKey id' g.size g.index).lookup id = some v
    rw [lookup_setKey, if_neg (by simpa using hne)]
    exact hv

end Building

end LayerGraph

namespace Placement

variable [Scalar α]

/-! ## Entering nodes and connections -/

/-- The graph of the nodes alone. -/
def nodeGraph (nodes : List (SizedNode α)) : LayerGraph α :=
  nodes.foldl (fun (g : LayerGraph α) n => g.addNode n.id n.width n.height n.cluster) {}

/-- The graph with one more connection, unless it is a loop or an end is unknown. -/
def addLink (g : LayerGraph α) (e : NodeLink) : LayerGraph α :=
  if e.source == e.target then g else (g.addArcById? e.source e.target e.index).getD g

theorem workingGraph_eq (nodes : List (SizedNode α)) (links : List NodeLink) :
    workingGraph nodes links = links.foldl addLink (nodeGraph nodes) := rfl

theorem arcs_nodeGraph (nodes : List (SizedNode α)) : (nodeGraph nodes).arcs = #[] := by
  have hfold : ∀ g : LayerGraph α, (nodes.foldl
      (fun (g : LayerGraph α) n => g.addNode n.id n.width n.height n.cluster) g).arcs = g.arcs := by
    induction nodes with
    | nil => exact fun g => rfl
    | cons n nodes ih => exact fun g => (ih _).trans LayerGraph.arcs_addNode
  exact hfold {}

/-- Every node that was given is found by its id in the graph of the nodes. -/
theorem find?_nodeGraph (nodes : List (SizedNode α)) {n : SizedNode α} (hn : n ∈ nodes) :
    ∃ v, (nodeGraph nodes).find? n.id = some v := by
  have hkeep : ∀ (l : List (SizedNode α)) (g : LayerGraph α) (v : Nat), g.find? n.id = some v →
      (l.foldl (fun (g : LayerGraph α) n => g.addNode n.id n.width n.height n.cluster) g).find?
        n.id = some v := by
    intro l
    induction l with
    | nil => exact fun g v hv => hv
    | cons m l ih => exact fun g v hv => ih _ v (LayerGraph.find?_addNode hv m.id)
  obtain ⟨before, after, rfl⟩ := List.append_of_mem hn
  rw [nodeGraph, List.foldl_append, List.foldl_cons]
  obtain ⟨v, hv⟩ := Option.isSome_iff_exists.mp
    ((nodeGraph before).find?_addNode_isSome n.id n.width n.height n.cluster)
  exact ⟨v, hkeep after _ v hv⟩

/-- The arc that is entered for a connection, if one is. -/
def linkArc? (g : LayerGraph α) (e : NodeLink) : Option (Arc α) :=
  if e.source == e.target then none
  else match g.find? e.source, g.find? e.target with
    | some s, some t => some ⟨s, t, 1.0, 1, false, true, e.index⟩
    | _, _ => none

theorem addLink_spec (g : LayerGraph α) (e : NodeLink) : (addLink g e).index = g.index ∧
    (addLink g e).arcs.toList = g.arcs.toList ++ (linkArc? g e).toList := by
  by_cases hloop : (e.source == e.target) = true
  · rw [addLink, linkArc?, if_pos hloop, if_pos hloop]
    simp
  · rw [addLink, linkArc?, if_neg hloop, if_neg hloop, LayerGraph.addArcById?]
    cases g.find? e.source with
    | none => simp
    | some s =>
      cases g.find? e.target with
      | none => simp
      | some t => simp [LayerGraph.addArc, LayerGraph.pushArc]

/-- **The arcs of the working graph** are those of the connections between different known nodes, in
order. -/
theorem arcs_workingGraph (nodes : List (SizedNode α)) (links : List NodeLink) :
    (workingGraph nodes links).index = (nodeGraph nodes).index ∧
      (workingGraph nodes links).arcs.toList = links.filterMap (linkArc? (nodeGraph nodes)) := by
  have hfold : ∀ g : LayerGraph α, (links.foldl addLink g).index = g.index ∧
      (links.foldl addLink g).arcs.toList = g.arcs.toList ++ links.filterMap (linkArc? g) := by
    induction links with
    | nil => simp
    | cons e links ih =>
      intro g
      obtain ⟨hindex, harcs⟩ := addLink_spec g e
      obtain ⟨hindex', harcs'⟩ := ih (addLink g e)
      have hsame : linkArc? (addLink g e) = linkArc? g := by
        funext e'
        rw [linkArc?, linkArc?, LayerGraph.find?_congr hindex]
      refine ⟨hindex'.trans hindex, ?_⟩
      rw [List.foldl_cons, harcs', harcs, hsame, List.filterMap_cons]
      cases linkArc? g e <;> simp
  obtain ⟨hindex, harcs⟩ := hfold (nodeGraph nodes)
  rw [arcs_nodeGraph] at harcs
  rw [workingGraph_eq]
  exact ⟨hindex, harcs⟩

/-- A connection between different known nodes has an arc. -/
theorem exists_arc {nodes : List (SizedNode α)} {links : List NodeLink} {e : NodeLink}
    (he : e ∈ links) (hne : e.source ≠ e.target) (hs : ∃ n ∈ nodes, n.id = e.source)
    (ht : ∃ n ∈ nodes, n.id = e.target) : ∃ (a : Nat) (arc : Arc α),
      (workingGraph nodes links).arcs[a]? = some arc ∧ arc.origin = e.index ∧
      (workingGraph nodes links).find? e.source = some arc.source ∧
      (workingGraph nodes links).find? e.target = some arc.target := by
  obtain ⟨hindex, harcs⟩ := arcs_workingGraph nodes links
  obtain ⟨n, hn, hns⟩ := hs
  obtain ⟨m, hm, hmt⟩ := ht
  obtain ⟨s, hs⟩ := find?_nodeGraph nodes hn
  obtain ⟨t, ht⟩ := find?_nodeGraph nodes hm
  rw [hns] at hs
  rw [hmt] at ht
  have harc : linkArc? (nodeGraph nodes) e = some ⟨s, t, 1.0, 1, false, true, e.index⟩ := by
    simp [linkArc?, hne, hs, ht]
  have hmem := List.mem_filterMap.mpr ⟨e, he, harc⟩
  rw [← harcs] at hmem
  obtain ⟨a, ha⟩ := List.getElem?_of_mem hmem
  rw [Array.getElem?_toList] at ha
  rw [LayerGraph.find?_congr hindex]
  exact ⟨a, _, ha, rfl, hs, ht⟩

theorem origin_linkArc? {g : LayerGraph α} {e : NodeLink} {arc : Arc α}
    (h : linkArc? g e = some arc) : arc.origin = e.index := by
  unfold linkArc? at h
  split at h
  · cases h
  · split at h
    · obtain rfl := Option.some.inj h
      rfl
    · cases h

theorem origins_sublist (g : LayerGraph α) (links : List NodeLink) :
    ((links.filterMap (linkArc? g)).map Arc.origin).Sublist (links.map NodeLink.index) := by
  induction links with
  | nil => exact .slnil
  | cons e links ih =>
    rw [List.filterMap_cons]
    cases harc : linkArc? g e with
    | none => exact ih.cons _
    | some arc =>
      rw [List.map_cons, List.map_cons, origin_linkArc? harc]
      exact ih.cons_cons _

/-- Arcs of connections with different indices have different origins. -/
theorem origin_inj {nodes : List (SizedNode α)} {links : List NodeLink}
    (hindex : (links.map NodeLink.index).Nodup) {a b : Nat} {x y : Arc α}
    (ha : (workingGraph nodes links).arcs[a]? = some x)
    (hb : (workingGraph nodes links).arcs[b]? = some y) (h : x.origin = y.origin) : a = b := by
  have hnodup := hindex.sublist (origins_sublist (nodeGraph nodes) links)
  rw [← (arcs_workingGraph nodes links).2] at hnodup
  have horigin : ∀ (i : Nat) z, (workingGraph nodes links).arcs[i]? = some z →
      ((workingGraph nodes links).arcs.toList.map Arc.origin)[i]? = some z.origin := by
    intro i z hz
    rw [List.getElem?_map, Array.getElem?_toList, hz, Option.map_some]
  obtain ⟨hlt, -⟩ := List.getElem?_eq_some_iff.mp (horigin a x ha)
  exact (List.getElem?_inj hlt hnodup).mp ((horigin a x ha).trans (h ▸ (horigin b y hb).symm))

end Placement

end Flowchart
