import Flowchart.Layout.Placement
import Flowchart.Proofs.LayerGraph.CycleRemoval
import Flowchart.Proofs.LayerGraph.Frame
import Flowchart.Proofs.LayerGraph.Indexing
import Flowchart.Proofs.LayerGraph.Splitting

/-!
# Turning arcs around is not seen

Cycle removal turns arcs around and the last phase turns them back. In between the turned arcs may
have been split, and then it is their segments that have to be turned back. After the last phase
every arc of the caller runs as it was given, no arc at all counts as reversed, and the chain of
an arc that was split leads from the source the caller gave to the target the caller gave.

* `getElem?_undoAcyclic` says what the last phase makes of an arc.
* `layered` is the run of all phases.
-/

namespace Flowchart

variable {α : Type}

/-- An arc as it runs when it is turned back, if it has to be. -/
def Arc.restored (arc : Arc α) : Arc α := if arc.reversed then arc.turned else arc

@[simp] theorem Arc.reversed_restored (arc : Arc α) : arc.restored.reversed = false := by
  unfold restored
  split <;> simp_all [turned]

@[simp] theorem Arc.active_restored (arc : Arc α) : arc.restored.active = arc.active := by
  unfold restored
  split <;> rfl

@[simp] theorem Arc.origin_restored (arc : Arc α) : arc.restored.origin = arc.origin := by
  unfold restored
  split <;> rfl

theorem Arc.restored_of_reversed {arc : Arc α} (h : arc.reversed = true) :
    arc.restored = arc.turned := if_pos h

theorem Arc.restored_of_not_reversed {arc : Arc α} (h : arc.reversed = false) :
    arc.restored = arc := if_neg (by simp [h])

theorem Arc.restored_turned {arc : Arc α} (h : arc.reversed = false) :
    arc.turned.restored = arc := by
  rw [restored_of_reversed (by simp [turned, h]), turned_turned]

theorem Arc.restored_setActive (arc : Arc α) (b : Bool) :
    ({ arc with active := b } : Arc α).restored = { arc.restored with active := b } := by
  unfold restored
  split <;> rfl

namespace LayerGraph

variable {g h : LayerGraph α}

/-! ## Turning back -/

theorem mem_reversedArcs {a : Nat} :
    a ∈ g.reversedArcs ↔ ∃ arc, g.arcs[a]? = some arc ∧ arc.reversed = true := by
  simp only [reversedArcs, List.mem_filter, List.mem_range]
  constructor
  · rintro ⟨-, h⟩
    cases harc : g.arcs[a]? with
    | none => simp [harc] at h
    | some arc => exact ⟨arc, rfl, by simpa [harc] using h⟩
  · rintro ⟨arc, harc, hrev⟩
    exact ⟨(Array.getElem?_eq_some_iff.mp harc).1, by simp [harc, hrev]⟩

/-- The last phase turns back exactly what runs against the caller's connections. -/
theorem getElem?_undoAcyclic (g : LayerGraph α) (b : Nat) :
    g.undoAcyclic.arcs[b]? = g.arcs[b]?.map Arc.restored := by
  have hnodup : g.reversedArcs.Nodup := List.nodup_range.filter _
  rw [undoAcyclic, getElem?_foldl_reverse hnodup]
  cases harc : g.arcs[b]? with
  | none => simp
  | some arc => by_cases hrev : arc.reversed <;> simp [mem_reversedArcs, harc, hrev, Arc.restored]

/-! ## The whole run -/

section Run

variable [Scalar α]

/-- The graph without cycles and with ranks. -/
def ranked (g : LayerGraph α) (strategy : RankStrategy) (limit : Nat) : LayerGraph α :=
  g.makeAcyclic.1.assignRanks strategy limit

/-- The graph after all phases. -/
def layered (g : LayerGraph α) (strategy : RankStrategy) (limit passes : Nat) (spacing : Spacing α)
    (d : Direction) : LayerGraph α :=
  (((g.ranked strategy limit).splitLong.1.orderRanks passes).1.assignCoordinates spacing
    d).undoAcyclic

end Run

/-- The arc for which a vertex is a passage. -/
def carried (g : LayerGraph α) (v : Nat) : Option Nat :=
  (g.nodes[v]?.bind Vertex.passage).map Passage.arc

/-- An active arc of some origin leads from one vertex to the other and is listed at both. -/
def Joined (g : LayerGraph α) (origin u v : Nat) : Prop :=
  ∃ (b : Nat) (arc : Arc α), g.arcs[b]? = some arc ∧ arc.active = true ∧ arc.origin = origin ∧
    arc.source = u ∧ arc.target = v ∧ b ∈ g.outArcs u ∧ b ∈ g.inArcs v

theorem Consistent.joined (hg : g.Consistent) {b : Nat} {arc : Arc α} (hb : g.arcs[b]? = some arc)
    (hact : arc.active = true) : g.Joined arc.origin arc.source arc.target :=
  ⟨b, arc, hb, hact, rfl, rfl, rfl, (hg.mem_outArcs _ b).mpr ⟨arc, hb, hact, rfl⟩,
    (hg.mem_inArcs _ b).mpr ⟨arc, hb, hact, rfl⟩⟩

theorem carried_congr {v : Nat}
    (hv : h.nodes[v]?.map Vertex.passage = g.nodes[v]?.map Vertex.passage) :
    h.carried v = g.carried v := by
  have hjoin : ∀ x : Option (Vertex α), x.bind Vertex.passage = (x.map Vertex.passage).join := by
    rintro (_ | _) <;> rfl
  rw [carried, carried, hjoin, hjoin, hv]

/-- The passages of a chain are the new vertices that carry its arc. -/
theorem Spread.mem_passages [Scalar α] {done : List Nat} (hs : Spread done g h) (hnodup : done.Nodup)
    {c : PassageChain} (hc : c ∈ h.chains) {v : Nat} :
    v ∈ c.passages ↔ g.size ≤ v ∧ h.carried v = some c.arc := by
  have hcarried : ∀ c ∈ h.chains, ∀ v ∈ c.passages,
      g.size ≤ v ∧ h.carried v = some c.arc := by
    intro c hc v hv
    obtain ⟨arc, hcar⟩ := hs.carries c hc
    obtain ⟨i, hi⟩ := List.getElem?_of_mem hv
    refine ⟨(hcar.vertices i v hi).1, ?_⟩
    rw [carried, (hcar.vertices i v hi).2]
    rfl
  refine ⟨hcarried c hc v, fun ⟨hle, hv⟩ => ?_⟩
  have hsize : v < h.size := by
    refine Nat.lt_of_not_le fun hle => ?_
    simp [carried, Array.getElem?_eq_none hle] at hv
  obtain ⟨c', hc', hv'⟩ := hs.new_nodes v hsize hle
  have heq : c'.arc = c.arc := Option.some.inj ((hcarried c' hc' v hv').2.symm.trans hv)
  rw [← hs.chain_arcs] at hnodup
  exact List.inj_on_of_nodup_map hnodup hc' hc heq ▸ hv'

/-- If nothing was split before, they are all the vertices that carry it. -/
theorem Spread.mem_passages_iff [Scalar α] {done : List Nat} (hs : Spread done g h)
    (hnodup : done.Nodup) (hplain : ∀ (v : Nat) x, g.nodes[v]? = some x → x.passage = none)
    {c : PassageChain} (hc : c ∈ h.chains) (v : Nat) :
    v ∈ c.passages ↔ h.carried v = some c.arc := by
  rw [hs.mem_passages hnodup hc, and_iff_right_iff_imp]
  intro hv
  refine Nat.le_of_not_lt fun hlt => ?_
  rw [carried, hs.old_nodes v hlt] at hv
  cases hx : g.nodes[v]? with
  | none => simp [hx] at hv
  | some x => simp [hx, hplain v x hx] at hv

/-- Once turned back, the segments of a chain lead from the restored source of its arc through its
passages to the restored target. If the arc was turned, all segments were turned with it, and the
chain is passed the other way. -/
theorem Carries.joined [Scalar α] {g' : LayerGraph α} {c : PassageChain} {arc : Arc α}
    (hc : Carries g h c arc) (hg' : g'.Consistent)
    (harcs : ∀ b : Nat, g'.arcs[b]? = h.arcs[b]?.map Arc.restored) :
    ∃ ps : List Nat, ps.length = g.between arc ∧ ps.Nodup ∧ (∀ v, v ∈ ps ↔ v ∈ c.passages) ∧
      (arc.restored.source :: ps ++ [arc.restored.target]).IsChain (g'.Joined arc.origin) := by
  have hsegment : ∀ s t, arc.asSegment.between s t ∈ arc.asSegment.segments arc.source c.passages →
      g'.Joined arc.origin (arc.asSegment.between s t).restored.source
        (arc.asSegment.between s t).restored.target := by
    intro s t hst
    obtain ⟨b, -, hb⟩ := hc.segments _ hst
    have hb' := harcs b
    rw [hb] at hb'
    have hjoined := hg'.joined hb' (by rw [Arc.active_restored]; rfl)
    rwa [Arc.origin_restored] at hjoined
  cases hrev : arc.reversed with
  | false =>
    refine ⟨c.passages, hc.length, hc.nodup, fun _ => Iff.rfl, ?_⟩
    rw [Arc.restored_of_not_reversed hrev]
    refine Arc.isChain_segments arc.asSegment fun s t hst => ?_
    have hjoined := hsegment s t hst
    rwa [Arc.restored_of_not_reversed (show (arc.asSegment.between s t).reversed = false from hrev)]
      at hjoined
  | true =>
    -- every segment was turned, so the chain is passed the other way
    have hreverse : (arc.target :: c.passages.reverse ++ [arc.source]) =
        (arc.source :: c.passages ++ [arc.target]).reverse := by simp
    refine ⟨c.passages.reverse, by simpa using hc.length, List.nodup_reverse.mpr hc.nodup,
      fun _ => List.mem_reverse, ?_⟩
    rw [Arc.restored_of_reversed hrev]
    refine hreverse ▸ List.isChain_reverse.mpr ?_
    refine Arc.isChain_segments arc.asSegment fun s t hst => ?_
    have hjoined := hsegment s t hst
    rwa [Arc.restored_of_reversed (show (arc.asSegment.between s t).reversed = true from hrev)]
      at hjoined

/-! ## The caller's arcs -/

section Caller

variable [Scalar α] (strategy : RankStrategy) (limit passes : Nat) (spacing : Spacing α)
  (d : Direction)

/-- Up to ranking the vertices keep what they stand for, and each arc is as it was or turned. -/
theorem Fresh.ranked (hg : g.Fresh) :
    (g.ranked strategy limit).Consistent ∧ (g.ranked strategy limit).chains = [] ∧
      (∀ (v : Nat) x, (g.ranked strategy limit).nodes[v]? = some x → x.passage = none) ∧
      (g.ranked strategy limit).arcs.map Arc.restored = g.arcs := by
  have hkeeps :=
    keeps_assignRanks (f := Vertex.passage) (fun _ _ => rfl) g.makeAcyclic.1 strategy limit
  have hsame : SameVertices g g.makeAcyclic.1 := sameVertices_foldl_reverse g _
  refine ⟨hkeeps.consistent (hg.consistent.foldl_reverse _), ?_, fun v x hx => ?_, ?_⟩
  · exact hkeeps.chains.trans (hsame.chains.trans hg.chains)
  · have hv := hkeeps.getElem? v
    rw [hsame.nodes] at hv
    cases hx' : g.nodes[v]? with
    | none => simp [hx', LayerGraph.ranked] at hv hx; simp [hv] at hx
    | some y =>
      rw [hx', show (g.makeAcyclic.1.assignRanks strategy limit).nodes[v]? = some x from hx] at hv
      exact (Option.some.inj hv).trans (hg.nodes v y hx')
  · apply Array.ext_getElem?
    intro a
    rw [Array.getElem?_map, LayerGraph.ranked, hkeeps.arcs, makeAcyclic,
      getElem?_foldl_reverse hg.consistent.backArcs_nodup]
    cases harc : g.arcs[a]? with
    | none => simp
    | some arc =>
      have hrev := (hg.arcs a arc harc).2.1
      split
      · simp [Arc.restored_turned hrev]
      · simp [Arc.restored_of_not_reversed hrev]

/-- **No turned arc is left for the caller to see.** After all phases every arc of the caller is
as it was given, but that it is inactive if it was split; no arc counts as reversed; and for every
arc that was split a path of active arcs with its origin leads from its source through exactly its
passages to its target. -/
theorem layered_restores (hg : Built g) :
    (∀ (a : Nat) arc, g.arcs[a]? = some arc → (g.layered strategy limit passes spacing d).arcs[a]? =
      some { arc with active := decide (a ∉ (g.ranked strategy limit).longArcs) }) ∧
    (∀ (b : Nat) arc, (g.layered strategy limit passes spacing d).arcs[b]? = some arc →
      arc.reversed = false) ∧
    (∀ a ∈ (g.ranked strategy limit).longArcs, ∃ arc, g.arcs[a]? = some arc ∧ ∃ ps : List Nat,
      ps ≠ [] ∧ ps.Nodup ∧
      (∀ v, v ∈ ps ↔ (g.layered strategy limit passes spacing d).carried v = some a) ∧
      (arc.source :: ps ++ [arc.target]).IsChain
        ((g.layered strategy limit passes spacing d).Joined arc.origin)) := by
  have hfresh := hg.fresh
  obtain ⟨hcons, hnochains, hplain, hrestored⟩ := hfresh.ranked strategy limit
  obtain ⟨hspread, -⟩ := splitLong_spread hcons hnochains
  have hkeeps := (keeps_orderRanks (f := Vertex.passage) (fun _ _ => rfl)
    (g.ranked strategy limit).splitLong.1 passes).trans
    (keeps_assignCoordinates (fun _ _ _ => rfl) _ spacing d)
  have hlayered : (g.layered strategy limit passes spacing d).Consistent :=
    (hkeeps.consistent hspread.consistent).foldl_reverse _
  have harcs : ∀ b : Nat, (g.layered strategy limit passes spacing d).arcs[b]? =
      ((g.ranked strategy limit).splitLong.1.arcs[b]?).map Arc.restored := by
    intro b
    rw [layered, getElem?_undoAcyclic, hkeeps.arcs]
  have hcarried : ∀ v, (g.layered strategy limit passes spacing d).carried v =
      (g.ranked strategy limit).splitLong.1.carried v := by
    intro v
    refine carried_congr ((congrArg (fun nodes => nodes[v]?.map Vertex.passage) ?_).trans
      (hkeeps.getElem? v))
    exact (sameVertices_foldl_reverse _ _).nodes
  -- an arc of the caller after ranking
  have hcaller : ∀ a : Nat, ((g.ranked strategy limit).arcs[a]?).map Arc.restored = g.arcs[a]? :=
    fun a => by rw [← Array.getElem?_map, hrestored]
  refine ⟨fun a arc harc => ?_, fun b arc hb => ?_, fun a ha => ?_⟩
  · obtain ⟨arc', harc', rfl⟩ := Option.map_eq_some_iff.mp ((hcaller a).trans harc)
    have hact : arc'.active = true := by simpa using (hfresh.arcs a _ harc).1
    rw [harcs, hspread.old_arcs a (Array.getElem?_eq_some_iff.mp harc').1, harc']
    simp [Arc.restored_setActive, hact]
  · rw [harcs] at hb
    obtain ⟨arc', -, rfl⟩ := Option.map_eq_some_iff.mp hb
    exact arc'.reversed_restored
  · obtain ⟨c, hc, rfl⟩ := List.mem_map.mp (hspread.chain_arcs ▸ ha)
    obtain ⟨arc, hcar⟩ := hspread.carries c hc
    obtain ⟨ps, hlength, hnodup, hmem, hchain⟩ := hcar.joined hlayered harcs
    obtain ⟨arc', harc', -, hlong⟩ := mem_longArcs.mp ha
    obtain rfl : arc' = arc := Option.some.inj (harc'.symm.trans hcar.carried)
    refine ⟨arc'.restored, ?_, ps, ?_, hnodup, fun v => ?_, ?_⟩
    · rw [← hcaller, harc']
      rfl
    · rintro rfl
      simp only [List.length_nil, between] at hlength
      omega
    · rw [hmem, hcarried]
      exact hspread.mem_passages_iff (longArcs_nodup _) hplain hc v
    · rw [Arc.origin_restored]
      exact hchain

end Caller

/-- The arc that closes the ring is turned around and split, and in the end it leads back again. -/
theorem layered_ring : 3 ∈ (ring.ranked .longestPath 0).longArcs ∧
    ∃ arc, ring.arcs[3]? = some arc ∧ ∃ ps : List Nat, ps ≠ [] ∧
      (arc.source :: ps ++ [arc.target]).IsChain
        ((ring.layered .longestPath 0 4 ⟨50.0, 50.0, 10.0, 2⟩ .topDown).Joined arc.origin) := by
  have hlong : 3 ∈ (ring.ranked .longestPath 0).longArcs := by decide +kernel
  obtain ⟨arc, harc, ps, hne, -, -, hchain⟩ :=
    (layered_restores .longestPath 0 4 ⟨50.0, 50.0, 10.0, 2⟩ .topDown ring_built).2.2 3 hlong
  exact ⟨hlong, arc, harc, ps, hne, hchain⟩

end LayerGraph

/-! ## The graphs that placement works on -/

namespace Placement

variable [Scalar α]

/-- Placement builds its graph as a caller does. -/
theorem workingGraph_built (nodes : List (SizedNode α)) (links : List NodeLink) :
    LayerGraph.Built (workingGraph nodes links) := by
  have hnodes : ∀ g : LayerGraph α, g.Built → (nodes.foldl
      (fun (g : LayerGraph α) n => g.addNode n.id n.width n.height n.cluster) g).Built := by
    induction nodes with
    | nil => exact fun g hg => hg
    | cons n nodes ih => exact fun g hg => ih _ (hg.addNode n.id n.width n.height n.cluster)
  have hlink : ∀ (g : LayerGraph α) (e : NodeLink), g.Built → (if e.source == e.target then g
      else (g.addArcById? e.source e.target e.index).getD g).Built := by
    intro g e hg
    split
    · exact hg
    · rename_i hne
      unfold LayerGraph.addArcById?
      split
      · rename_i s t hs ht
        have hnamed := hg.indexed.find?_iff
        refine hg.addArc s t 1.0 e.index (hg.indexed.lt_of_find? hs) (hg.indexed.lt_of_find? ht)
          fun hst => hne ?_
        have hids := ((hnamed e.source s).mp hs).symm.trans (hst ▸ (hnamed e.target t).mp ht)
        simpa using hids
      · exact hg
  unfold workingGraph
  generalize hg : nodes.foldl _ _ = g
  have hbuilt : g.Built := hg ▸ hnodes _ .empty
  clear hg hnodes
  induction links generalizing g with
  | nil => exact hbuilt
  | cons e links ih => exact ih _ (hlink g e hbuilt)

/-- The places that are returned are read off the graph after all phases. -/
theorem nodes_compute (options : LayoutOptions α) (d : Direction) (nodes : List (SizedNode α))
    (links : List NodeLink) : (compute options d nodes links).nodes =
      namedPlaces ((workingGraph nodes links).layered options.rankStrategy options.simplexLimit
        options.orderPasses (spacing options) d) := rfl

end Placement

end Flowchart
