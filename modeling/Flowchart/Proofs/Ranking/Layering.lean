import Flowchart.Proofs.DepthFirst.Finishing
import Flowchart.Proofs.LayerGraph.Frame

/-!
# Layerings

A ranking `Respects` the arcs if every active one leads at least its least length upwards. The
longest path and the tight tree give such rankings.

* On the longest path the walk finishes the predecessors of a vertex before the vertex, since no
  arc of an acyclic graph leads back. So the ranks are filled in an order in which every rank is
  computed from final ones.
* A vertex that drops moves to the highest rank its successors allow, and the ranking it leaves
  allows it that much.

Shifting all ranks changes no difference, and the smallest rank is zero afterwards.
-/

namespace Flowchart.LayerGraph

variable {α : Type} {g g' : LayerGraph α}

/-- Every active arc leads at least its least length upwards. -/
def Respects (g : LayerGraph α) : Prop :=
  ∀ (a : Nat) arc, g.arcs[a]? = some arc → arc.active = true →
    g.rank arc.source + arc.minLength ≤ g.rank arc.target

/-- Where the arcs are the same, a ranking respects them if it does so read with the later graph. -/
theorem Keeps.respects_iff {β : Type} {f : Vertex α → β} (h : Keeps f g g') :
    g'.Respects ↔ ∀ (a : Nat) arc, g.arcs[a]? = some arc → arc.active = true →
      g'.rank arc.source + arc.minLength ≤ g'.rank arc.target := by
  rw [Respects, h.arcs]

/-! ## Reading ranks -/

/-- Ranks that are written as a table are read from it. -/
theorem rank_withRanks {v : Nat} (hv : v < g.size) (ranks : Array Int) :
    (g.withRanks ranks).rank v = ranks.getD v 0 := by
  have hv' : v < g.nodes.size := hv
  simp [rank, withRanks, hv']

/-- Writing a rank is seen at the vertex written, provided that it exists, and nowhere else. -/
theorem rank_setRank (g : LayerGraph α) (v : Nat) (r : Int) (u : Nat) :
    (g.setRank v r).rank u = if u = v ∧ v < g.size then r else g.rank u := by
  simp only [rank, setRank, updateNode, Array.getElem?_modify]
  by_cases hu : u = v
  · subst hu
    by_cases hlt : u < g.nodes.size <;> simp [hlt, size]
  · simp [hu, Ne.symm hu]

theorem rank_setRank_of_ne {v u : Nat} (g : LayerGraph α) (r : Int) (h : u ≠ v) :
    (g.setRank v r).rank u = g.rank u := by
  rw [rank_setRank, if_neg fun hu => h hu.1]

/-- No vertex has a rank below the smallest one. -/
theorem minRank_le {v : Nat} (hv : v < g.size) : g.minRank ≤ g.rank v := by
  obtain ⟨x, hx⟩ : ∃ x, g.nodes[v]? = some x := ⟨_, Array.getElem?_eq_getElem hv⟩
  have hmem : g.rank v ∈ g.nodes.toList.map Vertex.rank := by
    rw [rank, hx]
    exact List.mem_map_of_mem (Array.mem_toList_iff.mpr (Array.mem_of_getElem? hx))
  obtain ⟨least, hleast⟩ := Option.isSome_iff_exists.mp (List.isSome_min?_of_mem hmem)
  rw [minRank, hleast]
  exact (List.min?_eq_some_iff.mp hleast).2 _ hmem

/-- Some vertex has the smallest rank, if there are any vertices. -/
theorem exists_rank_eq_minRank (h : 0 < g.size) : ∃ v < g.size, g.rank v = g.minRank := by
  have hne : g.nodes.toList.map Vertex.rank ≠ [] := by
    simpa [size, Array.size_pos_iff] using h
  obtain ⟨least, hleast⟩ := Option.isSome_iff_exists.mp (List.isSome_min?_of_ne_nil hne)
  obtain ⟨x, hx, hxr⟩ := List.mem_map.mp (List.min?_eq_some_iff.mp hleast).1
  obtain ⟨v, hv⟩ := List.getElem?_of_mem hx
  rw [Array.getElem?_toList] at hv
  refine ⟨v, (Array.getElem?_eq_some_iff.mp hv).1, ?_⟩
  rw [minRank, hleast, rank, hv, ← hxr]
  rfl

/-! ## Shifting to zero -/

/-- All ranks are lowered by the smallest one. -/
theorem rank_normalizeRanks {v : Nat} (hv : v < g.size) :
    g.normalizeRanks.rank v = g.rank v - g.minRank := by
  have hv' : v < g.nodes.size := hv
  simp [rank, normalizeRanks, hv']

/-- Differences of ranks stay what they are, and layerings depend on these only. -/
theorem Respects.normalizeRanks (h : g.Respects) (hg : g.Consistent) :
    g.normalizeRanks.Respects := by
  intro a arc ha hact
  obtain ⟨hs, ht⟩ := hg.ends_lt a arc ha
  rw [rank_normalizeRanks hs, rank_normalizeRanks ht]
  have := h a arc ha hact
  omega

/-- After the shift zero is the smallest rank. -/
theorem normalizeRanks_least (h : 0 < g.size) :
    (∃ v < g.size, g.normalizeRanks.rank v = 0) ∧ ∀ v < g.size, 0 ≤ g.normalizeRanks.rank v := by
  obtain ⟨v, hv, hr⟩ := exists_rank_eq_minRank h
  refine ⟨⟨v, hv, ?_⟩, fun u hu => ?_⟩
  · rw [rank_normalizeRanks hv, hr, Int.sub_self]
  · rw [rank_normalizeRanks hu]
    exact Int.sub_nonneg_of_le (minRank_le hu)

/-! ## Longest path -/

/-- A vertex is searched upwards along the active arcs that enter it. -/
theorem Consistent.mem_arcsUp_iff (h : g.Consistent) {v a u : Nat} :
    (a, u) ∈ g.arcsUp v ↔
      ∃ arc, g.arcs[a]? = some arc ∧ arc.active = true ∧ arc.target = v ∧ arc.source = u := by
  simp only [arcsUp, List.mem_map, Prod.mk.injEq]
  constructor
  · rintro ⟨b, hb, rfl, rfl⟩
    obtain ⟨arc, ha, hact, ht⟩ := (h.mem_inArcs v b).mp hb
    exact ⟨arc, ha, hact, ht, (source_eq ha).symm⟩
  · rintro ⟨arc, ha, hact, ht, rfl⟩
    exact ⟨a, (h.mem_inArcs v a).mpr ⟨arc, ha, hact, ht⟩, rfl, source_eq ha⟩

theorem Consistent.adjacent_arcsUp_iff (h : g.Consistent) {v u : Nat} :
    Walk.Adjacent g.arcsUp v u ↔ g.Leads u v := by
  refine exists_congr fun a => h.mem_arcsUp_iff.trans (exists_congr fun arc => ?_)
  rw [and_comm (a := arc.target = v)]

theorem Consistent.arcsUp_lt (h : g.Consistent) : ∀ v < g.size, ∀ e ∈ g.arcsUp v, e.2 < g.size := by
  rintro v - ⟨a, u⟩ he
  obtain ⟨arc, ha, -, -, rfl⟩ := h.mem_arcsUp_iff.mp he
  exact (h.ends_lt a arc ha).1

/-- In an acyclic graph every predecessor is finished before the vertex. -/
theorem Consistent.time_source_lt (h : g.Consistent) (hg : g.Acyclic) {v a : Nat} (hv : v < g.size)
    (ha : a ∈ g.inArcs v) :
    (Walk.all g.size g.arcsUp).time (g.source a) < (Walk.all g.size g.arcsUp).time v := by
  obtain ⟨hforward, hback⟩ := Walk.all_finishing h.arcsUp_lt
  have hup : (a, g.source a) ∈ g.arcsUp v := List.mem_map_of_mem ha
  refine (hforward v hv a _ hup).resolve_right fun hmem => ?_
  obtain ⟨x, u, -, hxu, hcycle, -⟩ := hback a hmem
  have hleads : g.Leads u x := h.adjacent_arcsUp_iff.mp ⟨a, hxu⟩
  have hreach : Relation.ReflTransGen g.Leads x u :=
    (Relation.ReflTransGen.mono (fun _ _ => h.adjacent_arcsUp_iff.mp) _ _ hcycle).swap
  exact hg u (Relation.TransGen.head' hleads hreach)

/-- **On the longest path every rank follows from those of the predecessors.** -/
theorem rank_longestPath (h : g.Consistent) (hg : g.Acyclic) {v : Nat} (hv : v < g.size) :
    g.longestPath.rank v =
      ((g.inArcs v).map fun a => g.longestPath.rank (g.source a) + g.minLength a).max?.getD 0 := by
  have hc := Walk.coherent_all g.size g.arcsUp
  have hsource : ∀ v, ∀ a ∈ g.inArcs v, g.source a < g.size := fun v a ha =>
    (h.lt_of_leads (h.leads_of_mem_inArcs ha)).1
  have hfill := Table.foldl_fill (d := 0) g.rankBelowPredecessors
    (fun v => (g.inArcs v).map g.source) (fun t t' v ht => ?_) hc.finished_nodup
    (fun v hv u hu _ => ?_) (Array.replicate g.size 0)
      (fun v hv => by simpa using hc.finished_lt v hv)
    v (Walk.mem_finished_all g.arcsUp hv)
  · rw [longestPath, rank_withRanks hv, hfill, rankBelowPredecessors]
    congr 2
    refine List.map_congr_left fun a ha => ?_
    rw [rank_withRanks (hsource v a ha)]
  · unfold rankBelowPredecessors
    congr 2
    refine List.map_congr_left fun a ha => ?_
    rw [ht _ (List.mem_map_of_mem ha)]
  · obtain ⟨a, ha, rfl⟩ := List.mem_map.mp hu
    exact h.time_source_lt hg (hc.finished_lt v hv) ha

/-- Each vertex is put far enough above all of its predecessors, so the longest path is a
layering. -/
theorem longestPath_respects (h : g.Consistent) (hg : g.Acyclic) : g.longestPath.Respects := by
  refine (keeps_longestPath (f := Vertex.id) (fun _ _ => rfl) g).respects_iff.mpr
    fun a arc ha hact => ?_
  obtain ⟨-, ht⟩ := h.ends_lt a arc ha
  have hin : a ∈ g.inArcs arc.target := (h.mem_inArcs _ a).mpr ⟨arc, ha, hact, rfl⟩
  have hmem :=
    List.mem_map_of_mem (f := fun a => g.longestPath.rank (g.source a) + g.minLength a) hin
  obtain ⟨most, hmost⟩ := Option.isSome_iff_exists.mp (List.isSome_max?_of_mem hmem)
  rw [rank_longestPath h hg ht, hmost]
  have hle := (List.max?_eq_some_iff.mp hmost).2 _ hmem
  rwa [source_eq ha, minLength_eq ha] at hle

/-! ## Tight tree -/

/-- In a layering a vertex lies far enough below each of its successors. -/
theorem Respects.le_of_mem_outArcs (h : g.Respects) (hc : g.Consistent) {v a : Nat}
    (ha : a ∈ g.outArcs v) : g.rank v ≤ g.rank (g.target a) - g.minLength a := by
  obtain ⟨arc, harc, hact, rfl⟩ := (hc.mem_outArcs v a).mp ha
  have := h a arc harc hact
  rw [target_eq harc, minLength_eq harc]
  omega

/-- In a layering a vertex lies far enough above each of its predecessors. -/
theorem Respects.le_of_mem_inArcs (h : g.Respects) (hc : g.Consistent) {v a : Nat}
    (ha : a ∈ g.inArcs v) : g.rank (g.source a) + g.minLength a ≤ g.rank v := by
  obtain ⟨arc, harc, hact, rfl⟩ := (hc.mem_inArcs v a).mp ha
  rw [source_eq harc, minLength_eq harc]
  exact h a arc harc hact

/-- A vertex drops no lower than its successors allow and no higher than its predecessors do: the
vertex is no lower than the bound of its successors to begin with, so its predecessors allow that
bound. -/
theorem Respects.droppedRank_between (h : g.Respects) (hc : g.Consistent) (v : Nat) :
    (∀ a ∈ g.outArcs v, g.droppedRank v ≤ g.rank (g.target a) - g.minLength a) ∧
    ∀ a ∈ g.inArcs v, g.rank (g.source a) + g.minLength a ≤ g.droppedRank v := by
  unfold droppedRank
  cases hupper : ((g.outArcs v).map fun a => g.rank (g.target a) - g.minLength a).min? with
  | none =>
    have hnil : g.outArcs v = [] := List.map_eq_nil_iff.mp (List.min?_eq_none_iff.mp hupper)
    exact ⟨by simp [hnil], fun a ha => h.le_of_mem_inArcs hc ha⟩
  | some upper =>
    obtain ⟨hmem, hleast⟩ := List.min?_eq_some_iff.mp hupper
    have hout : ∀ a ∈ g.outArcs v, upper ≤ g.rank (g.target a) - g.minLength a := fun a ha =>
      hleast _ (List.mem_map_of_mem (f := fun a => g.rank (g.target a) - g.minLength a) ha)
    -- the vertex is no lower than `upper` now, so its predecessors allow `upper`
    have hrank : g.rank v ≤ upper := by
      obtain ⟨a, ha, rfl⟩ := List.mem_map.mp hmem
      exact h.le_of_mem_outArcs hc ha
    have hin : ∀ a ∈ g.inArcs v, g.rank (g.source a) + g.minLength a ≤ upper := fun a ha =>
      (h.le_of_mem_inArcs hc ha).trans hrank
    cases hlower : ((g.inArcs v).map fun a => g.rank (g.source a) + g.minLength a).max? with
    | none => exact ⟨hout, hin⟩
    | some lower =>
      obtain ⟨a, ha, rfl⟩ := List.mem_map.mp (List.max?_eq_some_iff.mp hlower).1
      simp only [max_eq_left (hin a ha)]
      exact ⟨hout, hin⟩

/-- One vertex that drops leaves a layering, for only the arcs at it change their lengths. A loop
would change at both ends, so there must be none. -/
theorem Respects.drop (h : g.Respects) (hc : g.Consistent) (hl : g.Loopless) (v : Nat) :
    (g.setRank v (g.droppedRank v)).Respects := by
  obtain ⟨hout, hin⟩ := h.droppedRank_between hc v
  intro a arc (harc : g.arcs[a]? = some arc) hact
  have hne := hl a arc harc hact
  have hle := h a arc harc hact
  by_cases hs : arc.source = v
  · have hmem : a ∈ g.outArcs v := (hc.mem_outArcs v a).mpr ⟨arc, harc, hact, hs⟩
    have := hout a hmem
    rw [target_eq harc, minLength_eq harc] at this
    rw [rank_setRank_of_ne g _ (fun ht => hne (hs.trans ht.symm)), rank_setRank]
    split <;> omega
  · by_cases ht : arc.target = v
    · have hmem : a ∈ g.inArcs v := (hc.mem_inArcs v a).mpr ⟨arc, harc, hact, ht⟩
      have := hin a hmem
      rw [source_eq harc, minLength_eq harc] at this
      rw [rank_setRank_of_ne g _ hs, rank_setRank]
      split <;> omega
    · rwa [rank_setRank_of_ne g _ hs, rank_setRank_of_ne g _ ht]

theorem Keeps.loopless {β : Type} {f : Vertex α → β} (h : Keeps f g g') (hl : g.Loopless) :
    g'.Loopless := by
  unfold Loopless
  rw [h.arcs]
  exact hl

/-- A row of vertices drops one after the other, each within what the layering before it allows. -/
theorem Respects.dropAll (h : g.Respects) (hc : g.Consistent) (hl : g.Loopless) (order : List Nat) :
    (g.dropAll order).Respects := by
  induction order generalizing g with
  | nil => exact h
  | cons v order ih =>
    have hkeeps := keeps_setRank (f := Vertex.id) (fun _ _ => rfl) g v (g.droppedRank v)
    exact ih (h.drop hc hl v) (hkeeps.consistent hc) (hkeeps.loopless hl)

/-- The same however often the row is gone through. -/
theorem Respects.dropUntilStable (h : g.Respects) (hc : g.Consistent) (hl : g.Loopless)
    (order : List Nat) (limit : Nat) : (dropUntilStable order limit g).Respects := by
  induction limit generalizing g with
  | zero => exact h
  | succ limit ih =>
    have hkeeps := keeps_dropAll (f := Vertex.id) (fun _ _ => rfl) g order
    rw [LayerGraph.dropUntilStable]
    split
    · exact h.dropAll hc hl order
    · exact ih (h.dropAll hc hl order) (hkeeps.consistent hc) (hkeeps.loopless hl)

/-- Dropping vertices keeps a layering, however often it is repeated. -/
theorem Respects.tightTree (h : g.Respects) (hc : g.Consistent) (hl : g.Loopless) :
    g.tightTree.Respects := h.dropUntilStable hc hl _ _

end Flowchart.LayerGraph
