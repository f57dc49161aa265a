import Flowchart.Proofs.LayerGraph.CycleRemoval
import Flowchart.Proofs.Ranking.TopologicalOrder

/-!
# The least and the greatest ranking

Two of the strategies give rankings that lie at the ends of all those the arcs admit.

* On the longest path a vertex without predecessors has rank zero and every other one the least rank
  its predecessors allow. So it lies below every ranking without negative ranks, going from the
  sources down.
* A vertex that drops takes the greatest rank its successors allow, and it keeps that rank as long as
  none of its successors moves. One pass of the tight tree goes through the vertices successors
  first, so after a single pass every vertex has dropped. The sinks have not moved, and going from
  them upwards every other ranking with the same sinks lies above.

Neither ranking is shifted in the end, since every component begins at rank zero.
-/

namespace Flowchart.LayerGraph

variable {α : Type} {g g' : LayerGraph α} {rank rank' : Nat → Int} {order : List Nat} {u v : Nat}

/-! ## Rankings -/

/-- In the ranking every active arc leads at least its least length upwards. -/
def Admits (g : LayerGraph α) (rank : Nat → Int) : Prop :=
  ∀ (a : Nat) arc, g.arcs[a]? = some arc → arc.active = true →
    rank arc.source + arc.minLength ≤ rank arc.target

/-- The greatest rank that the arcs out of a vertex allow, if there are any. -/
def rankAboveSuccessors (g : LayerGraph α) (rank : Nat → Int) (v : Nat) : Option Int :=
  ((g.outArcs v).map fun a => rank (g.target a) - g.minLength a).min?

/-- The ranking is the least one without negative ranks. -/
structure LeastRanking (g : LayerGraph α) (rank : Nat → Int) : Prop where
  admitted : g.Admits rank
  nonneg : ∀ v < g.size, 0 ≤ rank v
  least : ∀ r, g.Admits r → (∀ v < g.size, 0 ≤ r v) → ∀ v < g.size, rank v ≤ r v

/-- The ranking is the greatest one that gives the vertices without successors the ranks of
another. -/
structure GreatestRanking (g : LayerGraph α) (base rank : Nat → Int) : Prop where
  admitted : g.Admits rank
  sinks : ∀ v < g.size, g.outArcs v = [] → rank v = base v
  others : ∀ v < g.size, g.outArcs v ≠ [] → g.rankAboveSuccessors rank v = some (rank v)
  greatest : ∀ r, g.Admits r → (∀ v < g.size, g.outArcs v = [] → r v = base v) →
    ∀ v < g.size, r v ≤ rank v

theorem Consistent.rankAboveSuccessors_congr (hc : g.Consistent)
    (h : ∀ u, g.Leads v u → rank' u = rank u) :
    g.rankAboveSuccessors rank' v = g.rankAboveSuccessors rank v := by
  rw [rankAboveSuccessors, rankAboveSuccessors]
  congr 1
  exact List.map_congr_left fun a ha => by rw [h _ (hc.leads_of_mem_outArcs ha)]

theorem Keeps.admits_iff {β : Type} {f : Vertex α → β} (h : Keeps f g g') :
    g'.Admits rank ↔ g.Admits rank := by
  rw [Admits, Admits, h.arcs]

theorem LeastRanking.congr (h : g.LeastRanking rank) (hc : g.Consistent)
    (heq : ∀ v < g.size, rank' v = rank v) : g.LeastRanking rank' := by
  refine ⟨fun a arc harc hact => ?_, fun v hv => ?_, fun r hr hnonneg v hv => ?_⟩
  · obtain ⟨hs, ht⟩ := hc.ends_lt a arc harc
    rw [heq _ hs, heq _ ht]
    exact h.admitted a arc harc hact
  · rw [heq v hv]
    exact h.nonneg v hv
  · rw [heq v hv]
    exact h.least r hr hnonneg v hv

theorem Keeps.leastRanking {β : Type} {f : Vertex α → β} (h : Keeps f g g')
    (hleast : g'.LeastRanking rank) : g.LeastRanking rank := by
  obtain ⟨hadmitted, hnonneg, hleast⟩ := hleast
  rw [h.size_eq] at hnonneg hleast
  exact ⟨h.admits_iff.mp hadmitted, hnonneg, fun r hr => hleast r (h.admits_iff.mpr hr)⟩

theorem Keeps.rankAboveSuccessors_eq {β : Type} {f : Vertex α → β} (h : Keeps f g g') :
    g'.rankAboveSuccessors rank v = g.rankAboveSuccessors rank v := by
  unfold rankAboveSuccessors target minLength
  rw [h.outArcs_eq, h.arcs]

/-- Taking the greatest rank the successors allow makes a ranking greatest. -/
theorem Consistent.greatestRanking (hc : g.Consistent) (hg : g.Acyclic) {base : Nat → Int}
    (hsinks : ∀ v < g.size, g.outArcs v = [] → rank v = base v)
    (hothers : ∀ v < g.size, g.outArcs v ≠ [] → g.rankAboveSuccessors rank v = some (rank v)) :
    g.GreatestRanking base rank := by
  refine ⟨fun a arc harc hact => ?_, hsinks, hothers, fun r hr hbase => ?_⟩
  · have hout := (hc.mem_outArcs _ a).mpr ⟨arc, harc, hact, rfl⟩
    have hmin := hothers _ (hc.ends_lt a arc harc).1 (List.ne_nil_of_mem hout)
    have hle := (List.min?_eq_some_iff.mp hmin).2 _ (List.mem_map_of_mem hout)
    rw [target_eq harc, minLength_eq harc] at hle
    omega
  · refine hc.induct_down hg fun v hv ih => ?_
    by_cases hout : g.outArcs v = []
    · rw [hbase v hv hout, hsinks v hv hout]
    · obtain ⟨a, ha, heq⟩ := List.mem_map.mp (List.min?_eq_some_iff.mp (hothers v hv hout)).1
      obtain ⟨arc, harc, hact, rfl⟩ := (hc.mem_outArcs v a).mp ha
      have hle := hr a arc harc hact
      have hnext := ih a ha
      rw [target_eq harc] at hnext
      rw [target_eq harc, minLength_eq harc] at heq
      omega

/-! ## The longest path -/

theorem Earliest.leastRanking (he : g.Earliest) (hc : g.Consistent) (hg : g.Acyclic)
    (hf : g.Forward) (hr : g.Respects) : g.LeastRanking g.rank := by
  refine ⟨hr, he.nonneg hc hg hf, fun r hadmits hnonneg => hc.induct_up hg fun v hv ih => ?_⟩
  by_cases hin : g.inArcs v = []
  · rw [he.rank_eq_zero hv hin]
    exact hnonneg v hv
  · obtain ⟨a, ha, heq⟩ := he.exists_tight hv hin
    obtain ⟨arc, harc, hact, rfl⟩ := (hc.mem_inArcs v a).mp ha
    have hle := hadmits a arc harc hact
    have hnext := ih a ha
    rw [source_eq harc] at hnext
    rw [source_eq harc, minLength_eq harc] at heq
    omega

/-! ## Dropping -/

/-- In a layering the predecessors never hold a vertex back from dropping. -/
theorem Respects.droppedRank_eq (h : g.Respects) (hc : g.Consistent) (v : Nat) :
    g.droppedRank v = (g.rankAboveSuccessors g.rank v).getD (g.rank v) := by
  have hupper := h.rank_le_droppedRank hc v
  unfold droppedRank at *
  rw [rankAboveSuccessors]
  cases hmin : ((g.outArcs v).map fun a => g.rank (g.target a) - g.minLength a).min? with
  | none => rfl
  | some upper =>
    have hupper : g.rank v ≤ upper := by
      obtain ⟨a, ha, rfl⟩ := List.mem_map.mp (List.min?_eq_some_iff.mp hmin).1
      exact h.le_of_mem_outArcs hc ha
    cases hmax : ((g.inArcs v).map fun a => g.rank (g.source a) + g.minLength a).max? with
    | none => rfl
    | some lower =>
      obtain ⟨a, ha, rfl⟩ := List.mem_map.mp (List.max?_eq_some_iff.mp hmax).1
      exact max_eq_left ((h.le_of_mem_inArcs hc ha).trans hupper)

/-- The vertex lies where it drops to. -/
def Dropped (g : LayerGraph α) (v : Nat) : Prop := g.droppedRank v = g.rank v

theorem Dropped.rankAboveSuccessors_eq (h : g.Dropped v) (hc : g.Consistent) (hr : g.Respects)
    (hout : g.outArcs v ≠ []) : g.rankAboveSuccessors g.rank v = some (g.rank v) := by
  rw [Dropped, hr.droppedRank_eq hc] at h
  have hne : (g.outArcs v).map (fun a => g.rank (g.target a) - g.minLength a) ≠ [] := by simpa
  obtain ⟨upper, hupper⟩ := Option.isSome_iff_exists.mp (List.isSome_min?_of_ne_nil hne)
  rw [rankAboveSuccessors, hupper] at h ⊢
  exact congrArg some h

/-- A vertex that drops lies where it drops to, and no other vertex leaves its place by it but the
predecessors. -/
theorem Respects.dropped_drop (hr : g.Respects) (hc : g.Consistent) (hl : g.Loopless)
    (hu : u < g.size) (h : u ≠ v → g.Dropped u ∧ ¬ g.Leads u v) :
    (g.setRank v (g.droppedRank v)).Dropped u := by
  have hkeeps := keeps_setRank (f := Vertex.id) (fun _ _ => rfl) g v (g.droppedRank v)
  have hnot : ¬ g.Leads u v := by
    by_cases huv : u = v
    · rintro ⟨a, arc, harc, hact, rfl, ht⟩
      exact hl a arc harc hact (huv.trans ht.symm)
    · exact (h huv).2
  have hsame : g.rankAboveSuccessors (g.setRank v (g.droppedRank v)).rank u =
      g.rankAboveSuccessors g.rank u :=
    hc.rankAboveSuccessors_congr fun w hw =>
      rank_setRank_of_ne g _ fun hwv => hnot (hwv ▸ hw)
  rw [Dropped, (hr.drop hc hl v).droppedRank_eq (hkeeps.consistent hc),
    hkeeps.rankAboveSuccessors_eq, hsame]
  by_cases huv : u = v
  · subst huv
    have heq := hr.droppedRank_eq hc u
    rw [rank_setRank, if_pos ⟨rfl, hu⟩]
    cases hmin : g.rankAboveSuccessors g.rank u with
    | none => rfl
    | some upper => rw [heq, hmin]; rfl
  · rw [rank_setRank_of_ne g _ huv, ← hr.droppedRank_eq hc]
    exact (h huv).1

/-- One pass suffices if it goes through the vertices successors first. -/
theorem Respects.dropped_dropAll (hr : g.Respects) (hc : g.Consistent) (hl : g.Loopless)
    (hlt : ∀ v ∈ order, v < g.size) (horder : order.Pairwise fun u v => ¬ g.Leads u v) :
    ∀ v ∈ order, (g.dropAll order).Dropped v := by
  induction order using List.reverseRecOn with
  | nil => exact fun v hv => (List.not_mem_nil hv).elim
  | append_singleton order w ih =>
    obtain ⟨hpair, -, hlast⟩ := List.pairwise_append.mp horder
    have hearlier := ih (fun v hv => hlt v (List.mem_append_left _ hv)) hpair
    have hkeeps := keeps_dropAll (f := Vertex.id) (fun _ _ => rfl) g order
    intro v hv
    rw [LayerGraph.dropAll, List.foldl_concat, ← LayerGraph.dropAll]
    refine (hr.dropAll hc hl order).dropped_drop (hkeeps.consistent hc) (hkeeps.loopless hl)
      (hkeeps.size_eq ▸ hlt v hv) fun hvw => ?_
    have hv : v ∈ order := by simpa [hvw] using hv
    rw [hkeeps.leads_eq]
    exact ⟨hearlier v hv, hlast v hv w (List.mem_singleton_self w)⟩

theorem Respects.dropped_dropUntilStable (hr : g.Respects) (hc : g.Consistent) (hl : g.Loopless)
    (hlt : ∀ v ∈ order, v < g.size) (horder : order.Pairwise fun u v => ¬ g.Leads u v)
    {limit : Nat} (hlimit : 0 < limit) :
    ∀ v ∈ order, (LayerGraph.dropUntilStable order limit g).Dropped v := by
  induction limit generalizing g with
  | zero => cases hlimit
  | succ limit ih =>
    have hkeeps := keeps_dropAll (f := Vertex.id) (fun _ _ => rfl) g order
    have hpass := hr.dropped_dropAll hc hl hlt horder
    rw [LayerGraph.dropUntilStable]
    split
    · exact hpass
    · cases limit with
      | zero => exact hpass
      | succ limit =>
        exact ih (hr.dropAll hc hl order) (hkeeps.consistent hc) (hkeeps.loopless hl)
          (hkeeps.size_eq ▸ hlt) (hkeeps.leads_eq ▸ horder) (Nat.succ_pos limit)

/-- On the tight tree every vertex has dropped. -/
theorem Respects.dropped_tightTree (hr : g.Respects) (hc : g.Consistent) (hg : g.Acyclic)
    (hv : v < g.size) : g.tightTree.Dropped v := by
  obtain ⟨hall, horder⟩ := reverseTopological_spec hc hg
  exact hr.dropped_dropUntilStable hc hg.loopless (fun u => (hall u).mp) horder (by omega) v
    ((hall v).mpr hv)

/-! ## The strategies -/

/-- **The ends of all rankings.** Let no arc of an acyclic graph allow a step backwards. The longest
path gives every vertex the least rank it has in a ranking without negative ranks. The tight tree
leaves the vertices without successors where the longest path has them, gives every other vertex the
greatest rank its successors allow, and with that the greatest rank it has in a ranking with these
ranks of the vertices without successors. -/
theorem assignRanks_extremes [Scalar α] (hc : g.Consistent) (hg : g.Acyclic) (hf : g.Forward)
    (limit : Nat) :
    g.LeastRanking (g.assignRanks .longestPath limit).rank ∧
      g.GreatestRanking (g.assignRanks .longestPath limit).rank
        (g.assignRanks .tightTree limit).rank := by
  have hkeeps := keeps_longestPath (f := Vertex.id) (fun _ _ => rfl) g
  have hc' := hkeeps.consistent hc
  have hg' := hkeeps.acyclic hg
  have hf' : g.longestPath.Forward := hf
  have hr := longestPath_respects hc hg
  have he := longestPath_earliest hc hg
  have htree := keeps_tightTree (f := Vertex.id) (fun _ _ => rfl) g.longestPath
  have hpath : ∀ v < g.size, (g.assignRanks .longestPath limit).rank v = g.longestPath.rank v :=
    fun v hv => (he.startsAtZero hc' hg' hf').rank_normalizeRanks hc' (hkeeps.size_eq ▸ hv)
  have htight : ∀ v < g.size,
      (g.assignRanks .tightTree limit).rank v = g.longestPath.tightTree.rank v := fun v hv =>
    (he.startsAtZero_tightTree hc' hg' hf' hr).rank_normalizeRanks (htree.consistent hc')
      ((htree.size_eq.trans hkeeps.size_eq) ▸ hv)
  constructor
  · exact (hkeeps.leastRanking (he.leastRanking hc' hg' hf' hr)).congr hc hpath
  · refine hc.greatestRanking hg (fun v hv hout => ?_) fun v hv hout => ?_
    · have hlifts : Lifts g.longestPath g.longestPath.tightTree :=
        hr.lifts_dropUntilStable hc' hg'.loopless _ _
      rw [htight v hv, hpath v hv]
      exact (hlifts.anchored v (.sink (hkeeps.outArcs_eq ▸ hout))).2
    · have hdropped := hr.dropped_tightTree hc' hg' (hkeeps.size_eq ▸ hv)
      have hkept := hkeeps.trans htree
      have heq := hdropped.rankAboveSuccessors_eq (hkept.consistent hc)
        (hr.tightTree hc' hg'.loopless) (hkept.outArcs_eq ▸ hout)
      rw [htight v hv, ← heq, hkept.rankAboveSuccessors_eq]
      exact hc.rankAboveSuccessors_congr fun u hu => htight u (hc.lt_of_leads hu).2

/-- One vertex is fed by two ways, a short one whose arcs are parallel and a long one, and two more
vertices are by themselves. -/
def feeder : LayerGraph Float32 :=
  let vertices := ["a", "b", "c", "d", "e", "f"].foldl (fun g id => g.addNode id 1.0 1.0 []) {}
  [(0, 1), (1, 2), (3, 2), (3, 2), (4, 5)].zipIdx.foldl
    (fun g (arc, origin) => g.addArc arc.1 arc.2 1.0 origin) vertices

theorem feeder_built : Built feeder :=
  (Built.empty.addNodes 1.0 1.0 ["a", "b", "c", "d", "e", "f"]).addArcs 1.0 _ (by decide +kernel)

/-- On the longest path the short way starts at rank zero, below any other ranking; on the tight
tree it starts next to the vertex it feeds. -/
theorem assignRanks_feeder : feeder.Consistent ∧ feeder.Acyclic ∧ feeder.Forward ∧
    feeder.LeastRanking (feeder.assignRanks .longestPath 0).rank ∧
    feeder.GreatestRanking (feeder.assignRanks .longestPath 0).rank
      (feeder.assignRanks .tightTree 0).rank ∧
    feeder.vertices.map (feeder.assignRanks .longestPath 0).rank = [0, 1, 2, 0, 0, 1] ∧
    feeder.vertices.map (feeder.assignRanks .tightTree 0).rank = [0, 1, 2, 1, 0, 1] := by
  have hfresh := feeder_built.fresh
  have hback : feeder.backArcs = [] := by decide +kernel
  have hg : feeder.Acyclic := by
    have h := hfresh.consistent.acyclic_foldl_backArcs hfresh.loopless
    rwa [hback] at h
  have hf : feeder.Forward := fun a arc harc _ => by
    rw [(hfresh.arcs a arc harc).2.2.1]
    decide
  obtain ⟨hleast, hgreatest⟩ := assignRanks_extremes hfresh.consistent hg hf 0
  exact ⟨hfresh.consistent, hg, hf, hleast, hgreatest, by decide +kernel, by decide +kernel⟩

end Flowchart.LayerGraph
