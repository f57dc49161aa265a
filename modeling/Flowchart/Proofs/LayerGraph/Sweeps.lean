import Mathlib.Algebra.Module.Submodule.Lattice
import Mathlib.Data.List.Permutation
import Flowchart.Proofs.LayerGraph.Arrangement
import Flowchart.Proofs.Scalar.Exact

/-!
# The best of several sweeps

Ordering makes a first arrangement and sweeps over it again and again; `swept g k` is the graph
after `k` sweeps. Every one of these graphs is arranged, because a sweep only sorts ranks and writes
the positions of what it sorted.

Of the best arrangement only the rank lists are remembered, and in the end the positions are written
back from them. Nothing is lost by this: in an arranged graph the lists determine the positions, and
the crossings depend on nothing else that ordering changes, `Arranged.countCrossings_eq`. So the
graph that is returned has the crossings that were counted when its lists were remembered,
`orderRanks_best`.
-/

namespace Flowchart.LayerGraph

open Table

variable {α : Type} {g g' : LayerGraph α}

/-! ## Lists determine positions -/

/-- Arranged graphs with the same lists of the same vertices have the same positions. -/
theorem Arranged.order_eq (h : g.Arranged) (h' : g'.Arranged) (hkeeps : Keeps Vertex.rank g g')
    (hranks : g'.ranks = g.ranks) (v : Nat) : g'.order v = g.order v := by
  by_cases hv : v < g.size
  · exact h'.order _ _ v (hranks ▸ h.getElem?_order hv)
  · have hle : g.size ≤ v := Nat.le_of_not_lt hv
    have hnone : g.nodes[v]? = none := Array.getElem?_eq_none hle
    have hnone' : g'.nodes[v]? = none := Array.getElem?_eq_none (hkeeps.size_eq.trans_le hle)
    rw [LayerGraph.order, LayerGraph.order, hnone, hnone']

/-- What crosses in an arranged graph is determined by its rank lists. -/
theorem Arranged.countCrossings_eq (h : g.Arranged) (h' : g'.Arranged)
    (hkeeps : Keeps Vertex.rank g g') (hranks : g'.ranks = g.ranks) :
    g'.countCrossings = g.countCrossings := by
  have hbelow : g'.crossingsBelow = g.crossingsBelow := by
    funext members
    simp only [crossingsBelow, arcEnds, hkeeps.successors_eq, h.order_eq h' hkeeps hranks]
  rw [countCrossings, countCrossings, hbelow, hranks]

/-! ## Sweeping -/

variable [Scalar α]

theorem initialOrder_arranged (g : LayerGraph α) : g.initialOrder.Arranged := by
  refine Lists.arranged_syncOrders fun r => ?_
  have hlists := lists_initialOrder g r
  rw [initialOrder, ranks_syncOrders] at hlists
  exact hlists

/-- Sorting one rank leaves the graph arranged: the list of this rank is permuted, and positions are
written anew for its members only. -/
theorem Arranged.sweepRank (h : g.Arranged) (downward : Bool) (r : Nat) :
    (sweepRank downward g r).Arranged := by
  have hkeeps : Keeps Vertex.rank g (LayerGraph.sweepRank downward g r) :=
    keeps_sweepRank (fun _ _ => rfl) downward g r
  have hlists := lists_sweepRank downward h.lists r
  refine ⟨fun i => hkeeps.rankMembers_eq ▸ hlists i, fun i pos v hi => ?_⟩
  obtain ⟨hlt, hrank⟩ := hlists.mem_iff.mp (List.mem_of_getElem? hi)
  have hnodup := hlists.nodup i
  obtain ⟨members, hperm, hsweep⟩ := exists_sweepRank_eq downward g r
  have hsorted := (groupClusters_perm g members).trans hperm
  generalize g.groupClusters members = sorted at hsweep hsorted
  have hkeys : sorted.zipIdx.map Prod.fst = sorted := List.zipIdx_map_fst 0 sorted
  rw [hsweep, ranks_syncRank, getD_set] at hi hnodup
  rw [hsweep]
  split at hi
  next hswept =>
    rw [if_pos hswept] at hnodup
    exact order_foldl_setOrder (hkeys.symm ▸ hnodup) (List.mem_zipIdx_iff_getElem?.mpr hi) _ hlt
  next hother =>
    -- what stands in another rank was not sorted
    have hnot : v ∉ sorted := by
      intro hmem
      have hmem := hsorted.mem_iff.mp hmem
      have hir : i = r := hrank.symm.trans (h.lists.mem_iff.mp hmem).2
      exact hother ⟨hir, lt_size_of_mem hmem⟩
    exact (order_foldl_setOrder_of_not_mem (hkeys.symm ▸ hnot) _).trans (h.order i pos v hi)

theorem Arranged.sweep (h : g.Arranged) (downward : Bool) : (g.sweep downward).Arranged :=
  List.foldlRecOn (motive := Arranged) _ _ h fun _ hg r _ => hg.sweepRank downward r

/-- The graph after the first arrangement and a number of sweeps, down and up in turn. -/
def swept (g : LayerGraph α) : Nat → LayerGraph α
  | 0 => g.initialOrder
  | k + 1 => (g.swept k).sweep (k % 2 == 0)

theorem keeps_swept {β : Type} {f : Vertex α → β}
    (hf : ∀ (x : Vertex α) (o : Nat), f { x with order := o } = f x) (g : LayerGraph α) (k : Nat) :
    Keeps f g (g.swept k) := by
  induction k with
  | zero => exact keeps_initialOrder hf g
  | succ k ih => exact ih.trans (keeps_sweep hf _ _)

theorem swept_arranged (g : LayerGraph α) (k : Nat) : (g.swept k).Arranged := by
  induction k with
  | zero => exact initialOrder_arranged g
  | succ k ih => exact ih.sweep _

/-! ## The best arrangement -/

/-- The crossings and the rank lists of a graph with the fewest crossings among those after at most
`n` sweeps. -/
structure BestOf (g : LayerGraph α) (n : Nat) (best : Nat × Array (List Nat)) : Prop where
  seen : ∃ k ≤ n, best = ((g.swept k).countCrossings, (g.swept k).ranks)
  least : ∀ k ≤ n, best.1 ≤ (g.swept k).countCrossings

variable {best : Nat × Array (List Nat)} {n : Nat}

theorem BestOf.start (g : LayerGraph α) :
    g.BestOf 0 (g.initialOrder.countCrossings, g.initialOrder.ranks) := by
  refine ⟨⟨0, le_rfl, rfl⟩, fun k hk => ?_⟩
  obtain rfl := Nat.le_zero.mp hk
  exact le_rfl

/-- One more sweep is compared with the best one before. -/
theorem BestOf.sweep (h : g.BestOf n best) : g.BestOf (n + 1)
    (if (g.swept (n + 1)).countCrossings < best.1
      then ((g.swept (n + 1)).countCrossings, (g.swept (n + 1)).ranks) else best) := by
  obtain ⟨k, hk, hseen⟩ := h.seen
  split
  next hlt =>
    refine ⟨⟨n + 1, le_rfl, rfl⟩, fun j hj => ?_⟩
    rcases Nat.le_succ_iff.mp hj with hj | rfl
    · exact hlt.le.trans (h.least j hj)
    · exact le_rfl
  next hge =>
    refine ⟨⟨k, hk.trans n.le_succ, hseen⟩, fun j hj => ?_⟩
    rcases Nat.le_succ_iff.mp hj with hj | rfl
    · exact h.least j hj
    · exact Nat.le_of_not_lt hge

/-- Sweeping goes on until nothing crosses or no sweep is left, and keeps the best. -/
theorem BestOf.improveOrder (left : Nat) (h : g.BestOf n best) : ∃ m best', n ≤ m ∧ m ≤ n + left ∧
    g.BestOf m best' ∧ (m < n + left → best'.1 = 0) ∧
    improveOrder left n (g.swept n) best = (g.swept m, best', m) := by
  induction left generalizing n best with
  | zero => exact ⟨n, best, le_rfl, le_rfl, h, fun hlt => absurd hlt (lt_irrefl n), rfl⟩
  | succ left ih =>
    rw [LayerGraph.improveOrder]
    split
    next hzero =>
      exact ⟨n, best, le_rfl, Nat.le_add_right _ _, h, fun _ => beq_iff_eq.mp hzero, rfl⟩
    next =>
      obtain ⟨m, best', hle, hm, hbest, hstop, heq⟩ := ih h.sweep
      exact ⟨m, best', by omega, by omega, hbest, fun hlt => hstop (by omega), heq⟩

/-- Ordering writes the positions back from the lists of the best graph. -/
theorem exists_orderRanks_eq (g : LayerGraph α) (limit : Nat) : ∃ m best, m ≤ limit ∧
    g.BestOf m best ∧ (m < limit → best.1 = 0) ∧ g.orderRanks limit =
      ({ g.swept m with ranks := best.2 }.syncOrders,
        ⟨(g.swept 0).countCrossings, best.1, m⟩) := by
  obtain ⟨m, best, -, hm, hbest, hstop, heq⟩ := (BestOf.start g).improveOrder limit
  rw [Nat.zero_add] at hm hstop
  refine ⟨m, best, hm, hbest, hstop, ?_⟩
  rw [orderRanks]
  exact congrArg (fun s : LayerGraph α × (Nat × Array (List Nat)) × Nat =>
    ({ s.1 with ranks := s.2.1.2 }.syncOrders,
      OrderingStats.mk (g.swept 0).countCrossings s.2.1.1 s.2.2)) heq

/-- **What ordering returns has the lists of a graph it came by**, and it is arranged. -/
theorem exists_swept_orderRanks (g : LayerGraph α) (limit : Nat) :
    (g.orderRanks limit).1.Arranged ∧ ∃ k ≤ (g.orderRanks limit).2.passes,
      (g.orderRanks limit).1.ranks = (g.swept k).ranks ∧
      (g.orderRanks limit).2.crossings = (g.swept k).countCrossings := by
  obtain ⟨m, best, -, hbest, -, heq⟩ := exists_orderRanks_eq g limit
  obtain ⟨k, hk, rfl⟩ := hbest.seen
  rw [heq]
  refine ⟨Lists.arranged_syncOrders fun r => ?_, k, hk, ranks_syncOrders _, rfl⟩
  have hkeeps := keeps_swept (f := Vertex.rank) (fun _ _ => rfl) g
  rw [((hkeeps m).trans (.withRankLists _ _ _)).rankMembers_eq, ← (hkeeps k).rankMembers_eq]
  exact (swept_arranged g k).lists r

theorem orderRanks_arranged (g : LayerGraph α) (limit : Nat) : (g.orderRanks limit).1.Arranged :=
  (exists_swept_orderRanks g limit).1

/-- The outcome of ordering a graph with at most `limit` sweeps. -/
structure BestOrder (g : LayerGraph α) (limit : Nat) (out : LayerGraph α) (stats : OrderingStats) :
    Prop where
  /-- every vertex is listed, and only once -/
  listed : out.ranks.toList.flatten.Perm g.vertices
  /-- what is listed stands in the list of its rank, at its position -/
  placed : ∀ r i v, (out.ranks.getD r [])[i]? = some v → g.rank v = r ∧ out.order v = i
  /-- ordering changes no rank -/
  rank : out.rank = g.rank
  initial : stats.initialCrossings = (g.swept 0).countCrossings
  /-- the crossings on record are those of the graph that is returned -/
  counted : out.countCrossings = stats.crossings
  /-- they are those after one of the sweeps that were made, or of the first arrangement -/
  seen : ∃ k ≤ stats.passes, stats.crossings = (g.swept k).countCrossings
  /-- there were no fewer crossings at any time -/
  least : ∀ k ≤ stats.passes, stats.crossings ≤ (g.swept k).countCrossings
  le_initial : stats.crossings ≤ stats.initialCrossings
  passes_le : stats.passes ≤ limit
  /-- it takes a graph without crossings to stop before the limit -/
  stopped : stats.passes < limit → stats.crossings = 0

/-- **Ordering returns the best arrangement it saw.** In a graph whose ranks are not negative, every
vertex comes to stand once, in the list of its rank and at its position; the crossings are the
fewest of the first arrangement and of those after each sweep; and sweeping stops before the limit
only where nothing crosses. -/
theorem orderRanks_best (g : LayerGraph α) (limit : Nat) (hrank : ∀ v < g.size, 0 ≤ g.rank v) :
    g.BestOrder limit (g.orderRanks limit).1 (g.orderRanks limit).2 := by
  have hkeeps : Keeps Vertex.rank g (g.orderRanks limit).1 := keeps_orderRanks (fun _ _ => rfl) g _
  obtain ⟨harranged, k, hk, hranks, hcrossings⟩ := exists_swept_orderRanks g limit
  obtain ⟨m, best, hm, hbest, hstop, heq⟩ := exists_orderRanks_eq g limit
  have hstats : (g.orderRanks limit).2 = ⟨(g.swept 0).countCrossings, best.1, m⟩ :=
    congrArg Prod.snd heq
  constructor
  case listed =>
    refine (List.perm_ext_iff_of_nodup harranged.lists.nodup_flatten List.nodup_range).mpr
      fun v => ?_
    rw [harranged.lists.mem_flatten, hkeeps.size_eq, List.mem_range]
  case placed =>
    intro r i v hi
    obtain ⟨hlt, hr⟩ := harranged.lists.mem_iff.mp (List.mem_of_getElem? hi)
    rw [hkeeps.rank_eq] at hr
    have hnonneg := hrank v (hkeeps.size_eq ▸ hlt)
    exact ⟨by omega, harranged.order r i v hi⟩
  case rank => exact funext hkeeps.rank_eq
  case counted =>
    have hsame : Keeps Vertex.rank (g.swept k) (g.orderRanks limit).1 :=
      (keeps_swept (fun _ _ => rfl) g k).symm.trans hkeeps
    rw [hcrossings]
    exact (swept_arranged g k).countCrossings_eq harranged hsame hranks
  case seen => exact ⟨k, hk, hcrossings⟩
  all_goals rw [hstats]
  case least => exact hbest.least
  case le_initial => exact hbest.least 0 m.zero_le
  case passes_le => exact hm
  case stopped => exact hstop

/-- Two vertices with two arcs each, the first of which cross in the first arrangement. -/
def tangle : LayerGraph ℚ where
  nodes := #[⟨"a", 1, 1, 0, 0, 0, 0, none, []⟩, ⟨"b", 1, 1, 0, 0, 0, 0, none, []⟩,
    ⟨"c", 1, 1, 1, 0, 0, 0, none, []⟩, ⟨"d", 1, 1, 1, 0, 0, 0, none, []⟩,
    ⟨"e", 1, 1, 1, 0, 0, 0, none, []⟩]
  arcs := #[⟨0, 2, 1, 1, false, true, 0⟩, ⟨0, 3, 1, 1, false, true, 1⟩,
    ⟨1, 2, 1, 1, false, true, 2⟩, ⟨1, 4, 1, 1, false, true, 3⟩]
  outgoing := #[[0, 1], [2, 3], [], [], []]
  incoming := #[[], [], [0, 2], [1], [3]]

/-- One sweep takes the crossing away, and the other three are not made. -/
theorem orderRanks_best_tangle : (∀ v < tangle.size, 0 ≤ tangle.rank v) ∧
    tangle.BestOrder 4 (tangle.orderRanks 4).1 (tangle.orderRanks 4).2 ∧
    (tangle.orderRanks 4).2 = ⟨1, 0, 1⟩ ∧ (tangle.orderRanks 4).1.ranks = #[[0, 1], [3, 2, 4]] := by
  have hrank : ∀ v < tangle.size, 0 ≤ tangle.rank v := by decide
  exact ⟨hrank, orderRanks_best tangle 4 hrank, by cbv, by cbv⟩

end Flowchart.LayerGraph
