import Flowchart.Proofs.LayerGraph.Frame
import Flowchart.Proofs.Table

/-!
# Arrangements of the ranks

Ordering fills the rank lists and writes the position of every vertex. In which order the vertices
of a rank stand is a matter of crossings, but what stands there is not: every rank list holds the
vertices of its rank, each of them once, and the position of a vertex is its place in the list. A
graph of this kind is `Arranged`.

The first lists are cut out of a breadth-first listing of all vertices, so the listing has to be
complete; everything later only sorts.
-/

namespace Flowchart.LayerGraph

open Table

variable {α : Type} {g g' : LayerGraph α} {ranks : Array (List Nat)} {r v : Nat}

/-- The vertices of a rank. -/
def rankMembers (g : LayerGraph α) (r : Nat) : List Nat :=
  g.vertices.filter fun v => (g.rank v).toNat == r

/-- The members of a rank are the vertices that have it. -/
@[simp] theorem mem_rankMembers : v ∈ g.rankMembers r ↔ v < g.size ∧ (g.rank v).toNat = r := by
  simp [rankMembers, vertices]

theorem nodup_rankMembers (g : LayerGraph α) (r : Nat) : (g.rankMembers r).Nodup :=
  List.nodup_range.filter _

/-- The members of the ranks depend on nothing but the ranks. -/
theorem Keeps.rankMembers_eq (h : Keeps Vertex.rank g g') : g'.rankMembers = g.rankMembers := by
  funext r
  simp only [rankMembers, vertices, h.size_eq, h.rank_eq]

/-- No vertex has a rank above the largest one. -/
theorem rank_le_maxRank (hv : v < g.size) : g.rank v ≤ g.maxRank := by
  obtain ⟨x, hx⟩ : ∃ x, g.nodes[v]? = some x := ⟨_, Array.getElem?_eq_getElem hv⟩
  have hmem : g.rank v ∈ g.nodes.toList.map Vertex.rank := by
    rw [rank, hx]
    exact List.mem_map_of_mem (Array.mem_toList_iff.mpr (Array.mem_of_getElem? hx))
  obtain ⟨most, hmost⟩ := Option.isSome_iff_exists.mp (List.isSome_max?_of_mem hmem)
  rw [maxRank, hmost]
  exact (List.max?_eq_some_iff.mp hmost).2 _ hmem

/-! ## Lists of the ranks -/

/-- Rank lists that hold the vertices of every rank, in any order. -/
def Lists (g : LayerGraph α) (ranks : Array (List Nat)) : Prop :=
  ∀ r, (ranks.getD r []).Perm (g.rankMembers r)

/-- Whatever stands in a list stands in one of those that there are. -/
theorem lt_size_of_mem (h : v ∈ ranks.getD r []) : r < ranks.size := by
  by_contra hle
  rw [getD_of_le _ _ (Nat.le_of_not_lt hle)] at h
  cases h

namespace Lists

/-- A list holds the vertices of its rank. -/
theorem mem_iff (h : g.Lists ranks) : v ∈ ranks.getD r [] ↔ v < g.size ∧ (g.rank v).toNat = r :=
  (h r).mem_iff.trans mem_rankMembers

/-- No vertex stands twice in one list, since no vertex stands twice in all the lists together. -/
theorem nodup (h : g.Lists ranks) (r : Nat) : (ranks.getD r []).Nodup :=
  (h r).nodup_iff.mpr (nodup_rankMembers g r)

/-- No vertex is listed twice, in one rank or in two. -/
theorem nodup_flatten (h : g.Lists ranks) : ranks.toList.flatten.Nodup := by
  have hget : ∀ (i : Nat) (hi : i < ranks.toList.length), ranks.toList[i] = ranks.getD i [] := by
    intro i hi
    simp [Array.getD, Array.length_toList ▸ hi]
  refine List.nodup_flatten.mpr ⟨fun members hm => ?_, List.pairwise_iff_getElem.mpr ?_⟩
  · obtain ⟨i, hi, rfl⟩ := List.getElem_of_mem hm
    exact hget i hi ▸ h.nodup i
  · intro i j hi hj hij v hvi hvj
    rw [hget, h.mem_iff] at hvi hvj
    omega

/-- All lists together hold every vertex of the graph, and no other number. -/
theorem mem_flatten (h : g.Lists ranks) : v ∈ ranks.toList.flatten ↔ v < g.size := by
  rw [List.mem_flatten]
  constructor
  · rintro ⟨members, hm, hv⟩
    obtain ⟨i, hi, rfl⟩ := List.getElem_of_mem hm
    have hv' : v ∈ ranks.getD i [] := by
      simpa [Array.getD, Array.length_toList ▸ hi] using hv
    exact (h.mem_iff.mp hv').1
  · intro hv
    have hmem : v ∈ ranks.getD (g.rank v).toNat [] := h.mem_iff.mpr ⟨hv, rfl⟩
    have hlt := lt_size_of_mem hmem
    refine ⟨ranks.getD (g.rank v).toNat [], ?_, hmem⟩
    simp [Array.getD, hlt]

end Lists

/-- Every rank list holds the vertices of its rank, once each, and the position of a vertex is its
place in the list. -/
structure Arranged (g : LayerGraph α) : Prop where
  lists : g.Lists g.ranks
  order : ∀ r i v, (g.ranks.getD r [])[i]? = some v → g.order v = i

namespace Arranged

/-- Every vertex stands in the list of its rank, at its position. -/
theorem getElem?_order (h : g.Arranged) (hv : v < g.size) :
    (g.ranks.getD (g.rank v).toNat [])[g.order v]? = some v := by
  obtain ⟨i, hi⟩ := List.getElem?_of_mem (h.lists.mem_iff.mpr ⟨hv, rfl⟩)
  rwa [h.order _ i v hi]

end Arranged

/-! ## Breadth first -/

/-- The list holds what is marked, once each. -/
structure Listed (g : LayerGraph α) (listed : List Nat) (met : Array Bool) : Prop where
  size : met.size = g.size
  nodup : listed.Nodup
  met_iff : ∀ v, met.getD v false = true ↔ v ∈ listed

/-- A search lists whatever it marks: nothing is left in the queue, since every step either lists a
vertex of the queue or finds the queue empty. -/
theorem Listed.breadthFirst {listed queue : List Nat} {met : Array Bool}
    (h : g.Listed (queue ++ listed) met) (fuel : Nat)
    (hfuel : queue.length + g.size ≤ fuel + (memberSet met).card) :
    g.Listed (g.breadthFirst fuel listed met queue).1 (g.breadthFirst fuel listed met queue).2 ∧
      ∀ v ∈ queue ++ listed, v ∈ (g.breadthFirst fuel listed met queue).1 := by
  induction fuel generalizing listed queue met with
  | zero =>
    have hle := h.size ▸ card_memberSet_le met
    obtain rfl : queue = [] := List.length_eq_zero_iff.mp (by omega)
    exact ⟨h, fun v hv => hv⟩
  | succ fuel ih =>
    cases queue with
    | nil => exact ⟨h, fun v hv => hv⟩
    | cons v queue =>
      rw [LayerGraph.breadthFirst]
      have hnodup := nodup_eraseDups ((g.successors v).filter fun u => !met.getD u true)
      have hfresh : ∀ u ∈ ((g.successors v).filter fun u => !met.getD u true).eraseDups,
          u < met.size ∧ met.getD u false = false := by
        intro u hu
        exact getD_true_eq_false.mp
          (by simpa using (List.mem_filter.mp (List.mem_eraseDups.mp hu)).2)
      generalize ((g.successors v).filter fun u => !met.getD u true).eraseDups = fresh
        at hnodup hfresh ⊢
      have hperm : ((queue ++ fresh) ++ v :: listed).Perm (fresh ++ ((v :: queue) ++ listed)) := by
        rw [List.append_assoc]
        refine (List.perm_append_comm_assoc _ _ _).trans (List.Perm.append_left _ ?_)
        exact List.perm_middle
      have hnext : g.Listed ((queue ++ fresh) ++ v :: listed)
          (fresh.foldl (·.setIfInBounds · true) met) := by
        refine ⟨(size_foldl_mark _ _).trans h.size, hperm.nodup_iff.mpr ?_, fun u => ?_⟩
        · refine List.nodup_append.mpr ⟨hnodup, h.nodup, fun u hu w hw huw => ?_⟩
          have hmet := (h.met_iff w).mpr hw
          rw [← huw, (hfresh u hu).2] at hmet
          cases hmet
        · rw [getD_foldl_mark, hperm.mem_iff, List.mem_append, h.met_iff]
          exact or_congr_left (and_iff_left_of_imp fun hu => (hfresh u hu).1)
      obtain ⟨hend, hkeep⟩ := ih hnext (by
        rw [card_foldl_mark hnodup hfresh, List.length_append]
        rw [List.length_cons] at hfuel
        omega)
      exact ⟨hend, fun u hu => hkeep u (hperm.mem_iff.mpr (List.mem_append_right _ hu))⟩

/-- One more search, from a vertex that was not met. -/
theorem Listed.search {listed : List Nat} {met : Array Bool} (h : g.Listed listed met)
    (hv : v < g.size) (hnew : met.getD v false = false) :
    let found := g.breadthFirst g.size listed (met.setIfInBounds v true) [v]
    g.Listed found.1 found.2 ∧ ∀ u ∈ v :: listed, u ∈ found.1 := by
  have hlt : v < met.size := h.size ▸ hv
  have hstart : g.Listed ([v] ++ listed) (met.setIfInBounds v true) := by
    refine ⟨Array.size_setIfInBounds.trans h.size, List.nodup_cons.mpr ⟨fun hmem => ?_, h.nodup⟩,
      fun u => ?_⟩
    · rw [(h.met_iff v).mpr hmem] at hnew
      cases hnew
    · rw [getD_set, List.singleton_append, List.mem_cons, ← h.met_iff]
      by_cases huv : u = v <;> simp [huv, hlt]
  have hcard : (memberSet (met.setIfInBounds v true)).card = 1 + (memberSet met).card :=
    card_foldl_mark (List.nodup_singleton v) fun u hu => List.mem_singleton.mp hu ▸ ⟨hlt, hnew⟩
  refine hstart.breadthFirst g.size ?_
  rw [hcard, List.length_singleton]
  omega

/-- After searches from all vertices of a row, every vertex of the row was met and is listed, and
everything that was listed before still is. -/
theorem Listed.searchAll (l : List Nat) {s : List Nat × Array Bool} (h : g.Listed s.1 s.2) :
    let found := l.foldl (fun (s : List Nat × Array Bool) v =>
      if s.2.getD v true then s
      else g.breadthFirst g.size s.1 (s.2.setIfInBounds v true) [v]) s
    g.Listed found.1 found.2 ∧ (∀ v ∈ s.1, v ∈ found.1) ∧ ∀ v ∈ l, v < g.size → v ∈ found.1 := by
  induction l generalizing s with
  | nil => exact ⟨h, fun v hv => hv, nofun⟩
  | cons v l ih =>
    rw [List.foldl_cons]
    by_cases hmet : s.2.getD v true = true
    · rw [if_pos hmet]
      obtain ⟨hend, hkeep, hall⟩ := ih h
      refine ⟨hend, hkeep, fun u hu hlt => ?_⟩
      rcases List.mem_cons.mp hu with rfl | hu
      · refine hkeep u ((h.met_iff u).mp ?_)
        rwa [← getD_default (h.size ▸ hlt) true false]
      · exact hall u hu hlt
    · rw [if_neg hmet]
      obtain ⟨hlt, hnew⟩ := getD_true_eq_false.mp (Bool.eq_false_iff.mpr hmet)
      obtain ⟨hnext, hfound⟩ := h.search (h.size ▸ hlt) hnew
      obtain ⟨hend, hkeep, hall⟩ := ih hnext
      refine ⟨hend, fun u hu => hkeep u (hfound u (List.mem_cons_of_mem _ hu)), fun u hu hult => ?_⟩
      rcases List.mem_cons.mp hu with rfl | hu
      · exact hkeep u (hfound u List.mem_cons_self)
      · exact hall u hu hult

/-- The breadth-first order lists every vertex once, also those that no arc leads to. -/
theorem breadthFirstOrder_perm (g : LayerGraph α) : g.breadthFirstOrder.Perm g.vertices := by
  have hstart : g.Listed [] (Array.replicate g.size false) :=
    ⟨by simp, List.nodup_nil, fun v => by rw [getD_replicate]; simp⟩
  obtain ⟨hend, -, hall⟩ := Listed.searchAll
    ((g.vertices.filter fun v => (g.inArcs v).isEmpty) ++ g.vertices)
    (s := ([], Array.replicate g.size false)) hstart
  rw [breadthFirstOrder]
  refine (List.reverse_perm _).trans ((List.perm_ext_iff_of_nodup hend.nodup List.nodup_range).mpr
    fun v => ⟨fun hv => ?_, fun hv => ?_⟩)
  · exact List.mem_range.mpr (hend.size ▸ lt_of_member ((hend.met_iff v).mpr hv))
  · exact hall v (List.mem_append_right _ hv) (List.mem_range.mp hv)

/-! ## Sorting -/

theorem ranks_syncRank (g : LayerGraph α) (members : List Nat) :
    (g.syncRank members).ranks = g.ranks :=
  List.foldlRecOn (motive := fun h => LayerGraph.ranks h = g.ranks) members.zipIdx _ rfl
    fun _ hh _ _ => hh

/-- Writing the positions of the vertices changes no list. -/
theorem ranks_syncOrders (g : LayerGraph α) : g.syncOrders.ranks = g.ranks :=
  List.foldlRecOn (motive := fun h => LayerGraph.ranks h = g.ranks) g.ranks.toList _ rfl
    fun h hh members _ => (ranks_syncRank h members).trans hh

section Sorting

variable [Scalar α]

/-- Grouping the members of a rank by clusters only changes their order. -/
theorem groupClusters_perm (g : LayerGraph α) (members : List Nat) :
    (g.groupClusters members).Perm members := by
  unfold groupClusters
  split
  · exact .refl members
  · refine ((List.mergeSort_perm _ _).map _).trans (List.Perm.of_eq ?_)
    rw [List.map_map]
    exact List.zipIdx_map_fst 0 members

/-- The first arrangement lists every rank, there being no vertex with a rank above the largest
one. -/
theorem lists_initialOrder (g : LayerGraph α) : g.Lists g.initialOrder.ranks := by
  intro r
  rw [initialOrder, ranks_syncOrders]
  have hcut : (g.breadthFirstOrder.filter fun v => (g.rank v).toNat == r).Perm (g.rankMembers r) :=
    (breadthFirstOrder_perm g).filter _
  simp only [Array.getD_eq_getD_getElem?, List.getElem?_toArray, List.getElem?_map]
  by_cases hr : r < if g.size == 0 then 0 else g.maxRank.toNat + 1
  · rw [List.getElem?_range hr]
    exact (groupClusters_perm g _).trans hcut
  · rw [List.getElem?_eq_none (by simpa using hr)]
    refine List.Perm.of_eq (List.eq_nil_iff_forall_not_mem.mpr fun v hv => hr ?_).symm
    obtain ⟨hlt, rfl⟩ := mem_rankMembers.mp hv
    have hle := rank_le_maxRank hlt
    rw [if_neg (by simpa using (Nat.zero_lt_of_lt hlt).ne')]
    omega

/-- Sweeping over a rank sorts its list and writes the positions of what was sorted. -/
theorem exists_sweepRank_eq (downward : Bool) (g : LayerGraph α) (r : Nat) : ∃ members,
    members.Perm (g.ranks.getD r []) ∧ sweepRank downward g r =
      { g with ranks := g.ranks.setIfInBounds r (g.groupClusters members) }.syncRank
        (g.groupClusters members) := by
  refine ⟨_, ((List.mergeSort_perm _ _).map _).trans ?_, rfl⟩
  rw [List.map_map]
  exact List.Perm.of_eq (List.map_id _)

/-- Sorting one list of the ranks leaves lists of the ranks. -/
theorem lists_sweepRank (downward : Bool) {h : LayerGraph α} (hh : g.Lists h.ranks) (r : Nat) :
    g.Lists (sweepRank downward h r).ranks := by
  obtain ⟨members, hperm, hsweep⟩ := exists_sweepRank_eq downward h r
  intro i
  rw [hsweep, ranks_syncRank, getD_set]
  split
  · rename_i hir
    rw [hir.1]
    exact (groupClusters_perm h _).trans (hperm.trans (hh r))
  · exact hh i

end Sorting

/-! ## Positions -/

/-- Writing a position is seen at the vertex written, provided that it exists, and nowhere else. -/
theorem order_setOrder (g : LayerGraph α) (u o v : Nat) :
    (g.setOrder u o).order v = if v = u ∧ u < g.size then o else g.order v := by
  simp only [order, setOrder, updateNode, Array.getElem?_modify]
  by_cases hv : v = u
  · subst hv
    by_cases hlt : v < g.nodes.size <;> simp [hlt, size]
  · simp [hv, Ne.symm hv]

theorem size_setOrder (g : LayerGraph α) (u o : Nat) : (g.setOrder u o).size = g.size :=
  Array.size_modify

/-- A vertex keeps its position when positions of others are written. -/
theorem order_foldl_setOrder_of_not_mem {l : List (Nat × Nat)} (hv : v ∉ l.map Prod.fst)
    (g : LayerGraph α) : (l.foldl (fun g (u, pos) => g.setOrder u pos) g).order v = g.order v := by
  induction l generalizing g with
  | nil => rfl
  | cons p l ih =>
    obtain ⟨hp, hl⟩ := not_or.mp (mt List.mem_cons.mpr hv)
    exact (ih hl _).trans (by rw [order_setOrder, if_neg fun h => hp h.1])

/-- Where no vertex is named twice, every one of them has the position that was written for it. -/
theorem order_foldl_setOrder {l : List (Nat × Nat)} (hl : (l.map Prod.fst).Nodup) {i : Nat}
    (hi : (v, i) ∈ l) (g : LayerGraph α) (hv : v < g.size) :
    (l.foldl (fun g (u, pos) => g.setOrder u pos) g).order v = i := by
  induction l generalizing g with
  | nil => cases hi
  | cons p l ih =>
    obtain ⟨hp, hl'⟩ := List.nodup_cons.mp hl
    rcases List.mem_cons.mp hi with rfl | hi
    · exact (order_foldl_setOrder_of_not_mem hp _).trans (by rw [order_setOrder, if_pos ⟨rfl, hv⟩])
    · exact ih hl' hi _ ((size_setOrder g _ _).symm ▸ hv)

/-- The positions are written from the numbered lists of all ranks, one rank after the other. -/
theorem syncOrders_eq (g : LayerGraph α) : g.syncOrders =
    (g.ranks.toList.flatMap List.zipIdx).foldl (fun g (u, pos) => g.setOrder u pos) g := by
  rw [List.foldl_flatMap]
  rfl

/-- Lists of the ranks are an arrangement once the positions are written back. -/
theorem Lists.arranged_syncOrders (h : g.Lists g.ranks) : g.syncOrders.Arranged := by
  have hranks : g.syncOrders.Lists g.syncOrders.ranks := fun r => by
    rw [ranks_syncOrders, (keeps_syncOrders (fun _ _ => rfl) g).rankMembers_eq]
    exact h r
  have hkeys : (g.ranks.toList.flatMap List.zipIdx).map Prod.fst = g.ranks.toList.flatten := by
    rw [List.map_flatMap, List.flatten_eq_flatMap]
    exact List.flatMap_congr fun members _ => List.zipIdx_map_fst 0 members
  refine ⟨hranks, fun r i v hi => ?_⟩
  rw [ranks_syncOrders] at hi
  have hmem : v ∈ g.ranks.getD r [] := List.mem_of_getElem? hi
  have hr : r < g.ranks.size := lt_size_of_mem hmem
  rw [syncOrders_eq]
  refine order_foldl_setOrder (hkeys ▸ h.nodup_flatten) ?_ g (h.mem_iff.mp hmem).1
  refine List.mem_flatMap.mpr ⟨g.ranks.getD r [], by simp [Array.getD, hr], ?_⟩
  exact List.mem_zipIdx_iff_getElem?.mpr hi

end Flowchart.LayerGraph
