import Flowchart.Proofs.Ranking.Layers

/-!
# Every component begins at rank zero

The last step of the ranking shifts all vertices together, so it can bring only one component down
to rank zero. The others have to be there already, and under every strategy they are.

* On the longest path a vertex without predecessors has rank zero, and every other vertex lies right
  below one of its predecessors. So an arc without slack leads up from every vertex that is not at
  the top.
* A vertex is `Anchored` if arcs without slack lead from it down to a vertex that nothing leaves. The
  tight tree moves no such vertex: the vertex at the end stays because it has no successors, and the
  others are held by the next one. Every component has an anchored vertex of rank zero, the first one
  of a chain without slack that ends in a sink.
* The network simplex shifts every component by itself.
-/

namespace Flowchart.LayerGraph

variable {α : Type} {g g' : LayerGraph α} {members : List Nat} {u v w : Nat}

/-- Every active arc asks for at least one rank. -/
def Steep (g : LayerGraph α) : Prop :=
  ∀ (a : Nat) arc, g.arcs[a]? = some arc → arc.active = true → 1 ≤ arc.minLength

/-- No active arc allows a step backwards. -/
def Forward (g : LayerGraph α) : Prop :=
  ∀ (a : Nat) arc, g.arcs[a]? = some arc → arc.active = true → 0 ≤ arc.minLength

/-- An arc that leads at least one rank up does not lead down. -/
theorem Steep.forward (h : g.Steep) : g.Forward := fun a arc ha hact =>
  Int.le_of_lt (h a arc ha hact)

/-- No rank is negative, and every vertex is connected with one of rank zero. -/
structure StartsAtZero (g : LayerGraph α) : Prop where
  nonneg : ∀ v < g.size, 0 ≤ g.rank v
  met : ∀ v < g.size, ∃ u, g.Together v u ∧ g.rank u = 0

/-! ## Going along the arcs -/

/-- What hangs together with a vertex is a vertex. -/
theorem Consistent.lt_of_together (hc : g.Consistent) (hu : u < g.size) (h : g.Together u v) :
    v < g.size := by
  cases h with
  | refl => exact hu
  | tail _ hb => exact (hc.lt_of_beside hb).2

/-- What hangs together with a member of a component is a member of it. -/
theorem Component.mem_of_together (hm : g.Component members) (hu : u ∈ members)
    (h : g.Together u v) : v ∈ members := by
  induction h with
  | refl => exact hu
  | tail _ hb ih =>
    rcases hb with hb | hb
    · exact (hm.closed _ _ hb).mp ih
    · exact (hm.closed _ _ hb).mpr ih

/-- In an acyclic graph what follows from all predecessors holds everywhere. -/
theorem Consistent.induct_up (hc : g.Consistent) (hg : g.Acyclic) {P : Nat → Prop}
    (step : ∀ v < g.size, (∀ a ∈ g.inArcs v, P (g.source a)) → P v) : ∀ v < g.size, P v := by
  intro v hv
  induction hn : (Walk.all g.size g.arcsUp).time v using Nat.strong_induction_on generalizing v with
  | _ n ih =>
    subst hn
    refine step v hv fun a ha => ih _ (hc.time_source_lt hg hv ha) _ ?_ rfl
    exact (hc.lt_of_leads (hc.leads_of_mem_inArcs ha)).1

/-- In an acyclic graph what follows from all successors holds everywhere. -/
theorem Consistent.induct_down (hc : g.Consistent) (hg : g.Acyclic) {P : Nat → Prop}
    (step : ∀ v < g.size, (∀ a ∈ g.outArcs v, P (g.target a)) → P v) : ∀ v < g.size, P v := by
  intro v hv
  induction hn : (Walk.all g.size g.arcsDown).time v using Nat.strong_induction_on
    generalizing v with
  | _ n ih =>
    subst hn
    refine step v hv fun a ha => ?_
    obtain ⟨arc, harc, hact, rfl⟩ := (hc.mem_outArcs v a).mp ha
    have htime := hc.time_lt_of_not_mem harc hact (by simp [hc.backArcs_of_acyclic hg])
    rw [target_eq harc]
    exact ih _ htime _ (hc.ends_lt a arc harc).2 rfl

/-- From every vertex of an acyclic graph arcs lead down to one that nothing leaves, in the same
component. -/
theorem Consistent.exists_sink (hc : g.Consistent) (hg : g.Acyclic) :
    ∀ v < g.size, ∃ u, g.Together v u ∧ g.outArcs u = [] := by
  refine hc.induct_down hg fun v _ ih => ?_
  cases hout : g.outArcs v with
  | nil => exact ⟨v, .refl, hout⟩
  | cons a rest =>
    have ha : a ∈ g.outArcs v := hout ▸ List.mem_cons_self
    obtain ⟨u, hu, hsink⟩ := ih a ha
    exact ⟨u, .head (.inl (hc.leads_of_mem_outArcs ha)) hu, hsink⟩

/-! ## The longest path -/

/-- Every vertex has the least rank that its predecessors allow. -/
def Earliest (g : LayerGraph α) : Prop :=
  ∀ v < g.size, g.rank v =
    ((g.inArcs v).map fun a => g.rank (g.source a) + g.minLength a).max?.getD 0

/-- On the longest path every vertex has the least rank that its predecessors allow. -/
theorem longestPath_earliest (hc : g.Consistent) (hg : g.Acyclic) : g.longestPath.Earliest := by
  have hkeeps := keeps_longestPath (f := Vertex.id) (fun _ _ => rfl) g
  intro v hv
  exact rank_longestPath hc hg (hkeeps.size_eq ▸ hv)

/-- In a ranking with the earliest ranks a vertex without predecessors has rank zero. -/
theorem Earliest.rank_eq_zero (he : g.Earliest) (hv : v < g.size) (h : g.inArcs v = []) :
    g.rank v = 0 := by
  rw [he v hv, h]
  rfl

/-- A vertex with predecessors lies as close below one of them as it may. -/
theorem Earliest.exists_tight (he : g.Earliest) (hv : v < g.size) (h : g.inArcs v ≠ []) :
    ∃ a ∈ g.inArcs v, g.rank (g.source a) + g.minLength a = g.rank v := by
  have hne : (g.inArcs v).map (fun a => g.rank (g.source a) + g.minLength a) ≠ [] := by simpa using h
  obtain ⟨most, hmost⟩ := Option.isSome_iff_exists.mp (List.isSome_max?_of_ne_nil hne)
  obtain ⟨a, ha, heq⟩ := List.mem_map.mp (List.max?_eq_some_iff.mp hmost).1
  refine ⟨a, ha, ?_⟩
  rw [he v hv, hmost, heq]
  rfl

/-- No rank is negative, where no arc leads downwards. -/
theorem Earliest.nonneg (he : g.Earliest) (hc : g.Consistent) (hg : g.Acyclic) (hs : g.Forward) :
    ∀ v < g.size, 0 ≤ g.rank v := by
  refine hc.induct_up hg fun v hv ih => ?_
  by_cases hin : g.inArcs v = []
  · exact (he.rank_eq_zero hv hin).ge
  · obtain ⟨a, ha, heq⟩ := he.exists_tight hv hin
    obtain ⟨arc, harc, hact, -⟩ := (hc.mem_inArcs v a).mp ha
    have hlength := hs a arc harc hact
    have := ih a ha
    rw [minLength_eq harc] at heq
    omega

/-! ## Anchored vertices -/

/-- Arcs without slack lead from the vertex to one that no arc leaves. -/
inductive Anchored (g : LayerGraph α) : Nat → Prop where
  /-- no arc leaves the vertex -/
  | sink {v : Nat} (h : g.outArcs v = []) : g.Anchored v
  /-- an arc without slack leads to an anchored vertex -/
  | above {v a : Nat} (ha : a ∈ g.outArcs v)
      (tight : g.rank v + g.minLength a = g.rank (g.target a)) (next : g.Anchored (g.target a)) :
      g.Anchored v

/-- On the longest path arcs without slack lead up from an anchored vertex to one of rank zero. -/
theorem Earliest.exists_anchored (he : g.Earliest) (hc : g.Consistent) (hg : g.Acyclic) :
    ∀ v < g.size, g.Anchored v → ∃ u, g.Together v u ∧ g.Anchored u ∧ g.rank u = 0 := by
  refine hc.induct_up hg fun v hv ih hanchored => ?_
  by_cases hin : g.inArcs v = []
  · exact ⟨v, .refl, hanchored, he.rank_eq_zero hv hin⟩
  · obtain ⟨a, ha, heq⟩ := he.exists_tight hv hin
    obtain ⟨arc, harc, hact, rfl⟩ := (hc.mem_inArcs v a).mp ha
    have hout : a ∈ g.outArcs (g.source a) :=
      (hc.mem_outArcs _ a).mpr ⟨arc, harc, hact, (source_eq harc).symm⟩
    obtain ⟨u, hu, hrest⟩ := ih a ha
      (.above hout (by rw [heq, target_eq harc]) (by rwa [target_eq harc]))
    exact ⟨u, .head (.inr (hc.leads_of_mem_inArcs ha)) hu, hrest⟩

/-- The ranks of the second graph are no smaller, and anchored vertices have not moved. -/
structure Lifts (g g' : LayerGraph α) : Prop where
  rank_le : ∀ v, g.rank v ≤ g'.rank v
  anchored : ∀ v, g.Anchored v → g'.Anchored v ∧ g'.rank v = g.rank v

theorem Lifts.refl (g : LayerGraph α) : Lifts g g := ⟨fun _ => le_refl _, fun _ h => ⟨h, rfl⟩⟩

/-- What is lifted twice is lifted, since ranks only grow and the vertices that stay are the
same. -/
theorem Lifts.trans {g'' : LayerGraph α} (h : Lifts g g') (h' : Lifts g' g'') : Lifts g g'' := by
  refine ⟨fun v => (h.rank_le v).trans (h'.rank_le v), fun v hv => ?_⟩
  obtain ⟨hv', hrank⟩ := h.anchored v hv
  obtain ⟨hv'', hrank'⟩ := h'.anchored v hv'
  exact ⟨hv'', hrank'.trans hrank⟩

/-- A vertex drops to no smaller rank: its successors leave room for the rank it has. -/
theorem Respects.rank_le_droppedRank (h : g.Respects) (hc : g.Consistent) (v : Nat) :
    g.rank v ≤ g.droppedRank v := by
  unfold droppedRank
  cases hupper : ((g.outArcs v).map fun a => g.rank (g.target a) - g.minLength a).min? with
  | none => exact le_refl _
  | some upper =>
    obtain ⟨a, ha, rfl⟩ := List.mem_map.mp (List.min?_eq_some_iff.mp hupper).1
    have hle := h.le_of_mem_outArcs hc ha
    cases ((g.inArcs v).map fun a => g.rank (g.source a) + g.minLength a).max? with
    | none => exact hle
    | some lower => exact hle.trans (le_max_left _ _)

/-- An anchored vertex does not drop: it has no successors, or the next one holds it. -/
theorem Anchored.droppedRank_eq (h : g.Anchored v) (hr : g.Respects) (hc : g.Consistent) :
    g.droppedRank v = g.rank v := by
  cases h with
  | sink hsink => simp [droppedRank, hsink]
  | above ha tight _ =>
    have hupper := (hr.droppedRank_between hc v).1 _ ha
    have hlower := hr.rank_le_droppedRank hc v
    omega

/-- One vertex that drops is lifted in rank, and the anchored ones stay where they are. -/
theorem Respects.lifts_drop (hr : g.Respects) (hc : g.Consistent) (v : Nat) :
    Lifts g (g.setRank v (g.droppedRank v)) := by
  have hrank : ∀ u, g.Anchored u → (g.setRank v (g.droppedRank v)).rank u = g.rank u := by
    intro u hu
    rw [rank_setRank]
    split
    · rename_i huv
      rw [← huv.1, hu.droppedRank_eq hr hc]
    · rfl
  refine ⟨fun u => ?_, fun u hu => ⟨?_, hrank u hu⟩⟩
  · rw [rank_setRank]
    split
    · rename_i huv
      exact huv.1 ▸ hr.rank_le_droppedRank hc u
    · exact le_refl _
  · induction hu with
    | sink hsink => exact .sink hsink
    | above ha tight next ih =>
      refine .above (g := g.setRank v (g.droppedRank v)) ha ?_ ih
      exact (congrArg (· + _) (hrank _ (.above ha tight next))).trans
        (tight.trans (hrank _ next).symm)

/-- A row of vertices that drop one after the other lifts the graph, since each of them finds a
layering. -/
theorem Respects.lifts_dropAll (hr : g.Respects) (hc : g.Consistent) (hl : g.Loopless)
    (order : List Nat) : Lifts g (g.dropAll order) := by
  induction order generalizing g with
  | nil => exact .refl g
  | cons v order ih =>
    have hkeeps := keeps_setRank (f := Vertex.id) (fun _ _ => rfl) g v (g.droppedRank v)
    exact (hr.lifts_drop hc v).trans
      (ih (hr.drop hc hl v) (hkeeps.consistent hc) (hkeeps.loopless hl))

/-- The same however often the row is gone through. -/
theorem Respects.lifts_dropUntilStable (hr : g.Respects) (hc : g.Consistent) (hl : g.Loopless)
    (order : List Nat) (limit : Nat) : Lifts g (LayerGraph.dropUntilStable order limit g) := by
  induction limit generalizing g with
  | zero => exact .refl g
  | succ limit ih =>
    have hkeeps := keeps_dropAll (f := Vertex.id) (fun _ _ => rfl) g order
    have hlifts := hr.lifts_dropAll hc hl order
    rw [LayerGraph.dropUntilStable]
    split
    · exact hlifts
    · exact hlifts.trans
        (ih (hr.dropAll hc hl order) (hkeeps.consistent hc) (hkeeps.loopless hl))

/-! ## The strategies -/

/-- What hangs together is a matter of the arcs. -/
theorem Keeps.together_eq {β : Type} {f : Vertex α → β} (h : Keeps f g g') :
    g'.Together = g.Together := by
  unfold Together Beside
  rw [h.leads_eq]

/-- On the longest path every component has a vertex without predecessors, and no rank is
negative. -/
theorem Earliest.startsAtZero (he : g.Earliest) (hc : g.Consistent) (hg : g.Acyclic)
    (hs : g.Forward) : g.StartsAtZero := by
  refine ⟨he.nonneg hc hg hs, hc.induct_up hg fun v hv ih => ?_⟩
  cases hin : g.inArcs v with
  | nil => exact ⟨v, .refl, he.rank_eq_zero hv hin⟩
  | cons a rest =>
    have ha : a ∈ g.inArcs v := hin ▸ List.mem_cons_self
    obtain ⟨u, hu, hzero⟩ := ih a ha
    exact ⟨u, .head (.inr (hc.leads_of_mem_inArcs ha)) hu, hzero⟩

/-- The tight tree leaves anchored vertices where they are, and every component has one of them at
rank zero. -/
theorem Earliest.startsAtZero_tightTree (he : g.Earliest) (hc : g.Consistent) (hg : g.Acyclic)
    (hs : g.Forward) (hr : g.Respects) : g.tightTree.StartsAtZero := by
  have hkeeps := keeps_tightTree (f := Vertex.id) (fun _ _ => rfl) g
  have hlifts : Lifts g g.tightTree := hr.lifts_dropUntilStable hc hg.loopless _ _
  refine ⟨fun v hv => ?_, fun v hv => ?_⟩
  · exact (he.nonneg hc hg hs v (hkeeps.size_eq ▸ hv)).trans (hlifts.rank_le v)
  · rw [hkeeps.size_eq] at hv
    obtain ⟨s, hvs, hsink⟩ := hc.exists_sink hg v hv
    obtain ⟨u, hsu, hanchored, hzero⟩ :=
      he.exists_anchored hc hg s (hc.lt_of_together hv hvs) (.sink hsink)
    rw [hkeeps.together_eq]
    exact ⟨u, hvs.trans hsu, (hlifts.anchored u hanchored).2.trans hzero⟩

/-- The shift of a component is the smallest rank of its run. -/
theorem componentLeast_spec [Scalar α] {limit : Nat}
    (hsize : (g.componentEnd limit members).size = members.length) (hpos : 0 < members.length) :
    (∀ i < members.length,
      g.componentLeast limit members ≤ (g.componentEnd limit members).rankOf i) ∧
    ∃ i < members.length,
      (g.componentEnd limit members).rankOf i = g.componentLeast limit members := by
  have hlen : (g.componentEnd limit members).rank.toList.length = members.length := hsize
  have hrank : ∀ (i : Nat) r, (g.componentEnd limit members).rank.toList[i]? = some r →
      (g.componentEnd limit members).rankOf i = r := by
    intro i r hi
    rw [Array.getElem?_toList] at hi
    rw [Simplex.rankOf, Array.getD_eq_getD_getElem?, hi, Option.getD_some]
  obtain ⟨least, hleast⟩ := Option.isSome_iff_exists.mp
    (List.isSome_min?_of_ne_nil (List.ne_nil_of_length_pos (hlen ▸ hpos)))
  obtain ⟨hmem, hle⟩ := List.min?_eq_some_iff.mp hleast
  rw [componentLeast, hleast, Option.getD_some]
  refine ⟨fun i hi => ?_, ?_⟩
  · rw [← hlen] at hi
    rw [hrank i _ (List.getElem?_eq_getElem hi)]
    exact hle _ (List.getElem_mem hi)
  · obtain ⟨i, hi⟩ := List.getElem?_of_mem hmem
    exact ⟨i, hlen ▸ (List.getElem?_eq_some_iff.mp hi).1, hrank i _ hi⟩

/-- The simplex leaves zero as the smallest rank of every component. -/
theorem StartsAtZero.networkSimplex [Scalar α] (h : g.StartsAtZero) (hc : g.Consistent)
    (hg : g.Acyclic) (hr : g.Respects) (limit : Nat) : (g.networkSimplex limit).StartsAtZero := by
  have hkeeps := keeps_networkSimplex (f := Vertex.id) (fun _ _ => rfl) g limit
  obtain ⟨hcomp, -, hcover⟩ := components_spec hc
  have hvertex : ∀ v < g.size, 0 ≤ (g.networkSimplex limit).rank v ∧
      ∃ u, g.Together v u ∧ (g.networkSimplex limit).rank u = 0 := by
    intro v hv
    obtain ⟨members, hm, hvm⟩ := hcover v hv
    have hpos := List.length_pos_of_mem hvm
    by_cases h2 : 2 ≤ members.length
    · obtain ⟨hle, i, hi, hleast⟩ :=
        componentLeast_spec ((hcomp members hm).size_componentEnd hg hr hpos limit) hpos
      have hrank := fun (j u : Nat) (hj : members[j]? = some u) =>
        rank_networkSimplex hc hg hr limit hm h2 hj
      obtain ⟨j, hj⟩ := List.getElem?_of_mem hvm
      refine ⟨?_, members[i],
        (hcomp members hm).together v hvm _ (List.getElem_mem hi), ?_⟩
      · rw [hrank j v hj]
        exact Int.sub_nonneg_of_le (hle j (List.getElem?_eq_some_iff.mp hj).1)
      · rw [hrank i _ (List.getElem?_eq_getElem hi), hleast, Int.sub_self]
    · -- a vertex by itself keeps its rank
      obtain ⟨g', -, hrank, hend⟩ := networkSimplex_component hc limit members hm
      have hsame : ∀ u ∈ members, (g.networkSimplex limit).rank u = g.rank u := by
        intro u hu
        rw [hend u hu, simplexComponent, if_pos (Nat.lt_of_not_le h2), hrank u hu]
      obtain ⟨u, hu, hzero⟩ := h.met v hv
      exact ⟨(h.nonneg v hv).trans (hsame v hvm).ge, u, hu,
        (hsame u ((hcomp members hm).mem_of_together hvm hu)).trans hzero⟩
  refine ⟨fun v hv => (hvertex v (hkeeps.size_eq ▸ hv)).1, fun v hv => ?_⟩
  rw [hkeeps.together_eq]
  exact (hvertex v (hkeeps.size_eq ▸ hv)).2

/-- Ranks that start at zero are not shifted. -/
theorem StartsAtZero.rank_normalizeRanks (h : g.StartsAtZero) (hc : g.Consistent)
    (hv : v < g.size) : g.normalizeRanks.rank v = g.rank v := by
  obtain ⟨u, hu, hzero⟩ := h.met v hv
  obtain ⟨x, hx, hleast⟩ := exists_rank_eq_minRank (Nat.zero_lt_of_lt hv)
  have hle := minRank_le (hc.lt_of_together hv hu)
  have hge := h.nonneg x hx
  rw [LayerGraph.rank_normalizeRanks hv]
  omega

/-- The last shift leaves zero the smallest rank of every component. -/
theorem StartsAtZero.normalizeRanks (h : g.StartsAtZero) (hc : g.Consistent) :
    g.normalizeRanks.StartsAtZero := by
  have hkeeps := keeps_normalizeRanks (f := Vertex.id) (fun _ _ => rfl) g
  refine ⟨fun v hv => ?_, fun v hv => ?_⟩
  · rw [hkeeps.size_eq] at hv
    rw [h.rank_normalizeRanks hc hv]
    exact h.nonneg v hv
  · rw [hkeeps.size_eq] at hv
    obtain ⟨u, hu, hzero⟩ := h.met v hv
    rw [hkeeps.together_eq]
    exact ⟨u, hu, (h.rank_normalizeRanks hc (hc.lt_of_together hv hu)).trans hzero⟩

/-- **Every component begins at rank zero**, whatever the strategy. -/
theorem assignRanks_startsAtZero [Scalar α] (hc : g.Consistent) (hg : g.Acyclic) (hs : g.Steep)
    (strategy : RankStrategy) (limit : Nat) : (g.assignRanks strategy limit).StartsAtZero := by
  have hkeeps := keeps_longestPath (f := Vertex.id) (fun _ _ => rfl) g
  have hc' := hkeeps.consistent hc
  have hg' := hkeeps.acyclic hg
  have hr := longestPath_respects hc hg
  have he := longestPath_earliest hc hg
  have hs' : g.longestPath.Forward := hs.forward
  have hzero := he.startsAtZero hc' hg' hs'
  cases strategy with
  | longestPath => exact hzero.normalizeRanks hc'
  | tightTree =>
    exact (he.startsAtZero_tightTree hc' hg' hs' hr).normalizeRanks
      ((keeps_tightTree (f := Vertex.id) (fun _ _ => rfl) _).consistent hc')
  | networkSimplex =>
    exact (hzero.networkSimplex hc' hg' hr limit).normalizeRanks
      ((keeps_networkSimplex (f := Vertex.id) (fun _ _ => rfl) _ limit).consistent hc')

end Flowchart.LayerGraph
