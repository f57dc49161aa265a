import Flowchart.Proofs.Ranking.TotalLength
import Flowchart.Proofs.Scalar.Single

/-!
# The network simplex is optimal

The total length of a graph is the sum over its components, and the network simplex makes it least
in every one of them, unless it is cut off. The last step, the shift to zero, changes no length.

The weights are single precision numbers. What the simplex adds up are weights and cut values of one
component, so it is enough that the weights are whole numbers and that their sum over a component is
one that single precision holds exactly.
-/

namespace Flowchart.LayerGraph

variable {α : Type} {g g' : LayerGraph α} {members : List Nat} {weight : Arc α → Nat}

/-- Components are a matter of the arcs, so they are the same in graphs that differ in their
vertices only. -/
theorem Keeps.components_eq {β : Type} {f : Vertex α → β} (h : Keeps f g g') :
    g'.components = g.components := by
  have hvertices : g'.vertices = g.vertices := by rw [vertices, h.size_eq, vertices]
  have hsource : g'.source = g.source := by
    funext a
    rw [source, h.arcs, source]
  have htarget : g'.target = g.target := by
    funext a
    rw [target, h.arcs, target]
  have hspread : g'.spread = g.spread := by
    funext fuel
    induction fuel with
    | zero => rfl
    | succ fuel ih =>
      funext met stack
      cases stack with
      | nil => rfl
      | cons v stack =>
        rw [spread, spread, ih, successors, predecessors, h.outArcs_eq, h.inArcs_eq,
          hsource, htarget,
          successors, predecessors]
  have hcomponent : g'.componentOf = g.componentOf := by
    funext v
    rw [componentOf, hspread, hvertices, h.size_eq, componentOf]
  rw [components, hcomponent, hvertices, h.size_eq, components]

theorem Keeps.activeArcs_eq {β : Type} {f : Vertex α → β} (h : Keeps f g g') :
    g'.activeArcs = g.activeArcs := by
  rw [activeArcs, h.arcs, activeArcs]

theorem Keeps.arcsAmong_eq {β : Type} {f : Vertex α → β} (h : Keeps f g g') :
    g'.arcsAmong = g.arcsAmong := by
  funext members
  rw [arcsAmong, h.activeArcs_eq, arcsAmong]

/-- A total length does not change when all ranks are shifted. -/
theorem totalLength_congr {arcs : List (Arc α)} {r r' : Nat → Int} (d : Int)
    (h : ∀ arc ∈ arcs, r' arc.source = r arc.source - d ∧ r' arc.target = r arc.target - d) :
    totalLength weight arcs r' = totalLength weight arcs r := by
  unfold totalLength
  congr 1
  refine List.map_congr_left fun arc harc => ?_
  obtain ⟨hs, ht⟩ := h arc harc
  rw [hs, ht, sub_sub_sub_cancel_right]

/-! ## One component -/

/-- The ranks that a state of the simplex gives to the members of its component. -/
def memberRank [Scalar α] (members : List Nat) (s : Simplex α) (v : Nat) : Int :=
  s.rankOf (members.idxOf v)

section Component

variable [Scalar α] {R : WholeReading α} {s s' : Simplex α} (hm : g.Component members)
include hm

theorem Component.memberRank_eq (s : Simplex α) {i v : Nat} (hi : members[i]? = some v) :
    memberRank members s v = s.rankOf i := by
  obtain ⟨hlt, rfl⟩ := List.getElem?_eq_some_iff.mp hi
  rw [memberRank, hm.nodup.idxOf_getElem]

/-- A feasible state gives every arc its least length. -/
theorem Component.memberRank_respects (hsame : Simplex.SameLinks (g.componentStart members) s)
    (hs : s.Feasible) : ∀ arc ∈ g.arcsAmong members,
      memberRank members s arc.source + arc.minLength ≤ memberRank members s arc.target := by
  intro arc harc
  obtain ⟨a, ha, hact⟩ := mem_activeArcs.mp (mem_arcsAmong.mp harc).1
  obtain ⟨t, h, ht, hh⟩ := hm.exists_ends harc
  rw [hm.memberRank_eq s ht, hm.memberRank_eq s hh]
  exact hm.minLength_le_of_feasible hsame hs ha hact ht hh

/-- A state has the total length of the ranks it gives. -/
theorem Component.cost_eq (hsame : Simplex.SameLinks (g.componentStart members) s) :
    s.cost (linkWeights weight g members) s.rankOf =
      totalLength weight (g.arcsAmong members) (memberRank members s) := by
  rw [hsame.cost_eq]
  exact hm.cost_start fun i v hi => (hm.memberRank_eq s hi).symm

variable (hg : g.Acyclic) (hr : g.Respects) (hpos : 0 < members.length)
  (hweight : ∀ arc ∈ g.activeArcs, R.Reads arc.weight (weight arc))
  (hle : ((g.arcsAmong members).map fun arc => (weight arc : Int)).sum ≤ R.bound)
include hg hr hpos hweight hle

/-- **Every exchange** leaves the arcs their least lengths and does not increase the total
length. -/
theorem Component.pivot_totalLength
    (hreach : Simplex.Reaches (g.componentStart members).prepared s) (hs : s.pivot? = some s') :
    (∀ arc ∈ g.arcsAmong members,
      memberRank members s' arc.source + arc.minLength ≤ memberRank members s' arc.target) ∧
    totalLength weight (g.arcsAmong members) (memberRank members s') ≤
      totalLength weight (g.arcsAmong members) (memberRank members s) := by
  have hstart := hm.startable hg hr hpos
  have hprice := (hstart.prepared_priceable (hm.start_weighs hweight hle)).reaches hreach
  have hsame := hstart.prepared_sound.2.trans (hstart.prepared_sound.1.reaches hreach).2
  have hsame' := hsame.trans (hprice.sound.pivot hs).2
  obtain ⟨hprice', hcost⟩ := hprice.pivot hs
  rw [hm.cost_eq hsame, hm.cost_eq hsame'] at hcost
  exact ⟨hm.memberRank_respects hsame' hprice'.sound.feasible, hcost⟩

/-- **A component is ranked optimally** unless its run is cut off. -/
theorem Component.end_totalLength {limit : Nat}
    (hlimit : ((g.componentStart members).solve limit).2 < limit) {r : Nat → Int}
    (hrespects : ∀ arc ∈ g.arcsAmong members, r arc.source + arc.minLength ≤ r arc.target) :
    totalLength weight (g.arcsAmong members) (memberRank members (g.componentEnd limit members)) ≤
      totalLength weight (g.arcsAmong members) r := by
  have hstart := hm.startable hg hr hpos
  have hsame := (hstart.solve_sound limit).2
  have hρ : ∀ (i v : Nat), members[i]? = some v → r (members.getD i 0) = r v := by
    intro i v hi
    rw [List.getD_eq_getElem?_getD, hi]
    rfl
  have hoptimal := hstart.solve_optimal (hm.start_weighs hweight hle) hlimit
    (r := fun i => r (members.getD i 0)) fun l hl => ?_
  · rw [hm.cost_start hρ, ← hsame.cost_eq, hm.cost_eq hsame] at hoptimal
    exact hoptimal
  · obtain ⟨a, arc, ha, hact, ht, hh, hlen⟩ := hm.exists_arc hl
    have harc : arc ∈ g.arcsAmong members :=
      mem_arcsAmong.mpr ⟨mem_activeArcs.mpr ⟨a, ha, hact⟩, List.mem_of_getElem? ht⟩
    have := hrespects arc harc
    rw [hρ _ _ ht, hρ _ _ hh, hlen]
    omega

end Component

/-! ## The whole graph -/

/-- In the end every component has the ranks of its run, up to a shift. -/
theorem assignRanks_settled [Scalar α] (hc : g.Consistent) (hg : g.Acyclic) (limit : Nat) :
    ∀ members ∈ g.components, 2 ≤ members.length → ∃ d, ∀ v ∈ members,
      (g.assignRanks .networkSimplex limit).rank v =
        memberRank members (g.longestPath.componentEnd limit members) v - d := by
  intro members hm h2
  have hkeeps := keeps_longestPath (f := Vertex.id) (fun _ _ => rfl) g
  have hcomp := hkeeps.component ((components_spec hc).1 members hm)
  obtain ⟨least, hleast⟩ := networkSimplex_settled (hkeeps.consistent hc) (hkeeps.acyclic hg)
    (longestPath_respects hc hg) limit members (hkeeps.components_eq ▸ hm) h2
  refine ⟨least + (g.longestPath.networkSimplex limit).minRank, fun v hv => ?_⟩
  have hsize := (keeps_networkSimplex (f := Vertex.id) (fun _ _ => rfl) g.longestPath limit).size_eq
  obtain ⟨i, hi⟩ := List.getElem?_of_mem hv
  have hnormal := rank_normalizeRanks (hsize ▸ hcomp.lt v hv)
  rw [assignRanks, hnormal, hleast i v hi, hcomp.memberRank_eq _ hi, sub_sub]

/-- There is no arc in a component with one member. -/
theorem Component.arcsAmong_of_lt (hm : g.Component members) (hl : g.Loopless)
    (h2 : members.length < 2) : g.arcsAmong members = [] := by
  refine List.eq_nil_iff_forall_not_mem.mpr fun arc harc => ?_
  obtain ⟨t, h, ht, hh⟩ := hm.exists_ends harc
  obtain ⟨a, ha, hact⟩ := mem_activeArcs.mp (mem_arcsAmong.mp harc).1
  have htlt := (List.getElem?_eq_some_iff.mp ht).1
  have hhlt := (List.getElem?_eq_some_iff.mp hh).1
  obtain rfl : t = h := by omega
  exact hl a arc ha hact (Option.some.inj (ht.symm.trans hh))

section Exact

variable {g : LayerGraph Float32} {weight : Arc Float32 → Nat}
  (hexact : ∀ members ∈ g.components, ((g.arcsAmong members).map weight).sum ≤ 2 ^ 24)
include hexact

/-- Single weights are within the bound, since the sum in their component is. -/
theorem reads_of_exact (hc : g.Consistent)
    (hweight : ∀ arc ∈ g.activeArcs, arc.weight = Float32.ofNat (weight arc)) :
    ∀ arc ∈ g.activeArcs, Single.wholeReading.Reads arc.weight (weight arc) := by
  intro arc harc
  obtain ⟨a, ha, -⟩ := mem_activeArcs.mp harc
  obtain ⟨members, hm, hs⟩ := (components_spec hc).2.2 _ (hc.ends_lt a arc ha).1
  have hone : weight arc ≤ ((g.arcsAmong members).map weight).sum :=
    List.single_le_sum (fun _ _ => Nat.zero_le _) _
      (List.mem_map_of_mem (mem_arcsAmong.mpr ⟨harc, hs⟩))
  rw [hweight arc harc]
  exact Single.IsWhole.ofNat (hone.trans (hexact members hm))

theorem sum_weight_le_bound (hm : members ∈ g.components) :
    ((g.arcsAmong members).map fun arc => (weight arc : Int)).sum ≤ Single.wholeReading.bound := by
  have hcast : ((g.arcsAmong members).map fun arc => (weight arc : Int)).sum =
      (((g.arcsAmong members).map weight).sum : Nat) := by
    rw [Nat.cast_list_sum, List.map_map]
    rfl
  have hsum := hexact members hm
  rw [hcast]
  change (((g.arcsAmong members).map weight).sum : Int) ≤ 2 ^ 24
  omega

end Exact

/-- **Optimality of the network simplex.** Let the arcs of an acyclic graph have whole numbers as
weights that add up exactly in every component. Every exchange of the simplex leaves all arcs of
the component their least lengths and does not increase their total length. And if in every
component the simplex stops before it has used up its exchanges, the ranking it computes gives all
arcs their least lengths, and no other one that does has a smaller total length. -/
theorem networkSimplex_optimal {g : LayerGraph Float32} (hc : g.Consistent) (hg : g.Acyclic)
    (weight : Arc Float32 → Nat)
    (hweight : ∀ arc ∈ g.activeArcs, arc.weight = Float32.ofNat (weight arc))
    (hexact : ∀ members ∈ g.components, ((g.arcsAmong members).map weight).sum ≤ 2 ^ 24) :
    (∀ members ∈ g.components, 2 ≤ members.length → ∀ s s' : Simplex Float32,
      Simplex.Reaches (g.longestPath.componentStart members).prepared s → s.pivot? = some s' →
        (∀ arc ∈ g.arcsAmong members,
          memberRank members s' arc.source + arc.minLength ≤ memberRank members s' arc.target) ∧
        totalLength weight (g.arcsAmong members) (memberRank members s') ≤
          totalLength weight (g.arcsAmong members) (memberRank members s)) ∧
    ∀ limit, (∀ members ∈ g.components, 2 ≤ members.length →
        ((g.longestPath.componentStart members).solve limit).2 < limit) →
      (∀ arc ∈ g.activeArcs, (g.assignRanks .networkSimplex limit).rank arc.source + arc.minLength ≤
        (g.assignRanks .networkSimplex limit).rank arc.target) ∧
      ∀ r : Nat → Int, (∀ arc ∈ g.activeArcs, r arc.source + arc.minLength ≤ r arc.target) →
        totalLength weight g.activeArcs (g.assignRanks .networkSimplex limit).rank ≤
          totalLength weight g.activeArcs r := by
  have hkeeps := keeps_longestPath (f := Vertex.id) (fun _ _ => rfl) g
  have hr := longestPath_respects hc hg
  have hg' := hkeeps.acyclic hg
  have hcomp := (components_spec hc).1
  have hcomp' : ∀ members ∈ g.components, g.longestPath.Component members := fun members hm =>
    hkeeps.component (hcomp members hm)
  have hreads : ∀ arc ∈ g.longestPath.activeArcs,
      Single.wholeReading.Reads arc.weight (weight arc) := by
    rw [hkeeps.activeArcs_eq]
    exact reads_of_exact hexact hc hweight
  have hle : ∀ members ∈ g.components,
      ((g.longestPath.arcsAmong members).map fun arc => (weight arc : Int)).sum ≤
        Single.wholeReading.bound := by
    intro members hm
    rw [hkeeps.arcsAmong_eq]
    exact sum_weight_le_bound hexact hm
  refine ⟨fun members hm h2 s s' hreach hs => ?_, fun limit hlimit => ⟨fun arc harc => ?_,
    fun r hrespects => ?_⟩⟩
  · rw [← hkeeps.arcsAmong_eq]
    exact (hcomp' members hm).pivot_totalLength hg' hr (by omega) hreads (hle members hm) hreach hs
  · obtain ⟨a, ha, hact⟩ := mem_activeArcs.mp harc
    have hkept := keeps_assignRanks (f := Vertex.id) (fun _ _ => rfl) g .networkSimplex limit
    exact assignRanks_respects hc hg .networkSimplex limit a arc (hkept.arcs ▸ ha) hact
  · unfold totalLength
    rw [sum_activeArcs hc, sum_activeArcs hc]
    refine List.sum_le_sum fun members hm => ?_
    by_cases h2 : 2 ≤ members.length
    · have hend := (hcomp' members hm).end_totalLength hg' hr (by omega) hreads (hle members hm)
        (hlimit members hm h2) (r := r) fun arc harc => hrespects arc ?_
      · obtain ⟨d, hd⟩ := assignRanks_settled hc hg limit members hm h2
        rw [hkeeps.arcsAmong_eq] at hend
        refine (totalLength_congr d fun arc harc => ?_).trans_le hend
        obtain ⟨t, h, ht, hh⟩ := (hcomp members hm).exists_ends harc
        exact ⟨hd _ (List.mem_of_getElem? ht), hd _ (List.mem_of_getElem? hh)⟩
      · rw [hkeeps.arcsAmong_eq] at harc
        exact (mem_arcsAmong.mp harc).1
    · rw [(hcomp members hm).arcsAmong_of_lt hg.loopless (by omega)]
      rfl

/-- A short way of one vertex and a long one of two lead to the same vertex. The short one is
first ranked next to its start, and one exchange lets it drop, since two of the arcs on it are
parallel. -/
def detour : LayerGraph Float32 :=
  let vertices := ["a", "b", "c", "d", "e"].foldl (fun g id => g.addNode id 1.0 1.0 []) {}
  [(0, 1), (1, 2), (2, 3), (0, 4), (4, 3), (4, 3)].zipIdx.foldl
    (fun g (arc, origin) => g.addArc arc.1 arc.2 1.0 origin) vertices

theorem detour_built : Built detour :=
  (Built.empty.addNodes 1.0 1.0 ["a", "b", "c", "d", "e"]).addArcs 1.0 _ (by decide +kernel)

/-- On the detour an exchange is made, and the ranking is no longer than the longest path. -/
theorem networkSimplex_detour : detour.Consistent ∧ detour.Acyclic ∧
    (∃ s, (detour.longestPath.componentStart [0, 1, 2, 3, 4]).prepared.pivot? = some s ∧
      totalLength (fun _ => 1) (detour.arcsAmong [0, 1, 2, 3, 4]) (memberRank [0, 1, 2, 3, 4] s) ≤
        totalLength (fun _ => 1) (detour.arcsAmong [0, 1, 2, 3, 4]) (memberRank [0, 1, 2, 3, 4]
          (detour.longestPath.componentStart [0, 1, 2, 3, 4]).prepared)) ∧
    totalLength (fun _ => 1) detour.activeArcs (detour.assignRanks .networkSimplex 8).rank ≤
      totalLength (fun _ => 1) detour.activeArcs detour.longestPath.rank := by
  have hc := detour_built.fresh.consistent
  have hback : detour.backArcs = [] := by decide +kernel
  have hg : detour.Acyclic := by
    have h := hc.acyclic_foldl_backArcs detour_built.fresh.loopless
    rwa [hback] at h
  obtain ⟨hpivot, hleast⟩ := networkSimplex_optimal hc hg (fun _ => 1) (by decide +kernel)
    (by decide +kernel)
  obtain ⟨s, hs⟩ := Option.isSome_iff_exists.mp (show
    ((detour.longestPath.componentStart [0, 1, 2, 3, 4]).prepared.pivot?).isSome = true by
      decide +kernel)
  exact ⟨hc, hg, ⟨s, hs, (hpivot [0, 1, 2, 3, 4] (by decide +kernel) (by decide) _ s .refl hs).2⟩,
    (hleast 8 (by decide +kernel)).2 _ (by decide +kernel)⟩

end Flowchart.LayerGraph
