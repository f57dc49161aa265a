import Flowchart.Proofs.LayerGraph.CycleRemoval
import Flowchart.Proofs.Ranking.ComponentLinks
import Flowchart.Proofs.Simplex.Running

/-!
# Every strategy gives a layering

The network simplex writes new ranks one component after the other. No component reads or writes the
ranks of another one, so in the end every component has the ranks of its own run, up to a shift; and
since every run ends in a feasible state, the ranks respect the arcs. With the longest path and the
tight tree, which were treated before, this covers every way to rank a graph.
-/

namespace Flowchart.LayerGraph

variable {α : Type} {g g' : LayerGraph α} {members : List Nat} {u v : Nat}

/-! ## Writing the ranks of a component -/

/-- The ranks of a list of pairs written to the vertices, less a common amount. -/
def writeRanks (g : LayerGraph α) (least : Int) (pairs : List (Nat × Int)) : LayerGraph α :=
  pairs.foldl (fun g (v, r) => g.setRank v (r - least)) g

theorem rank_writeRanks_of_not_mem (least : Int) {pairs : List (Nat × Int)}
    (hu : u ∉ pairs.map Prod.fst) : (g.writeRanks least pairs).rank u = g.rank u := by
  induction pairs generalizing g with
  | nil => rfl
  | cons p pairs ih =>
    obtain ⟨hp, hpairs⟩ := not_or.mp (mt List.mem_cons.mpr hu)
    exact (ih hpairs).trans (rank_setRank_of_ne g _ hp)

theorem rank_writeRanks (least : Int) {pairs : List (Nat × Int)} (hn : (pairs.map Prod.fst).Nodup)
    {r : Int} (hv : v < g.size) (hmem : (v, r) ∈ pairs) :
    (g.writeRanks least pairs).rank v = r - least := by
  induction pairs generalizing g with
  | nil => cases hmem
  | cons p pairs ih =>
    obtain ⟨hp, hpairs⟩ := List.nodup_cons.mp hn
    rcases List.mem_cons.mp hmem with rfl | hmem
    · exact (rank_writeRanks_of_not_mem least hp).trans (by rw [rank_setRank, if_pos ⟨rfl, hv⟩])
    · have hsize := (keeps_setRank (f := Vertex.id) (fun _ _ => rfl) g p.1 (p.2 - least)).size_eq
      exact ih hpairs (hsize ▸ hv) hmem

theorem Keeps.component {β : Type} {f : Vertex α → β} (h : Keeps f g g')
    (hm : g.Component members) : g'.Component members := by
  refine ⟨hm.nodup, h.size_eq ▸ hm.lt, h.leads_eq ▸ hm.closed, ?_⟩
  have hbeside : g'.Beside = g.Beside := by
    funext u v
    rw [Beside, h.leads_eq, Beside]
  rw [show g'.Together = g.Together by unfold Together; rw [hbeside]]
  exact hm.together

/-- An active arc lies in one component, and the component has other members than one. -/
theorem Consistent.exists_component (hc : g.Consistent) (hl : g.Loopless) {a : Nat} {arc : Arc α}
    (ha : g.arcs[a]? = some arc) (hact : arc.active = true) : ∃ members ∈ g.components,
      2 ≤ members.length ∧
        ∃ t h : Nat, members[t]? = some arc.source ∧ members[h]? = some arc.target := by
  obtain ⟨hcomp, -, hcover⟩ := components_spec hc
  obtain ⟨members, hm, hs⟩ := hcover arc.source (hc.ends_lt a arc ha).1
  have ht := ((hcomp members hm).closed _ _ ⟨a, arc, ha, hact, rfl, rfl⟩).mp hs
  obtain ⟨t, ht'⟩ := List.getElem?_of_mem hs
  obtain ⟨h, hh'⟩ := List.getElem?_of_mem ht
  refine ⟨members, hm, ?_, t, h, ht', hh'⟩
  have hne : t ≠ h := by
    rintro rfl
    exact hl a arc ha hact (Option.some.inj (ht'.symm.trans hh'))
  have h1 := (List.getElem?_eq_some_iff.mp ht').1
  have h2 := (List.getElem?_eq_some_iff.mp hh').1
  omega

section Components

variable [Scalar α]

/-- The state in which the run on a component ends. -/
def componentEnd (g : LayerGraph α) (limit : Nat) (members : List Nat) : Simplex α :=
  ((g.componentStart members).solve limit).1

/-- The smallest rank with which the run on a component ends. -/
def componentLeast (g : LayerGraph α) (limit : Nat) (members : List Nat) : Int :=
  (g.componentEnd limit members).rank.toList.min?.getD 0

theorem simplexComponent_eq (limit : Nat) (g : LayerGraph α) (h2 : 2 ≤ members.length) :
    simplexComponent limit g members = g.writeRanks (g.componentLeast limit members)
      (members.zip (g.componentEnd limit members).rank.toList) :=
  if_neg (Nat.not_lt.mpr h2)

theorem rank_simplexComponent_of_not_mem (limit : Nat) (g : LayerGraph α) (hu : u ∉ members) :
    (simplexComponent limit g members).rank u = g.rank u := by
  by_cases h2 : 2 ≤ members.length
  · rw [simplexComponent_eq limit g h2]
    refine rank_writeRanks_of_not_mem _ fun hmem => hu ?_
    obtain ⟨⟨x, r⟩, hx, rfl⟩ := List.mem_map.mp hmem
    exact (List.of_mem_zip hx).1
  · rw [simplexComponent, if_pos (Nat.lt_of_not_le h2)]

/-- The simplex starts on every component of an acyclic graph whose ranks are feasible there. -/
theorem Component.startable_of_feasible (hm : g.Component members) (hg : g.Acyclic)
    (hf : (g.componentStart members).Feasible) (hpos : 0 < members.length) :
    (g.componentStart members).Startable := by
  refine ⟨hm.start_wired hg, by rwa [size_componentStart], hm.start_connected, hf, fun l => ?_⟩
  rw [componentStart, Simplex.isTree, Simplex.initial, Table.getD_replicate, ite_self]

/-- The simplex starts on every component of a layered acyclic graph. -/
theorem Component.startable (hm : g.Component members) (hg : g.Acyclic) (hr : g.Respects)
    (hpos : 0 < members.length) : (g.componentStart members).Startable :=
  hm.startable_of_feasible hg (hm.start_feasible fun a arc ha hact _ => hr a arc ha hact) hpos

/-- A component has the ranks of its run, up to a shift. -/
def Settled (g : LayerGraph α) (limit : Nat) (members : List Nat) (g' : LayerGraph α) : Prop :=
  ∃ least, ∀ (i v : Nat), members[i]? = some v →
    g'.rank v = (g.componentEnd limit members).rankOf i - least

theorem Component.size_componentEnd (hm : g.Component members) (hg : g.Acyclic) (hr : g.Respects)
    (hpos : 0 < members.length) (limit : Nat) :
    (g.componentEnd limit members).size = members.length :=
  ((hm.startable hg hr hpos).solve_sound limit).2.size.trans (size_componentStart g members)

/-- What the simplex writes to the members of a component. -/
theorem rank_simplexComponent (hm : g.Component members) (h2 : 2 ≤ members.length) {limit : Nat}
    (hsize : (g.componentEnd limit members).size = members.length) {i : Nat}
    (hi : members[i]? = some v) : (simplexComponent limit g members).rank v =
      (g.componentEnd limit members).rankOf i - g.componentLeast limit members := by
  obtain ⟨hilt, hiv⟩ := List.getElem?_eq_some_iff.mp hi
  have hirank : i < (g.componentEnd limit members).rank.size := by
    rw [← hsize] at hilt
    exact hilt
  have hlen : members.length ≤ (g.componentEnd limit members).rank.toList.length :=
    hsize.ge
  have hfst : (members.zip (g.componentEnd limit members).rank.toList).map Prod.fst = members :=
    List.map_fst_zip hlen
  rw [simplexComponent_eq limit g h2]
  refine rank_writeRanks _ (by rw [hfst]; exact hm.nodup) (hm.lt v (List.mem_of_getElem? hi)) ?_
  refine List.mem_of_getElem? (i := i) ?_
  rw [List.getElem?_zip_eq_some]
  refine ⟨hi, ?_⟩
  simp [Simplex.rankOf, hirank]

/-! ## All components -/

/-- What the run on a component starts from depends only on the arcs and the ranks of the
members. -/
theorem componentStart_congr (harcs : g'.arcs = g.arcs)
    (hrank : ∀ v ∈ members, g'.rank v = g.rank v) :
    g'.componentStart members = g.componentStart members := by
  rw [componentStart, componentStart, componentLinks, componentLinks, harcs,
    List.map_congr_left hrank]

theorem rank_foldl_simplexComponent_of_not_mem (limit : Nat) (comps : List (List Nat))
    (g : LayerGraph α) (hu : ∀ members ∈ comps, u ∉ members) :
    (comps.foldl (simplexComponent limit) g).rank u = g.rank u := by
  induction comps generalizing g with
  | nil => rfl
  | cons c comps ih =>
    exact (ih _ fun m hm => hu m (List.mem_cons_of_mem _ hm)).trans
      (rank_simplexComponent_of_not_mem limit g (hu c List.mem_cons_self))

/-- **No component disturbs another one.** The members of a component end with the ranks that its
own run writes, and that run starts from the ranks they had. -/
theorem networkSimplex_component (hc : g.Consistent) (limit : Nat) : ∀ members ∈ g.components,
    ∃ g', Keeps Vertex.id g g' ∧ (∀ v ∈ members, g'.rank v = g.rank v) ∧
      ∀ v ∈ members, (g.networkSimplex limit).rank v = (simplexComponent limit g' members).rank v := by
  have hfold : ∀ (comps : List (List Nat)) (g' : LayerGraph α), Keeps Vertex.id g g' →
      comps.Pairwise List.Disjoint → (∀ m ∈ comps, ∀ v ∈ m, g'.rank v = g.rank v) →
      ∀ m ∈ comps, ∃ g₁, Keeps Vertex.id g g₁ ∧ (∀ v ∈ m, g₁.rank v = g.rank v) ∧ ∀ v ∈ m,
        (comps.foldl (simplexComponent limit) g').rank v = (simplexComponent limit g₁ m).rank v := by
    intro comps
    induction comps with
    | nil => exact nofun
    | cons c comps ih =>
      intro g' hkeeps hpair hrank m hm
      obtain ⟨hfirst, hrest⟩ := List.pairwise_cons.mp hpair
      rcases List.mem_cons.mp hm with rfl | hm
      · exact ⟨g', hkeeps, hrank _ List.mem_cons_self, fun v hv =>
          rank_foldl_simplexComponent_of_not_mem limit comps _ fun c hc hvc => hfirst c hc hv hvc⟩
      · refine ih _ (hkeeps.trans (keeps_simplexComponent (fun _ _ => rfl) limit g' c)) hrest
          (fun m hm v hv => ?_) m hm
        rw [rank_simplexComponent_of_not_mem limit g' fun hvc => hfirst m hm hvc hv]
        exact hrank m (List.mem_cons_of_mem _ hm) v hv
  exact hfold g.components g (.refl _ g) (components_spec hc).2.1 fun _ _ _ _ => rfl

/-- **Every component ends with the ranks of its own run**, shifted so that the smallest is zero. -/
theorem rank_networkSimplex (hc : g.Consistent) (hg : g.Acyclic) (hr : g.Respects) (limit : Nat)
    (hm : members ∈ g.components) (h2 : 2 ≤ members.length) {i : Nat} (hi : members[i]? = some v) :
    (g.networkSimplex limit).rank v =
      (g.componentEnd limit members).rankOf i - g.componentLeast limit members := by
  obtain ⟨g', hkeeps, hrank, hend⟩ := networkSimplex_component hc limit members hm
  have hm' := (components_spec hc).1 members hm
  have heq : g'.componentEnd limit members = g.componentEnd limit members := by
    rw [componentEnd, componentEnd, componentStart_congr hkeeps.arcs hrank]
  have hsize := hm'.size_componentEnd hg hr (by omega) limit
  rw [hend v (List.mem_of_getElem? hi),
    rank_simplexComponent (hkeeps.component hm') h2 (heq ▸ hsize) hi, componentLeast, componentLeast,
    heq]

theorem networkSimplex_settled (hc : g.Consistent) (hg : g.Acyclic) (hr : g.Respects)
    (limit : Nat) : ∀ members ∈ g.components, 2 ≤ members.length →
      g.Settled limit members (g.networkSimplex limit) :=
  fun _ hm h2 => ⟨_, fun _ _ hi => rank_networkSimplex hc hg hr limit hm h2 hi⟩

theorem Respects.networkSimplex (hr : g.Respects) (hc : g.Consistent) (hg : g.Acyclic)
    (limit : Nat) : (g.networkSimplex limit).Respects := by
  refine (keeps_networkSimplex (f := Vertex.id) (fun _ _ => rfl) g limit).respects_iff.mpr
    fun a arc ha hact => ?_
  obtain ⟨members, hm, h2, t, h, ht, hh⟩ := hc.exists_component hg.loopless ha hact
  have hcomp := (components_spec hc).1 members hm
  obtain ⟨least, hleast⟩ := networkSimplex_settled hc hg hr limit members hm h2
  obtain ⟨hsound, hsame⟩ := (hcomp.startable hg hr (by omega)).solve_sound limit
  have hlength := hcomp.minLength_le_of_feasible hsame hsound.feasible ha hact ht hh
  rw [hleast _ _ ht, hleast _ _ hh, componentEnd]
  omega

end Components

/-! ## The whole ranking -/

/-- The ranking of an acyclic graph is a layering that was shifted to zero. -/
theorem exists_layering [Scalar α] (hc : g.Consistent) (hg : g.Acyclic) (strategy : RankStrategy)
    (limit : Nat) : ∃ g' : LayerGraph α, Keeps Vertex.id g g' ∧ g'.Respects ∧
      g.assignRanks strategy limit = g'.normalizeRanks := by
  have hkeeps := keeps_longestPath (f := Vertex.id) (fun _ _ => rfl) g
  have hc' := hkeeps.consistent hc
  have hg' := hkeeps.acyclic hg
  have hr := longestPath_respects hc hg
  cases strategy with
  | longestPath => exact ⟨_, hkeeps, hr, rfl⟩
  | tightTree =>
    exact ⟨_, hkeeps.trans (keeps_tightTree (fun _ _ => rfl) _), hr.tightTree hc' hg'.loopless, rfl⟩
  | networkSimplex =>
    exact ⟨_, hkeeps.trans (keeps_networkSimplex (fun _ _ => rfl) _ limit),
      hr.networkSimplex hc' hg' limit, rfl⟩

theorem assignRanks_respects [Scalar α] (hc : g.Consistent) (hg : g.Acyclic)
    (strategy : RankStrategy) (limit : Nat) : (g.assignRanks strategy limit).Respects := by
  obtain ⟨g', hkeeps, hr, heq⟩ := exists_layering hc hg strategy limit
  rw [heq]
  exact hr.normalizeRanks (hkeeps.consistent hc)

/-- **Every strategy gives a layering.** In an acyclic graph every active arc leads at least its
least length upwards after the ranking, whatever the strategy and however many exchanges the
simplex was allowed, and the smallest rank is zero. The arcs are the same as before. -/
theorem assignRanks_layering [Scalar α] (hc : g.Consistent) (hg : g.Acyclic)
    (strategy : RankStrategy) (limit : Nat) :
    (g.assignRanks strategy limit).arcs = g.arcs ∧ (g.assignRanks strategy limit).Respects ∧
      (0 < g.size → (∃ v < g.size, (g.assignRanks strategy limit).rank v = 0) ∧
        ∀ v < g.size, 0 ≤ (g.assignRanks strategy limit).rank v) := by
  refine ⟨(keeps_assignRanks (f := Vertex.id) (fun _ _ => rfl) g strategy limit).arcs,
    assignRanks_respects hc hg strategy limit, fun hpos => ?_⟩
  obtain ⟨g', hkeeps, -, heq⟩ := exists_layering hc hg strategy limit
  rw [heq]
  rw [← hkeeps.size_eq] at hpos ⊢
  exact normalizeRanks_least hpos

/-- The ring is ranked once its cycles are broken. -/
theorem assignRanks_ring : ring.makeAcyclic.1.Consistent ∧ ring.makeAcyclic.1.Acyclic ∧
    0 < ring.makeAcyclic.1.size ∧
    (ring.makeAcyclic.1.assignRanks .networkSimplex 0).Respects ∧
    ∃ v < ring.makeAcyclic.1.size,
      (ring.makeAcyclic.1.assignRanks .networkSimplex 0).rank v = 0 := by
  have hc : ring.makeAcyclic.1.Consistent := ring_built.fresh.consistent.foldl_reverse _
  have ha : ring.makeAcyclic.1.Acyclic :=
    ring_built.fresh.consistent.acyclic_foldl_backArcs ring_built.fresh.loopless
  have hpos : 0 < ring.makeAcyclic.1.size := by decide +kernel
  obtain ⟨-, hrespects, hleast⟩ := assignRanks_layering hc ha .networkSimplex 0
  exact ⟨hc, ha, hpos, hrespects, (hleast hpos).1⟩

end Flowchart.LayerGraph
