import Flowchart.Proofs.Ranking.Layers
import Flowchart.Proofs.Simplex.Optimum
import Mathlib.Algebra.BigOperators.Group.List.Basic
import Mathlib.Algebra.Order.BigOperators.Group.List

/-!
# The total length of a component

The total weighted length of the arcs of a component is that of its links: the weight of a link is
the sum of the weights of its arcs, and all of them have the same ends. Summed over the components
it is that of the graph, since every arc lies in one component.
-/

namespace Flowchart.LayerGraph

open Finset

variable {α : Type} {g g' : LayerGraph α} {members : List Nat} {weight : Arc α → Nat}

/-- The active arcs. -/
def activeArcs (g : LayerGraph α) : List (Arc α) := g.arcs.toList.filter (·.active)

/-- The active arcs between the members of a component. -/
def arcsAmong (g : LayerGraph α) (members : List Nat) : List (Arc α) :=
  g.activeArcs.filter fun arc => members.contains arc.source

/-- The total weighted length of a list of arcs under a ranking. -/
def totalLength (weight : Arc α → Nat) (arcs : List (Arc α)) (r : Nat → Int) : Int :=
  (arcs.map fun arc => weight arc * (r arc.target - r arc.source)).sum

theorem mem_activeArcs {arc : Arc α} :
    arc ∈ g.activeArcs ↔ ∃ a : Nat, g.arcs[a]? = some arc ∧ arc.active = true := by
  rw [activeArcs, List.mem_filter, List.mem_iff_getElem?]
  simp only [Array.getElem?_toList, exists_and_right]

theorem mem_arcsAmong {arc : Arc α} :
    arc ∈ g.arcsAmong members ↔ arc ∈ g.activeArcs ∧ arc.source ∈ members := by
  rw [arcsAmong, List.mem_filter, List.contains_iff_mem]

/-- Both ends of an arc among the members have positions. -/
theorem Component.exists_ends (hm : g.Component members) {arc : Arc α}
    (harc : arc ∈ g.arcsAmong members) :
    ∃ t h : Nat, members[t]? = some arc.source ∧ members[h]? = some arc.target := by
  obtain ⟨hact, hs⟩ := mem_arcsAmong.mp harc
  obtain ⟨a, ha, hact⟩ := mem_activeArcs.mp hact
  obtain ⟨t, ht⟩ := List.getElem?_of_mem hs
  obtain ⟨h, hh⟩ := List.getElem?_of_mem ((hm.closed _ _ ⟨a, arc, ha, hact, rfl, rfl⟩).mp hs)
  exact ⟨t, h, ht, hh⟩

/-! ## Components -/

/-- A member of one of several disjoint lists is counted once. -/
theorem sum_of_disjoint {comps : List (List Nat)}
    (hdisjoint : comps.Pairwise List.Disjoint) {v : Nat}
    (hv : ∃ members ∈ comps, v ∈ members) (n : Int) :
    (comps.map fun members => if v ∈ members then n else 0).sum = n := by
  induction comps with
  | nil =>
    obtain ⟨m, hm, -⟩ := hv
    cases hm
  | cons c comps ih =>
    obtain ⟨hc, hrest⟩ := List.pairwise_cons.mp hdisjoint
    rw [List.map_cons, List.sum_cons]
    by_cases hvc : v ∈ c
    · have hzero : ∀ m ∈ comps, (if v ∈ m then n else 0) = 0 := fun m hm =>
        if_neg fun hvm => hc m hm hvc hvm
      rw [if_pos hvc, List.map_congr_left hzero]
      simp
    · rw [if_neg hvc, zero_add]
      refine ih hrest ?_
      obtain ⟨m, hm, hvm⟩ := hv
      rcases List.mem_cons.mp hm with rfl | hm
      · exact absurd hvm hvc
      · exact ⟨m, hm, hvm⟩

/-- **Every arc lies in one component**, so a sum over the active arcs is one over the
components. -/
theorem sum_activeArcs (hc : g.Consistent) (f : Arc α → Int) : (g.activeArcs.map f).sum =
    (g.components.map fun members => ((g.arcsAmong members).map f).sum).sum := by
  obtain ⟨-, hdisjoint, hcover⟩ := components_spec hc
  have hsource : ∀ arc ∈ g.activeArcs, ∃ members ∈ g.components, arc.source ∈ members := by
    intro arc harc
    obtain ⟨a, ha, -⟩ := mem_activeArcs.mp harc
    exact hcover _ (hc.ends_lt a arc ha).1
  unfold arcsAmong
  generalize g.activeArcs = arcs at hsource
  induction arcs with
  | nil => simp
  | cons arc arcs ih =>
    have hsplit : ∀ members : List Nat,
        ((List.filter (fun arc => members.contains arc.source) (arc :: arcs)).map f).sum =
          (if arc.source ∈ members then f arc else 0) +
            ((arcs.filter fun arc => members.contains arc.source).map f).sum := by
      intro members
      by_cases hm : arc.source ∈ members
      · rw [List.filter_cons_of_pos (by simpa using hm), if_pos hm, List.map_cons, List.sum_cons]
      · rw [List.filter_cons_of_neg (by simpa using hm), if_neg hm, zero_add]
    rw [List.map_cons, List.sum_cons, ih fun b hb => hsource b (List.mem_cons_of_mem _ hb),
      List.map_congr_left fun members _ => hsplit members, List.sum_map_add,
      sum_of_disjoint hdisjoint (hsource arc List.mem_cons_self)]

/-! ## Links -/

/-- The weight of the link between two positions. -/
def linkWeight (weight : Arc α → Nat) (members : List Nat) (arcs : List (Arc α)) (t h : Nat) :
    Int :=
  ((parallel members arcs t h).map fun arc => (weight arc : Int)).sum

theorem sum_weight_nonneg (weight : Arc α → Nat) (arcs : List (Arc α)) :
    0 ≤ (arcs.map fun arc => (weight arc : Int)).sum := by
  refine List.sum_nonneg fun x hx => ?_
  obtain ⟨b, -, rfl⟩ := List.mem_map.mp hx
  exact Int.natCast_nonneg _

/-- The part that an arc has in a sum over the links. -/
def linkShare (weight : Arc α → Nat) (members : List Nat) (φ : Nat → Nat → Int) (arc : Arc α) :
    Int :=
  match endsIn members arc with
  | some (t, h) => weight arc * φ t h
  | none => 0

/-- A sum over the links is one over the arcs, since exactly one link has the ends of each of
them. -/
theorem sum_linkWeight {n : Nat} {tail head : Nat → Nat}
    (hdistinct : ∀ k < n, ∀ l < n, tail k = tail l → head k = head l → k = l)
    {arcs : List (Arc α)} (hlink : ∀ arc ∈ arcs, ∀ t h, endsIn members arc = some (t, h) →
      ∃ l < n, tail l = t ∧ head l = h) (weight : Arc α → Nat) (φ : Nat → Nat → Int) :
    ∑ l ∈ range n, linkWeight weight members arcs (tail l) (head l) * φ (tail l) (head l) =
      (arcs.map (linkShare weight members φ)).sum := by
  induction arcs with
  | nil => simp [linkWeight, parallel]
  | cons arc arcs ih =>
    have hsplit : ∀ l ∈ range n,
        linkWeight weight members (arc :: arcs) (tail l) (head l) * φ (tail l) (head l) =
          (if endsIn members arc = some (tail l, head l) then
            weight arc * φ (tail l) (head l) else 0) +
          linkWeight weight members arcs (tail l) (head l) * φ (tail l) (head l) := by
      intro l _
      unfold linkWeight parallel
      by_cases he : endsIn members arc = some (tail l, head l)
      · rw [List.filter_cons_of_pos (by simpa using he), if_pos he, List.map_cons, List.sum_cons]
        ring
      · rw [List.filter_cons_of_neg (by simpa using he), if_neg he, zero_add]
    rw [sum_congr rfl hsplit, sum_add_distrib, List.map_cons, List.sum_cons,
      ih fun b hb => hlink b (List.mem_cons_of_mem _ hb)]
    congr 1
    unfold linkShare
    cases he : endsIn members arc with
    | none => simp
    | some ends =>
      obtain ⟨t, h⟩ := ends
      obtain ⟨l, hl, rfl, rfl⟩ := hlink arc List.mem_cons_self t h he
      rw [sum_eq_single l, if_pos rfl]
      · intro k hk hkl
        refine if_neg fun heq => hkl ?_
        obtain ⟨ht, hh⟩ := Prod.mk.inj (Option.some.inj heq)
        exact hdistinct k (mem_range.mp hk) l hl ht.symm hh.symm
      · exact fun hnot => absurd (mem_range.mpr hl) hnot

/-- **The sum over the links of a component** is the sum over its arcs: an active arc that starts at
a member also ends at one. -/
theorem Component.sum_links [Scalar α] (hm : g.Component members) (weight : Arc α → Nat)
    (φ : Nat → Nat → Int) {f : Arc α → Int}
    (hf : ∀ arc t h, members[t]? = some arc.source → members[h]? = some arc.target →
      f arc = weight arc * φ t h) :
    ∑ l ∈ range (g.componentLinks members).size,
      linkWeight weight members g.arcs.toList ((g.componentStart members).tail l)
        ((g.componentStart members).head l) *
      φ ((g.componentStart members).tail l) ((g.componentStart members).head l) =
    ((g.arcsAmong members).map f).sum := by
  rw [sum_linkWeight (fun k hk l hl => componentStart_distinct hk hl)]
  · have hfilter : ((g.arcsAmong members).map f).sum = (g.arcs.toList.map fun arc =>
        if arc.active = true ∧ arc.source ∈ members then f arc else 0).sum := by
      rw [List.sum_map_ite, arcsAmong, activeArcs, List.filter_filter]
      simp [Bool.and_comm]
    rw [hfilter]
    congr 1
    refine List.map_congr_left fun arc harc => ?_
    obtain ⟨a, ha⟩ := List.getElem?_of_mem harc
    rw [Array.getElem?_toList] at ha
    unfold linkShare
    cases he : endsIn members arc with
    | none =>
      refine (if_neg ?_).symm
      rintro ⟨hact, hs⟩
      obtain ⟨t, ht⟩ := List.getElem?_of_mem hs
      obtain ⟨h, hh⟩ := List.getElem?_of_mem ((hm.closed _ _ ⟨a, arc, ha, hact, rfl, rfl⟩).mp hs)
      rw [(endsIn_iff hm.nodup).mpr ⟨hact, ht, hh⟩] at he
      cases he
    | some ends =>
      obtain ⟨hact, ht, hh⟩ := (endsIn_iff hm.nodup).mp he
      rw [if_pos ⟨hact, List.mem_of_getElem? ht⟩]
      exact (hf arc _ _ ht hh).symm
  · intro arc harc t h hends
    obtain ⟨a, ha⟩ := List.getElem?_of_mem harc
    rw [Array.getElem?_toList] at ha
    obtain ⟨hact, ht, hh⟩ := (endsIn_iff hm.nodup).mp hends
    obtain ⟨l, hl, htl, hhl, -⟩ := hm.exists_link ha hact ht hh
    exact ⟨l, hl, htl, hhl⟩

section Weights

variable [Scalar α] {R : WholeReading α}

/-- The weight of the links of a component. -/
def linkWeights (weight : Arc α → Nat) (g : LayerGraph α) (members : List Nat) (l : Nat) : Int :=
  linkWeight weight members g.arcs.toList ((g.componentStart members).tail l)
    ((g.componentStart members).head l)

/-- Weights are added exactly when arcs are merged. -/
theorem reads_foldl_mergeArc {arcs : List (Arc α)}
    (harcs : ∀ arc ∈ arcs, R.Reads arc.weight (weight arc)) {link : SimplexLink α} {n : Int}
    (hlink : R.Reads link.weight n) (hn : 0 ≤ n)
    (hle : n + (arcs.map fun arc => (weight arc : Int)).sum ≤ R.bound) :
    R.Reads (arcs.foldl mergeArc link).weight
      (n + (arcs.map fun arc => (weight arc : Int)).sum) := by
  induction arcs generalizing link n with
  | nil => simpa using hlink
  | cons arc arcs ih =>
    have hrest := sum_weight_nonneg weight arcs
    rw [List.map_cons, List.sum_cons, ← add_assoc] at hle ⊢
    have hstep : R.Reads (mergeArc link arc).weight (n + weight arc) :=
      R.add hlink (harcs arc List.mem_cons_self) (abs_le.mpr ⟨by omega, by omega⟩)
    exact ih (fun b hb => harcs b (List.mem_cons_of_mem _ hb)) hstep (by omega) hle

/-- **The links of a component have whole weights**, if the arcs do and their sum is within the
bound. -/
theorem Component.start_weighs (hm : g.Component members)
    (hweight : ∀ arc ∈ g.activeArcs, R.Reads arc.weight (weight arc))
    (hle : ((g.arcsAmong members).map fun arc => (weight arc : Int)).sum ≤ R.bound) :
    Simplex.Weighs R (g.componentStart members) (linkWeights weight g members) := by
  have hsum : ∑ l ∈ range (g.componentLinks members).size, linkWeights weight g members l =
      ((g.arcsAmong members).map fun arc => (weight arc : Int)).sum := by
    have h := hm.sum_links weight (fun _ _ => 1) (f := fun arc => (weight arc : Int))
      fun arc t h _ _ => (mul_one _).symm
    simpa only [mul_one, linkWeights] using h
  refine ⟨fun l hl => ?_, fun l => sum_weight_nonneg _ _, hsum.le.trans hle⟩
  have hllt : l < (g.componentLinks members).size := hl
  have hx := Array.getElem?_eq_getElem hllt
  obtain ⟨arc, rest, hpar, hlink⟩ := (componentLinks_merged g members).link l _ hx
  have hreads : ∀ b ∈ arc :: rest, R.Reads b.weight (weight b) := by
    intro b hb
    rw [← hpar] at hb
    obtain ⟨hmem, hends⟩ := mem_parallel.mp hb
    refine hweight b (List.mem_filter.mpr ⟨hmem, ((endsIn_iff hm.nodup).mp hends).1⟩)
  have hone : linkWeights weight g members l =
      weight arc + (rest.map fun arc => (weight arc : Int)).sum := by
    rw [linkWeights, componentStart, Simplex.tail_initial _ hllt, Simplex.head_initial _ hllt,
      linkWeight, hpar, List.map_cons, List.sum_cons]
  have hbound : linkWeights weight g members l ≤ R.bound := by
    refine le_trans ?_ (hsum.le.trans hle)
    exact single_le_sum (f := linkWeights weight g members) (fun k _ => sum_weight_nonneg _ _)
      (mem_range.mpr hllt)
  rw [hone] at hbound ⊢
  have hstart : (g.componentStart members).weight l = (g.componentLinks members)[l].weight := by
    simp [componentStart, Simplex.initial, Simplex.weight, hllt]
  rw [hstart, hlink]
  exact reads_foldl_mergeArc (fun b hb => hreads b (List.mem_cons_of_mem _ hb))
    (hreads arc List.mem_cons_self) (Int.natCast_nonneg _) hbound

/-- **The total length of the links** is that of the arcs. -/
theorem Component.cost_start (hm : g.Component members) {ρ r : Nat → Int}
    (hr : ∀ (i v : Nat), members[i]? = some v → ρ i = r v) :
    (g.componentStart members).cost (linkWeights weight g members) ρ =
      totalLength weight (g.arcsAmong members) r := by
  refine hm.sum_links weight (fun t h => ρ h - ρ t) fun arc t h ht hh => ?_
  rw [hr _ _ ht, hr _ _ hh]

end Weights

end Flowchart.LayerGraph
