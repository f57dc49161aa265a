import Flowchart.Proofs.LayerGraph.RoundTrip
import Flowchart.Proofs.Ranking.Anchoring

/-!
# Proper layerings

After the long arcs were split, every arc leads from one rank to the next, and no rank between the
first and the last is empty. The later phases count on both.

* `Proper` holds since an arc that was not split was not long, and along a chain the rank grows by
  one with every step.
* `Gapless` holds since every vertex is connected with one of rank zero: on the way there each rank
  below that of the vertex is either the rank of a vertex or passed by an arc, and an arc that passes
  a rank has a passage in it.

Splitting neither reads nor needs the chains of earlier splits, so all of this holds of a graph in
which arcs were split before.
-/

namespace Flowchart

variable {α : Type}

/-- What holds of neighbours in a chain holds of the ends of every segment. -/
theorem Arc.segments_step (arc : Arc α) {R : Nat → Nat → Prop} {last : Nat} {ps : List Nat}
    (h : (last :: ps ++ [arc.target]).IsChain R) :
    ∀ x ∈ arc.segments last ps, R x.source x.target := by
  induction ps generalizing last with
  | nil =>
    intro x hx
    obtain rfl := List.mem_singleton.mp hx
    exact (List.isChain_cons_cons.mp h).1
  | cons p ps ih =>
    obtain ⟨hstep, hrest⟩ := List.isChain_cons_cons.mp h
    intro x hx
    rcases List.mem_cons.mp hx with rfl | hx
    · exact hstep
    · exact ih hrest x hx

namespace LayerGraph

variable {g h : LayerGraph α} {u v : Nat}

/-- Every active arc leads from one rank to the next. -/
def Proper (g : LayerGraph α) : Prop :=
  ∀ (a : Nat) arc, g.arcs[a]? = some arc → arc.active = true →
    g.rank arc.target = g.rank arc.source + 1

/-- No rank from zero to the largest one is empty. -/
def Gapless (g : LayerGraph α) : Prop :=
  ∀ k : Int, 0 ≤ k → k ≤ g.maxRank → ∃ v < g.size, g.rank v = k

/-! ## The largest rank -/

theorem exists_rank_eq_maxRank (h : 0 < g.size) : ∃ v < g.size, g.rank v = g.maxRank := by
  have hne : g.nodes.toList.map Vertex.rank ≠ [] := by
    simpa [size, Array.size_pos_iff] using h
  obtain ⟨most, hmost⟩ := Option.isSome_iff_exists.mp (List.isSome_max?_of_ne_nil hne)
  obtain ⟨x, hx, hxr⟩ := List.mem_map.mp (List.max?_eq_some_iff.mp hmost).1
  obtain ⟨v, hv⟩ := List.getElem?_of_mem hx
  rw [Array.getElem?_toList] at hv
  refine ⟨v, (Array.getElem?_eq_some_iff.mp hv).1, ?_⟩
  rw [maxRank, hmost, rank, hv, ← hxr]
  rfl

/-! ## Ranks along a chain -/

section Chains

variable [Scalar α] {c : PassageChain} {arc : Arc α}

namespace Carries

/-- The passages of a chain lie one below the other. -/
theorem rank_passage (hc : Carries g h c arc) {i p : Nat} (hi : c.passages[i]? = some p) :
    h.rank p = g.rank arc.source + (i + 1) := by
  rw [rank, (hc.vertices i p hi).2]
  simp [passageVertex]

/-- Along the whole chain the rank grows by one with every step. -/
theorem isChain_rank (hc : Carries g h c arc) (hlong : 1 < g.rank arc.target - g.rank arc.source)
    (hs : h.rank arc.source = g.rank arc.source) (ht : h.rank arc.target = g.rank arc.target) :
    (arc.source :: c.passages ++ [arc.target]).IsChain fun u v => h.rank v = h.rank u + 1 := by
  have hlength := hc.length
  rw [between] at hlength
  have hrank : ∀ (i : Nat) x, (arc.source :: c.passages ++ [arc.target])[i]? = some x →
      h.rank x = g.rank arc.source + i := by
    intro i x hx
    cases i with
    | zero =>
      obtain rfl := Option.some.inj hx
      simpa using hs
    | succ i =>
      rw [List.cons_append, List.getElem?_cons_succ, List.getElem?_append] at hx
      split at hx
      · simpa using hc.rank_passage hx
      · obtain ⟨hi, rfl⟩ := List.getElem?_eq_some_iff.mp hx
        simp only [List.length_singleton, List.getElem_singleton] at hi ⊢
        omega
  refine List.isChain_iff_getElem.mpr fun i hi => ?_
  rw [hrank (i + 1) _ (List.getElem?_eq_getElem hi), hrank i _ (List.getElem?_eq_getElem (by omega))]
  push_cast
  omega

/-- The segments of a chain are listed at their ends. -/
theorem isChain_joined (hc : Carries g h c arc) (hh : h.Consistent) :
    (arc.source :: c.passages ++ [arc.target]).IsChain (h.Joined arc.origin) :=
  Arc.isChain_segments arc.asSegment fun s t hst => by
    obtain ⟨b, -, hb⟩ := hc.segments (arc.asSegment.between s t) hst
    exact hh.joined hb rfl

end Carries

namespace Spread

/-- An arc that was split has a chain, and the chain is carried by the graph. -/
theorem exists_chain {done : List Nat} (hs : Spread done g h) {a : Nat} (ha : a ∈ done)
    (harc : g.arcs[a]? = some arc) : ∃ c ∈ h.chains, c.arc = a ∧ Carries g h c arc := by
  obtain ⟨c, hc, rfl⟩ := List.mem_map.mp (hs.chain_arcs ▸ ha)
  obtain ⟨arc', hcar⟩ := hs.carries c hc
  obtain rfl := Option.some.inj (harc.symm.trans hcar.carried)
  exact ⟨c, hc, rfl, hcar⟩

/-- A chain belongs to a long arc: no other arcs are split. -/
theorem long_of_carries (hs : Spread g.longArcs g h) (hc : c ∈ h.chains)
    (hcar : Carries g h c arc) : 1 < g.rank arc.target - g.rank arc.source := by
  obtain ⟨arc', harc', -, hlong⟩ := mem_longArcs.mp (hs.chain_arcs ▸ List.mem_map_of_mem hc)
  obtain rfl := Option.some.inj (harc'.symm.trans hcar.carried)
  exact hlong

theorem isChain_rank (hs : Spread g.longArcs g h) (hg : g.Consistent) (hc : c ∈ h.chains)
    (hcar : Carries g h c arc) :
    (arc.source :: c.passages ++ [arc.target]).IsChain fun u v => h.rank v = h.rank u + 1 := by
  obtain ⟨hsrc, htgt⟩ := hg.ends_lt _ arc hcar.carried
  exact hcar.isChain_rank (hs.long_of_carries hc hcar) (hs.rank_eq hsrc) (hs.rank_eq htgt)

/-- **Every arc joins consecutive ranks** once the long ones were split. -/
theorem proper (hs : Spread g.longArcs g h) (hg : g.Consistent) (hr : g.Respects)
    (hsteep : g.Steep) : h.Proper := by
  intro b arc hb hact
  by_cases hlt : b < g.arcs.size
  · rw [hs.old_arcs b hlt] at hb
    obtain ⟨arc', harc', rfl⟩ := Option.map_eq_some_iff.mp hb
    obtain ⟨hact', hnot⟩ := (Bool.and_eq_true _ _).mp hact
    have hshort : ¬ 1 < g.rank arc'.target - g.rank arc'.source := fun hlong =>
      of_decide_eq_true hnot (mem_longArcs.mpr ⟨arc', harc', hact', hlong⟩)
    obtain ⟨hsrc, htgt⟩ := hg.ends_lt b arc' harc'
    have hle := hr b arc' harc' hact'
    have hlength := hsteep b arc' harc' hact'
    rw [hs.rank_eq hsrc, hs.rank_eq htgt]
    omega
  · obtain ⟨c, hc, arc', hcar, hmem⟩ := hs.new_arcs b arc (Nat.le_of_not_lt hlt) hb
    have hchain := hs.isChain_rank hg hc hcar
    exact Arc.segments_step arc'.asSegment hchain arc hmem

/-- An arc that passes a rank leaves no gap there. -/
theorem exists_rank_of_arc (hs : Spread g.longArcs g h) (hg : g.Consistent) {a : Nat}
    (harc : g.arcs[a]? = some arc) (hact : arc.active = true) {k : Int}
    (hk : g.rank arc.source ≤ k) (hk' : k ≤ g.rank arc.target) : ∃ v < h.size, h.rank v = k := by
  obtain ⟨hsrc, htgt⟩ := hg.ends_lt a arc harc
  have hle := hs.size_le
  rcases hk.lt_or_eq with hk | rfl
  · rcases hk'.lt_or_eq with hk' | rfl
    · have hlong := mem_longArcs.mpr ⟨arc, harc, hact, by omega⟩
      obtain ⟨c, hc, -, hcar⟩ := hs.exists_chain hlong harc
      have hlength := hcar.length
      rw [between] at hlength
      have hi : (k - g.rank arc.source - 1).toNat < c.passages.length := by omega
      have hp := List.getElem?_eq_getElem hi
      refine ⟨_, ?_, (hcar.rank_passage hp).trans (by omega)⟩
      exact (Array.getElem?_eq_some_iff.mp (hcar.vertices _ _ hp).2).1
    · exact ⟨_, htgt.trans_le hle, hs.rank_eq htgt⟩
  · exact ⟨_, hsrc.trans_le hle, hs.rank_eq hsrc⟩

/-- On the way between connected vertices no rank is left out. -/
theorem exists_rank_of_together (hs : Spread g.longArcs g h) (hg : g.Consistent)
    (hr : g.Respects) (hsteep : g.Steep) (hv : v < g.size) (hvu : g.Together v u) {k : Int}
    (hk : g.rank u ≤ k) (hk' : k ≤ g.rank v) : ∃ w < h.size, h.rank w = k := by
  induction hvu with
  | refl => exact ⟨v, hv.trans_le hs.size_le, (hs.rank_eq hv).trans (le_antisymm hk hk')⟩
  | @tail x y _ hxy ih =>
    by_cases hx : g.rank x ≤ k
    · exact ih hx
    · -- the step leads upwards past `k`, so it goes against its arc
      have hup : g.Leads y x := hxy.resolve_left fun hdown => by
        obtain ⟨a, arc, harc, hact, rfl, rfl⟩ := hdown
        have hle := hr a arc harc hact
        have hlength := hsteep a arc harc hact
        omega
      obtain ⟨a, arc, harc, hact, rfl, rfl⟩ := hup
      exact hs.exists_rank_of_arc hg harc hact hk (by omega)

/-- **No rank is empty** once the long arcs were split. The ranks down to the largest are those of
vertices that were there before, for a passage lies above the target of its arc, and between
connected vertices no rank is left out. -/
theorem gapless (hs : Spread g.longArcs g h) (hg : g.Consistent) (hr : g.Respects)
    (hsteep : g.Steep) (hzero : g.StartsAtZero) (hpos : 0 < g.size) : h.Gapless := by
  intro k hk hk'
  obtain ⟨w, hw, hmax⟩ := exists_rank_eq_maxRank (hpos.trans_le hs.size_le)
  -- a passage lies above the target of its arc, so some vertex of `g` is as far down
  obtain ⟨v, hv, hkv⟩ : ∃ v < g.size, k ≤ g.rank v := by
    by_cases hlt : w < g.size
    · exact ⟨w, hlt, by rw [← hs.rank_eq hlt, hmax]; exact hk'⟩
    · obtain ⟨c, hc, hwc⟩ := hs.new_nodes w hw (Nat.le_of_not_lt hlt)
      obtain ⟨arc, hcar⟩ := hs.carries c hc
      obtain ⟨i, hi⟩ := List.getElem?_of_mem hwc
      have hrank := hcar.rank_passage hi
      have hlong := hs.long_of_carries hc hcar
      have hlength := hcar.length
      rw [between] at hlength
      have hi' := (List.getElem?_eq_some_iff.mp hi).1
      exact ⟨arc.target, (hg.ends_lt _ arc hcar.carried).2, by omega⟩
  obtain ⟨u, hvu, hu⟩ := hzero.met v hv
  exact hs.exists_rank_of_together hg hr hsteep hv hvu (hu.trans_le hk) hkv

end Spread

/-! ## What becomes of an arc -/

/-- In the graph `h` a path of segments leads from the source of an arc of `g` to its target,
through one new vertex without extent in every rank between. -/
structure Bridged (g h : LayerGraph α) (a : Nat) (arc : Arc α) : Prop where
  inactive : h.arcs[a]? = some { arc with active := false }
  path : ∃ ps : List Nat, ps.length = g.between arc ∧ ps.Nodup ∧
    (∀ v, v ∈ ps ↔ g.size ≤ v ∧ h.carried v = some a) ∧
    (∀ (i p : Nat), ps[i]? = some p → ∃ x, h.nodes[p]? = some x ∧
      x.rank = g.rank arc.source + (i + 1) ∧ x.width = 0.0 ∧ x.height = 0.0) ∧
    (arc.source :: ps ++ [arc.target]).IsChain (h.Joined arc.origin)

/-- How many ranks an arc passes. -/
def passed (g : LayerGraph α) (a : Nat) : Nat :=
  (g.rank (g.target a) - g.rank (g.source a) - 1).toNat

namespace Spread

/-- An arc that is not split stays as it is. -/
theorem getElem?_of_short (hs : Spread g.longArcs g h) {a : Nat} (harc : g.arcs[a]? = some arc)
    (hshort : arc.active = true → g.rank arc.target - g.rank arc.source ≤ 1) :
    h.arcs[a]? = some arc := by
  rw [hs.old_arcs a (Array.getElem?_eq_some_iff.mp harc).1, harc]
  have hkeep : arc.active = true → a ∉ g.longArcs := by
    intro hact ha
    obtain ⟨arc', harc', -, hlong⟩ := mem_longArcs.mp ha
    obtain rfl := Option.some.inj (harc'.symm.trans harc)
    have := hshort hact
    omega
  have hactive : (arc.active && decide (a ∉ g.longArcs)) = arc.active := by
    cases hact : arc.active with
    | false => rfl
    | true => simp [hkeep hact]
  rw [Option.map_some, hactive]

/-- An arc that is split is bridged: it is inactive, and a path of segments leads through its
passages, one in each rank between its ends. -/
theorem bridged (hs : Spread g.longArcs g h) {a : Nat} (ha : a ∈ g.longArcs)
    (harc : g.arcs[a]? = some arc) : Bridged g h a arc := by
  refine ⟨?_, ?_⟩
  · rw [hs.old_arcs a (Array.getElem?_eq_some_iff.mp harc).1, harc]
    simp [ha]
  · obtain ⟨c, hc, rfl, hcar⟩ := hs.exists_chain ha harc
    refine ⟨c.passages, hcar.length, hcar.nodup, fun v => hs.mem_passages (longArcs_nodup g) hc,
      fun i p hp => ⟨_, (hcar.vertices i p hp).2, ?_, rfl, rfl⟩, hcar.isChain_joined hs.consistent⟩
    simp [passageVertex]

/-- As many vertices were put in as the long arcs pass ranks. -/
theorem passageCount_eq (hs : Spread g.longArcs g h) :
    h.passageCount = (g.longArcs.map g.passed).sum := by
  rw [passageCount, ← hs.chain_arcs, List.map_map]
  congr 1
  refine List.map_congr_left fun c hc => ?_
  obtain ⟨arc, hcar⟩ := hs.carries c hc
  rw [hcar.length, Function.comp_apply, between, passed, source_eq hcar.carried,
    target_eq hcar.carried]

end Spread

end Chains

/-! ## Earlier splits -/

/-- The graph without the record of what was split. -/
def withoutChains (g : LayerGraph α) : LayerGraph α := { g with chains := [] }

theorem consistent_withoutChains : g.withoutChains.Consistent ↔ g.Consistent := by
  constructor <;> intro hg
  · exact ⟨hg.outgoing_size, hg.incoming_size, hg.ends_lt, hg.mem_outArcs, hg.mem_inArcs,
      hg.outArcs_nodup, hg.inArcs_nodup⟩
  · exact ⟨hg.outgoing_size, hg.incoming_size, hg.ends_lt, hg.mem_outArcs, hg.mem_inArcs,
      hg.outArcs_nodup, hg.inArcs_nodup⟩

section Earlier

variable [Scalar α]

theorem threadChain_withoutChains (a : Nat) (arc : Arc α) (count step last : Nat)
    (g : LayerGraph α) : threadChain a arc count step last g.withoutChains =
      ((threadChain a arc count step last g).1.withoutChains,
        (threadChain a arc count step last g).2) := by
  induction count generalizing step last g with
  | zero => rfl
  | succ count ih =>
    have hext : g.withoutChains.extendChain arc last (g.withoutChains.passageVertex a arc step) =
        (g.extendChain arc last (g.passageVertex a arc step)).withoutChains := rfl
    rw [threadChain, threadChain, hext]
    simp only [ih]
    rfl

theorem thread_withoutChains (g : LayerGraph α) (a : Nat) (arc : Arc α) :
    (g.withoutChains.thread a arc).1 = (g.thread a arc).1.withoutChains :=
  congrArg Prod.fst (threadChain_withoutChains a arc.asSegment (g.between arc) 1 arc.source
    (g.deactivate a arc.source arc.target))

/-- What is split does not depend on the record of earlier splits. -/
theorem split_withoutChains {g g' : LayerGraph α} (h : g.withoutChains = g'.withoutChains)
    (a : Nat) : (g.split a).1.withoutChains = (g'.split a).1.withoutChains ∧
      (g.split a).2 = (g'.split a).2 := by
  have hforget : ∀ g : LayerGraph α,
      (g.split a).1.withoutChains = (g.withoutChains.split a).1.withoutChains ∧
        (g.split a).2 = (g.withoutChains.split a).2 := by
    intro g
    cases harc : g.arcs[a]? with
    | none =>
      rw [split_of_none harc, split_of_none (g := g.withoutChains) harc]
      exact ⟨rfl, rfl⟩
    | some arc =>
      by_cases hshort : g.between arc = 0
      · rw [split_of_short harc hshort, split_of_short (g := g.withoutChains) harc hshort]
        exact ⟨rfl, rfl⟩
      · rw [split_of_long harc hshort, split_of_long (g := g.withoutChains) harc hshort]
        refine ⟨?_, rfl⟩
        exact (congrArg withoutChains (thread_withoutChains g a arc)).symm
  obtain ⟨hgraph, hcount⟩ := hforget g
  obtain ⟨hgraph', hcount'⟩ := hforget g'
  rw [hgraph, hgraph', hcount, hcount', h]
  exact ⟨rfl, rfl⟩

theorem splitLong_withoutChains (g : LayerGraph α) :
    g.splitLong.1.withoutChains = g.withoutChains.splitLong.1.withoutChains ∧
      g.splitLong.2 = g.withoutChains.splitLong.2 := by
  let step (s : LayerGraph α × Nat) (a : Nat) := ((s.1.split a).1, s.2 + (s.1.split a).2)
  have hfold : ∀ (l : List Nat) (s s' : LayerGraph α × Nat),
      s.1.withoutChains = s'.1.withoutChains → s.2 = s'.2 →
      (l.foldl step s).1.withoutChains = (l.foldl step s').1.withoutChains ∧
        (l.foldl step s).2 = (l.foldl step s').2 := by
    intro l
    induction l with
    | nil => exact fun s s' hgraph hcount => ⟨hgraph, hcount⟩
    | cons a l ih =>
      intro s s' hgraph hcount
      obtain ⟨hgraph', hcount'⟩ := split_withoutChains hgraph a
      exact ih _ _ hgraph' (congrArg₂ _ hcount hcount')
  exact hfold g.longArcs (g, 0) (g.withoutChains, 0) rfl rfl

end Earlier

/-! ## The layered graph -/

theorem Fresh.steep_makeAcyclic (hg : g.Fresh) : g.makeAcyclic.1.Steep := by
  intro a arc harc _
  rw [makeAcyclic, getElem?_foldl_reverse hg.consistent.backArcs_nodup] at harc
  split at harc
  · obtain ⟨arc', harc', rfl⟩ := Option.map_eq_some_iff.mp harc
    exact (hg.arcs a arc' harc').2.2.1.ge
  · exact (hg.arcs a arc harc).2.2.1.ge

/-- What splitting makes of a ranked graph: a proper layering without gaps, in which the vertices
that were there and the arcs over at most one rank are as before and every other arc is bridged. -/
structure ProperlySplit [Scalar α] (g h : LayerGraph α) (count : Nat) : Prop where
  consistent : h.Consistent
  proper : h.Proper
  gapless : h.Gapless
  /-- the vertices that were there keep their ranks and all else -/
  old_nodes : ∀ v < g.size, h.nodes[v]? = g.nodes[v]?
  short : ∀ (a : Nat) arc, g.arcs[a]? = some arc →
    (arc.active = true → g.rank arc.target - g.rank arc.source ≤ 1) → h.arcs[a]? = some arc
  long : ∀ (a : Nat) arc, g.arcs[a]? = some arc → arc.active = true →
    1 < g.rank arc.target - g.rank arc.source → Bridged g h a arc
  /-- no vertex is new but those that bridge an arc -/
  new_nodes : ∀ v < h.size, g.size ≤ v → ∃ a ∈ g.longArcs, h.carried v = some a
  count_eq : count = (g.longArcs.map g.passed).sum

theorem ProperlySplit.of_spread [Scalar α] (hs : Spread g.longArcs g h) (hg : g.Consistent)
    (hr : g.Respects) (hsteep : g.Steep) (hzero : g.StartsAtZero) (hpos : 0 < g.size) :
    ProperlySplit g h h.passageCount where
  consistent := hs.consistent
  proper := hs.proper hg hr hsteep
  gapless := hs.gapless hg hr hsteep hzero hpos
  old_nodes := hs.old_nodes
  short := fun a arc harc => hs.getElem?_of_short harc
  long := fun a arc harc hact hlong => hs.bridged (mem_longArcs.mpr ⟨arc, harc, hact, hlong⟩) harc
  new_nodes := fun v hv hle => by
    obtain ⟨c, hc, hvc⟩ := hs.new_nodes v hv hle
    exact ⟨c.arc, hs.chain_arcs ▸ List.mem_map_of_mem hc,
      ((hs.mem_passages (longArcs_nodup g) hc).mp hvc).2⟩
  count_eq := hs.passageCount_eq

theorem bridged_withoutChains [Scalar α] {a : Nat} {arc : Arc α} :
    Bridged g.withoutChains h.withoutChains a arc ↔ Bridged g h a arc :=
  ⟨fun hb => ⟨hb.inactive, hb.path⟩, fun hb => ⟨hb.inactive, hb.path⟩⟩

/-- The record of the chains plays no part in it. -/
theorem properlySplit_withoutChains [Scalar α] {count : Nat} :
    ProperlySplit g.withoutChains h.withoutChains count ↔ ProperlySplit g h count := by
  constructor <;> intro hp
  · exact ⟨consistent_withoutChains.mp hp.consistent, hp.proper, hp.gapless, hp.old_nodes,
      hp.short, fun a arc harc hact hlong =>
        bridged_withoutChains.mp (hp.long a arc harc hact hlong), hp.new_nodes, hp.count_eq⟩
  · exact ⟨consistent_withoutChains.mpr hp.consistent, hp.proper, hp.gapless, hp.old_nodes,
      hp.short, fun a arc harc hact hlong =>
        bridged_withoutChains.mpr (hp.long a arc harc hact hlong), hp.new_nodes, hp.count_eq⟩

/-- **Ranking and splitting give a proper layering without gaps.** In the graph that comes out every
active arc joins consecutive ranks and no rank is empty; vertices keep their ranks, arcs over at
most one rank stay, and every longer one is inactive and bridged by one vertex without extent in
each rank between. The number returned is that of the vertices put in. -/
theorem assignRanks_splitLong [Scalar α] (hc : g.Consistent) (hg : g.Acyclic) (hs : g.Steep)
    (hpos : 0 < g.size) (strategy : RankStrategy) (limit : Nat) :
    ProperlySplit (g.assignRanks strategy limit) (g.assignRanks strategy limit).splitLong.1
      (g.assignRanks strategy limit).splitLong.2 := by
  have hkeeps := keeps_assignRanks (f := Vertex.id) (fun _ _ => rfl) g strategy limit
  have hzero := assignRanks_startsAtZero hc hg hs strategy limit
  have hrespects := assignRanks_respects hc hg strategy limit
  have hsteep : (g.assignRanks strategy limit).Steep := by
    unfold Steep
    rw [hkeeps.arcs]
    exact hs
  have hsize := hkeeps.size_eq ▸ hpos
  have hcons := hkeeps.consistent hc
  clear hkeeps
  generalize g.assignRanks strategy limit = r at hzero hrespects hsteep hsize hcons
  -- the record of earlier splits is put aside, so that the chains are exactly the new ones
  have hcons' := consistent_withoutChains.mpr hcons
  obtain ⟨hspread, hpassages⟩ := splitLong_spread hcons' rfl
  obtain ⟨hgraph, hcount⟩ := splitLong_withoutChains r
  have hsplit := ProperlySplit.of_spread hspread hcons' hrespects hsteep
    ⟨hzero.nonneg, hzero.met⟩ hsize
  rw [← properlySplit_withoutChains, hgraph, hcount, hpassages]
  exact properlySplit_withoutChains (g := r.withoutChains).mpr hsplit

/-- In the ring one arc passes two ranks, and two passages are put in for it. -/
theorem assignRanks_splitLong_ring : ring.makeAcyclic.1.Consistent ∧ ring.makeAcyclic.1.Acyclic ∧
    ring.makeAcyclic.1.Steep ∧ 0 < ring.makeAcyclic.1.size ∧
    (ring.makeAcyclic.1.assignRanks .tightTree 0).splitLong.2 = 2 ∧
    ProperlySplit (ring.makeAcyclic.1.assignRanks .tightTree 0)
      (ring.makeAcyclic.1.assignRanks .tightTree 0).splitLong.1
      (ring.makeAcyclic.1.assignRanks .tightTree 0).splitLong.2 := by
  have hc : ring.makeAcyclic.1.Consistent := ring_built.fresh.consistent.foldl_reverse _
  have ha : ring.makeAcyclic.1.Acyclic :=
    ring_built.fresh.consistent.acyclic_foldl_backArcs ring_built.fresh.loopless
  have hs : ring.makeAcyclic.1.Steep := ring_built.fresh.steep_makeAcyclic
  have hpos : 0 < ring.makeAcyclic.1.size := by decide +kernel
  exact ⟨hc, ha, hs, hpos, by decide +kernel, assignRanks_splitLong hc ha hs hpos .tightTree 0⟩

end LayerGraph

end Flowchart
