import Flowchart.Proofs.LayerGraph.Building
import Mathlib.Algebra.GroupWithZero.Nat

/-!
# Splitting long arcs

An arc over more than one rank is taken out of the adjacency and a chain of segments put in its
place, through one new vertex in each rank between. Everything is appended: the vertices and the
arcs that were there keep their positions, and but for the arc that was split they keep their
contents.

* `threadChain_threaded` and `Consistent.split` say what is appended for one arc.
* `splitLong_spread` says what the graph looks like after all long arcs were split: for every one of
  them there is one chain, and apart from the chains nothing is new.
-/

namespace Flowchart

variable {α : Type}

/-- An arc as the segments of its chain inherit it. -/
def Arc.asSegment (arc : Arc α) : Arc α := { arc with minLength := 1, active := true }

/-- An arc moved to other ends. -/
def Arc.between (arc : Arc α) (s t : Nat) : Arc α := { arc with source := s, target := t }

/-- The segments that lead from a vertex through others to the target of an arc. -/
def Arc.segments (arc : Arc α) : Nat → List Nat → List (Arc α)
  | last, [] => [arc.between last arc.target]
  | last, p :: ps => arc.between last p :: arc.segments p ps

/-- What holds of the ends of every segment holds along the whole chain. -/
theorem Arc.isChain_segments (arc : Arc α) {R : Nat → Nat → Prop} {last : Nat} {ps : List Nat}
    (h : ∀ x y, arc.between x y ∈ arc.segments last ps → R x y) :
    List.IsChain R (last :: ps ++ [arc.target]) := by
  induction ps generalizing last with
  | nil => exact .cons_cons (h _ _ (List.mem_singleton.mpr rfl)) (.singleton _)
  | cons p ps ih =>
    exact .cons_cons (h _ _ List.mem_cons_self)
      (ih fun x y hxy => h x y (List.mem_cons_of_mem _ hxy))

namespace LayerGraph

variable {g g' h : LayerGraph α}

/-! ## Taking an arc out -/

/-- The graph without an arc: it is in no list and marked as inactive. -/
def deactivate (g : LayerGraph α) (a source target : Nat) : LayerGraph α :=
  { g.unlist a source target with arcs := g.arcs.modify a ({ · with active := false }) }

/-- Taking an arc out is seen in the table of arcs at its number only, where the arc is no longer
active. -/
theorem arcs_deactivate (g : LayerGraph α) (a s t b : Nat) :
    (g.deactivate a s t).arcs[b]? =
      if b = a then g.arcs[b]?.map ({ · with active := false }) else g.arcs[b]? := by
  simp only [deactivate, Array.getElem?_modify, eq_comm (a := b)]

/-- The arc is no longer listed where it leaves, and other lists stay. -/
theorem outArcs_deactivate (g : LayerGraph α) (a s t v : Nat) :
    (g.deactivate a s t).outArcs v = if v = s then (g.outArcs v).filter (· != a) else g.outArcs v :=
  outArcs_unlist g a s t v

theorem inArcs_deactivate (g : LayerGraph α) (a s t v : Nat) :
    (g.deactivate a s t).inArcs v = if v = t then (g.inArcs v).filter (· != a) else g.inArcs v :=
  inArcs_unlist g a s t v

/-- An arc that is taken out is listed nowhere any more, as it has to be once it is not active. -/
theorem Consistent.deactivate (hg : g.Consistent) {a : Nat} {arc : Arc α}
    (ha : g.arcs[a]? = some arc) : (g.deactivate a arc.source arc.target).Consistent := by
  have harcs := arcs_deactivate g a arc.source arc.target
  refine ⟨?_, ?_, fun b arc' hb => ?_, fun v b => ?_, fun v b => ?_, fun v => ?_, fun v => ?_⟩
  · exact Array.size_modify.trans hg.outgoing_size
  · exact Array.size_modify.trans hg.incoming_size
  · rw [harcs] at hb
    split at hb
    · subst_vars
      rw [ha] at hb
      cases hb
      exact hg.ends_lt _ arc ha
    · exact hg.ends_lt b arc' hb
  · rw [outArcs_deactivate, harcs]
    by_cases hb : b = a
    · subst hb
      have hout : b ∈ g.outArcs v → arc.source = v := by simp [hg.mem_outArcs, ha]
      split
      · simp [ha]
      · simpa [ha] using fun hb => ‹¬v = arc.source› (hout hb).symm
    · split <;> simp [hb, hg.mem_outArcs]
  · rw [inArcs_deactivate, harcs]
    by_cases hb : b = a
    · subst hb
      have hin : b ∈ g.inArcs v → arc.target = v := by simp [hg.mem_inArcs, ha]
      split
      · simp [ha]
      · simpa [ha] using fun hb => ‹¬v = arc.target› (hin hb).symm
    · split <;> simp [hb, hg.mem_inArcs]
  · rw [outArcs_deactivate]
    split
    · exact (hg.outArcs_nodup v).filter _
    · exact hg.outArcs_nodup v
  · rw [inArcs_deactivate]
    split
    · exact (hg.inArcs_nodup v).filter _
    · exact hg.inArcs_nodup v

/-! ## Threading one chain -/

section Thread

variable [Scalar α] {a : Nat} {arc : Arc α}

/-- A passage is described by the two ends of the arc it carries. -/
theorem passageVertex_congr {arc' : Arc α} (hs : arc'.source = arc.source)
    (ht : arc'.target = arc.target) (hsource : g'.nodes[arc.source]? = g.nodes[arc.source]?)
    (htarget : g'.nodes[arc.target]? = g.nodes[arc.target]?) (step : Nat) :
    g'.passageVertex a arc' step = g.passageVertex a arc step := by
  simp only [passageVertex, rank, cluster, hs, ht, hsource, htarget]

/-- The outcome of threading a chain of `count` passages from the vertex `last`. -/
structure Threaded (a : Nat) (arc : Arc α) (count step last : Nat) (g g' : LayerGraph α)
    (ps : List Nat) : Prop where
  consistent : g'.Consistent
  passages : ps = List.range' g.size count
  nodes : g'.nodes.toList = g.nodes.toList ++ (List.range' step count).map (g.passageVertex a arc)
  arcs : g'.arcs.toList = g.arcs.toList ++ arc.segments last ps
  chains : g'.chains = g.chains
  index : g'.index = g.index

/-- Threading a chain appends its passages and its segments and nothing else. By induction on
the passages: the rest of the chain starts at the new vertex, and sees the ends of the arc as
they were. -/
theorem threadChain_threaded (a : Nat) (arc : Arc α) (hg : g.Consistent)
    (hact : arc.active = true) {last : Nat} (hlast : last < g.size) (hs : arc.source < g.size)
    (ht : arc.target < g.size)
    (count step : Nat) :
    Threaded a arc count step last g (threadChain a arc count step last g).1
      (threadChain a arc count step last g).2 := by
  induction count generalizing step last g with
  | zero =>
    refine ⟨hg.pushArc hlast ht hact, rfl, ?_, ?_, rfl, rfl⟩
    · simp [threadChain, pushArc]
    · simp [threadChain, pushArc, Arc.segments, Arc.between]
  | succ count ih =>
    let x := g.passageVertex a arc step
    have hsize : (g.extendChain arc last x).size = g.size + 1 := size_pushNode g x
    have hpushed : (g.pushNode x).size = g.size + 1 := size_pushNode g x
    have hext : (g.extendChain arc last x).Consistent :=
      (hg.pushNode x).pushArc (by rw [hpushed]; exact Nat.lt_succ_of_lt hlast)
        (by rw [hpushed]; exact Nat.lt_succ_self _) hact
    -- the rest of the chain starts at the new vertex and sees the ends of the arc as they were
    have hold : ∀ v < g.size, (g.extendChain arc last x).nodes[v]? = g.nodes[v]? := fun v hv =>
      (Array.getElem?_push.trans (if_neg (Nat.ne_of_lt hv)))
    have hvertex : (g.extendChain arc last x).passageVertex a arc = g.passageVertex a arc :=
      funext fun i => passageVertex_congr rfl rfl (hold _ hs) (hold _ ht) i
    have hnew : g.size < (g.extendChain arc last x).size := hsize ▸ Nat.lt_succ_self _
    obtain ⟨hcons, hps, hnodes, harcs, hchains, hindex⟩ :=
      ih hext hnew (Nat.lt_trans hs hnew) (Nat.lt_trans ht hnew) (step + 1)
    refine ⟨hcons, ?_, ?_, ?_, hchains, hindex⟩
    · rw [threadChain, List.range'_succ, ← hsize]
      exact congrArg _ hps
    · rw [threadChain, List.range'_succ, List.map_cons]
      refine hnodes.trans ?_
      rw [hvertex]
      simp [extendChain, pushArc, pushNode, x]
    · rw [threadChain]
      refine harcs.trans ?_
      simp [extendChain, pushArc, pushNode, Arc.segments, Arc.between, x]

/-! ## Splitting one arc -/

/-- How many passages an arc needs. -/
def between (g : LayerGraph α) (arc : Arc α) : Nat :=
  (g.rank arc.target - g.rank arc.source - 1).toNat

/-- The outcome of splitting an arc: its chain is appended, and the arc is taken out. -/
structure SplitAt (a : Nat) (arc : Arc α) (g g' : LayerGraph α) : Prop where
  consistent : g'.Consistent
  nodes : g'.nodes.toList =
    g.nodes.toList ++ (List.range' 1 (g.between arc)).map (g.passageVertex a arc)
  arcs : g'.arcs.toList = (g.deactivate a arc.source arc.target).arcs.toList ++
    arc.asSegment.segments arc.source (List.range' g.size (g.between arc))
  chains : g'.chains = g.chains ++ [⟨a, List.range' g.size (g.between arc), arc.reversed⟩]
  /-- the passages are not indexed -/
  index : g'.index = g.index

/-- The graph with the chain of an arc, which is not on record yet, and the passages of the
chain. -/
def thread (g : LayerGraph α) (a : Nat) (arc : Arc α) : LayerGraph α × List Nat :=
  threadChain a arc.asSegment (g.between arc) 1 arc.source (g.deactivate a arc.source arc.target)

theorem split_of_none (ha : g.arcs[a]? = none) : g.split a = (g, 0) := by
  rw [LayerGraph.split, ha]

/-- An arc with no rank between its ends is left alone. -/
theorem split_of_short (ha : g.arcs[a]? = some arc) (hshort : g.between arc = 0) :
    g.split a = (g, 0) := by
  rw [LayerGraph.split, ha]
  exact if_pos (beq_iff_eq.mpr hshort)

/-- An arc with ranks between its ends is threaded through them, and its chain is noted. -/
theorem split_of_long (ha : g.arcs[a]? = some arc) (hlong : g.between arc ≠ 0) :
    g.split a = ({ (g.thread a arc).1 with
      chains := (g.thread a arc).1.chains ++ [⟨a, (g.thread a arc).2, arc.reversed⟩] },
      g.between arc) := by
  rw [LayerGraph.split, ha]
  exact if_neg (mt beq_iff_eq.mp hlong)

/-- Splitting a long arc takes it out and threads a chain in its place. The number reported is that
of the ranks between its ends. -/
theorem Consistent.split (hg : g.Consistent) (ha : g.arcs[a]? = some arc)
    (hlong : 1 < g.rank arc.target - g.rank arc.source) :
    SplitAt a arc g (g.split a).1 ∧ (g.split a).2 = g.between arc := by
  obtain ⟨hs, ht⟩ := hg.ends_lt a arc ha
  have hne : g.between arc ≠ 0 := by
    rw [between]
    omega
  have hthread : Threaded a arc.asSegment (g.between arc) 1 arc.source
      (g.deactivate a arc.source arc.target) (g.thread a arc).1 (g.thread a arc).2 :=
    threadChain_threaded a arc.asSegment (hg.deactivate ha) rfl hs hs ht (g.between arc) 1
  rw [split_of_long ha hne]
  refine ⟨⟨?_, hthread.nodes, ?_, ?_, hthread.index⟩, rfl⟩
  · obtain ⟨h1, h2, h3, h4, h5, h6, h7⟩ := hthread.consistent
    exact ⟨h1, h2, h3, h4, h5, h6, h7⟩
  · exact hthread.passages ▸ hthread.arcs
  · rw [hthread.chains, hthread.passages]
    rfl

end Thread

/-! ## What a split appends -/

/-- A chain of the graph `h` carries one long arc of the graph `g`: one passage for every rank
between, and segments along the chain. -/
structure Carries [Scalar α] (g h : LayerGraph α) (c : PassageChain) (arc : Arc α) : Prop where
  carried : g.arcs[c.arc]? = some arc
  reversed : c.reversed = arc.reversed
  length : c.passages.length = g.between arc
  nodup : c.passages.Nodup
  vertices : ∀ (i p : Nat), c.passages[i]? = some p →
    g.size ≤ p ∧ h.nodes[p]? = some (g.passageVertex c.arc arc (i + 1))
  segments : ∀ x ∈ arc.asSegment.segments arc.source c.passages,
    ∃ b, g.arcs.size ≤ b ∧ h.arcs[b]? = some x

section Append

variable [Scalar α] {a : Nat} {arc : Arc α} {c : PassageChain}

namespace SplitAt

/-- There is one new vertex for each rank between the ends. -/
theorem size_eq (h : SplitAt a arc g g') : g'.size = g.size + g.between arc := by
  simpa [size] using congrArg List.length h.nodes

/-- The vertices that were there before an arc is split stay as they are. -/
theorem nodes_old (h : SplitAt a arc g g') {p : Nat} (hp : p < g.size) :
    g'.nodes[p]? = g.nodes[p]? := by
  rw [Table.getElem?_of_toList_append h.nodes]
  exact if_pos hp

/-- The arcs that were there stay, but for the one that was split, and the segments come after
them. -/
theorem getElem?_arcs (h : SplitAt a arc g g') (b : Nat) : g'.arcs[b]? =
    if b < g.arcs.size then
      if b = a then g.arcs[b]?.map ({ · with active := false }) else g.arcs[b]?
    else
      (arc.asSegment.segments arc.source (List.range' g.size (g.between arc)))[b - g.arcs.size]? := by
  have hsize : (g.deactivate a arc.source arc.target).arcs.size = g.arcs.size := Array.size_modify
  rw [Table.getElem?_of_toList_append h.arcs, hsize, arcs_deactivate]

theorem arcs_size_le (h : SplitAt a arc g g') : g.arcs.size ≤ g'.arcs.size := by
  have hlen := congrArg List.length h.arcs
  simp only [deactivate, List.length_append, Array.length_toList, Array.size_modify] at hlen
  omega

/-- The chain that was noted carries the arc: its passages and segments are those that were
appended. -/
theorem carries (h : SplitAt a arc g g') (harc : g.arcs[a]? = some arc) :
    Carries g g' ⟨a, List.range' g.size (g.between arc), arc.reversed⟩ arc := by
  refine ⟨harc, rfl, List.length_range', List.nodup_range', fun i p hp => ?_, fun x hx => ?_⟩
  · obtain ⟨hi, rfl⟩ := List.getElem?_eq_some_iff.mp hp
    have hi' : i < g.between arc := by simpa using hi
    rw [List.getElem_range', Table.getElem?_of_toList_append h.nodes]
    simp [size, hi', Nat.add_comm]
  · obtain ⟨i, hi, rfl⟩ := List.getElem_of_mem hx
    refine ⟨g.arcs.size + i, Nat.le_add_right _ _, ?_⟩
    rw [h.getElem?_arcs, if_neg (by omega), Nat.add_sub_cancel_left]
    exact List.getElem?_eq_getElem hi

end SplitAt

namespace Carries

/-- A chain is still carried when the graph grows, as long as its vertices and its segments stay. -/
theorem mono {h' : LayerGraph α} (hc : Carries g h c arc)
    (hnodes : ∀ (p : Nat) x, h.nodes[p]? = some x → h'.nodes[p]? = some x)
    (harcs : ∀ (b : Nat) x, g.arcs.size ≤ b → h.arcs[b]? = some x → h'.arcs[b]? = some x) :
    Carries g h' c arc := by
  refine { hc with vertices := fun i p hp => ?_, segments := fun x hx => ?_ }
  · exact ⟨(hc.vertices i p hp).1, hnodes p _ (hc.vertices i p hp).2⟩
  · obtain ⟨b, hb, hbx⟩ := hc.segments x hx
    exact ⟨b, hb, harcs b x hb hbx⟩

/-- A chain that was put into a later graph is one of an earlier graph with the same arc between the
same vertices. -/
theorem base {g₀ : LayerGraph α} (hc : Carries g h c arc) (harc : g₀.arcs[c.arc]? = some arc)
    (hsize : g₀.size ≤ g.size) (harcs : g₀.arcs.size ≤ g.arcs.size)
    (hs : g.nodes[arc.source]? = g₀.nodes[arc.source]?)
    (ht : g.nodes[arc.target]? = g₀.nodes[arc.target]?) : Carries g₀ h c arc := by
  refine ⟨harc, hc.reversed, ?_, hc.nodup, fun i p hp => ?_, fun x hx => ?_⟩
  · rw [hc.length]
    simp only [between, rank, hs, ht]
  · obtain ⟨hle, hx⟩ := hc.vertices i p hp
    exact ⟨Nat.le_trans hsize hle, hx.trans (congrArg some (passageVertex_congr rfl rfl hs ht _))⟩
  · obtain ⟨b, hb, hbx⟩ := hc.segments x hx
    exact ⟨b, Nat.le_trans harcs hb, hbx⟩

end Carries

end Append

/-! ## Splitting all long arcs -/

/-- The number of all passages. -/
def passageCount (g : LayerGraph α) : Nat := (g.chains.map fun c => c.passages.length).sum

/-- The graph `h` is the graph `g` in which the arcs `done` were split. -/
structure Spread [Scalar α] (done : List Nat) (g h : LayerGraph α) : Prop where
  consistent : h.Consistent
  /-- no vertex was indexed -/
  index : h.index = g.index
  size_le : g.size ≤ h.size
  arcs_size_le : g.arcs.size ≤ h.arcs.size
  /-- there is one chain for every arc that was split -/
  chain_arcs : h.chains.map PassageChain.arc = done
  carries : ∀ c ∈ h.chains, ∃ arc, Carries g h c arc
  old_nodes : ∀ v < g.size, h.nodes[v]? = g.nodes[v]?
  /-- no vertex is new but the passages -/
  new_nodes : ∀ v < h.size, g.size ≤ v → ∃ c ∈ h.chains, v ∈ c.passages
  old_arcs : ∀ b < g.arcs.size, h.arcs[b]? =
    g.arcs[b]?.map fun arc => { arc with active := arc.active && decide (b ∉ done) }
  /-- no arc is new but the segments -/
  new_arcs : ∀ (b : Nat) x, g.arcs.size ≤ b → h.arcs[b]? = some x → ∃ c ∈ h.chains, ∃ arc,
    Carries g h c arc ∧ x ∈ arc.asSegment.segments arc.source c.passages

/-- The arcs to be split are the active ones over more than one rank. -/
theorem mem_longArcs {a : Nat} : a ∈ g.longArcs ↔ ∃ arc, g.arcs[a]? = some arc ∧ arc.active = true ∧
    1 < g.rank arc.target - g.rank arc.source := by
  simp only [longArcs, List.mem_filter, List.mem_range]
  constructor
  · rintro ⟨-, h⟩
    cases harc : g.arcs[a]? with
    | none => simp [harc] at h
    | some arc => exact ⟨arc, rfl, by simpa [harc] using h⟩
  · rintro ⟨arc, harc, hact, hlong⟩
    exact ⟨(Array.getElem?_eq_some_iff.mp harc).1, by simp [harc, hact, hlong]⟩

theorem longArcs_nodup (g : LayerGraph α) : g.longArcs.Nodup := List.nodup_range.filter _

section Spread

variable [Scalar α] {done : List Nat} {a : Nat} {arc : Arc α}

theorem Spread.refl (hg : g.Consistent) (hc : g.chains = []) : Spread [] g g where
  consistent := hg
  index := rfl
  size_le := Nat.le_refl _
  arcs_size_le := Nat.le_refl _
  chain_arcs := by rw [hc]; rfl
  carries := by simp [hc]
  old_nodes := fun _ _ => rfl
  new_nodes := fun v hv hle => absurd hv (Nat.not_lt.mpr hle)
  old_arcs := fun b _ => by simp
  new_arcs := fun b x hle hx => absurd hx (by simp [hle])

/-- The chains made so far are still carried: splitting one more arc adds vertices and arcs, and of
the earlier arcs it changes only this one, which is no segment. -/
theorem SplitAt.carries_mono (hsplit : SplitAt a arc h g') (ha : a < g.arcs.size)
    {c : PassageChain} {arc' : Arc α} (hc : Carries g h c arc') : Carries g g' c arc' := by
  refine hc.mono (fun p x hp => ?_) fun b x hb hx => ?_
  · exact (hsplit.nodes_old (Array.getElem?_eq_some_iff.mp hp).1).trans hp
  · rw [hsplit.getElem?_arcs, if_pos (Array.getElem?_eq_some_iff.mp hx).1, if_neg (by omega), hx]

namespace Spread

/-- A vertex that was there in the beginning keeps its rank. -/
theorem rank_eq {v : Nat} (hs : Spread done g h) (hv : v < g.size) : h.rank v = g.rank v := by
  rw [rank, rank, hs.old_nodes v hv]

section Extend

variable (hs : Spread done g h) (harc : g.arcs[a]? = some arc)

include hs harc in
/-- An arc that was not split yet is as it was in the beginning. -/
theorem pending (ha : a ∉ done) : h.arcs[a]? = some arc := by
  rw [hs.old_arcs a (Array.getElem?_eq_some_iff.mp harc).1, harc]
  simp [ha]

variable (hsplit : SplitAt a arc h g')

include hs hsplit in
/-- A vertex that was not there in the beginning is a passage of an earlier chain or of the new
one. -/
theorem new_nodes_split {v : Nat} (hv : v < g'.size) (hle : g.size ≤ v) :
    ∃ c ∈ g'.chains, v ∈ c.passages := by
  have hsize := hsplit.size_eq
  rw [hsplit.chains]
  by_cases hlt : v < h.size
  · obtain ⟨c, hc, hv⟩ := hs.new_nodes v hlt hle
    exact ⟨c, List.mem_append_left _ hc, hv⟩
  · refine ⟨_, List.mem_append_right _ (List.mem_singleton.mpr rfl), ?_⟩
    rw [List.mem_range'_1]
    omega

include hs harc hsplit

/-- The new chain is carried as if the arc had been split in the graph of the beginning. -/
theorem carries_split (hg : g.Consistent) (ha : a ∉ done) :
    Carries g g' ⟨a, List.range' h.size (h.between arc), arc.reversed⟩ arc := by
  obtain ⟨hsrc, htgt⟩ := hg.ends_lt a arc harc
  exact (hsplit.carries (hs.pending harc ha)).base harc hs.size_le hs.arcs_size_le
    (hs.old_nodes _ hsrc) (hs.old_nodes _ htgt)

/-- An arc that was not there in the beginning is a segment of an earlier chain or of the new
one. -/
theorem new_arcs_split (hg : g.Consistent) (ha : a ∉ done) {b : Nat} {x : Arc α}
    (hb : g.arcs.size ≤ b) (hx : g'.arcs[b]? = some x) : ∃ c ∈ g'.chains, ∃ arc,
      Carries g g' c arc ∧ x ∈ arc.asSegment.segments arc.source c.passages := by
  have halt : a < g.arcs.size := (Array.getElem?_eq_some_iff.mp harc).1
  rw [hsplit.chains]
  rw [hsplit.getElem?_arcs] at hx
  by_cases hlt : b < h.arcs.size
  · rw [if_pos hlt, if_neg (by omega)] at hx
    obtain ⟨c, hc, arc', hcar, hmem⟩ := hs.new_arcs b x hb hx
    exact ⟨c, List.mem_append_left _ hc, arc', hsplit.carries_mono halt hcar, hmem⟩
  · rw [if_neg hlt] at hx
    exact ⟨_, List.mem_append_right _ (List.mem_singleton.mpr rfl), arc,
      hs.carries_split harc hsplit hg ha, List.mem_of_getElem? hx⟩

/-- Of the arcs of the beginning, one more is inactive now. -/
theorem old_arcs_split {b : Nat} (hb : b < g.arcs.size) : g'.arcs[b]? =
    g.arcs[b]?.map fun arc => { arc with active := arc.active && decide (b ∉ done ++ [a]) } := by
  rw [hsplit.getElem?_arcs, if_pos (Nat.lt_of_lt_of_le hb hs.arcs_size_le), hs.old_arcs b hb]
  by_cases hba : b = a
  · subst hba
    simp [harc]
  · simp [hba]

/-- **One more arc is split.** What was said of the arcs split so far holds with this one as
well. -/
theorem extend (hg : g.Consistent) (ha : a ∉ done) : Spread (done ++ [a]) g g' where
  consistent := hsplit.consistent
  index := hsplit.index.trans hs.index
  size_le := by
    have hsize := hsplit.size_eq
    have hle := hs.size_le
    omega
  arcs_size_le := Nat.le_trans hs.arcs_size_le hsplit.arcs_size_le
  chain_arcs := by
    rw [hsplit.chains, List.map_append, hs.chain_arcs]
    rfl
  carries c hc := by
    rw [hsplit.chains] at hc
    rcases List.mem_append.mp hc with hc | hc
    · obtain ⟨arc', hcar⟩ := hs.carries c hc
      exact ⟨arc', hsplit.carries_mono (Array.getElem?_eq_some_iff.mp harc).1 hcar⟩
    · obtain rfl := List.mem_singleton.mp hc
      exact ⟨arc, hs.carries_split harc hsplit hg ha⟩
  old_nodes v hv :=
    (hsplit.nodes_old (Nat.lt_of_lt_of_le hv hs.size_le)).trans (hs.old_nodes v hv)
  new_nodes v hv hle := hs.new_nodes_split hsplit hv hle
  old_arcs b hb := hs.old_arcs_split harc hsplit hb
  new_arcs b x hb hx := hs.new_arcs_split harc hsplit hg ha hb hx

end Extend

/-- **One more arc may be split**: it has not been touched by the splits so far, so that the arc and
its ends are as they were in the beginning. -/
theorem split (hs : Spread done g h) (hg : g.Consistent) (harc : g.arcs[a]? = some arc)
    (hlong : 1 < g.rank arc.target - g.rank arc.source) (ha : a ∉ done) :
    Spread (done ++ [a]) g (h.split a).1 ∧
      (h.split a).1.passageCount = h.passageCount + (h.split a).2 := by
  obtain ⟨hsrc, htgt⟩ := hg.ends_lt a arc harc
  obtain ⟨hsplit, hcount⟩ := hs.consistent.split (hs.pending harc ha)
    (by rwa [hs.rank_eq htgt, hs.rank_eq hsrc])
  refine ⟨hs.extend harc hsplit hg ha, ?_⟩
  simp [passageCount, hsplit.chains, hcount]

end Spread

/-- **Every long arc is split into a chain of its own**, and nothing else changes. The number
returned is that of all passages. The induction is over the arcs that are still to be split, with
those that were split before as its invariant. -/
theorem splitLong_spread (hg : g.Consistent) (hc : g.chains = []) :
    Spread g.longArcs g g.splitLong.1 ∧ g.splitLong.2 = g.splitLong.1.passageCount := by
  let step (s : LayerGraph α × Nat) (a : Nat) := ((s.1.split a).1, s.2 + (s.1.split a).2)
  -- over the arcs still to be split, with those split before
  have hfold : ∀ (l done : List Nat) (s : LayerGraph α × Nat), (done ++ l).Nodup →
      (∀ a ∈ l, a ∈ g.longArcs) → Spread done g s.1 → s.2 = s.1.passageCount →
      Spread (done ++ l) g (l.foldl step s).1 ∧
        (l.foldl step s).2 = (l.foldl step s).1.passageCount := by
    intro l
    induction l with
    | nil => exact fun done s _ _ hs hcount => ⟨by simpa using hs, hcount⟩
    | cons a l ih =>
      intro done s hnodup hl hs hcount
      obtain ⟨arc, harc, -, hlong⟩ := mem_longArcs.mp (hl a List.mem_cons_self)
      have ha : a ∉ done := fun hmem =>
        (List.nodup_append.mp hnodup).2.2 a hmem a List.mem_cons_self rfl
      obtain ⟨hspread, hn⟩ := hs.split hg harc hlong ha
      have happend : done ++ a :: l = done ++ [a] ++ l := by simp
      rw [happend]
      exact ih (done ++ [a]) (step s a) (happend ▸ hnodup)
        (fun b hb => hl b (List.mem_cons_of_mem _ hb)) hspread (by rw [hn, ← hcount])
  exact hfold g.longArcs [] (g, 0) (longArcs_nodup g) (fun _ h => h) (.refl hg hc)
    (by simp [passageCount, hc])

end Spread

end LayerGraph

end Flowchart
