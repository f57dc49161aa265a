import Mathlib.Data.List.Chain
import Mathlib.Data.List.Pairwise
import Flowchart.Proofs.LayerGraph.Sweeps
import Flowchart.Proofs.Scalar.Exact

/-!
# Coordinates keep boxes apart

In exact arithmetic no box comes to lie on another one:

* the ranks are stacked, and each begins a gap below the thickest member of the one before;
* within a rank the seed puts neighbours at the distance they have to keep, and a vertex is moved
  only where its distances to all members of the rank are kept, up to a tolerance. The distances are
  looked at anew for every move, so the tolerance does not add up;
* what is done to the whole drawing in the end, a shift, an exchange of the axes and a reflection,
  changes no distance.

The state between the phases is described by `Apart`, a relation of neighbours in a rank.
-/

namespace Flowchart

variable {α : Type}

/-- What the distance to other boxes depends on. -/
def Vertex.profile (n : Vertex α) : α × α × Bool := (n.width, n.height, n.isPassage)

/-- Everything about a vertex but its centre. -/
def Vertex.uncentred [Scalar α] (n : Vertex α) : Vertex α := { n with x := 0.0, y := 0.0 }

/-- No gap is negative. -/
structure Spacing.Nonneg (spacing : Spacing ℚ) : Prop where
  nodeGap : 0 ≤ spacing.nodeGap
  rankGap : 0 ≤ spacing.rankGap
  edgeGap : 0 ≤ spacing.edgeGap

namespace LayerGraph

section Reading

variable {β γ : Type} {f : Vertex α → β} {g g' : LayerGraph α}

/-- What is computed from a part that is kept is kept. -/
theorem Keeps.comp (h : Keeps f g g') (k : β → γ) : Keeps (fun n => k (f n)) g g' :=
  ⟨h.index, h.arcs, h.outgoing, h.incoming, h.chains, by
    simpa [Function.comp_def] using congrArg (Array.map k) h.nodes⟩

variable [Scalar α]

/-- The y coordinate of a vertex. -/
def yOf (g : LayerGraph α) (v : Nat) : α := (g.position v).y

/-- The coordinate of a vertex across the flow. -/
def across (g : LayerGraph α) (d : Direction) (v : Nat) : α :=
  if d.isHorizontal then g.yOf v else g.xOf v

/-- The coordinate of a vertex along the flow. -/
def along (g : LayerGraph α) (d : Direction) (v : Nat) : α :=
  if d.isHorizontal then g.xOf v else g.yOf v

/-- The second coordinate of a vertex is read off its entry, and is zero where there is none. -/
theorem yOf_eq (g : LayerGraph α) (v : Nat) : g.yOf v = (g.nodes[v]?.map Vertex.y).getD 0.0 := by
  rw [yOf, position]
  cases g.nodes[v]? <;> rfl

theorem xOf_eq (g : LayerGraph α) (v : Nat) : g.xOf v = (g.nodes[v]?.map Vertex.x).getD 0.0 := by
  rw [xOf, position]
  cases g.nodes[v]? <;> rfl

theorem Keeps.yOf_eq (h : Keeps Vertex.y g g') (v : Nat) : g'.yOf v = g.yOf v := by
  rw [LayerGraph.yOf_eq, LayerGraph.yOf_eq, h.getElem? v]

section Profile

variable (h : Keeps Vertex.profile g g') (d : Direction) (spacing : Spacing α) (u v : Nat)
include h

theorem Keeps.crossSize_eq : g'.crossSize d v = g.crossSize d v := by
  have hv := h.getElem? v
  unfold crossSize
  cases hn : g.nodes[v]? <;> cases hn' : g'.nodes[v]? <;> simp_all [Vertex.profile]

theorem Keeps.mainSize_eq : g'.mainSize d v = g.mainSize d v := by
  have hv := h.getElem? v
  unfold mainSize
  cases hn : g.nodes[v]? <;> cases hn' : g'.nodes[v]? <;> simp_all [Vertex.profile]

/-- The distance that two vertices have to keep depends on their sizes and on which of them are
passages, so it stays while these do. -/
theorem Keeps.requiredDistance_eq :
    g'.requiredDistance d spacing u v = g.requiredDistance d spacing u v := by
  have hpassage : ∀ w, g'.isPassage w = g.isPassage w := fun w =>
    congrArg (Option.getD · false) ((h.comp fun p => p.2.2).getElem? w)
  simp only [requiredDistance, gapBetween, h.crossSize_eq, hpassage]

end Profile

/-- Writing a first coordinate is seen at the vertex written, provided that it exists, and nowhere
else. -/
theorem xOf_setX (g : LayerGraph α) (u v : Nat) (a : α) :
    (g.updateNode u ({ · with x := a })).xOf v = if v = u ∧ u < g.size then a else g.xOf v := by
  simp only [xOf_eq, updateNode, Array.getElem?_modify]
  by_cases hv : v = u
  · subst hv
    by_cases hlt : v < g.nodes.size <;> simp [hlt, size]
  · simp [hv, Ne.symm hv]

/-- Writing a second coordinate is seen at the vertex written, provided that it exists, and nowhere
else. -/
theorem yOf_setY (g : LayerGraph α) (u v : Nat) (b : α) :
    (g.updateNode u ({ · with y := b })).yOf v = if v = u ∧ u < g.size then b else g.yOf v := by
  simp only [yOf_eq, updateNode, Array.getElem?_modify]
  by_cases hv : v = u
  · subst hv
    by_cases hlt : v < g.nodes.size <;> simp [hlt, size]
  · simp [hv, Ne.symm hv]

end Reading

/-! ## Moving members -/

section Moving

variable [Scalar α] {g g' g'' : LayerGraph α} {members : List Nat} {u v : Nat}

/-- Nothing but centres of the members has changed. -/
structure Moves (members : List Nat) (g g' : LayerGraph α) : Prop
    extends Keeps Vertex.profile g g' where
  ranks : g'.ranks = g.ranks
  rest : ∀ v, v ∉ members → g'.position v = g.position v

namespace Moves

theorem refl (members : List Nat) (g : LayerGraph α) : Moves members g g :=
  ⟨.refl _ g, rfl, fun _ _ => rfl⟩

/-- What two steps do to the members of a rank, they do one after the other. -/
theorem trans (h : Moves members g g') (h' : Moves members g' g'') : Moves members g g'' :=
  ⟨h.toKeeps.trans h'.toKeeps, h'.ranks.trans h.ranks,
    fun v hv => (h'.rest v hv).trans (h.rest v hv)⟩

/-- What moves the members of a part moves no vertex outside of the whole. -/
theorem mono {larger : List Nat} (h : Moves members g g') (hsub : members ⊆ larger) :
    Moves larger g g' :=
  ⟨h.toKeeps, h.ranks, fun v hv => h.rest v fun hm => hv (hsub hm)⟩

/-- Rewriting one member moves the members, if its sizes stay what they are. -/
theorem update (g : LayerGraph α) (hv : v ∈ members) {f : Vertex α → Vertex α}
    (hf : ∀ n, (f n).profile = n.profile) : Moves members g (g.updateNode v f) := by
  refine ⟨Keeps.updateNode hf g v, rfl, fun u hu => ?_⟩
  have hne : v ≠ u := fun he => hu (he ▸ hv)
  rw [position, position, updateNode, Array.getElem?_modify, if_neg hne]

/-- A vertex that is not among the members stays where it is along its rank. -/
theorem xOf_eq (h : Moves members g g') (hv : v ∉ members) : g'.xOf v = g.xOf v :=
  congrArg Point.x (h.rest v hv)

theorem yOf_eq (h : Moves members g g') (hv : v ∉ members) : g'.yOf v = g.yOf v :=
  congrArg Point.y (h.rest v hv)

end Moves

end Moving

variable {g g' : LayerGraph ℚ} {spacing : Spacing ℚ} {d : Direction} {members : List Nat}
  {ranks : List (List Nat)} {u v : Nat}

/-- No box has a negative extent. -/
def Sized (g : LayerGraph ℚ) : Prop :=
  ∀ (v : Nat) n, g.nodes[v]? = some n → 0 ≤ n.width ∧ 0 ≤ n.height

/-- No vertex has a negative size across the flow, whichever way the flow goes and whether the
vertex exists or not. -/
theorem Sized.crossSize_nonneg (hg : g.Sized) (d : Direction) (v : Nat) : 0 ≤ g.crossSize d v := by
  rw [crossSize]
  split
  · split
    · exact (hg v _ ‹_›).2
    · exact (hg v _ ‹_›).1
  · exact Scalar.lit_zero.ge

theorem Sized.mainSize_nonneg (hg : g.Sized) (d : Direction) (v : Nat) : 0 ≤ g.mainSize d v := by
  rw [mainSize]
  split
  · split
    · exact (hg v _ ‹_›).1
    · exact (hg v _ ‹_›).2
  · exact Scalar.lit_zero.ge

/-- Sizes are part of the profile of a vertex, and so they stay at least zero. -/
theorem Keeps.sized (h : Keeps Vertex.profile g g') (hg : g.Sized) : g'.Sized := by
  intro v n hn
  have hv := h.getElem? v
  rw [hn, Option.map_some] at hv
  obtain ⟨m, hm, hprofile⟩ := Option.map_eq_some_iff.mp hv.symm
  obtain ⟨hwidth, hheight, -⟩ : n.width = m.width ∧ n.height = m.height ∧ _ := by
    simpa [Vertex.profile, Prod.ext_iff, eq_comm] using hprofile
  rw [hwidth, hheight]
  exact hg v m hm

/-- The tolerance is a positive literal, read as the exact number that it is. -/
theorem separationTolerance_nonneg : (0 : ℚ) ≤ separationTolerance := by
  norm_num [separationTolerance]

/-- The distance that two vertices have to keep is made of halves of their sizes and a spacing, none
of which is negative. -/
theorem requiredDistance_nonneg (hg : g.Sized) (hs : spacing.Nonneg) (d : Direction) (u v : Nat) :
    0 ≤ g.requiredDistance d spacing u v := by
  have hu := hg.crossSize_nonneg d u
  have hv := hg.crossSize_nonneg d v
  have hgap : 0 ≤ g.gapBetween spacing u v := by
    rw [gapBetween]
    split
    · exact hs.edgeGap
    · exact hs.nodeGap
  rw [requiredDistance, Scalar.lit_two]
  linarith

/-- Neighbours keep the same distance whichever of them is named first. -/
theorem requiredDistance_comm (g : LayerGraph ℚ) (d : Direction) (spacing : Spacing ℚ) (u v : Nat) :
    g.requiredDistance d spacing u v = g.requiredDistance d spacing v u := by
  rw [requiredDistance, requiredDistance, gapBetween, gapBetween, add_comm, Bool.or_comm]
  rw [add_comm (g.crossSize d u), add_comm]

/-! ## Stacking -/

/-- When the members of a rank are all given one coordinate, every one of them has it and no other
vertex does by that. -/
theorem yOf_foldl_setY [Scalar α] (members : List Nat) (b : α) (g : LayerGraph α) (v : Nat) :
    (members.foldl (fun g v => g.updateNode v ({ · with y := b })) g).yOf v =
      if v ∈ members ∧ v < g.size then b else g.yOf v := by
  induction members generalizing g with
  | nil => simp
  | cons u members ih =>
    have hsize : (g.updateNode u ({ · with y := b })).size = g.size := Array.size_modify
    rw [List.foldl_cons, ih, yOf_setY, hsize]
    by_cases hv : v = u
    · subst hv
      by_cases hlt : v < g.size <;> simp [hlt]
    · simp [hv]

/-- The boxes of one rank lie above those of another one, with a gap between. -/
def Above (g : LayerGraph ℚ) (d : Direction) (gap : ℚ) (upper lower : List Nat) : Prop :=
  ∀ u ∈ upper, ∀ v ∈ lower,
    g.yOf u + g.mainSize d u / 2 + gap ≤ g.yOf v - g.mainSize d v / 2

/-- Stacked from a coordinate on, no box reaches above it and every rank lies above the ranks after
it. The members of a rank are centred when it is their turn, and no later step touches them. -/
theorem stackRanks_spec (hgap : 0 ≤ spacing.rankGap) (hnodup : ranks.flatten.Nodup) (top : ℚ)
    (hg : g.Sized) (hlt : ∀ v ∈ ranks.flatten, v < g.size) :
    let h := stackRanks d spacing.rankGap ranks top g
    Moves ranks.flatten g h ∧ (∀ v ∈ ranks.flatten, top ≤ h.yOf v - h.mainSize d v / 2) ∧
      ranks.Pairwise (h.Above d spacing.rankGap) := by
  induction ranks generalizing top g with
  | nil => exact ⟨.refl _ g, nofun, .nil⟩
  | cons members rest ih =>
    rw [List.flatten_cons] at hnodup hlt ⊢
    obtain ⟨-, hrest, hdisjoint⟩ := List.nodup_append.mp hnodup
    intro h
    -- the members are centred first, and no later step touches them
    let thickness := Scalar.maxFromZero (members.map (g.mainSize d))
    let g₁ := members.foldl (fun g v => g.updateNode v ({ · with y := top + thickness / 2.0 })) g
    have hm₁ : Moves members g g₁ :=
      List.foldlRecOn (motive := fun h => Moves members g h) members _ (.refl _ g)
        fun h hh v hv => hh.trans (.update h hv fun _ => rfl)
    have hlt₁ : ∀ v ∈ rest.flatten, v < g₁.size := fun v hv =>
      hm₁.size_eq ▸ hlt v (List.mem_append_right _ hv)
    obtain ⟨hmoves, htop, habove⟩ :=
      ih hrest (top + (thickness + spacing.rankGap)) (hm₁.toKeeps.sized hg) hlt₁
    change Moves rest.flatten g₁ h at hmoves
    change ∀ v ∈ rest.flatten, _ ≤ h.yOf v - h.mainSize d v / 2 at htop
    have hsize : ∀ v, h.mainSize d v = g.mainSize d v := fun v =>
      (hmoves.mainSize_eq d v).trans (hm₁.mainSize_eq d v)
    have hthick : ∀ v ∈ members, 0 ≤ g.mainSize d v ∧ g.mainSize d v ≤ thickness := fun v hv =>
      ⟨hg.mainSize_nonneg d v, Scalar.le_maxFromZero (List.mem_map_of_mem hv)⟩
    have hcentre : ∀ v ∈ members, h.yOf v = top + thickness / 2 := by
      intro v hv
      rw [hmoves.yOf_eq fun hv' => hdisjoint v hv v hv' rfl, yOf_foldl_setY,
        if_pos ⟨hv, hlt v (List.mem_append_left _ hv)⟩, Scalar.lit_two]
    have hpos : 0 ≤ thickness := Scalar.maxFromZero_nonneg _
    refine ⟨(hm₁.mono (List.subset_append_left _ _)).trans
      (hmoves.mono (List.subset_append_right _ _)), fun v hv => ?_,
      List.pairwise_cons.mpr ⟨fun lower hlower u hu v hv => ?_, habove⟩⟩
    · rcases List.mem_append.mp hv with hv | hv
      · rw [hcentre v hv, hsize]
        linarith [(hthick v hv).2]
      · linarith [htop v hv]
    · rw [hcentre u hu, hsize u]
      linarith [(hthick u hu).2, htop v (List.mem_flatten_of_mem hlower hv)]

/-! ## Side by side -/

/-- A vertex lies left of another one, at the distance that they have to keep. -/
structure Apart (g : LayerGraph ℚ) (d : Direction) (spacing : Spacing ℚ) (u v : Nat) : Prop where
  le : g.xOf u ≤ g.xOf v
  far : g.requiredDistance d spacing u v - separationTolerance ≤ g.xOf v - g.xOf u

/-- Whether two vertices are apart depends on their sizes and their places only. -/
theorem Apart.congr (h : Keeps Vertex.profile g g') (ha : g.Apart d spacing u v)
    (hu : g'.xOf u = g.xOf u) (hv : g'.xOf v = g.xOf v) : g'.Apart d spacing u v := by
  refine ⟨?_, ?_⟩
  · rw [hu, hv]
    exact ha.le
  · rw [hu, hv, h.requiredDistance_eq]
    exact ha.far

/-- Where nothing is moved, neighbours stay apart, whatever is moved elsewhere. -/
theorem Moves.isChain {moved : List Nat} (h : Moves moved g g') (hdisjoint : members.Disjoint moved)
    (hc : members.IsChain (g.Apart d spacing)) : members.IsChain (g'.Apart d spacing) :=
  hc.imp_of_mem_imp fun _ _ hu hv ha =>
    ha.congr h.toKeeps (h.xOf_eq (hdisjoint hu)) (h.xOf_eq (hdisjoint hv))

/-- Members that are spread behind a vertex are moved and nothing else is, and each of them is as
far from the one before as it has to be. The induction carries the place of the vertex before, which
the next member is measured from. -/
theorem spreadAfter_spec (hs : spacing.Nonneg) {p : Nat} {x : ℚ} (hg : g.Sized)
    (hnodup : (p :: members).Nodup) (hlt : ∀ v ∈ members, v < g.size) (hx : g.xOf p = x) :
    let h := spreadAfter d spacing p x members g
    Moves members g h ∧ (p :: members).IsChain (h.Apart d spacing) := by
  induction members generalizing p x g with
  | nil => exact ⟨.refl _ g, .singleton p⟩
  | cons v rest ih =>
    intro h
    obtain ⟨hp, hnodup'⟩ := List.nodup_cons.mp hnodup
    let x' := x + (g.crossSize d p / 2.0 + g.gapBetween spacing p v + g.crossSize d v / 2.0)
    let g₁ := g.updateNode v ({ · with x := x' })
    have hm₁ : Moves (v :: rest) g g₁ := .update g List.mem_cons_self fun _ => rfl
    have hx₁ : g₁.xOf v = x' := by
      rw [xOf_setX, if_pos ⟨rfl, hlt v List.mem_cons_self⟩]
    obtain ⟨hmoves, hchain⟩ := ih (hm₁.toKeeps.sized hg) hnodup'
      (fun u hu => hm₁.size_eq ▸ hlt u (List.mem_cons_of_mem _ hu)) hx₁
    change Moves rest g₁ h at hmoves
    have hm : Moves (v :: rest) g h := hm₁.trans (hmoves.mono (List.subset_cons_self v rest))
    refine ⟨hm, .cons_cons ?_ hchain⟩

    have hxp : h.xOf p = x := (hm.xOf_eq hp).trans hx
    have hxv : h.xOf v = x' := (hmoves.xOf_eq (List.nodup_cons.mp hnodup').1).trans hx₁
    have hx' : x' = x + g.requiredDistance d spacing p v := by
      simp only [x', requiredDistance, Scalar.lit_two]
      ring
    have hpos := requiredDistance_nonneg hg hs d p v
    refine ⟨?_, ?_⟩
    · rw [hxp, hxv, hx']
      linarith
    · rw [hxp, hxv, hx', hm.requiredDistance_eq]
      linarith [separationTolerance_nonneg]

/-- Spreading a rank moves its members only, and then every two neighbours are apart. -/
theorem spreadRank_spec (hs : spacing.Nonneg) (hg : g.Sized) (hnodup : members.Nodup)
    (hlt : ∀ v ∈ members, v < g.size) :
    Moves members g (spreadRank d spacing g members) ∧
      members.IsChain ((spreadRank d spacing g members).Apart d spacing) := by
  cases members with
  | nil => exact ⟨.refl _ g, .nil⟩
  | cons v rest =>
    let g₁ := g.updateNode v ({ · with x := 0.0 })
    have hm₁ : Moves (v :: rest) g g₁ := .update g List.mem_cons_self fun _ => rfl
    have hx₁ : g₁.xOf v = 0.0 := by
      rw [xOf_setX, if_pos ⟨rfl, hlt v List.mem_cons_self⟩]
    obtain ⟨hmoves, hchain⟩ := spreadAfter_spec (d := d) hs (hm₁.toKeeps.sized hg) hnodup
      (fun u hu => hm₁.size_eq ▸ hlt u (List.mem_cons_of_mem _ hu)) hx₁
    exact ⟨hm₁.trans (hmoves.mono (List.subset_cons_self v rest)), hchain⟩

/-- The members of every rank are apart from their neighbours. -/
def RanksApart (g : LayerGraph ℚ) (d : Direction) (spacing : Spacing ℚ) (ranks : List (List Nat)) :
    Prop :=
  ∀ members ∈ ranks, members.IsChain (g.Apart d spacing)

/-- After the seed the members of every rank are apart from their neighbours. -/
theorem spreadRanks_spec (hs : spacing.Nonneg) (hg : g.Sized) (hnodup : ranks.flatten.Nodup)
    (hlt : ∀ v ∈ ranks.flatten, v < g.size) :
    Moves ranks.flatten g (ranks.foldl (spreadRank d spacing) g) ∧
      (ranks.foldl (spreadRank d spacing) g).RanksApart d spacing ranks := by
  induction ranks generalizing g with
  | nil => exact ⟨.refl _ g, nofun⟩
  | cons members rest ih =>
    rw [List.flatten_cons] at hnodup hlt ⊢
    obtain ⟨hmembers, hrest, hdisjoint⟩ := List.nodup_append.mp hnodup
    obtain ⟨hm₁, hc₁⟩ := spreadRank_spec (d := d) hs hg hmembers
      fun v hv => hlt v (List.mem_append_left _ hv)
    obtain ⟨hmoves, hapart⟩ := ih (hm₁.toKeeps.sized hg) hrest
      fun v hv => hm₁.size_eq ▸ hlt v (List.mem_append_right _ hv)
    refine ⟨(hm₁.mono (List.subset_append_left _ _)).trans
      (hmoves.mono (List.subset_append_right _ _)), fun m hm => ?_⟩
    rcases List.mem_cons.mp hm with rfl | hm
    · exact hmoves.isChain (fun v hv hv' => hdisjoint v hv v hv' rfl) hc₁
    · exact hapart m hm

/-! ## Sweeps -/

/-- Where a vertex may be moved to, it is apart from the members before it and after it. -/
theorem mayMove_spec {before after : List Nat} {x : ℚ}
    (hmay : g.mayMove d spacing before v after x = true) :
    (∀ u ∈ before, g.xOf u < x ∧
      g.requiredDistance d spacing u v - separationTolerance ≤ x - g.xOf u) ∧
    ∀ u ∈ after, x < g.xOf u ∧
      g.requiredDistance d spacing v u - separationTolerance ≤ g.xOf u - x := by
  simp only [mayMove, Bool.and_eq_true, List.all_eq_true, decide_eq_true_eq] at hmay
  refine ⟨fun u hu => ?_, fun u hu => ?_⟩
  · obtain ⟨hlt, hfar⟩ := hmay.1 u hu
    have habs : Scalar.abs (x - g.xOf u) = x - g.xOf u := abs_of_pos (sub_pos.mpr hlt)
    rw [habs, requiredDistance_comm] at hfar
    exact ⟨hlt, sub_le_iff_le_add.mpr hfar⟩
  · obtain ⟨hlt, hfar⟩ := hmay.2 u hu
    have habs : Scalar.abs (x - g.xOf u) = g.xOf u - x :=
      (abs_of_neg (sub_neg.mpr hlt)).trans (neg_sub _ _)
    rw [habs] at hfar
    exact ⟨hlt, sub_le_iff_le_add.mpr hfar⟩

/-- Moves one member of a rank to where it is pulled, if it may go there. -/
def pullVertex [Scalar α] (d : Direction) (spacing : Spacing α) (downward : Bool)
    (before : List Nat) (v : Nat) (after : List Nat) (g : LayerGraph α) : LayerGraph α :=
  match g.pulledTo? downward v with
  | some x =>
    if g.mayMove d spacing before v after x then g.updateNode v ({ · with x := x }) else g
  | none => g

/-- A rank is pulled one vertex after the other, each with those before it and those after it in
sight. -/
theorem pullRank_cons [Scalar α] (d : Direction) (spacing : Spacing α) (downward : Bool)
    (before : List Nat) (v : Nat) (after : List Nat) (g : LayerGraph α) :
    pullRank d spacing downward before (v :: after) g =
      pullRank d spacing downward (before ++ [v]) after
        (pullVertex d spacing downward before v after g) := rfl

/-- A legal move keeps the members of its rank apart. -/
theorem isChain_setX {before after : List Nat} {x : ℚ} (hnodup : (before ++ v :: after).Nodup)
    (hv : v < g.size) (hc : (before ++ v :: after).IsChain (g.Apart d spacing))
    (hmay : g.mayMove d spacing before v after x = true) :
    (before ++ v :: after).IsChain ((g.updateNode v ({ · with x := x })).Apart d spacing) := by
  obtain ⟨hbefore, hafter⟩ := mayMove_spec hmay
  obtain ⟨-, hv_after, hdisjoint⟩ := List.nodup_append.mp hnodup
  have hm : Moves [v] g (g.updateNode v ({ · with x := x })) :=
    .update g (List.mem_singleton_self v) fun _ => rfl
  have hvx : (g.updateNode v ({ · with x := x })).xOf v = x := by
    rw [xOf_setX, if_pos ⟨rfl, hv⟩]
  have hnot_before : v ∉ before := fun h => hdisjoint v h v List.mem_cons_self rfl
  have hnot_after : v ∉ after := (List.nodup_cons.mp hv_after).1
  have hx : ∀ {u}, u ≠ v → (g.updateNode v ({ · with x := x })).xOf u = g.xOf u := fun hu =>
    hm.xOf_eq (mt List.mem_singleton.mp hu)
  refine (hm.isChain (by simpa using hnot_before) hc.left_of_append).append
    (List.isChain_cons.mpr ⟨fun u hu => ?_, hm.isChain (by simpa using hnot_after)
      hc.right_of_append.tail⟩) fun u hu w hw => ?_
  · have hmem := List.mem_of_mem_head? hu
    have hne : u ≠ v := fun h => hnot_after (h ▸ hmem)
    refine ⟨?_, ?_⟩
    · rw [hvx, hx hne]
      exact (hafter u hmem).1.le
    · rw [hvx, hx hne, hm.requiredDistance_eq]
      exact (hafter u hmem).2
  · obtain rfl : v = w := by simpa using hw
    have hmem := List.mem_of_mem_getLast? hu
    have hne : u ≠ v := fun h => hnot_before (h ▸ hmem)
    refine ⟨?_, ?_⟩
    · rw [hvx, hx hne]
      exact (hbefore u hmem).1.le
    · rw [hvx, hx hne, hm.requiredDistance_eq]
      exact (hbefore u hmem).2

/-- One pull leaves the rank apart: the vertex is moved only where `mayMove` has found room, and
otherwise stays. -/
theorem pullVertex_spec (downward : Bool) {before after : List Nat}
    (hnodup : (before ++ v :: after).Nodup) (hv : v < g.size)
    (hc : (before ++ v :: after).IsChain (g.Apart d spacing)) :
    let h := pullVertex d spacing downward before v after g
    Moves (v :: after) g h ∧ (before ++ v :: after).IsChain (h.Apart d spacing) := by
  rw [pullVertex]
  split
  · split
    · exact ⟨.update g List.mem_cons_self fun _ => rfl, isChain_setX hnodup hv hc ‹_›⟩
    · exact ⟨.refl _ g, hc⟩
  · exact ⟨.refl _ g, hc⟩

/-- One member after the other is moved, and each move leaves the rank apart. -/
theorem pullRank_spec (downward : Bool) (before : List Nat) (hnodup : (before ++ members).Nodup)
    (hlt : ∀ v ∈ members, v < g.size) (hc : (before ++ members).IsChain (g.Apart d spacing)) :
    let h := pullRank d spacing downward before members g
    Moves members g h ∧ (before ++ members).IsChain (h.Apart d spacing) := by
  induction members generalizing before g with
  | nil => exact ⟨.refl _ g, hc⟩
  | cons v after ih =>
    obtain ⟨hm₁, hc₁⟩ := pullVertex_spec downward hnodup (hlt v List.mem_cons_self) hc
    rw [pullRank_cons]
    rw [List.append_cons before v after] at hnodup hc₁ ⊢
    obtain ⟨hmoves, hchain⟩ := ih (before ++ [v]) hnodup
      (fun u hu => hm₁.size_eq ▸ hlt u (List.mem_cons_of_mem _ hu)) hc₁
    exact ⟨hm₁.trans (hmoves.mono (List.subset_cons_self v after)), hchain⟩

/-- A sweep leaves all ranks apart: it moves members of one rank at a time, and each rank is
separated after its members were pulled. -/
theorem pullRanks_spec (downward : Bool) (hranks : g.ranks.toList = ranks)
    (hnodup : ranks.flatten.Nodup) (hlt : ∀ v ∈ ranks.flatten, v < g.size)
    (hc : g.RanksApart d spacing ranks) :
    Moves ranks.flatten g (pullRanks d spacing downward g) ∧
      (pullRanks d spacing downward g).RanksApart d spacing ranks := by
  rw [pullRanks, hranks]
  have hsub : ∀ members ∈ (if downward then ranks.drop 1 else ranks.dropLast.reverse),
      members ∈ ranks := by
    intro members hm
    split at hm
    · exact List.mem_of_mem_drop hm
    · exact List.mem_of_mem_dropLast (List.mem_reverse.mp hm)
  refine List.foldlRecOn (motive := fun h => Moves ranks.flatten g h ∧
    LayerGraph.RanksApart h d spacing ranks) _ _ ⟨.refl _ g, hc⟩ ?_
  rintro h ⟨hm, hapart⟩ members hmem
  have hin := hsub members hmem
  obtain ⟨hall, hdisjoint⟩ := List.nodup_flatten.mp hnodup
  have : Std.Symm (List.Disjoint (α := Nat)) := ⟨fun _ _ h => h.symm⟩
  obtain ⟨hmoves, hchain⟩ := pullRank_spec downward [] (hall members hin)
    (fun v hv => hm.size_eq ▸ hlt v (List.mem_flatten_of_mem hin hv)) (hapart members hin)
  refine ⟨hm.trans (hmoves.mono fun v hv => List.mem_flatten_of_mem hin hv), fun other hother => ?_⟩
  by_cases he : other = members
  · exact he ▸ hchain
  · exact hmoves.isChain (hdisjoint.forall hother hin he) (hapart other hother)

/-- Any number of sweeps leaves all ranks apart. -/
theorem sweeps_spec (sweeps : Nat) (hranks : g.ranks.toList = ranks)
    (hnodup : ranks.flatten.Nodup) (hlt : ∀ v ∈ ranks.flatten, v < g.size)
    (hc : g.RanksApart d spacing ranks) :
    let h := (List.range sweeps).foldl
      (fun g sweep => pullRanks d spacing (sweep % 2 == 0) g) g
    Moves ranks.flatten g h ∧ h.RanksApart d spacing ranks := by
  refine List.foldlRecOn (motive := fun h => Moves ranks.flatten g h ∧
    LayerGraph.RanksApart h d spacing ranks) _ _ ⟨.refl _ g, hc⟩ ?_
  rintro h ⟨hm, hapart⟩ sweep -
  obtain ⟨hmoves, hapart'⟩ := pullRanks_spec (sweep % 2 == 0) (hm.ranks ▸ hranks) hnodup
    (fun v hv => hm.size_eq ▸ hlt v hv) hapart
  exact ⟨hm.trans hmoves, hapart'⟩

/-! ## Downward drawings -/

/-- A drawing of `g` whose flow runs downwards: neighbours in a rank are apart, the ranks lie one
above the other, and no box reaches below zero. -/
structure Downward (g h : LayerGraph ℚ) (d : Direction) (spacing : Spacing ℚ) : Prop where
  kept : Keeps Vertex.profile g h
  apart : h.RanksApart d spacing g.ranks.toList
  above : g.ranks.toList.Pairwise (h.Above d spacing.rankGap)
  left : ∀ v < g.size, 0 ≤ h.xOf v - g.crossSize d v / 2
  top : ∀ v < g.size, 0 ≤ h.yOf v - g.mainSize d v / 2

/-- What shifting to zero does: all vertices go the same way, and then no box reaches below zero.
Where there is no smallest left edge there are no vertices to shift. -/
theorem shiftToZero_spec (d : Direction) (g : LayerGraph ℚ) :
    ∃ shift : ℚ, ∀ v < g.size,
      (shiftToZero d g).xOf v = g.xOf v - shift ∧
      0 ≤ (shiftToZero d g).xOf v - g.crossSize d v / 2 := by
  have hmem : ∀ v < g.size, g.xOf v - g.crossSize d v / 2 ∈
      g.vertices.map fun v => g.xOf v - g.crossSize d v / 2.0 := fun v hv => by
    rw [← Scalar.lit_two]
    exact List.mem_map_of_mem (List.mem_range.mpr hv)
  cases hleast : Scalar.minimum? (g.vertices.map fun v => g.xOf v - g.crossSize d v / 2.0) with
  | none =>
    -- without a smallest left edge there are no vertices
    have hsize : ∀ v < g.size, False := fun v hv => by
      have hne := List.ne_nil_of_mem (hmem v hv)
      cases hl : g.vertices.map fun v => g.xOf v - g.crossSize d v / 2.0 with
      | nil => exact hne hl
      | cons x xs =>
        rw [hl] at hleast
        cases hleast
    exact ⟨0, fun v hv => (hsize v hv).elim⟩
  | some least =>
    have heq : shiftToZero d g =
        { g with nodes := g.nodes.map fun n => { n with x := n.x - least } } := by
      rw [shiftToZero, hleast]
      exact if_pos rfl
    refine ⟨least, fun v hv => ?_⟩
    have hx : (shiftToZero d g).xOf v = g.xOf v - least := by
      have hv' : v < g.nodes.size := hv
      simp [heq, xOf_eq, hv']
    refine ⟨hx, ?_⟩
    rw [hx]
    linarith [Scalar.minimum?_le hleast (hmem v hv)]

/-- A shift of the whole drawing keeps neighbours apart. -/
theorem Apart.shift {shift : ℚ} (h : Keeps Vertex.profile g g') (ha : g.Apart d spacing u v)
    (hu : g'.xOf u = g.xOf u - shift) (hv : g'.xOf v = g.xOf v - shift) :
    g'.Apart d spacing u v := by
  refine ⟨?_, ?_⟩
  · rw [hu, hv]
    exact sub_le_sub_right ha.le shift
  · rw [hu, hv, h.requiredDistance_eq, sub_sub_sub_cancel_right]
    exact ha.far

/-- Everything before the direction is applied. -/
def assignDownward [Scalar α] (g : LayerGraph α) (spacing : Spacing α) (d : Direction) :
    LayerGraph α :=
  let g := stackRanks d spacing.rankGap g.ranks.toList 0.0 g
  let g := g.ranks.toList.foldl (spreadRank d spacing) g
  shiftToZero d ((List.range spacing.sweeps).foldl
    (fun g sweep => pullRanks d spacing (sweep % 2 == 0) g) g)

/-- Coordinates are assigned downwards first and turned into the direction of the diagram at the
end. -/
theorem assignCoordinates_eq [Scalar α] (g : LayerGraph α) (spacing : Spacing α) (d : Direction) :
    g.assignCoordinates spacing d = (g.assignDownward spacing d).applyDirection d := rfl

/-- Which of two ranks lies above the other depends on sizes and second coordinates only. -/
theorem Above.congr {gap : ℚ} {upper lower : List Nat} (h : Keeps Vertex.profile g g')
    (hy : Keeps Vertex.y g g') (ha : g.Above d gap upper lower) : g'.Above d gap upper lower := by
  intro u hu v hv
  rw [h.mainSize_eq, h.mainSize_eq, hy.yOf_eq, hy.yOf_eq]
  exact ha u hu v hv

/-- The phases before the direction draw downwards: ranks are stacked, spread and pulled, and the
shift that is left changes the first coordinates by a common amount. -/
theorem assignDownward_downward (hg : g.Sized) (hs : spacing.Nonneg) (ha : g.Arranged)
    (d : Direction) : g.Downward (g.assignDownward spacing d) d spacing := by
  have hnodup := ha.lists.nodup_flatten
  have hmem : ∀ {v}, v ∈ g.ranks.toList.flatten ↔ v < g.size := ha.lists.mem_flatten
  obtain ⟨hm₁, htop, habove⟩ :=
    stackRanks_spec (d := d) hs.rankGap hnodup 0.0 hg fun v hv => hmem.mp hv
  have heq : g.assignDownward spacing d = shiftToZero d ((List.range spacing.sweeps).foldl
      (fun g sweep => pullRanks d spacing (sweep % 2 == 0) g)
      ((stackRanks d spacing.rankGap g.ranks.toList 0.0 g).ranks.toList.foldl
        (spreadRank d spacing) (stackRanks d spacing.rankGap g.ranks.toList 0.0 g))) := rfl
  rw [heq, hm₁.ranks]
  clear heq
  generalize stackRanks d spacing.rankGap g.ranks.toList 0.0 g = g₁ at hm₁ htop habove ⊢
  obtain ⟨hm₂, hapart₂⟩ := spreadRanks_spec (d := d) hs (hm₁.toKeeps.sized hg) hnodup
    fun v hv => hm₁.size_eq ▸ hmem.mp hv
  have hy₂ : Keeps Vertex.y g₁ (g.ranks.toList.foldl (spreadRank d spacing) g₁) :=
    Keeps.foldl (keeps_spreadRank (fun _ _ => rfl) d spacing) _ _
  generalize g.ranks.toList.foldl (spreadRank d spacing) g₁ = g₂ at hm₂ hapart₂ hy₂ ⊢
  have hm₁₂ := hm₁.trans hm₂
  obtain ⟨hm₃, hapart₃⟩ := sweeps_spec spacing.sweeps (congrArg Array.toList hm₁₂.ranks) hnodup
    (fun v hv => hm₁₂.size_eq ▸ hmem.mp hv) hapart₂
  have hy₃ : Keeps Vertex.y g₂ ((List.range spacing.sweeps).foldl
      (fun g sweep => pullRanks d spacing (sweep % 2 == 0) g) g₂) :=
    Keeps.foldl (fun g sweep => keeps_pullRanks (fun _ _ => rfl) d spacing _ g) _ _
  generalize (List.range spacing.sweeps).foldl
    (fun g sweep => pullRanks d spacing (sweep % 2 == 0) g) g₂ = g₃ at hm₃ hapart₃ hy₃ ⊢
  have hm := hm₁₂.trans hm₃
  obtain ⟨shift, hshift⟩ := shiftToZero_spec d g₃
  have hkeeps : Keeps Vertex.profile g₃ (shiftToZero d g₃) :=
    keeps_shiftToZero (fun _ _ => rfl) d g₃
  have hy : Keeps Vertex.y g₁ (shiftToZero d g₃) :=
    (hy₂.trans hy₃).trans (keeps_shiftToZero (fun _ _ => rfl) d g₃)
  have hprofile := (hm₂.toKeeps.trans hm₃.toKeeps).trans hkeeps
  constructor
  case kept => exact hm.toKeeps.trans hkeeps
  case apart =>
    intro members hmembers
    refine (hapart₃ members hmembers).imp_of_mem_imp fun u v hu hv huv => ?_
    have hlt : ∀ {v}, v ∈ members → v < g₃.size := fun hv =>
      hm.size_eq ▸ hmem.mp (List.mem_flatten_of_mem hmembers hv)
    exact huv.shift hkeeps (hshift u (hlt hu)).1 (hshift v (hlt hv)).1
  case above => exact habove.imp fun huv => huv.congr hprofile hy
  case left =>
    intro v hv
    rw [← hm.crossSize_eq]
    exact (hshift v (hm.size_eq ▸ hv)).2
  case top =>
    intro v hv
    rw [← hm₁.mainSize_eq, hy.yOf_eq]
    have h := htop v (hmem.mpr hv)
    rwa [Scalar.lit_zero] at h

/-! ## Directions -/

theorem xOf_transpose (g : LayerGraph ℚ) (v : Nat) : g.transpose.xOf v = g.yOf v := by
  simp only [xOf_eq, yOf_eq, transpose, Array.getElem?_map, Option.map_map]
  rfl

theorem yOf_transpose (g : LayerGraph ℚ) (v : Nat) : g.transpose.yOf v = g.xOf v := by
  simp only [xOf_eq, yOf_eq, transpose, Array.getElem?_map, Option.map_map]
  rfl

/-- Mirrored at the lowest bottom edge, every box lies above it. -/
theorem mirrorDown_spec (g : LayerGraph ℚ) : ∃ far, ∀ v < g.size,
    g.yOf v + g.mainSize .bottomTop v / 2 ≤ far ∧
      g.mirrorDown.xOf v = g.xOf v ∧ g.mirrorDown.yOf v = far - g.yOf v := by
  refine ⟨Scalar.maxFromZero (g.nodes.toList.map fun n => n.y + n.height / 2.0), fun v hv => ?_⟩
  have hlt : v < g.nodes.size := hv
  have hn : g.nodes[v]? = some g.nodes[v] := Array.getElem?_eq_getElem hlt
  refine ⟨?_, ?_, ?_⟩
  · have hmem : g.nodes[v] ∈ g.nodes.toList := Array.mem_toList_iff.mpr (Array.getElem_mem hlt)
    have hle := Scalar.le_maxFromZero
      (List.mem_map_of_mem (f := fun n : Vertex ℚ => n.y + n.height / 2.0) hmem)
    simpa [yOf_eq, mainSize, hn, Direction.isHorizontal] using hle
  · simp [xOf_eq, mirrorDown, hn]
  · simp [yOf_eq, mirrorDown, hn]

/-- Mirrored at the rightmost edge, every box lies left of it. -/
theorem mirrorRight_spec (g : LayerGraph ℚ) : ∃ far, ∀ v < g.size,
    g.xOf v + g.mainSize .rightLeft v / 2 ≤ far ∧
      g.mirrorRight.yOf v = g.yOf v ∧ g.mirrorRight.xOf v = far - g.xOf v := by
  refine ⟨Scalar.maxFromZero (g.nodes.toList.map fun n => n.x + n.width / 2.0), fun v hv => ?_⟩
  have hlt : v < g.nodes.size := hv
  have hn : g.nodes[v]? = some g.nodes[v] := Array.getElem?_eq_getElem hlt
  refine ⟨?_, ?_, ?_⟩
  · have hmem : g.nodes[v] ∈ g.nodes.toList := Array.mem_toList_iff.mpr (Array.getElem_mem hlt)
    have hle := Scalar.le_maxFromZero
      (List.mem_map_of_mem (f := fun n : Vertex ℚ => n.x + n.width / 2.0) hmem)
    simpa [xOf_eq, mainSize, hn, Direction.isHorizontal] using hle
  · simp [yOf_eq, mirrorRight, hn]
  · simp [xOf_eq, mirrorRight, hn]

/-- The coordinates across the flow stay, and those along it are mirrored at an edge that no box
lies beyond, or stay as well. -/
theorem applyDirection_spec (g : LayerGraph ℚ) (d : Direction) : ∃ far, ∀ v < g.size,
    (d.isMirrored = true → g.yOf v + g.mainSize d v / 2 ≤ far) ∧
      (g.applyDirection d).across d v = g.xOf v ∧
      (g.applyDirection d).along d v = if d.isMirrored then far - g.yOf v else g.yOf v := by
  cases d with
  | topDown => exact ⟨0, fun v _ => ⟨nofun, rfl, rfl⟩⟩
  | bottomTop =>
    obtain ⟨far, hfar⟩ := mirrorDown_spec g
    exact ⟨far, fun v hv => ⟨fun _ => (hfar v hv).1, (hfar v hv).2.1, (hfar v hv).2.2⟩⟩
  | leftRight => exact ⟨0, fun v _ => ⟨nofun, yOf_transpose g v, xOf_transpose g v⟩⟩
  | rightLeft =>
    obtain ⟨far, hfar⟩ := mirrorRight_spec g.transpose
    have hsize : g.transpose.size = g.size := Array.size_map
    have hkeeps : Keeps Vertex.profile g g.transpose :=
      Keeps.mapNodes (u := fun n => { n with x := n.y, y := n.x }) (fun _ => rfl) g
    refine ⟨far, fun v hv => ?_⟩
    obtain ⟨hle, hacross, halong⟩ := hfar v (hsize ▸ hv)
    rw [hkeeps.mainSize_eq, xOf_transpose] at hle
    exact ⟨fun _ => hle, hacross.trans (yOf_transpose g v),
      halong.trans (congrArg (far - ·) (xOf_transpose g v))⟩

/-! ## Positions in a rank -/

/-- A vertex stands in the list of its rank. -/
theorem Arranged.mem_rank (ha : g.Arranged) (hv : v < g.size) :
    v ∈ g.ranks.getD (g.rank v).toNat [] :=
  List.mem_of_getElem? (ha.getElem?_order hv)

/-- If no vertex of the rank lies between two of its members, their positions are consecutive: some
vertex stands at every position of the list. -/
theorem Arranged.order_eq_succ (ha : g.Arranged) (hrank : ∀ v, 0 ≤ g.rank v) (hv : v < g.size)
    (hr : g.rank u = g.rank v) (ho : g.order u < g.order v)
    (hnone : ∀ w < g.size, g.rank w = g.rank u → ¬ (g.order u < g.order w ∧ g.order w < g.order v)) :
    g.order v = g.order u + 1 := by
  obtain ⟨hiv, -⟩ := List.getElem?_eq_some_iff.mp (hr ▸ ha.getElem?_order hv)
  by_contra hne
  have hin : g.order u + 1 < (g.ranks.getD (g.rank u).toNat []).length := by omega
  have hw := List.getElem?_eq_getElem hin
  generalize (g.ranks.getD (g.rank u).toNat [])[g.order u + 1] = w at hw
  obtain ⟨hwlt, hwr⟩ := ha.lists.mem_iff.mp (List.mem_of_getElem? hw)
  have hwo := ha.order _ _ _ hw
  have hru := hrank u
  have hrw := hrank w
  exact hnone w hwlt (by omega) (by omega)

/-! ## Placed graphs -/

/-- A graph after coordinates were assigned to `g`: only centres are new, and the boxes around them
keep their distances. -/
structure Placed (g h : LayerGraph ℚ) (d : Direction) (spacing : Spacing ℚ) : Prop where
  kept : Keeps Vertex.uncentred g h
  /-- across the flow, the members of a rank follow their positions in it -/
  follow : ∀ u < g.size, ∀ v < g.size, g.rank u = g.rank v → g.order u < g.order v →
    h.across d u ≤ h.across d v
  /-- neighbours in a rank keep the distance they have to keep, up to the tolerance -/
  neighbours : ∀ u < g.size, ∀ v < g.size, g.rank u = g.rank v → g.order u < g.order v →
    (∀ w < g.size, g.rank w = g.rank u → ¬ (g.order u < g.order w ∧ g.order w < g.order v)) →
    g.requiredDistance d spacing u v - separationTolerance ≤ h.across d v - h.across d u
  /-- in the direction of the flow, the boxes of a higher rank come after those of a lower one -/
  advance : ∀ u < g.size, ∀ v < g.size, g.rank u < g.rank v →
    if d.isMirrored then
      h.along d v + g.mainSize d v / 2 + spacing.rankGap ≤ h.along d u - g.mainSize d u / 2
    else h.along d u + g.mainSize d u / 2 + spacing.rankGap ≤ h.along d v - g.mainSize d v / 2
  /-- no box reaches below zero on either axis -/
  nonneg : ∀ v < g.size,
    0 ≤ h.across d v - g.crossSize d v / 2 ∧ 0 ≤ h.along d v - g.mainSize d v / 2

/-- The members of a rank lie in the order of its list. -/
theorem Downward.pairwise (hd : g.Downward g' d spacing) (hm : members ∈ g.ranks.toList) :
    members.Pairwise fun u v => g'.xOf u ≤ g'.xOf v :=
  have : IsTrans Nat fun u v => g'.xOf u ≤ g'.xOf v := ⟨fun _ _ _ => le_trans⟩
  List.isChain_iff_pairwise.mp ((hd.apart members hm).imp fun _ _ h => h.le)

theorem getD_mem_toList {lists : Array (List Nat)} {r : Nat} (h : v ∈ lists.getD r []) :
    lists.getD r [] ∈ lists.toList := by
  have hr := lt_size_of_mem h
  simp [Array.getD, hr]

section Downward

variable (hd : g.Downward g' d spacing) (ha : g.Arranged)
include hd ha

/-- Members of a rank follow their positions, since those are positions in its list. -/
theorem Downward.follow (hu : u < g.size) (hv : v < g.size) (hr : g.rank u = g.rank v)
    (ho : g.order u < g.order v) : g'.xOf u ≤ g'.xOf v := by
  obtain ⟨hiu, hu'⟩ := List.getElem?_eq_some_iff.mp (ha.getElem?_order hu)
  obtain ⟨hiv, hv'⟩ := List.getElem?_eq_some_iff.mp (hr ▸ ha.getElem?_order hv)
  have hle := List.pairwise_iff_getElem.mp (hd.pairwise (getD_mem_toList (ha.mem_rank hu)))
    _ _ hiu hiv ho
  rwa [hu', hv'] at hle

/-- Members at consecutive positions of a rank keep their distance. -/
theorem Downward.neighbours (hu : u < g.size) (hv : v < g.size) (hr : g.rank u = g.rank v)
    (hnext : g.order v = g.order u + 1) :
    g.requiredDistance d spacing u v - separationTolerance ≤ g'.xOf v - g'.xOf u := by
  obtain ⟨hiu, hu'⟩ := List.getElem?_eq_some_iff.mp (ha.getElem?_order hu)
  obtain ⟨hiv, hv'⟩ := List.getElem?_eq_some_iff.mp (hr ▸ ha.getElem?_order hv)
  have hapart := (hd.apart _ (getD_mem_toList (ha.mem_rank hu))).getElem (g.order u) (by omega)
  simp only [← hnext, hu', hv'] at hapart
  rw [← hd.kept.requiredDistance_eq]
  exact hapart.far

/-- The boxes of a higher rank start below those of a lower one. -/
theorem Downward.advance (hu : u < g.size) (hv : v < g.size) (hru : 0 ≤ g.rank u)
    (hr : g.rank u < g.rank v) : g'.yOf u + g.mainSize d u / 2 + spacing.rankGap ≤
      g'.yOf v - g.mainSize d v / 2 := by
  have hiu := lt_size_of_mem (ha.mem_rank hu)
  have hiv := lt_size_of_mem (ha.mem_rank hv)
  have habove := List.pairwise_iff_getElem.mp hd.above (g.rank u).toNat (g.rank v).toNat
    (by simpa using hiu) (by simpa using hiv) (by omega) u
    (by simpa [Array.getD, hiu] using ha.mem_rank hu)
    v (by simpa [Array.getD, hiv] using ha.mem_rank hv)
  rwa [hd.kept.mainSize_eq, hd.kept.mainSize_eq] at habove

/-- Turned in its direction, a downward drawing is placed. Positions within a rank follow its list,
so that nothing lies between two members that are next to each other. -/
theorem Downward.placed (hrank : ∀ v, 0 ≤ g.rank v)
    (hkept : Keeps Vertex.uncentred g (g'.applyDirection d)) :
    g.Placed (g'.applyDirection d) d spacing := by
  obtain ⟨far, hfar⟩ := applyDirection_spec g' d
  have hlt : ∀ {v}, v < g.size → v < g'.size := fun hv => hd.kept.size_eq ▸ hv
  have hacross : ∀ v < g.size, (g'.applyDirection d).across d v = g'.xOf v := fun v hv =>
    (hfar v (hlt hv)).2.1
  have halong : ∀ v < g.size, (g'.applyDirection d).along d v =
      if d.isMirrored then far - g'.yOf v else g'.yOf v := fun v hv => (hfar v (hlt hv)).2.2
  constructor
  case kept => exact hkept
  case follow =>
    intro u hu v hv hr ho
    rw [hacross u hu, hacross v hv]
    exact hd.follow ha hu hv hr ho
  case neighbours =>
    intro u hu v hv hr ho hnone
    rw [hacross u hu, hacross v hv]
    exact hd.neighbours ha hu hv hr (ha.order_eq_succ hrank hv hr ho hnone)
  case advance =>
    intro u hu v hv hr
    have hbelow := hd.advance ha hu hv (hrank u) hr
    rw [halong u hu, halong v hv]
    split
    · linarith
    · exact hbelow
  case nonneg =>
    intro v hv
    rw [hacross v hv, halong v hv]
    refine ⟨hd.left v hv, ?_⟩
    split
    · have hle := (hfar v (hlt hv)).1 ‹_›
      rw [hd.kept.mainSize_eq] at hle
      linarith
    · exact hd.top v hv

end Downward

/-- Ordering changes no sizes, since it writes positions within the ranks only. -/
theorem orderRanks_sized (hg : g.Sized) (limit : Nat) : (g.orderRanks limit).1.Sized :=
  (keeps_orderRanks (fun _ _ => rfl) g limit).sized hg

/-- **Coordinate assignment keeps boxes apart.** For a graph whose vertices have ranks from zero on,
after any ordering: across the flow the members of a rank follow their positions and neighbours keep
their distance; along the flow the ranks advance with a gap between; and no box reaches below zero.
This holds for any number of sweeps and in every direction. -/
theorem assignCoordinates_placed (hrank : ∀ v, 0 ≤ g.rank v) (hg : g.Sized) (hs : spacing.Nonneg)
    (limit : Nat) (d : Direction) : (g.orderRanks limit).1.Placed
      ((g.orderRanks limit).1.assignCoordinates spacing d) d spacing := by
  have ha := orderRanks_arranged g limit
  have hsized := orderRanks_sized hg limit
  have hrank' : ∀ v, 0 ≤ (g.orderRanks limit).1.rank v := fun v => by
    rw [(keeps_orderRanks (fun _ _ => rfl) g limit).rank_eq]
    exact hrank v
  rw [assignCoordinates_eq]
  refine (assignDownward_downward hsized hs ha d).placed ha hrank' ?_
  rw [← assignCoordinates_eq]
  exact keeps_assignCoordinates (fun _ _ _ => rfl) _ spacing d

/-- Two vertices of different widths with an arc to a third one. -/
def fork : LayerGraph ℚ where
  nodes := #[⟨"a", 40, 20, 0, 0, 0, 0, none, []⟩, ⟨"b", 60, 30, 0, 0, 0, 0, none, []⟩,
    ⟨"c", 40, 20, 1, 0, 0, 0, none, []⟩]
  arcs := #[⟨0, 2, 1, 1, false, true, 0⟩, ⟨1, 2, 1, 1, false, true, 1⟩]
  outgoing := #[[0], [1], []]
  incoming := #[[], [], [0, 1]]

/-- The third vertex is drawn below the middle of the other two. -/
theorem assignCoordinates_fork : (∀ v, 0 ≤ fork.rank v) ∧ fork.Sized ∧
    (Spacing.mk (α := ℚ) 10 30 5 4).Nonneg ∧
    (fork.orderRanks 4).1.Placed
      ((fork.orderRanks 4).1.assignCoordinates ⟨10, 30, 5, 4⟩ .topDown) .topDown ⟨10, 30, 5, 4⟩ ∧
    (((fork.orderRanks 4).1.assignCoordinates ⟨10, 30, 5, 4⟩ .topDown).nodes.map
      fun n => (n.x, n.y)) = #[(20, 15), (80, 15), (50, 70)] := by
  have hrank : ∀ v, 0 ≤ fork.rank v
    | 0 | 1 | 2 => by decide
    | _ + 3 => le_rfl
  have hsized : fork.Sized := by
    intro v n hn
    have hmem : n ∈ fork.nodes := Array.mem_of_getElem? hn
    simp only [fork, List.mem_toArray, List.mem_cons, List.not_mem_nil, or_false] at hmem
    rcases hmem with rfl | rfl | rfl <;> norm_num
  have hspacing : (Spacing.mk (α := ℚ) 10 30 5 4).Nonneg := by
    constructor <;> norm_num
  exact ⟨hrank, hsized, hspacing, assignCoordinates_placed hrank hsized hspacing 4 .topDown,
    by cbv⟩

end LayerGraph

end Flowchart
