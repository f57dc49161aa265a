import Flowchart.Layered.Coordinates
import Flowchart.Layered.Ordering
import Flowchart.Layered.Ranking
import Flowchart.Proofs.LayerGraph.Adjacency

/-!
# What the phases leave alone

Ranking, ordering and coordinate assignment write to the vertices only, and each to its own fields:
ranking to the rank, ordering to the position in the rank, coordinate assignment to the centre. The
index, the arcs, their lists and the chains stay as they are, and so does everything about a vertex
that does not depend on the fields written: `Keeps f` says so of a part `f` of the vertex.
-/

namespace Flowchart.LayerGraph

variable {α β : Type} {f : Vertex α → β} {g g' : LayerGraph α}

/-- The index, the arcs, their lists and the chains are the same, and so is the part `f` of every
vertex. -/
structure Keeps (f : Vertex α → β) (g g' : LayerGraph α) : Prop where
  index : g'.index = g.index
  arcs : g'.arcs = g.arcs
  outgoing : g'.outgoing = g.outgoing
  incoming : g'.incoming = g.incoming
  chains : g'.chains = g.chains
  nodes : g'.nodes.map f = g.nodes.map f

namespace Keeps

theorem refl (f : Vertex α → β) (g : LayerGraph α) : Keeps f g g := ⟨rfl, rfl, rfl, rfl, rfl, rfl⟩

/-- What one step keeps and the next one keeps is kept by both. -/
theorem trans {g'' : LayerGraph α} (h : Keeps f g g') (h' : Keeps f g' g'') : Keeps f g g'' :=
  ⟨h'.index.trans h.index, h'.arcs.trans h.arcs, h'.outgoing.trans h.outgoing,
    h'.incoming.trans h.incoming, h'.chains.trans h.chains, h'.nodes.trans h.nodes⟩

theorem symm (h : Keeps f g g') : Keeps f g' g :=
  ⟨h.index.symm, h.arcs.symm, h.outgoing.symm, h.incoming.symm, h.chains.symm, h.nodes.symm⟩

/-- A step that keeps a part of the vertices neither adds nor removes any. -/
theorem size_eq (h : Keeps f g g') : g'.size = g.size := by
  simpa [size] using congrArg Array.size h.nodes

/-- The part that is kept can be read off each vertex, whether it exists or not. -/
theorem getElem? (h : Keeps f g g') (v : Nat) : g'.nodes[v]?.map f = g.nodes[v]?.map f := by
  rw [← Array.getElem?_map, ← Array.getElem?_map, h.nodes]

/-- If ranks are kept, the rank of every vertex is the same afterwards, that of a vertex that does
not exist included. -/
theorem rank_eq (h : Keeps Vertex.rank g g') (v : Nat) : g'.rank v = g.rank v := by
  rw [rank, rank, h.getElem? v]

theorem cluster_eq (h : Keeps Vertex.cluster g g') : g'.cluster = g.cluster := by
  funext v
  rw [cluster, cluster, h.getElem? v]

/-- The arcs that leave a vertex are found through the lists of the vertices and the arcs, neither
of which is written. -/
theorem outArcs_eq (h : Keeps f g g') : g'.outArcs = g.outArcs := by
  funext v
  rw [outArcs, outArcs, h.outgoing]

theorem inArcs_eq (h : Keeps f g g') : g'.inArcs = g.inArcs := by
  funext v
  rw [inArcs, inArcs, h.incoming]

theorem successors_eq (h : Keeps f g g') : g'.successors = g.successors := by
  funext v
  unfold successors
  rw [h.outArcs_eq]
  refine List.map_congr_left fun a _ => ?_
  rw [target, target, h.arcs]

/-- Consistency speaks of the arcs and their lists only, so it carries over. -/
theorem consistent (h : Keeps f g g') (hg : g.Consistent) : g'.Consistent := by
  refine ⟨?_, ?_, ?_, ?_, ?_, ?_, ?_⟩
  · rw [h.outgoing, h.size_eq]
    exact hg.outgoing_size
  · rw [h.incoming, h.size_eq]
    exact hg.incoming_size
  · rw [h.arcs, h.size_eq]
    exact hg.ends_lt
  · rw [h.arcs, h.outArcs_eq]
    exact hg.mem_outArcs
  · rw [h.arcs, h.inArcs_eq]
    exact hg.mem_inArcs
  · rw [h.outArcs_eq]
    exact hg.outArcs_nodup
  · rw [h.inArcs_eq]
    exact hg.inArcs_nodup

theorem leads_eq (h : Keeps f g g') : g'.Leads = g.Leads := by
  unfold Leads
  rw [h.arcs]

/-- Whether there is a cycle depends on the arcs only. -/
theorem acyclic (h : Keeps f g g') (hg : g.Acyclic) : g'.Acyclic := by
  unfold Acyclic
  rw [h.leads_eq]
  exact hg

/-- Steps that keep a part of the vertices do so when they are repeated. -/
theorem foldl {γ : Type} {step : LayerGraph α → γ → LayerGraph α}
    (h : ∀ g x, Keeps f g (step g x)) (l : List γ) (g : LayerGraph α) :
    Keeps f g (l.foldl step g) := by
  induction l generalizing g with
  | nil => exact refl f g
  | cons x l ih => exact (h g x).trans (ih _)

/-- Rewriting every vertex keeps each part of it that the rewriting does not touch. -/
theorem mapNodes {u : Vertex α → Vertex α} (hu : ∀ x, f (u x) = f x) (g : LayerGraph α) :
    Keeps f g { g with nodes := g.nodes.map u } :=
  ⟨rfl, rfl, rfl, rfl, rfl, by simp [Function.comp_def, hu]⟩

theorem mapIdxNodes {u : Nat → Vertex α → Vertex α} (hu : ∀ v x, f (u v x) = f x)
    (g : LayerGraph α) : Keeps f g { g with nodes := g.nodes.mapIdx u } :=
  ⟨rfl, rfl, rfl, rfl, rfl, by
    apply Array.ext_getElem?
    simp [Option.map_map, Function.comp_def, hu]⟩

/-- Rewriting one vertex keeps each part of it that the rewriting does not touch. -/
theorem updateNode {u : Vertex α → Vertex α} (hu : ∀ x, f (u x) = f x) (g : LayerGraph α)
    (v : Nat) : Keeps f g (g.updateNode v u) :=
  ⟨rfl, rfl, rfl, rfl, rfl, by
    apply Array.ext_getElem?
    intro i
    by_cases hi : v = i <;>
      simp [LayerGraph.updateNode, Array.getElem?_modify, hi, Function.comp_def, hu]⟩

theorem withRankLists (f : Vertex α → β) (g : LayerGraph α) (ranks : Array (List Nat)) :
    Keeps f g { g with ranks := ranks } := ⟨rfl, rfl, rfl, rfl, rfl, rfl⟩

end Keeps

/-! ## Ranking -/

section Ranking

variable (hf : ∀ (x : Vertex α) (r : Int), f { x with rank := r } = f x)
include hf

theorem keeps_setRank (g : LayerGraph α) (v : Nat) (r : Int) : Keeps f g (g.setRank v r) :=
  Keeps.updateNode (fun x => hf x r) g v

/-- Longest paths are written as ranks, one vertex at a time. -/
theorem keeps_longestPath (g : LayerGraph α) : Keeps f g g.longestPath :=
  Keeps.mapIdxNodes (fun _ x => hf x _) g

/-- Lowering vertices onto their successors writes their ranks and nothing else. -/
theorem keeps_dropAll (g : LayerGraph α) (order : List Nat) : Keeps f g (g.dropAll order) :=
  Keeps.foldl (fun g v => keeps_setRank hf g v _) order g

/-- The tight tree is a search for ranks, all of which are written with `setRank`. -/
theorem keeps_tightTree (g : LayerGraph α) : Keeps f g g.tightTree := by
  have hstable : ∀ (limit : Nat) (g' : LayerGraph α),
      Keeps f g' (dropUntilStable g.reverseTopological limit g') := by
    intro limit
    induction limit with
    | zero => exact fun g' => .refl f g'
    | succ limit ih =>
      intro g'
      rw [dropUntilStable]
      split
      · exact keeps_dropAll hf g' _
      · exact (keeps_dropAll hf g' _).trans (ih _)
  exact hstable _ g

/-- The network simplex of one component works on a state of its own, and writes the ranks it ends
with. -/
theorem keeps_simplexComponent [Scalar α] (limit : Nat) (g : LayerGraph α) (members : List Nat) :
    Keeps f g (simplexComponent limit g members) := by
  unfold simplexComponent
  split
  · exact .refl f g
  · exact Keeps.foldl (fun g ⟨v, _⟩ => keeps_setRank hf g v _) _ g

/-- The network simplex runs on one component after the other, and writes nothing but ranks. -/
theorem keeps_networkSimplex [Scalar α] (g : LayerGraph α) (limit : Nat) :
    Keeps f g (g.networkSimplex limit) :=
  Keeps.foldl (keeps_simplexComponent hf limit) _ g

/-- Ranks are moved together so that the smallest one is zero. -/
theorem keeps_normalizeRanks (g : LayerGraph α) : Keeps f g g.normalizeRanks :=
  Keeps.mapNodes (fun x => hf x _) g

/-- Ranking writes ranks only, with every strategy and every limit, and so it keeps whatever of a
vertex does not depend on the rank. -/
theorem keeps_assignRanks [Scalar α] (g : LayerGraph α) (strategy : RankStrategy) (limit : Nat) :
    Keeps f g (g.assignRanks strategy limit) := by
  unfold assignRanks
  cases strategy with
  | longestPath => exact (keeps_longestPath hf g).trans (keeps_normalizeRanks hf _)
  | tightTree =>
    exact ((keeps_longestPath hf g).trans (keeps_tightTree hf _)).trans (keeps_normalizeRanks hf _)
  | networkSimplex =>
    exact ((keeps_longestPath hf g).trans (keeps_networkSimplex hf _ limit)).trans
      (keeps_normalizeRanks hf _)

end Ranking

/-! ## Ordering -/

section Ordering

variable (hf : ∀ (x : Vertex α) (o : Nat), f { x with order := o } = f x)
include hf

theorem keeps_syncRank (g : LayerGraph α) (members : List Nat) : Keeps f g (g.syncRank members) :=
  Keeps.foldl (fun g ⟨v, pos⟩ => Keeps.updateNode (fun x => hf x pos) g v) _ g

/-- Each rank list gives its members their positions, and other vertices are left alone. -/
theorem keeps_syncOrders (g : LayerGraph α) : Keeps f g g.syncOrders :=
  Keeps.foldl (keeps_syncRank hf) _ g

variable [Scalar α]

theorem keeps_initialOrder (g : LayerGraph α) : Keeps f g g.initialOrder :=
  (Keeps.withRankLists f g _).trans (keeps_syncOrders hf _)

/-- A rank is sorted by its barycentres as a list, and the positions follow. -/
theorem keeps_sweepRank (downward : Bool) (g : LayerGraph α) (r : Nat) :
    Keeps f g (sweepRank downward g r) :=
  (Keeps.withRankLists f g _).trans (keeps_syncRank hf _ _)

/-- A sweep goes through the ranks one by one, and each of them writes positions only. -/
theorem keeps_sweep (g : LayerGraph α) (downward : Bool) : Keeps f g (g.sweep downward) :=
  Keeps.foldl (keeps_sweepRank hf downward) _ g

/-- However many sweeps are performed, and whichever arrangement is kept in the end, only positions
are written. -/
theorem keeps_improveOrder (left passes : Nat) (g : LayerGraph α) (best : Nat × Array (List Nat)) :
    Keeps f g (improveOrder left passes g best).1 := by
  induction left generalizing passes g best with
  | zero => exact .refl f g
  | succ left ih =>
    rw [improveOrder]
    split
    · exact .refl f g
    · exact (keeps_sweep hf g _).trans (ih _ _ _)

/-- Ordering writes positions within the ranks only, and so it keeps whatever of a vertex does not
depend on the position. -/
theorem keeps_orderRanks (g : LayerGraph α) (limit : Nat) : Keeps f g (g.orderRanks limit).1 :=
  ((keeps_initialOrder hf g).trans (keeps_improveOrder hf limit 0 _ _)).trans
    ((Keeps.withRankLists f _ _).trans (keeps_syncOrders hf _))

end Ordering

/-! ## Coordinates -/

section Across

variable (hf : ∀ (x : Vertex α) (a : α), f { x with x := a } = f x)
include hf

theorem keeps_setX (a : α) (g : LayerGraph α) (v : Nat) :
    Keeps f g (g.updateNode v ({ · with x := a })) :=
  Keeps.updateNode (fun x => hf x a) g v

variable [Scalar α]

theorem keeps_spreadAfter (d : Direction) (spacing : Spacing α) (p : Nat) (a : α)
    (members : List Nat) (g : LayerGraph α) : Keeps f g (spreadAfter d spacing p a members g) := by
  induction members generalizing p a g with
  | nil => exact .refl f g
  | cons v rest ih => exact (keeps_setX hf _ g v).trans (ih _ _ _)

/-- A rank is spread by giving each of its members a place to the right of the one before. -/
theorem keeps_spreadRank (d : Direction) (spacing : Spacing α) (g : LayerGraph α)
    (members : List Nat) : Keeps f g (spreadRank d spacing g members) := by
  cases members with
  | nil => exact .refl f g
  | cons v rest => exact (keeps_setX hf _ g v).trans (keeps_spreadAfter hf d spacing _ _ _ _)

/-- Pulling a rank towards its neighbours moves its members along the rank. -/
theorem keeps_pullRank (d : Direction) (spacing : Spacing α) (downward : Bool)
    (members before : List Nat) (g : LayerGraph α) :
    Keeps f g (pullRank d spacing downward before members g) := by
  induction members generalizing before g with
  | nil => exact .refl f g
  | cons v after ih =>
    rw [pullRank]
    refine Keeps.trans ?_ (ih _ _)
    split
    · split
      · exact keeps_setX hf _ g v
      · exact .refl f g
    · exact .refl f g

/-- A sweep of pulls goes through the ranks in one direction, and writes places along the ranks
only. -/
theorem keeps_pullRanks (d : Direction) (spacing : Spacing α) (downward : Bool)
    (g : LayerGraph α) : Keeps f g (pullRanks d spacing downward g) :=
  Keeps.foldl (fun g members => keeps_pullRank hf d spacing downward members [] g) _ g

theorem keeps_shiftToZero (d : Direction) (g : LayerGraph α) : Keeps f g (shiftToZero d g) := by
  unfold shiftToZero
  split
  · split
    · exact Keeps.mapNodes (fun x => hf x _) g
    · exact .refl f g
  · exact .refl f g

end Across

theorem keeps_stackRanks [Scalar α] (hf : ∀ (x : Vertex α) (b : α), f { x with y := b } = f x)
    (d : Direction) (rankGap : α) (ranks : List (List Nat)) (top : α) (g : LayerGraph α) :
    Keeps f g (stackRanks d rankGap ranks top g) := by
  induction ranks generalizing top g with
  | nil => exact .refl f g
  | cons members rest ih =>
    exact (Keeps.foldl (fun g v => Keeps.updateNode (fun x => hf x _) g v) members g).trans
      (ih _ _)

section Coordinates

variable [Scalar α] (hf : ∀ (x : Vertex α) (a b : α), f { x with x := a, y := b } = f x)
include hf

/-- The direction of the diagram turns or mirrors both coordinates of each vertex. -/
theorem keeps_applyDirection (g : LayerGraph α) (d : Direction) :
    Keeps f g (g.applyDirection d) := by
  have ht : Keeps f g g.transpose := Keeps.mapNodes (fun x => hf x x.y x.x) g
  cases d with
  | topDown => exact .refl f g
  | bottomTop => exact Keeps.mapNodes (fun x => hf x x.x _) g
  | leftRight => exact ht
  | rightLeft => exact ht.trans (Keeps.mapNodes (fun x => hf x _ x.y) _)

/-- Coordinate assignment writes centres only, and so it keeps whatever of a vertex does not depend
on the centre. -/
theorem keeps_assignCoordinates (g : LayerGraph α) (spacing : Spacing α) (d : Direction) :
    Keeps f g (g.assignCoordinates spacing d) := by
  have hx : ∀ (x : Vertex α) (a : α), f { x with x := a } = f x := fun x a => hf x a x.y
  unfold assignCoordinates
  exact (((keeps_stackRanks (fun x b => hf x x.x b) d _ _ _ g).trans
    (Keeps.foldl (keeps_spreadRank hx d spacing) _ _)).trans
    (Keeps.foldl (fun g sweep => keeps_pullRanks hx d spacing _ g) _ _)).trans
    ((keeps_shiftToZero hx d _).trans (keeps_applyDirection hf _ d))

end Coordinates

end Flowchart.LayerGraph
