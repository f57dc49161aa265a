import Flowchart.Proofs.Boxes.Settling

/-!
# What settling does not change

Settling moves nodes and changes boxes, and nothing else: the states of a run are `Alike`. Every
push and every turn of a block keeps them so.
-/

namespace Flowchart

variable {α : Type} [Scalar α]

/-! ## Nodes without their places -/

/-- Everything about a node but its place. -/
def PlacedNode.still (n : PlacedNode α) : PlacedNode α :=
  { n with box := { n.box with x := 0.0, y := 0.0 } }

variable {m n : PlacedNode α}

/-- A node that differs from another one in its place only has the same id, and likewise the same
parent and size. -/
theorem id_of_still (h : m.still = n.still) : m.id = n.id := by
  have hid := congrArg PlacedNode.id h
  exact hid

theorem parent_of_still (h : m.still = n.still) : m.parent = n.parent := by
  have hparent := congrArg PlacedNode.parent h
  exact hparent

theorem width_of_still (h : m.still = n.still) : m.box.width = n.box.width := by
  have hwidth := congrArg (fun n => n.box.width) h
  exact hwidth

theorem height_of_still (h : m.still = n.still) : m.box.height = n.box.height := by
  have hheight := congrArg (fun n => n.box.height) h
  exact hheight

namespace BoxState

variable {s s' s'' : BoxState α} {nodes : List (PlacedNode α)}

/-! ## Moving nodes one by one -/

/-- Changing the place of one node changes nothing else about any of them. -/
theorem map_still_updatePlaced {f : PlacedNode α → PlacedNode α} (hf : ∀ n, (f n).still = n.still)
    (id : String) (nodes : List (PlacedNode α)) :
    (updatePlaced id f nodes).map PlacedNode.still = nodes.map PlacedNode.still := by
  rw [updatePlaced, List.map_map]
  refine List.map_congr_left fun n _ => ?_
  by_cases hn : n.id == id
  · rw [Function.comp_apply, if_pos hn, hf]
  · rw [Function.comp_apply, if_neg hn]

/-- Nodes are shifted one after the other, each in its place only. -/
theorem map_still_shiftNodes (ids : List String) (p : Point α) (nodes : List (PlacedNode α)) :
    (shiftNodes ids p nodes).map PlacedNode.still = nodes.map PlacedNode.still :=
  List.foldlRecOn (motive := fun ns : List (PlacedNode α) =>
    ns.map PlacedNode.still = nodes.map PlacedNode.still) _ _ rfl fun _ hns id _ =>
      (map_still_updatePlaced (f := (·.translate p)) (fun _ => rfl) id _).trans hns

/-- Nodes are put outside of a box one after the other, each by a change of its place. -/
theorem map_still_evict (gap : α) (box : Rect α) (ids : List String)
    (nodes : List (PlacedNode α)) :
    (evict gap box ids nodes).map PlacedNode.still = nodes.map PlacedNode.still := by
  refine List.foldlRecOn (motive := fun ns : List (PlacedNode α) =>
    ns.map PlacedNode.still = nodes.map PlacedNode.still) _ _ rfl fun _ hns id _ =>
      (map_still_updatePlaced (fun n => ?_) id _).trans hns
  simp only [PlacedNode.still, pushOutside]
  split <;> rfl

/-! ## Alike states -/

/-- The states are the same but for places of nodes and boxes of blocks. -/
structure Alike (s s' : BoxState α) : Prop where
  frames : SameFrames s s'
  nodes : s'.nodes.map PlacedNode.still = s.nodes.map PlacedNode.still

namespace Alike

theorem refl (s : BoxState α) : Alike s s := ⟨.refl s, rfl⟩

/-- States that are alike after each of two steps are alike after both. -/
theorem trans (h : Alike s s') (h' : Alike s' s'') : Alike s s'' :=
  ⟨h.frames.trans h'.frames, h'.nodes.trans h.nodes⟩

/-- A node of the later state is one of the earlier state at another place. -/
theorem exists_node (h : Alike s s') (hn : n ∈ s'.nodes) : ∃ m ∈ s.nodes, m.still = n.still := by
  have hstill : n.still ∈ s.nodes.map PlacedNode.still := h.nodes ▸ List.mem_map_of_mem hn
  exact List.mem_map.mp hstill

/-- Moving nodes and computing the boxes again leaves a state alike, for blocks keep all but their
boxes. -/
theorem of_nodes (h : nodes.map PlacedNode.still = s.nodes.map PlacedNode.still)
    (spacing : BoxSpacing α) : Alike s ({ s with nodes := nodes }.fit spacing) :=
  ⟨sameFrames_fit s nodes spacing, h⟩

end Alike

/-! ## A whole run -/

/-- A pair that is pushed apart has the nodes of one of its blocks moved, and otherwise nothing
happens. -/
theorem Alike.separate (d : Direction) (spacing : BoxSpacing α) (s : BoxState α) (i j : Nat) :
    Alike s (separate d spacing s i j).1 := by
  obtain heq | ⟨loser, -, p, heq⟩ := separate_cases d spacing s i j
  · rw [heq]
    exact .refl s
  · rw [heq]
    exact .of_nodes (map_still_shiftNodes _ _ _) spacing

/-- A turn of a block moves the nodes that it puts outside. -/
theorem Alike.expel (spacing : BoxSpacing α)
    (outer : List (PlacedBlock α) → PlacedBlock α → Rect α) (s : BoxState α) (i : Nat) :
    Alike s (s.expel spacing outer i) := by
  rcases expel_cases spacing outer s i with ⟨-, heq⟩ | ⟨b, -, -, -, heq⟩
  · rw [heq]
    exact .refl s
  · rw [heq]
    exact .of_nodes (map_still_evict _ _ _ _) spacing

/-- However many blocks have their turn, nodes are moved and boxes computed again. -/
theorem Alike.foldl_expel (spacing : BoxSpacing α)
    (outer : List (PlacedBlock α) → PlacedBlock α → Rect α) (turns : List Nat) (s : BoxState α) :
    Alike s (turns.foldl (BoxState.expel spacing outer) s) :=
  List.foldlRecOn (motive := Alike s) _ _ (.refl s) fun s' h i _ =>
    h.trans (.expel spacing outer s' i)

/-- A separation is made of pushes, so it leaves alone whatever every push does. -/
theorem Alike.resolveOverlaps (s : BoxState α) (d : Direction) (spacing : BoxSpacing α) :
    Alike s (s.resolveOverlaps d spacing).1 :=
  separateLoop_induct (P := Alike s) _ _ (.of_nodes rfl spacing)
    fun s' i j h => h.trans (.separate d spacing s' i j)

/-- The rounds in which nodes are put outside are made of turns, so they leave alone whatever every
turn does. -/
theorem Alike.repelForeign (s : BoxState α) (spacing : BoxSpacing α) :
    Alike s (s.repelForeign spacing).1 :=
  repelLoop_induct (P := Alike s) _ _ (.refl s) fun s' i h => h.trans (.expel spacing ownBox s' i)

/-- A run up to its last separation is made of separations and rounds, by induction on the rounds
that are left. -/
theorem Alike.lastSeparation (d : Direction) (spacing : BoxSpacing α) (left : Nat)
    (s : BoxState α) : Alike s (lastSeparation d spacing left s).1 := by
  induction left generalizing s with
  | zero => exact .resolveOverlaps s d spacing
  | succ left ih =>
    rw [BoxState.lastSeparation]
    split
    · exact .resolveOverlaps s d spacing
    · exact ((Alike.resolveOverlaps s d spacing).trans (.repelForeign _ spacing)).trans (ih _)

theorem Alike.finishSettling (s : BoxState α) (spacing : BoxSpacing α) :
    Alike s (s.finishSettling spacing) := by
  have hrepelled := Alike.repelForeign s spacing
  rw [BoxState.finishSettling]
  split
  · exact hrepelled.trans (.of_nodes rfl spacing)
  · rw [evictPastSiblings_eq]
    exact (hrepelled.trans (.foldl_expel spacing siblingBounds _ _)).trans (.of_nodes rfl spacing)

theorem Alike.lastSettled (s : BoxState α) (d : Direction) (spacing : BoxSpacing α) :
    Alike s (s.lastSettled d spacing).1 :=
  .lastSeparation d spacing (roundLimit - 1) s

/-- Settling changes places and boxes, and nothing else. -/
theorem Alike.settle (s : BoxState α) (d : Direction) (spacing : BoxSpacing α) :
    Alike s (s.settle d spacing).1 := by
  rw [settle_eq]
  exact (Alike.lastSettled s d spacing).trans (.finishSettling _ spacing)

end BoxState

end Flowchart
