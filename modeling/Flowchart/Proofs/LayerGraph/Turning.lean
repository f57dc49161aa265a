import Flowchart.Proofs.LayerGraph.Separation
import Flowchart.Proofs.Scalar.Nonneg

/-!
# Drawings in the four directions

A drawing is made downwards in a frame whose axes run across the flow and along it, and turned in
the end. Until then the direction only says which extent of a box lies across the flow. So for two
directions it is enough to tell how the extents read in one of them relate to those read in the
other, `Reframes`; each step commutes with that change of the boxes, with `resize` as its name here.

* A graph laid out to the right has the coordinates of the graph with widths and heights exchanged laid
  out downwards, exchanged; the same holds for left and upwards.
* Upwards and downwards read the same extents, so the upward drawing is the reflection of the downward
  one.

No law of arithmetic is needed for this, so it holds of rounded numbers as they are. Only that the
axis of the reflection is the lowest edge of a box takes laws, and they hold from zero on.
-/

namespace Flowchart

variable {α : Type}

/-- A vertex with its width and height exchanged. -/
def Vertex.turned (n : Vertex α) : Vertex α := { n with width := n.height, height := n.width }

/-- Extent of a vertex across a flow. -/
def Vertex.crossSize (n : Vertex α) (d : Direction) : α :=
  if d.isHorizontal then n.height else n.width

/-- Extent of a vertex along a flow. -/
def Vertex.mainSize (n : Vertex α) (d : Direction) : α :=
  if d.isHorizontal then n.width else n.height

/-- The bottom edge of a vertex. -/
def Vertex.bottom [Scalar α] (n : Vertex α) : α := n.y + n.height / 2.0

namespace LayerGraph

/-- All vertices changed in the same way. -/
def resize (change : Vertex α → Vertex α) (g : LayerGraph α) : LayerGraph α :=
  { g with nodes := g.nodes.map change }

/-- The graph with all widths and heights exchanged. -/
def turned (g : LayerGraph α) : LayerGraph α := g.resize Vertex.turned

/-- The centres of all vertices, passages included. -/
def centres (g : LayerGraph α) : Array (α × α) := g.nodes.map fun n => (n.x, n.y)

/-- Boxes changed in this way have, read in the direction `d'`, the extents that they had in the
direction `d`. Nothing else about them is changed. -/
structure Reframes (d d' : Direction) (change : Vertex α → Vertex α) : Prop where
  cross : ∀ n, (change n).crossSize d' = n.crossSize d
  main : ∀ n, (change n).mainSize d' = n.mainSize d
  x : ∀ n, (change n).x = n.x
  passage : ∀ n, (change n).isPassage = n.isPassage
  setX : ∀ n a, change { n with x := a } = { change n with x := a }
  setY : ∀ n a, change { n with y := a } = { change n with y := a }

/-- Nothing has to be changed about the boxes between two directions along the same axis. -/
theorem reframes_id {d d' : Direction} (h : d'.isHorizontal = d.isHorizontal) :
    Reframes d d' (id : Vertex α → Vertex α) := by
  constructor
  case cross => intro n; rw [id, Vertex.crossSize, h, Vertex.crossSize]
  case main => intro n; rw [id, Vertex.mainSize, h, Vertex.mainSize]
  all_goals exact fun _ => by first | rfl | exact fun _ => rfl

/-- Between a direction along one axis and one along the other, widths and heights are exchanged. -/
theorem reframes_turned {d d' : Direction} (h : d.isHorizontal = true)
    (h' : d'.isHorizontal = false) : Reframes d d' (Vertex.turned : Vertex α → Vertex α) := by
  constructor
  case cross => intro n; simp [Vertex.crossSize, h, h', Vertex.turned]
  case main => intro n; simp [Vertex.mainSize, h, h', Vertex.turned]
  all_goals exact fun _ => by first | rfl | exact fun _ => rfl

/-! ## The drawing in its frame -/

section Frame

variable [Scalar α] {d d' : Direction} {change : Vertex α → Vertex α}

/-- The size of a vertex across the flow is read off its entry, and is zero where there is none. -/
theorem crossSize_eq (g : LayerGraph α) (d : Direction) (v : Nat) :
    g.crossSize d v = (g.nodes[v]?.map (Vertex.crossSize · d)).getD 0.0 := by
  rw [crossSize]
  cases g.nodes[v]? <;> rfl

theorem mainSize_eq (g : LayerGraph α) (d : Direction) (v : Nat) :
    g.mainSize d v = (g.nodes[v]?.map (Vertex.mainSize · d)).getD 0.0 := by
  rw [mainSize]
  cases g.nodes[v]? <;> rfl

omit [Scalar α] in
/-- What is done to one vertex can be done before or after all boxes are changed, if it commutes
with the change of its own box. -/
theorem updateNode_resize {f : Vertex α → Vertex α} (hf : ∀ n, change (f n) = f (change n))
    (g : LayerGraph α) (v : Nat) :
    (g.resize change).updateNode v f = (g.updateNode v f).resize change := by
  simp only [resize, updateNode]
  congr 1
  apply Array.ext_getElem?
  intro i
  simp only [Array.getElem?_modify, Array.getElem?_map]
  split
  · cases g.nodes[i]? <;> simp [hf]
  · rfl

section Steps

variable (h : Reframes d d' change) (g : LayerGraph α) (spacing : Spacing α)
include h

/-- After the change of the boxes the sizes across the flow are read in the second direction as they
were in the first one. -/
theorem Reframes.crossSize_resize (v : Nat) : (g.resize change).crossSize d' v = g.crossSize d v := by
  simp [crossSize_eq, resize, Option.map_map, Function.comp_def, h.cross]

theorem Reframes.mainSize_resize (v : Nat) : (g.resize change).mainSize d' v = g.mainSize d v := by
  simp [mainSize_eq, resize, Option.map_map, Function.comp_def, h.main]

/-- A change of the boxes moves no vertex. -/
theorem Reframes.xOf_resize (v : Nat) : (g.resize change).xOf v = g.xOf v := by
  simp [xOf_eq, resize, Option.map_map, Function.comp_def, h.x]

omit [Scalar α] in
/-- The spacing between two vertices depends on whether they are passages, which a change of the
boxes leaves alone. -/
theorem Reframes.gapBetween_resize (u v : Nat) :
    (g.resize change).gapBetween spacing u v = g.gapBetween spacing u v := by
  have hpassage : ∀ w, (g.resize change).isPassage w = g.isPassage w := by
    intro w
    simp [isPassage, resize, Option.map_map, Function.comp_def, h.passage]
  rw [gapBetween, hpassage, hpassage, gapBetween]

/-- Ranks are stacked by their sizes along the flow, which are the same after the change. The
induction is on the ranks, each of which begins where the one before ended. -/
theorem Reframes.stackRanks_resize (rankGap : α) (ranks : List (List Nat)) (top : α) :
    stackRanks d' rankGap ranks top (g.resize change) =
      (stackRanks d rankGap ranks top g).resize change := by
  induction ranks generalizing top g with
  | nil => rfl
  | cons members rest ih =>
    have hfold : ∀ (l : List Nat) (y : α) (g : LayerGraph α),
        l.foldl (fun g v => g.updateNode v ({ · with y := y })) (g.resize change) =
          (l.foldl (fun g v => g.updateNode v ({ · with y := y })) g).resize change := by
      intro l y
      induction l with
      | nil => exact fun _ => rfl
      | cons v l ih =>
        intro g
        rw [List.foldl_cons, updateNode_resize (h.setY · y), ih, List.foldl_cons]
    rw [stackRanks, stackRanks]
    simp only [funext (h.mainSize_resize g)]
    rw [hfold, ih]

/-- Members are spread by their sizes across the flow, which are the same after the change. -/
theorem Reframes.spreadAfter_resize (p : Nat) (x : α) (members : List Nat) :
    spreadAfter d' spacing p x members (g.resize change) =
      (spreadAfter d spacing p x members g).resize change := by
  induction members generalizing p x g with
  | nil => rfl
  | cons v rest ih =>
    rw [spreadAfter, spreadAfter]
    simp only [h.crossSize_resize, h.gapBetween_resize]
    rw [updateNode_resize (h.setX · _), ih]

theorem Reframes.spreadRank_resize (members : List Nat) :
    spreadRank d' spacing (g.resize change) members =
      (spreadRank d spacing g members).resize change := by
  cases members with
  | nil => rfl
  | cons v rest => rw [spreadRank, spreadRank, updateNode_resize (h.setX · _), h.spreadAfter_resize]

/-- There is room for a vertex after the change where there was room for it before. -/
theorem Reframes.mayMove_resize (before : List Nat) (v : Nat) (after : List Nat) (x : α) :
    (g.resize change).mayMove d' spacing before v after x = g.mayMove d spacing before v after x := by
  simp only [mayMove, requiredDistance, h.crossSize_resize, h.gapBetween_resize, h.xOf_resize]
  rfl

/-- A vertex is pulled towards the middle of its neighbours, whatever their sizes are. -/
theorem Reframes.pulledTo?_resize (downward : Bool) (v : Nat) :
    (g.resize change).pulledTo? downward v = g.pulledTo? downward v := by
  rw [pulledTo?, pulledTo?, funext (h.xOf_resize g)]
  rfl

/-- So every vertex of a rank makes the same move, and the next one sees the same places. -/
theorem Reframes.pullRank_resize (downward : Bool) (members before : List Nat) :
    pullRank d' spacing downward before members (g.resize change) =
      (pullRank d spacing downward before members g).resize change := by
  induction members generalizing before g with
  | nil => rfl
  | cons v after ih =>
    rw [pullRank, pullRank, h.pulledTo?_resize]
    cases g.pulledTo? downward v with
    | none => exact ih g _
    | some x =>
      dsimp only
      rw [h.mayMove_resize, updateNode_resize (h.setX · _), ← apply_ite (resize change), ih]

/-- A sweep in the second direction makes the moves of a sweep in the first one. -/
theorem Reframes.pullRanks_resize (downward : Bool) :
    pullRanks d' spacing downward (g.resize change) =
      (pullRanks d spacing downward g).resize change :=
  List.foldl_hom (resize change) fun g members => h.pullRank_resize g spacing downward members []

/-- The shift to zero is taken from the left edges, which are the same after the change. -/
theorem Reframes.shiftToZero_resize :
    shiftToZero d' (g.resize change) = (shiftToZero d g).resize change := by
  have hvertices : (g.resize change).vertices = g.vertices :=
    congrArg List.range Array.size_map
  have hshift : ∀ least : α, { g.resize change with
      nodes := (g.resize change).nodes.map fun n => { n with x := n.x - least } } =
        resize change { g with nodes := g.nodes.map fun n => { n with x := n.x - least } } := by
    intro least
    simp only [resize, Array.map_map]
    congr 1
    refine Array.map_congr_left fun n _ => ?_
    exact (congrArg (fun a => { change n with x := a - least }) (h.x n)).trans
      (h.setX n (n.x - least)).symm
  rw [shiftToZero, shiftToZero, hvertices]
  simp only [h.xOf_resize, h.crossSize_resize]
  split
  · rw [hshift, ← apply_ite (resize change)]
  · rfl

/-- Before the direction is applied, only the extents read in it matter. -/
theorem Reframes.assignDownward_resize :
    (g.resize change).assignDownward spacing d' = (g.assignDownward spacing d).resize change := by
  rw [assignDownward, assignDownward]
  rw [show (g.resize change).ranks = g.ranks from rfl, h.stackRanks_resize]
  generalize stackRanks d spacing.rankGap g.ranks.toList 0.0 g = g₁
  rw [show (g₁.resize change).ranks = g₁.ranks from rfl,
    List.foldl_hom (resize change) fun g members => h.spreadRank_resize g spacing members,
    List.foldl_hom (resize change) fun g sweep => h.pullRanks_resize g spacing (sweep % 2 == 0),
    h.shiftToZero_resize]

end Steps

end Frame

/-! ## The four directions -/

section Directions

variable [Scalar α] (g : LayerGraph α) (spacing : Spacing α)

omit [Scalar α] in
/-- A change of the boxes leaves the centres where they are. -/
theorem centres_resize {change : Vertex α → Vertex α} (hx : ∀ n, (change n).x = n.x)
    (hy : ∀ n, (change n).y = n.y) : (g.resize change).centres = g.centres := by
  simp [centres, resize, Function.comp_def, hx, hy]

omit [Scalar α] in
/-- Exchanging the axes exchanges the coordinates of every centre. -/
theorem centres_transpose : g.transpose.centres = g.centres.map Prod.swap := by
  simp [centres, transpose, Function.comp_def]

/-- Mirrored downwards, the centres are reflected at the lowest bottom edge. -/
theorem centres_mirrorDown : g.mirrorDown.centres =
    let far := Scalar.maxFromZero (g.nodes.toList.map Vertex.bottom)
    g.centres.map fun p => (p.1, far - p.2) := by
  simp only [centres, mirrorDown, Array.map_map, Function.comp_def]
  rfl

/-- To exchange the axes and mirror to the right is to mirror downwards what has widths and heights
exchanged, and to exchange the coordinates after that. -/
theorem centres_mirrorRight_transpose :
    g.transpose.mirrorRight.centres = g.turned.mirrorDown.centres.map Prod.swap := by
  simp [centres, mirrorRight, mirrorDown, transpose, turned, resize, Vertex.turned,
    Function.comp_def]

/-- To the right is downwards with the axes exchanged. -/
theorem centres_leftRight : (g.assignCoordinates spacing .leftRight).centres =
    (g.turned.assignCoordinates spacing .topDown).centres.map Prod.swap := by
  have hframe : Reframes .leftRight .topDown (Vertex.turned (α := α)) := reframes_turned rfl rfl
  rw [assignCoordinates_eq, assignCoordinates_eq, turned, hframe.assignDownward_resize]
  have hturned : ((g.assignDownward spacing .leftRight).resize Vertex.turned).centres =
      (g.assignDownward spacing .leftRight).centres :=
    centres_resize _ (fun _ => rfl) fun _ => rfl
  exact (centres_transpose _).trans (congrArg (Array.map Prod.swap) hturned.symm)

/-- To the left is upwards with the axes exchanged. -/
theorem centres_rightLeft : (g.assignCoordinates spacing .rightLeft).centres =
    (g.turned.assignCoordinates spacing .bottomTop).centres.map Prod.swap := by
  have hframe : Reframes .rightLeft .bottomTop (Vertex.turned (α := α)) := reframes_turned rfl rfl
  rw [assignCoordinates_eq, assignCoordinates_eq, turned, hframe.assignDownward_resize]
  exact centres_mirrorRight_transpose _

/-- A graph laid out upwards has the centres of the same graph laid out downwards, each reflected
within the height of the drawing. -/
theorem centres_bottomTop : (g.assignCoordinates spacing .bottomTop).centres =
    let far := Scalar.maxFromZero
      ((g.assignCoordinates spacing .topDown).nodes.toList.map Vertex.bottom)
    (g.assignCoordinates spacing .topDown).centres.map fun p => (p.1, far - p.2) := by
  have hframe : Reframes .topDown .bottomTop (id : Vertex α → Vertex α) := reframes_id rfl
  have hid : ∀ g : LayerGraph α, g.resize id = g := fun g => by simp [resize]
  have hdown := hframe.assignDownward_resize g spacing
  rw [hid, hid] at hdown
  rw [assignCoordinates_eq, hdown]
  exact centres_mirrorDown _

end Directions

/-! ## The axis of the reflection -/

section Lowest

variable [Scalar α] [Scalar.NonnegLaws α] {g : LayerGraph α} {spacing : Spacing α} {d : Direction}
  {v : Nat}

open Scalar NonnegLaws

/-- No vertex has a negative size along the flow, whether it exists or not. -/
theorem mainSize_nonneg (hsizes : ∀ n ∈ g.nodes, 0.0 ≤ n.width ∧ 0.0 ≤ n.height) (d : Direction)
    (v : Nat) : 0.0 ≤ g.mainSize d v := by
  rw [mainSize]
  split
  · have hn := hsizes _ (Array.mem_of_getElem? ‹_›)
    split
    · exact hn.1
    · exact hn.2
  · exact zero_le

/-- Stacked from zero on, all members of the ranks are centred from zero on. -/
theorem yOf_stackRanks_nonneg {ranks : List (List Nat)} {top rankGap : α} (htop : 0.0 ≤ top)
    (hgap : 0.0 ≤ rankGap) (hmain : ∀ v, 0.0 ≤ g.mainSize d v) (hv : v < g.size)
    (h : 0.0 ≤ g.yOf v ∨ v ∈ ranks.flatten) : 0.0 ≤ (stackRanks d rankGap ranks top g).yOf v := by
  induction ranks generalizing top g with
  | nil => exact h.resolve_right List.not_mem_nil
  | cons members rest ih =>
    have hthick : 0.0 ≤ Scalar.maxFromZero (members.map (g.mainSize d)) :=
      (maxFromZero_spec (List.forall_mem_map.mpr fun v _ => hmain v)).1
    have hmiddle := add_nonneg htop (half_nonneg hthick)
    have hkept : ∀ (members : List Nat) (y : α), Keeps Vertex.profile g
        (members.foldl (fun g v => g.updateNode v ({ · with y := y })) g) := fun members y =>
      Keeps.foldl (fun g v => Keeps.updateNode (u := ({ · with y := y })) (fun _ => rfl) g v)
        members g
    rw [stackRanks]
    refine ih (add_nonneg htop (add_nonneg hthick hgap)) ?_ ?_ ?_
    · intro v
      rw [(hkept _ _).mainSize_eq]
      exact hmain v
    · exact (hkept _ _).size_eq ▸ hv
    · rw [yOf_foldl_setY]
      split
      · exact .inl hmiddle
      · rw [List.flatten_cons, List.mem_append] at h
        tauto

/-- No bottom edge of a downward drawing lies above zero, since ranks are stacked from zero on and
nothing after the stacking moves a vertex along the flow. -/
theorem bottom_nonneg (hsizes : ∀ n ∈ g.nodes, 0.0 ≤ n.width ∧ 0.0 ≤ n.height)
    (hgap : 0.0 ≤ spacing.rankGap) (hranks : ∀ v < g.size, v ∈ g.ranks.toList.flatten) :
    ∀ n ∈ (g.assignCoordinates spacing .topDown).nodes, 0.0 ≤ n.bottom := by
  intro n hn
  obtain ⟨v, hv⟩ := Array.mem_iff_getElem?.mp hn
  let g₁ := stackRanks .topDown spacing.rankGap g.ranks.toList 0.0 g
  -- nothing after the stacking moves a vertex along the flow
  have hy : Keeps Vertex.y g₁ (g.assignCoordinates spacing .topDown) :=
    ((Keeps.foldl (keeps_spreadRank (fun _ _ => rfl) .topDown spacing) _ _).trans
      (Keeps.foldl (fun g sweep => keeps_pullRanks (fun _ _ => rfl) .topDown spacing _ g) _ _)).trans
      (keeps_shiftToZero (fun _ _ => rfl) .topDown _)
  have hsize : Keeps Vertex.height g (g.assignCoordinates spacing .topDown) :=
    keeps_assignCoordinates (fun _ _ _ => rfl) g spacing .topDown
  have hlt : v < g.size := hsize.size_eq ▸ (Array.getElem?_eq_some_iff.mp hv).1
  have hcentre : 0.0 ≤ g₁.yOf v := yOf_stackRanks_nonneg zero_le hgap
    (mainSize_nonneg hsizes .topDown) hlt (.inr (hranks v hlt))
  rw [← hy.yOf_eq, yOf_eq, hv] at hcentre
  have hheight := hsize.getElem? v
  rw [hv, Option.map_some] at hheight
  obtain ⟨m, hm, hsame⟩ := Option.map_eq_some_iff.mp hheight.symm
  have hextent := (hsizes m (Array.mem_of_getElem? hm)).2
  rw [hsame] at hextent
  exact add_nonneg hcentre (half_nonneg hextent)

/-- The coordinate of the lowest edge of a box, which some box reaches. -/
structure IsLowest (g : LayerGraph α) (m : α) : Prop where
  le : ∀ n ∈ g.nodes, n.bottom ≤ m
  reached : g.nodes ≠ #[] → ∃ n ∈ g.nodes, m ≤ n.bottom

/-- **The directions are images of each other.** For a graph whose vertices all stand in rank lists,
the centres of a drawing to the right, or to the left, are those of the drawing downwards, or
upwards, of the graph with widths and heights exchanged, with x and y exchanged. The centres of a
drawing upwards are those of the drawing downwards, reflected at its lowest edge. This holds of
passages as well, for any gaps and any number of sweeps, and of rounded numbers as they are. -/
theorem assignCoordinates_directions (hsizes : ∀ n ∈ g.nodes, 0.0 ≤ n.width ∧ 0.0 ≤ n.height)
    (hgap : 0.0 ≤ spacing.rankGap) (hranks : ∀ v < g.size, v ∈ g.ranks.toList.flatten) :
    (g.assignCoordinates spacing .leftRight).centres =
        (g.turned.assignCoordinates spacing .topDown).centres.map Prod.swap ∧
      (g.assignCoordinates spacing .rightLeft).centres =
        (g.turned.assignCoordinates spacing .bottomTop).centres.map Prod.swap ∧
      ∃ m, (g.assignCoordinates spacing .topDown).IsLowest m ∧
        (g.assignCoordinates spacing .bottomTop).centres =
          (g.assignCoordinates spacing .topDown).centres.map fun p => (p.1, m - p.2) := by
  refine ⟨centres_leftRight g spacing, centres_rightLeft g spacing, _, ?_,
    centres_bottomTop g spacing⟩
  have hbottoms := bottom_nonneg hsizes hgap hranks
  generalize g.assignCoordinates spacing .topDown = h at hbottoms
  have hnonneg : ∀ x ∈ h.nodes.toList.map Vertex.bottom, 0.0 ≤ x :=
    List.forall_mem_map.mpr fun n hn => hbottoms n (Array.mem_toList_iff.mp hn)
  obtain ⟨-, hle, hreached⟩ := maxFromZero_spec hnonneg
  constructor
  case le => exact fun n hn => hle _ (List.mem_map_of_mem (Array.mem_toList_iff.mpr hn))
  case reached =>
    intro hne
    obtain ⟨x, hx, hxle⟩ := hreached (by simpa using hne)
    obtain ⟨n, hn, rfl⟩ := List.mem_map.mp hx
    exact ⟨n, Array.mem_toList_iff.mp hn, hxle⟩

end Lowest

/-- Three vertices of different sizes in a row, and beside the second one a passage from the first
to the third, in single precision. -/
def bypass : LayerGraph Float32 where
  nodes := #[⟨"a", 40, 20, 0, 0, 0, 0, none, []⟩, ⟨"b", 60, 30, 1, 0, 0, 0, none, []⟩,
    ⟨"c", 40, 10, 2, 0, 0, 0, none, []⟩, ⟨"_dummy_1_1", 0, 0, 1, 1, 0, 0, some ⟨1, "a", "c"⟩, []⟩]
  arcs := #[⟨0, 1, 1, 1, false, true, 0⟩, ⟨0, 2, 1, 1, false, false, 1⟩,
    ⟨1, 2, 1, 1, false, true, 2⟩, ⟨0, 3, 1, 1, false, true, 1⟩, ⟨3, 2, 1, 1, false, true, 1⟩]
  outgoing := #[[0, 3], [2], [], [4]]
  incoming := #[[], [0], [2, 4], [3]]
  ranks := #[[0], [1, 3], [2]]
  chains := [⟨1, [3], false⟩]

/-- In all four directions the passage goes past the second vertex. -/
theorem assignCoordinates_directions_bypass :
    (∀ n ∈ bypass.nodes, 0.0 ≤ n.width ∧ 0.0 ≤ n.height) ∧ (0.0 : Float32) ≤ 30 ∧
    (∀ v < bypass.size, v ∈ bypass.ranks.toList.flatten) ∧
    (bypass.assignCoordinates ⟨10, 30, 5, 4⟩ .leftRight).centres =
      (bypass.turned.assignCoordinates ⟨10, 30, 5, 4⟩ .topDown).centres.map Prod.swap ∧
    (bypass.assignCoordinates ⟨10, 30, 5, 4⟩ .rightLeft).centres =
      (bypass.turned.assignCoordinates ⟨10, 30, 5, 4⟩ .bottomTop).centres.map Prod.swap ∧
    ∃ m, (bypass.assignCoordinates ⟨10, 30, 5, 4⟩ .topDown).IsLowest m ∧
      (bypass.assignCoordinates ⟨10, 30, 5, 4⟩ .bottomTop).centres =
        (bypass.assignCoordinates ⟨10, 30, 5, 4⟩ .topDown).centres.map fun p => (p.1, m - p.2) := by
  have hsizes : ∀ n ∈ bypass.nodes, 0.0 ≤ n.width ∧ 0.0 ≤ n.height := by
    simp only [bypass, List.mem_toArray, List.mem_cons, List.not_mem_nil, or_false]
    rintro n (rfl | rfl | rfl | rfl) <;> decide +kernel
  have hgap : (0.0 : Float32) ≤ (Spacing.mk 10 30 5 4).rankGap := by decide +kernel
  have hranks : ∀ v < bypass.size, v ∈ bypass.ranks.toList.flatten := by decide
  exact ⟨hsizes, hgap, hranks, assignCoordinates_directions hsizes hgap hranks⟩

end LayerGraph

end Flowchart
