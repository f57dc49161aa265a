import Flowchart.Layered.Graph
import Flowchart.Diagram.Direction

/-!
# Coordinates

Coordinates are assigned as if the flow ran downwards: ranks are stacked along y, and along x the
vertices of a rank are first set side by side and then moved, in sweeps over the ranks, to the
median position of their neighbours. A move that would bring two members of a rank too close, or let
them change sides, is not made at all. In the end the axes are exchanged for the horizontal
directions and mirrored for the directions that run backwards.
-/

namespace Flowchart

/-- Distances kept between boxes. -/
structure Spacing (α : Type) where
  /-- between two vertices of a rank -/
  nodeGap : α
  /-- between two ranks -/
  rankGap : α
  /-- between two vertices of a rank if one of them is a passage -/
  edgeGap : α
  /-- how many sweeps move the vertices -/
  sweeps : Nat
  deriving Inhabited

namespace LayerGraph

variable {α : Type} [Scalar α]

/-- Rounding room when distances are compared. -/
def separationTolerance : α := 1e-3

/-- The x coordinate of a vertex. -/
def xOf (g : LayerGraph α) (v : Nat) : α := (g.position v).x

/-- Extent of a vertex across the flow. -/
def crossSize (g : LayerGraph α) (d : Direction) (v : Nat) : α :=
  match g.nodes[v]? with
  | some n => if d.isHorizontal then n.height else n.width
  | none => 0.0

/-- Extent of a vertex along the flow. -/
def mainSize (g : LayerGraph α) (d : Direction) (v : Nat) : α :=
  match g.nodes[v]? with
  | some n => if d.isHorizontal then n.width else n.height
  | none => 0.0

/-- The gap that two members of a rank have to keep. -/
def gapBetween (g : LayerGraph α) (spacing : Spacing α) (u v : Nat) : α :=
  if g.isPassage u || g.isPassage v then spacing.edgeGap else spacing.nodeGap

/-! ## Stacking the ranks -/

/-- Centres the members of the ranks along y, from the coordinate `top` on. -/
def stackRanks (d : Direction) (rankGap : α) : List (List Nat) → α → LayerGraph α → LayerGraph α
  | [], _, g => g
  | members :: rest, top, g =>
    let thickness := Scalar.maxFromZero (members.map (g.mainSize d))
    let middle := top + thickness / 2.0
    let g := members.foldl (fun g v => g.updateNode v ({ · with y := middle })) g
    stackRanks d rankGap rest (top + (thickness + rankGap)) g

/-! ## Positions within a rank -/

/-- Sets the members of a rank side by side, the first one of `members` right of `previous`, whose
centre is at `x`. -/
def spreadAfter (d : Direction) (spacing : Spacing α) :
    (previous : Nat) → α → List Nat → LayerGraph α → LayerGraph α
  | _, _, [], g => g
  | p, x, v :: rest, g =>
    let x := x + (g.crossSize d p / 2.0 + g.gapBetween spacing p v + g.crossSize d v / 2.0)
    spreadAfter d spacing v x rest (g.updateNode v ({ · with x := x }))

/-- Sets the members of a rank side by side, the first one with its centre at zero. -/
def spreadRank (d : Direction) (spacing : Spacing α) (g : LayerGraph α) : List Nat → LayerGraph α
  | [] => g
  | v :: rest => spreadAfter d spacing v 0.0 rest (g.updateNode v ({ · with x := 0.0 }))

/-- The distance that the centres of two members of a rank have to keep. -/
def requiredDistance (g : LayerGraph α) (d : Direction) (spacing : Spacing α) (u v : Nat) : α :=
  (g.crossSize d u + g.crossSize d v) / 2.0 + g.gapBetween spacing u v

/-- A vertex may be moved to `x`: it stays right of the members before it and left of those after
it, at the required distances. -/
def mayMove (g : LayerGraph α) (d : Direction) (spacing : Spacing α) (before : List Nat) (v : Nat)
    (after : List Nat) (x : α) : Bool :=
  let far (u : Nat) : Bool :=
    decide (g.requiredDistance d spacing v u ≤ Scalar.abs (x - g.xOf u) + separationTolerance)
  before.all (fun u => decide (g.xOf u < x) && far u)
    && after.all (fun u => decide (x < g.xOf u) && far u)

/-- The position that the neighbours of a vertex pull it to. -/
def pulledTo? (g : LayerGraph α) (downward : Bool) (v : Nat) : Option α :=
  let neighbours := if downward then g.predecessors v else g.successors v
  Scalar.middle? ((neighbours.map g.xOf).mergeSort Scalar.totalLe)

/-- Moves the members of a rank one after the other; `before` holds the members already dealt
with. -/
def pullRank (d : Direction) (spacing : Spacing α) (downward : Bool) (before : List Nat) :
    List Nat → LayerGraph α → LayerGraph α
  | [], g => g
  | v :: after, g =>
    let g := match g.pulledTo? downward v with
      | some x =>
        if g.mayMove d spacing before v after x then g.updateNode v ({ · with x := x }) else g
      | none => g
    pullRank d spacing downward (before ++ [v]) after g

/-- Moves the members of all ranks but the first one in the direction of the sweep. -/
def pullRanks (d : Direction) (spacing : Spacing α) (downward : Bool) (g : LayerGraph α) :
    LayerGraph α :=
  let order := if downward then g.ranks.toList.drop 1 else g.ranks.toList.dropLast.reverse
  order.foldl (fun g members => pullRank d spacing downward [] members g) g

/-- Shifts all vertices along x so that no box extends below zero and one touches it. -/
def shiftToZero (d : Direction) (g : LayerGraph α) : LayerGraph α :=
  match Scalar.minimum? (g.vertices.map fun v => g.xOf v - g.crossSize d v / 2.0) with
  | some least =>
    if Scalar.isFinite least then
      { g with nodes := g.nodes.map fun n => { n with x := n.x - least } }
    else g
  | none => g

/-! ## Directions -/

/-- Exchanges the axes. -/
def transpose (g : LayerGraph α) : LayerGraph α :=
  { g with nodes := g.nodes.map fun n => { n with x := n.y, y := n.x } }

/-- Mirrors the y axis at the lowest bottom edge. -/
def mirrorDown (g : LayerGraph α) : LayerGraph α :=
  let far := Scalar.maxFromZero (g.nodes.toList.map fun n => n.y + n.height / 2.0)
  { g with nodes := g.nodes.map fun n => { n with y := far - n.y } }

/-- Mirrors the x axis at the rightmost edge. -/
def mirrorRight (g : LayerGraph α) : LayerGraph α :=
  let far := Scalar.maxFromZero (g.nodes.toList.map fun n => n.x + n.width / 2.0)
  { g with nodes := g.nodes.map fun n => { n with x := far - n.x } }

/-- Turns a downward drawing into the requested direction. -/
def applyDirection (g : LayerGraph α) : Direction → LayerGraph α
  | .topDown => g
  | .bottomTop => g.mirrorDown
  | .leftRight => g.transpose
  | .rightLeft => g.transpose.mirrorRight

/-- Places all vertices. -/
def assignCoordinates (g : LayerGraph α) (spacing : Spacing α) (d : Direction) : LayerGraph α :=
  let g := stackRanks d spacing.rankGap g.ranks.toList 0.0 g
  let g := g.ranks.toList.foldl (spreadRank d spacing) g
  let g := (List.range spacing.sweeps).foldl
    (fun g sweep => pullRanks d spacing (sweep % 2 == 0) g) g
  (shiftToZero d g).applyDirection d

end LayerGraph

end Flowchart
