import Flowchart.Layout.Placement
import Flowchart.Route.Ports

/-!
# Blocks with a direction of their own

The members of a block without inner blocks that runs in another direction than the diagram are
placed again, on their own and in that direction, and then moved as a whole so that the centre of
their joint box stays where it was. Connections between members follow the direction of the block.
-/

namespace Flowchart

/-- What the placing of blocks changes. -/
structure FlowState (α : Type) where
  /-- the nodes -/
  nodes : List (PlacedNode α)
  /-- the connections in order -/
  links : List (FlowEdge α)
  deriving Inhabited

namespace FlowState

variable {α : Type} [Scalar α]

/-- The direction in which the block at position `i` is placed again, if it is. -/
def ownDirection? (overall : Direction) (flat : List FlatBlock) (i : Nat) (b : FlatBlock) :
    Option Direction :=
  match b.block.direction with
  | none => none
  | some d => if d == overall || flat.any (·.parent == some i) then none else some d

/-- The connections between members, known by their position. -/
def innerLinks (members : List String) (links : List (FlowEdge α)) : List NodeLink :=
  links.zipIdx.filterMap fun (l, i) =>
    if members.contains l.edge.source && members.contains l.edge.target then
      some ⟨i, l.edge.source, l.edge.target⟩
    else none

/-- The joint box of some nodes. -/
def jointBox? (nodes : List (PlacedNode α)) (members : List String) : Option (Rect α) :=
  Rect.unionAll? (members.filterMap fun id => (placedNode? nodes id).map PlacedNode.box)

/-- The members moved to their new places, displaced by `d`. Their ranks stay as they are. -/
def moveMembers (p : Placement α) (members : List String) (d : Point α)
    (nodes : List (PlacedNode α)) : List (PlacedNode α) :=
  nodes.map fun n =>
    if members.contains n.id then { n with box := (p.put n).box.translate d } else n

/-- The connections between members redirected, with their new waypoints displaced by `d`. -/
def redirect (p : Placement α) (inner : List NodeLink) (own : Direction) (d : Point α)
    (links : List (FlowEdge α)) : List (FlowEdge α) :=
  links.zipIdx.map fun (l, i) =>
    if inner.any (·.index == i) then
      { l with waypoints := (p.waypointsOf i).map (·.add d), direction := own }
    else l

/-- Places the members of a block again in its own direction. -/
def replace (options : LayoutOptions α) (sizes : List (SizedNode α)) (own : Direction)
    (block : Block) (s : FlowState α) : FlowState α :=
  let members := (block.members.filter fun id => (placedNode? s.nodes id).isSome).eraseDups
  let inner := innerLinks members s.links
  let p := Placement.compute options own
    ((sizes.filter fun n => members.contains n.id).map ({ · with cluster := [] })) inner
  match jointBox? s.nodes members, jointBox? (s.nodes.map p.put) members with
  | some old, some new =>
    let d := old.center.sub new.center
    ⟨moveMembers p members d s.nodes, redirect p inner own d s.links⟩
  | _, _ => s

/-- Places the members of all blocks again that run in a direction of their own. -/
def replaceDirected (options : LayoutOptions α) (overall : Direction) (flat : List FlatBlock)
    (sizes : List (SizedNode α)) (s : FlowState α) : FlowState α :=
  flat.zipIdx.foldl (fun s (b, i) =>
    match ownDirection? overall flat i b with
    | some own => s.replace options sizes own b.block
    | none => s) s

/-- The displacement of a node since an earlier state. -/
def shiftOf? (before after : List (PlacedNode α)) (id : String) : Option (Point α) :=
  match placedNode? before id, placedNode? after id with
  | some old, some new => some (new.center.sub old.center)
  | _, _ => none

/-- The waypoints of a connection after its nodes were moved: they move along if both nodes moved
alike, and are given up otherwise. -/
def followEnds (before after : List (PlacedNode α)) (l : FlowEdge α) : FlowEdge α :=
  match shiftOf? before after l.edge.source, shiftOf? before after l.edge.target with
  | some a, some b =>
    if (0.5 : α) < Scalar.abs (a.x - b.x) ∨ (0.5 : α) < Scalar.abs (a.y - b.y) then
      { l with waypoints := [] }
    else if (1.1920929e-7 : α) < Scalar.abs a.x ∨ (1.1920929e-7 : α) < Scalar.abs a.y then
      { l with waypoints := l.waypoints.map (·.add a) }
    else l
  | _, _ => l

end FlowState

end Flowchart
