import Flowchart.Layered.Coordinates
import Flowchart.Layered.Cycles
import Flowchart.Layered.Ordering
import Flowchart.Layered.Ranking
import Flowchart.Layout.Options
import Flowchart.Layout.Parts

/-!
# Placement

One run of the layered phases: cycles are removed, ranks assigned, long connections split, ranks
ordered and coordinates assigned. What comes back is the centre of every node and, for every
connection over more than one rank, the points it passes through. Loops take no part.
-/

namespace Flowchart

/-- A node to be placed. -/
structure SizedNode (α : Type) where
  /-- its name -/
  id : String
  /-- extent along the x axis -/
  width : α
  /-- extent along the y axis -/
  height : α
  /-- the blocks around it, outermost first, by their position in the listing of blocks -/
  cluster : List Nat
  deriving Inhabited

/-- A connection between nodes to be placed. -/
structure NodeLink where
  /-- what it is known by -/
  index : Nat
  /-- the node it leaves -/
  source : String
  /-- the node it enters -/
  target : String
  deriving Repr, DecidableEq, Inhabited

/-- Where a node was placed. -/
structure NodePlace (α : Type) where
  /-- its name -/
  id : String
  /-- its centre -/
  center : Point α
  /-- its rank -/
  rank : Nat
  /-- its position in the rank -/
  order : Nat
  deriving Inhabited

/-- The result of the layered phases. -/
structure Placement (α : Type) where
  /-- where the nodes are -/
  nodes : List (NodePlace α)
  /-- the points that long connections pass through -/
  waypoints : List (Nat × List (Point α))
  /-- what the phases did -/
  stats : LayoutStats
  deriving Inhabited

namespace Placement

variable {α : Type} [Scalar α]

/-- The working graph of nodes and connections, loops left out. -/
def workingGraph (nodes : List (SizedNode α)) (links : List NodeLink) : LayerGraph α :=
  let g := nodes.foldl (fun (g : LayerGraph α) n => g.addNode n.id n.width n.height n.cluster) {}
  links.foldl (fun g e =>
    if e.source == e.target then g else (g.addArcById? e.source e.target e.index).getD g) g

/-- The distances that coordinates keep. -/
def spacing (options : LayoutOptions α) : Spacing α where
  nodeGap := options.nodeSpacing
  rankGap := options.rankSpacing
  edgeGap := options.edgeSpacing
  sweeps := options.coordinateSweeps

/-- The points of every split connection. -/
def passedPoints (g : LayerGraph α) : List (Nat × List (Point α)) :=
  g.chains.map fun c => ((g.arcs[c.arc]?.map Arc.origin).getD 0, g.waypoints c.arc)

/-- The places of the nodes that the caller named. -/
def namedPlaces (g : LayerGraph α) : List (NodePlace α) :=
  (g.nodes.toList.filter (!·.isPassage)).map fun n => ⟨n.id, ⟨n.x, n.y⟩, n.rank.toNat, n.order⟩

/-- Places nodes. -/
def compute (options : LayoutOptions α) (d : Direction) (nodes : List (SizedNode α))
    (links : List NodeLink) : Placement α :=
  let g := workingGraph nodes links
  let (g, reversed) := g.makeAcyclic
  let g := g.assignRanks options.rankStrategy options.simplexLimit
  let (g, passages) := g.splitLong
  let (g, ordering) := g.orderRanks options.orderPasses
  let g := g.assignCoordinates (spacing options) d
  { waypoints := passedPoints g
    nodes := namedPlaces g.undoAcyclic
    stats := ⟨g.ranks.size, passages, reversed, ordering.initialCrossings, ordering.crossings,
      ordering.passes, 0⟩ }

/-- The points that a connection passes through. -/
def waypointsOf (p : Placement α) (index : Nat) : List (Point α) :=
  (p.waypoints.lookup index).getD []

/-- The place of a node. -/
def find? (p : Placement α) (id : String) : Option (NodePlace α) := p.nodes.find? (·.id == id)

/-- The upper left corner of a box with a given centre. -/
def cornerAt (box : Rect α) (center : Point α) : Point α :=
  ⟨center.x - box.width / 2.0, center.y - box.height / 2.0⟩

/-- A node put at its place. -/
def put (p : Placement α) (n : PlacedNode α) : PlacedNode α :=
  match p.find? n.id with
  | some place =>
    let corner := cornerAt n.box place.center
    { n with
      box := { n.box with x := corner.x, y := corner.y }
      rank := place.rank
      order := place.order }
  | none => n

end Placement

end Flowchart
