import Flowchart.Diagram.Basic
import Flowchart.Geometry.Outline
import Flowchart.Geometry.Spline

/-!
# The parts of a layout

A layout places every node, block and connection of a diagram on a canvas whose upper left corner is
the origin. It holds everything a drawing needs, so that a renderer does not look at the diagram
again.
-/

namespace Flowchart

/-- A label that was broken into lines and measured. -/
structure TextBlock (α : Type) where
  /-- the lines -/
  lines : List String
  /-- width of the widest line -/
  width : α
  /-- height of all lines -/
  height : α
  deriving Repr, DecidableEq, Inhabited

/-- No line holds anything but white space. -/
def TextBlock.isBlank {α : Type} (b : TextBlock α) : Bool := b.lines.all Text.isBlankText

/-- A node on the canvas. -/
structure PlacedNode (α : Type) where
  /-- the name of the node -/
  id : String
  /-- its box -/
  box : Rect α
  /-- its label -/
  label : TextBlock α
  /-- its outline -/
  shape : Shape
  /-- its settings, classes included -/
  style : NodeStyle α := {}
  /-- its rank -/
  rank : Nat := 0
  /-- its position in the rank -/
  order : Nat := 0
  /-- innermost block around it -/
  parent : Option String := none
  deriving Inhabited

/-- A block on the canvas. -/
structure PlacedBlock (α : Type) where
  /-- the name of the block -/
  id : String
  /-- its title as text -/
  label : String
  /-- its title in lines -/
  title : TextBlock α
  /-- its members, those of inner blocks included -/
  members : List String
  /-- its box -/
  box : Rect α
  /-- how many blocks surround it -/
  depth : Nat := 0
  /-- position in the list of blocks of the one right around it -/
  parent : Option Nat := none
  /-- its own flow direction -/
  direction : Option Direction := none
  deriving Inhabited

/-- A connection on the canvas. -/
structure PlacedEdge (α : Type) where
  /-- the node it leaves -/
  source : String
  /-- the node it enters -/
  target : String
  /-- its label -/
  label : Option (TextBlock α)
  /-- where the middle of the label is -/
  labelAnchor : Option (Point α) := none
  /-- corners of its route -/
  points : List (Point α)
  /-- it is drawn as a smooth curve -/
  curved : Bool
  /-- what it points with -/
  kind : LinkKind
  /-- how the line is drawn -/
  line : LineStyle
  /-- a symbol is wanted where it leaves -/
  arrowStart : Bool
  /-- a symbol is wanted where it enters -/
  arrowEnd : Bool
  /-- the symbol where it leaves -/
  startMarker : Option Marker
  /-- the symbol where it enters -/
  endMarker : Option Marker
  /-- its settings -/
  style : EdgeStyle α := {}
  deriving Inhabited

/-- What the phases of a layout did. -/
structure LayoutStats where
  /-- number of ranks -/
  ranks : Nat
  /-- passages put in for long connections -/
  passages : Nat
  /-- connections turned around to break cycles -/
  reversedEdges : Nat
  /-- crossings before the first sweep -/
  initialCrossings : Nat
  /-- crossings in the end -/
  crossings : Nat
  /-- sweeps of the ordering -/
  orderPasses : Nat
  /-- passes that moved overlapping blocks -/
  overlapPasses : Nat
  deriving Repr, DecidableEq, Inhabited

/-- A diagram on its canvas. -/
structure Layout (α : Type) where
  /-- overall flow direction -/
  direction : Direction
  /-- the nodes by their ids -/
  nodes : List (PlacedNode α)
  /-- the connections in the order of the diagram -/
  edges : List (PlacedEdge α)
  /-- the blocks, each one before those inside it -/
  blocks : List (PlacedBlock α)
  /-- width of the canvas -/
  width : α
  /-- height of the canvas -/
  height : α
  /-- what the phases did -/
  stats : LayoutStats
  deriving Inhabited

section

variable {α : Type}

/-- The node with a given id. -/
def placedNode? (nodes : List (PlacedNode α)) (id : String) : Option (PlacedNode α) :=
  nodes.find? (·.id == id)

/-- The nodes with one of them changed. -/
def updatePlaced (id : String) (f : PlacedNode α → PlacedNode α) (nodes : List (PlacedNode α)) :
    List (PlacedNode α) :=
  nodes.map fun n => if n.id == id then f n else n

/-- Order of nodes by their ids. -/
def placedLe (a b : PlacedNode α) : Bool := decide (a.id ≤ b.id)

/-- The segments a connection is drawn with: straight runs, or a smooth curve through its
corners. -/
def PlacedEdge.segments [Scalar α] (e : PlacedEdge α) : List (Segment α) :=
  if e.curved && 2 < e.points.length then smoothThrough e.points else polylineSegments e.points

/-- The middle of a node. -/
def PlacedNode.center [Scalar α] (n : PlacedNode α) : Point α := n.box.center

/-- The node moved by a displacement. -/
def PlacedNode.translate [Scalar α] (n : PlacedNode α) (d : Point α) : PlacedNode α :=
  { n with box := n.box.translate d }

/-- The box of the block has an extent. -/
def PlacedBlock.hasBox [Scalar α] (b : PlacedBlock α) : Bool :=
  decide ((0.0 : α) < b.box.width) && decide ((0.0 : α) < b.box.height)

end

/-- The outline of a node. -/
def PlacedNode.outline {α ω : Type} [Scalar α] [Scalar ω] [Widening α ω] [Trigonometry ω]
    (n : PlacedNode α) : List (Segment α) :=
  n.shape.outline n.box

end Flowchart
