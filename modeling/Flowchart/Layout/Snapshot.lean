import Flowchart.Json.Printer
import Flowchart.Layout.Parts

/-!
# Layouts as JSON

A snapshot of a layout holds where everything is and what the phases did, without fonts and colours.
-/

namespace Flowchart

/-- The name of a shape in a snapshot. -/
def Shape.name : Shape → String
  | rectangle => "Rectangle"
  | roundRect => "RoundRect"
  | stadium => "Stadium"
  | subroutine => "Subroutine"
  | cylinder => "Cylinder"
  | circle => "Circle"
  | doubleCircle => "DoubleCircle"
  | diamond => "Diamond"
  | hexagon => "Hexagon"
  | parallelogram => "Parallelogram"
  | parallelogramAlt => "ParallelogramAlt"
  | trapezoid => "Trapezoid"
  | trapezoidAlt => "TrapezoidAlt"
  | asymmetric => "Asymmetric"

/-- The edges of a box as fields. -/
def Rect.fields (r : Rect Float32) : List (String × Json) :=
  [("x", .ofFloat32 r.x), ("y", .ofFloat32 r.y), ("width", .ofFloat32 r.width),
    ("height", .ofFloat32 r.height)]

/-- A point as an array. -/
def Point.toJson (p : Point Float32) : Json := .array [.ofFloat32 p.x, .ofFloat32 p.y]

/-- A node in a snapshot. -/
def PlacedNode.toJson (n : PlacedNode Float32) : Json :=
  .object ([("id", .text n.id), ("shape", .text n.shape.name)] ++ n.box.fields
    ++ [("rank", .ofNat n.rank), ("order", .ofNat n.order), ("labelLines", .ofTexts n.label.lines),
      ("parent", .ofText? n.parent)])

/-- A connection in a snapshot; the lines of its label are joined by line feeds. -/
def PlacedEdge.toJson (e : PlacedEdge Float32) : Json :=
  .object [("from", .text e.source), ("to", .text e.target), ("arrowStart", .bool e.arrowStart),
    ("arrowEnd", .bool e.arrowEnd),
    ("label", .ofText? (e.label.map fun b => String.intercalate "\n" b.lines)),
    ("labelAnchor", (e.labelAnchor.map Point.toJson).getD .null),
    ("points", .array (e.points.map Point.toJson))]

/-- A block in a snapshot; the block around it is given by its id. -/
def PlacedBlock.toJson (blocks : List (PlacedBlock Float32)) (b : PlacedBlock Float32) : Json :=
  let parent := (b.parent.bind fun i => blocks[i]?).map PlacedBlock.id
  .object ([("id", .text b.id), ("label", .text b.label), ("parent", .ofText? parent),
    ("nodes", .ofTexts b.members)] ++ b.box.fields)

/-- What the phases did, in a snapshot. -/
def LayoutStats.toJson (s : LayoutStats) : Json :=
  .object [("ranks", .ofNat s.ranks), ("dummy_nodes", .ofNat s.passages),
    ("reversed_edges", .ofNat s.reversedEdges), ("initial_crossings", .ofNat s.initialCrossings),
    ("crossings", .ofNat s.crossings), ("order_passes", .ofNat s.orderPasses),
    ("overlap_iterations", .ofNat s.overlapPasses)]

/-- A snapshot of a layout. -/
def Layout.toJson (l : Layout Float32) : Json :=
  .object [("direction", .text l.direction.token), ("width", .ofFloat32 l.width),
    ("height", .ofFloat32 l.height), ("nodes", .array (l.nodes.map PlacedNode.toJson)),
    ("edges", .array (l.edges.map PlacedEdge.toJson)),
    ("subgraphs", .array (l.blocks.map (PlacedBlock.toJson l.blocks))), ("stats", l.stats.toJson)]

/-- The text of a snapshot. -/
def Layout.snapshot (l : Layout Float32) : String := l.toJson.pretty 0

end Flowchart
