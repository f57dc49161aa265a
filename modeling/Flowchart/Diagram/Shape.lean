/-!
# Shapes, line kinds and markers

The closed vocabularies of a diagram: outlines of nodes, and what a connection looks like along its
line and at its two ends.
-/

namespace Flowchart

/-- The outline of a node. -/
inductive Shape where
  | rectangle
  | roundRect
  | stadium
  | subroutine
  | cylinder
  | circle
  | doubleCircle
  | diamond
  | hexagon
  | parallelogram
  | parallelogramAlt
  | trapezoid
  | trapezoidAlt
  | asymmetric
  deriving Repr, DecidableEq, Inhabited

/-- All shapes. -/
def Shape.all : List Shape :=
  [.rectangle, .roundRect, .stadium, .subroutine, .cylinder, .circle, .doubleCircle, .diamond,
    .hexagon, .parallelogram, .parallelogramAlt, .trapezoid, .trapezoidAlt, .asymmetric]

/-- A symbol drawn at the end of a connection. -/
inductive Marker where
  | arrow
  | circle
  | cross
  deriving Repr, DecidableEq, Inhabited

/-- What a connection points with. -/
inductive LinkKind where
  /-- an arrow at the far end -/
  | arrow
  /-- no arrow at either end -/
  | plain
  /-- an arrow at both ends -/
  | bidirectional
  /-- a circle at the far end -/
  | circleEnd
  /-- a cross at the far end -/
  | crossEnd
  deriving Repr, DecidableEq, Inhabited

namespace LinkKind

/-- The symbol at the far end. -/
def endMarker? : LinkKind → Option Marker
  | arrow | bidirectional => some .arrow
  | circleEnd => some .circle
  | crossEnd => some .cross
  | plain => none

/-- The symbol at the near end. -/
def startMarker? : LinkKind → Option Marker
  | bidirectional => some .arrow
  | _ => none

end LinkKind

/-- How the line of a connection is drawn. -/
inductive LineStyle where
  | solid
  | dotted
  | thick
  deriving Repr, DecidableEq, Inhabited

end Flowchart
