import Flowchart.Geometry.Segment

/-!
# Paths through given points

A route is drawn either as straight runs between its points or as a smooth curve through them.
-/

namespace Flowchart

variable {α : Type}

/-- Straight runs between consecutive points. -/
def polylineSegments : List (Point α) → List (Segment α)
  | p :: q :: rest => .line p q :: polylineSegments (q :: rest)
  | _ => []

variable [Scalar α]

/-- The cubic between the two middle points of four consecutive ones: its tangents point along the
line between the outer neighbours. -/
def splinePiece (p₀ p₁ p₂ p₃ : Point α) : Segment α :=
  .cubic p₁ ⟨p₁.x + (p₂.x - p₀.x) / 6.0, p₁.y + (p₂.y - p₀.y) / 6.0⟩
    ⟨p₂.x - (p₃.x - p₁.x) / 6.0, p₂.y - (p₃.y - p₁.y) / 6.0⟩ p₂

/-- Spline pieces for the points after `before`; the last point is its own successor. -/
def splineFrom (before : Point α) : List (Point α) → List (Segment α)
  | p :: q :: r :: rest => splinePiece before p q r :: splineFrom p (q :: r :: rest)
  | [p, q] => [splinePiece before p q q]
  | _ => []

/-- A smooth curve through all points. Two points are joined by a line, fewer by nothing. -/
def smoothThrough : List (Point α) → List (Segment α)
  | [p, q] => [.line p q]
  | p :: rest => splineFrom p (p :: rest)
  | [] => []

end Flowchart
