import Flowchart.Diagram.Shape
import Flowchart.Geometry.Arc
import Flowchart.Geometry.Rect

/-!
# Outlines of node shapes

Every shape is drawn into the box that the layout reserves for it: most are polygons whose corners
are at fixed shares of the box, the round ones are made of quarter circles, and the cylinder has an
elliptical lid and base.
-/

namespace Flowchart

section Straight

variable {α : Type} [Scalar α]

/-- The closed polygon through the given corners. -/
def polygonOutline (corners : List (Point α)) : List (Segment α) :=
  (closedEdges corners).map fun (p, q) => .line p q

/-- The outline of a box. -/
def boxOutline (b : Rect α) : List (Segment α) :=
  polygonOutline [⟨b.x, b.y⟩, ⟨b.x + b.width, b.y⟩, ⟨b.x + b.width, b.y + b.height⟩,
    ⟨b.x, b.y + b.height⟩]

/-- The outline of a box with rounded corners. Sides of no length are left out, and without a
radius the box has plain corners. -/
def roundedOutline (b : Rect α) (r : α) : List (Segment α) :=
  if r ≤ 0.0 then boxOutline b
  else
    let x := b.x
    let y := b.y
    let x₁ := x + b.width
    let y₁ := y + b.height
    let sides : List (Segment α) :=
      [.line ⟨x + r, y⟩ ⟨x₁ - r, y⟩,
        quarterArc ⟨x₁ - r, y⟩ ⟨x₁, y⟩ ⟨x₁, y + r⟩,
        .line ⟨x₁, y + r⟩ ⟨x₁, y₁ - r⟩,
        quarterArc ⟨x₁, y₁ - r⟩ ⟨x₁, y₁⟩ ⟨x₁ - r, y₁⟩,
        .line ⟨x₁ - r, y₁⟩ ⟨x + r, y₁⟩,
        quarterArc ⟨x + r, y₁⟩ ⟨x, y₁⟩ ⟨x, y₁ - r⟩,
        .line ⟨x, y₁ - r⟩ ⟨x, y + r⟩,
        quarterArc ⟨x, y + r⟩ ⟨x, y⟩ ⟨x + r, y⟩]
    sides.filter fun s => decide ((1e-6 : α) < s.start.distance s.stop)

/-- The corners of a polygonal shape, clockwise on the screen from the upper left; `none` for the
shapes with curved sides. -/
def Shape.corners? (shape : Shape) (b : Rect α) : Option (List (Point α)) :=
  let x := b.x
  let y := b.y
  let w := b.width
  let h := b.height
  let cx := x + w / 2.0
  let cy := y + h / 2.0
  let inset := w * 0.18
  match shape with
  | .rectangle | .subroutine => some [⟨x, y⟩, ⟨x + w, y⟩, ⟨x + w, y + h⟩, ⟨x, y + h⟩]
  | .diamond => some [⟨cx, y⟩, ⟨x + w, cy⟩, ⟨cx, y + h⟩, ⟨x, cy⟩]
  | .hexagon =>
    let x₁ := x + w * 0.25
    let x₂ := x + w * 0.75
    some [⟨x₁, y⟩, ⟨x₂, y⟩, ⟨x + w, cy⟩, ⟨x₂, y + h⟩, ⟨x₁, y + h⟩, ⟨x, cy⟩]
  | .parallelogram => some [⟨x + inset, y⟩, ⟨x + w, y⟩, ⟨x + w - inset, y + h⟩, ⟨x, y + h⟩]
  | .parallelogramAlt => some [⟨x, y⟩, ⟨x + w - inset, y⟩, ⟨x + w, y + h⟩, ⟨x + inset, y + h⟩]
  | .trapezoid => some [⟨x + inset, y⟩, ⟨x + w - inset, y⟩, ⟨x + w, y + h⟩, ⟨x, y + h⟩]
  | .trapezoidAlt => some [⟨x, y⟩, ⟨x + w, y⟩, ⟨x + w - inset, y + h⟩, ⟨x + inset, y + h⟩]
  | .asymmetric =>
    let slant := w * 0.22
    some [⟨x, y⟩, ⟨x + w - slant, y⟩, ⟨x + w, cy⟩, ⟨x + w - slant, y + h⟩, ⟨x, y + h⟩]
  | .roundRect | .stadium | .cylinder | .circle | .doubleCircle => none

end Straight

variable {α ω : Type} [Scalar α] [Scalar ω] [Widening α ω] [Trigonometry ω]

/-- The silhouette of a cylinder: lid, right wall, base and left wall. A box with an infinite or
undefined coordinate has no lid and keeps straight sides. -/
def cylinderOutline (b : Rect α) : List (Segment α) :=
  let rx := b.width / 2.0
  let ry := Scalar.min (b.height * 0.1) rx
  let top := b.y + ry
  let bottom := b.y + b.height - ry
  let x₁ := b.x + b.width
  if [b.x, top, rx, ry, x₁, bottom].all Scalar.isFinite then
    let start : Point α := ⟨b.x, top⟩
    let leftBase : Point α := ⟨b.x, bottom⟩
    let closing := if (1e-6 : α) < leftBase.distance start then [.line leftBase start] else []
    ellipticalArc start rx ry 0.0 false true ⟨x₁, top⟩ ++ [.line ⟨x₁, top⟩ ⟨x₁, bottom⟩]
      ++ ellipticalArc ⟨x₁, bottom⟩ rx ry 0.0 false true leftBase ++ closing
  else boxOutline b

/-- The outline of a shape drawn into a box. -/
def Shape.outline (shape : Shape) (b : Rect α) : List (Segment α) :=
  match shape.corners? b with
  | some corners => polygonOutline corners
  | none =>
    match shape with
    | .roundRect => roundedOutline b (Scalar.min (Scalar.min 5.0 (b.width / 2.0)) (b.height / 2.0))
    | .stadium => roundedOutline b (Scalar.min (b.height / 2.0) (b.width / 2.0))
    | .cylinder => cylinderOutline b
    | _ =>
      ellipseOutline (b.x + b.width / 2.0) (b.y + b.height / 2.0) (b.width / 2.0) (b.height / 2.0)

end Flowchart
