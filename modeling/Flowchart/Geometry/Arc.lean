import Flowchart.Geometry.Segment
import Flowchart.Geometry.Roots

/-!
# Round shapes as cubic curves

Quarter circles of an outline are drawn with the usual control point distance. A general elliptical
arc is given by its end points, as in path text; its centre and angles are recovered first and it is
then cut into cubics of at most a quarter turn each.
-/

namespace Flowchart

section Quarter

variable {α : Type} [Scalar α]

/-- Control point distance of a quarter circle, as a share of the radius. -/
def quarterControl : α := 0.5522848

/-- Quarter of an ellipse between two points, around the corner that its tangents meet in. -/
def quarterArc (start corner stop : Point α) : Segment α :=
  let pull (p : Point α) : Point α :=
    ⟨p.x + (corner.x - p.x) * quarterControl, p.y + (corner.y - p.y) * quarterControl⟩
  .cubic start (pull start) (pull stop) stop

/-- An ellipse from its rightmost point, clockwise on the screen. -/
def ellipseOutline (cx cy rx ry : α) : List (Segment α) :=
  let right : Point α := ⟨cx + rx, cy⟩
  let bottom : Point α := ⟨cx, cy + ry⟩
  let left : Point α := ⟨cx - rx, cy⟩
  let top : Point α := ⟨cx, cy - ry⟩
  [quarterArc right ⟨cx + rx, cy + ry⟩ bottom,
    quarterArc bottom ⟨cx - rx, cy + ry⟩ left,
    quarterArc left ⟨cx - rx, cy - ry⟩ top,
    quarterArc top ⟨cx + rx, cy - ry⟩ right]

end Quarter

/-! ## Elliptical arcs between two points -/

section Elliptical

variable {α ω : Type} [Scalar α] [Scalar ω] [Widening α ω] [Trigonometry ω]

/-- The angle from one vector to another, counted positive when it turns the way the axes do. -/
def signedAngle (u v : Point ω) : ω :=
  let dot := u.x * v.x + u.y * v.y
  let len := Scalar.sqrt (u.x * u.x + u.y * u.y) * Scalar.sqrt (v.x * v.x + v.y * v.y)
  let angle := Trigonometry.arccos (Scalar.clamp (dot / len) (-1.0) 1.0)
  if u.cross v < 0.0 then -angle else angle

/-- How many quarter turns an angle of at most a full turn takes, at least one. -/
def quarterTurns (angle : ω) : Nat :=
  let quarters : ω := Scalar.abs angle / (Trigonometry.pi / 2.0) - 1e-9
  if 3.0 < quarters then 4 else if 2.0 < quarters then 3 else if 1.0 < quarters then 2 else 1

/-- An ellipse in general position: centre, radii and the sine and cosine of its tilt. -/
structure TiltedEllipse (ω : Type) where
  /-- centre -/
  center : Point ω
  /-- radii along the own axes -/
  radii : Point ω
  /-- sine of the tilt -/
  sine : ω
  /-- cosine of the tilt -/
  cosine : ω

/-- The drawing position of a point given on the unit circle of the ellipse. -/
def TiltedEllipse.place (e : TiltedEllipse ω) (ux uy : ω) : Point α :=
  let x := e.radii.x * ux
  let y := e.radii.y * uy
  ⟨narrow (e.cosine * x - e.sine * y + e.center.x),
    narrow (e.sine * x + e.cosine * y + e.center.y)⟩

/-- The cubics of an arc that starts at the angle `theta` and runs on for `count` steps of angle
`step`; `number` counts the steps already drawn. The last cubic ends exactly at `stop`. -/
def TiltedEllipse.cubics (e : TiltedEllipse ω) (theta step handle : ω) (stop : Point α) :
    (count number : Nat) → Point α → List (Segment α)
  | 0, _, _ => []
  | count + 1, number, start =>
    let a₀ := theta + step * Scalar.ofNat number
    let a₁ := a₀ + step
    let s₀ := Trigonometry.sin a₀
    let c₀ := Trigonometry.cos a₀
    let s₁ := Trigonometry.sin a₁
    let c₁ := Trigonometry.cos a₁
    let finish : Point α := if count == 0 then stop else e.place c₁ s₁
    .cubic start (e.place (c₀ - handle * s₀) (s₀ + handle * c₀))
        (e.place (c₁ + handle * s₁) (s₁ - handle * c₁)) finish
      :: e.cubics theta step handle stop count (number + 1) finish

/-- The arc of an ellipse with the given radii and tilt in degrees from one point to another. Of
the four possible arcs, `large` asks for one of more than half a turn and `sweep` for one that turns
the way the axes do. Radii too small to reach are enlarged, and an ellipse without width is its
chord. -/
def ellipticalArc (start : Point α) (rx ry tilt : α) (large sweep : Bool) (stop : Point α) :
    List (Segment α) :=
  if start.distance stop < 1e-6 then []
  else
    let rx : ω := widen (Scalar.abs rx)
    let ry : ω := widen (Scalar.abs ry)
    if rx < rootTolerance ∨ ry < rootTolerance then [.line start stop]
    else
      let phi : ω := widen tilt * (Trigonometry.pi / 180.0)
      let sine := Trigonometry.sin phi
      let cosine := Trigonometry.cos phi
      let p : Point ω := start.widen
      let q : Point ω := stop.widen
      let dx := (p.x - q.x) / 2.0
      let dy := (p.y - q.y) / 2.0
      let x := cosine * dx + sine * dy
      let y := -sine * dx + cosine * dy
      let reach := (x * x) / (rx * rx) + (y * y) / (ry * ry)
      let growth := if 1.0 < reach then Scalar.sqrt reach else 1.0
      let rx := rx * growth
      let ry := ry * growth
      let num := rx * rx * ry * ry - rx * rx * y * y - ry * ry * x * x
      let den := rx * rx * y * y + ry * ry * x * x
      let size :=
        if Scalar.abs den < rootTolerance then 0.0 else Scalar.sqrt (Scalar.max (num / den) 0.0)
      let coef := if large == sweep then -size else size
      let cx := coef * rx * y / ry
      let cy := -coef * ry * x / rx
      let ellipse : TiltedEllipse ω :=
        ⟨⟨cosine * cx - sine * cy + (p.x + q.x) / 2.0, sine * cx + cosine * cy + (p.y + q.y) / 2.0⟩,
          ⟨rx, ry⟩, sine, cosine⟩
      let u : Point ω := ⟨(x - cx) / rx, (y - cy) / ry⟩
      let v : Point ω := ⟨(-x - cx) / rx, (-y - cy) / ry⟩
      let theta := signedAngle ⟨1.0, 0.0⟩ u
      let turn := signedAngle u v
      let fullTurn := 2.0 * Trigonometry.pi
      let delta :=
        if sweep = false ∧ 0.0 < turn then turn - fullTurn
        else if sweep = true ∧ turn < 0.0 then turn + fullTurn
        else turn
      let count := quarterTurns delta
      let step := delta / Scalar.ofNat count
      let handle := 4.0 / 3.0 * Trigonometry.tan (step / 4.0)
      ellipse.cubics theta step handle stop count 0 start

end Elliptical

end Flowchart
