import Flowchart.Geometry.Segment
import Flowchart.Geometry.Roots

/-!
# Where a ray leaves a contour

A segment crosses a line where the signed distances of its control points from that line, combined
with the Bernstein weights, vanish. So every crossing is a root of a polynomial whose degree is the
degree of the segment.
-/

namespace Flowchart

variable {α ω : Type} [Scalar α] [Scalar ω] [Widening α ω]

/-- Room given to curve parameters and distances at the ends of their ranges. -/
def parameterTolerance : ω := 1e-6

/-- The unit vector of a direction; a direction without length points down. -/
def unitDirection (d : Point α) : Point ω :=
  let w : Point ω := d.widen
  let len := Scalar.sqrt (w.x * w.x + w.y * w.y)
  if len < rootTolerance then ⟨0.0, 1.0⟩ else ⟨w.x / len, w.y / len⟩

/-- Parameters at which the segment meets the infinite line through `from_` along `dir`. -/
def Segment.lineCrossings [Trigonometry ω] (s : Segment α) (origin : Point α) (dir : Point ω) :
    List ω :=
  let height (p : Point α) : ω := dir.cross (p.sub origin).widen
  match s with
  | .line p q =>
    let g₀ := height p
    let denom := g₀ - height q
    if Scalar.abs denom < rootTolerance then [] else [g₀ / denom]
  | .quad p q r =>
    let g₀ := height p
    let g₁ := height q
    let g₂ := height r
    quadraticRoots (g₀ - 2.0 * g₁ + g₂) (2.0 * (g₁ - g₀)) g₀
  | .cubic p q r s =>
    let g₀ := height p
    let g₁ := height q
    let g₂ := height r
    let g₃ := height s
    cubicRoots (-g₀ + 3.0 * g₁ - 3.0 * g₂ + g₃) (3.0 * g₀ - 6.0 * g₁ + 3.0 * g₂)
      (3.0 * (g₁ - g₀)) g₀

/-- The crossing of one segment at one parameter, with its distance along the ray, if it lies on
the segment and strictly ahead of the origin. -/
def Segment.crossingAhead? (s : Segment α) (origin : Point α) (dir : Point ω) (t : ω) :
    Option (ω × Point α) :=
  if -parameterTolerance ≤ t ∧ t ≤ 1.0 + parameterTolerance then
    let p := s.pointAt (narrow (Scalar.clamp t 0.0 1.0) : α)
    let along := dir.x * widen (p.x - origin.x) + dir.y * widen (p.y - origin.y)
    if along ≤ parameterTolerance then none else some (along, p)
  else none

/-- The crossing of a contour that lies nearest ahead of `origin` along `direction`. -/
def rayCrossing? [Trigonometry ω] (segments : List (Segment α)) (origin direction : Point α) :
    Option (Point α) :=
  let dir : Point ω := unitDirection direction
  let ahead := segments.flatMap fun s =>
    (s.lineCrossings origin dir).filterMap (s.crossingAhead? origin dir)
  let nearest := ahead.foldl (fun (best : Option (ω × Point α)) c =>
    match best with
    | none => some c
    | some b => if c.1 < b.1 then some c else some b) none
  nearest.map Prod.snd

end Flowchart
