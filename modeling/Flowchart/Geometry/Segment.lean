import Flowchart.Geometry.Point

/-!
# Curve segments

Outlines and routes are lists of straight lines, quadratic and cubic Bézier curves. Control points
are stored narrow; points, derivatives and lengths of a curve are evaluated wide and rounded once at
the end.
-/

namespace Flowchart

/-- A Bézier segment of degree one, two or three. -/
inductive Segment (α : Type) where
  /-- straight line from the first point to the second -/
  | line (start stop : Point α)
  /-- quadratic curve with one control point -/
  | quad (start control stop : Point α)
  /-- cubic curve with two control points -/
  | cubic (start control₁ control₂ stop : Point α)
  deriving Repr, DecidableEq, Inhabited

namespace Segment

variable {α ω : Type}

/-- First point. -/
def start : Segment α → Point α
  | line p _ => p
  | quad p _ _ => p
  | cubic p _ _ _ => p

/-- Last point. -/
def stop : Segment α → Point α
  | line _ p => p
  | quad _ _ p => p
  | cubic _ _ _ p => p

/-- All defining points in order. -/
def controls : Segment α → List (Point α)
  | line p q => [p, q]
  | quad p q r => [p, q, r]
  | cubic p q r s => [p, q, r, s]

/-- The segment with every defining point replaced by its image. -/
def map {β : Type} (f : Point α → Point β) : Segment α → Segment β
  | line p q => line (f p) (f q)
  | quad p q r => quad (f p) (f q) (f r)
  | cubic p q r s => cubic (f p) (f q) (f r) (f s)

variable [Scalar α] [Scalar ω] [Widening α ω]

/-- The Bernstein weights of a segment's control points at the parameter `t`. -/
def weights (t : ω) : Segment α → List ω
  | line .. => [1.0 - t, t]
  | quad .. =>
    let u := 1.0 - t
    [u * u, 2.0 * u * t, t * t]
  | cubic .. =>
    let u := 1.0 - t
    [u * u * u, 3.0 * u * u * t, 3.0 * u * t * t, t * t * t]

/-- The point at a parameter between 0 and 1. -/
def pointAt (s : Segment α) (t : α) : Point α :=
  let weighted := s.controls.zip (s.weights (widen t))
  let p := weighted.foldl (fun (acc : Point ω) (p, w) =>
    ⟨acc.x + widen p.x * w, acc.y + widen p.y * w⟩) Point.origin
  p.narrow

/-- The derivative with respect to the parameter. -/
def derivativeAt (s : Segment α) (t : ω) : Point ω :=
  let u := 1.0 - t
  match s with
  | line p q => (q.sub p).widen
  | quad p q r =>
    let a := (q.sub p).widen
    let b := (r.sub q).widen
    ⟨2.0 * (u * a.x + t * b.x), 2.0 * (u * a.y + t * b.y)⟩
  | cubic p q r s =>
    let a := (q.sub p).widen
    let b := (r.sub q).widen
    let c := (s.sub r).widen
    ⟨3.0 * (u * u * a.x + 2.0 * u * t * b.x + t * t * c.x),
      3.0 * (u * u * a.y + 2.0 * u * t * b.y + t * t * c.y)⟩

/-- Nodes and weights of the five-point Gauss–Legendre rule on the interval from -1 to 1. -/
def gaussRule : List (ω × ω) :=
  [(0.0, 0.5688888888888889),
    (-0.5384693101056831, 0.4786286704993665),
    (0.5384693101056831, 0.4786286704993665),
    (-0.906179845938664, 0.2369268850561891),
    (0.906179845938664, 0.2369268850561891)]

/-- Arc length from the start to the parameter `t`: exact for a line, by quadrature for a curve. -/
def lengthTo (s : Segment α) (t : α) : α :=
  match s with
  | line p q => p.distance q * t
  | _ =>
    let half : ω := widen t / 2.0
    let total := gaussRule.foldl (fun (acc : ω) (x, w) =>
      let d := s.derivativeAt (half * (x + 1.0))
      acc + w * Scalar.sqrt (d.x * d.x + d.y * d.y)) 0.0
    narrow (half * total)

/-- Arc length of the whole segment. -/
def length (s : Segment α) : α := s.lengthTo 1.0

end Segment

/-! ## Lists of segments -/

variable {α ω : Type} [Scalar α] [Scalar ω] [Widening α ω]

/-- The smallest box around all control points, as left, top, right and bottom edge. -/
def controlBounds? (segments : List (Segment α)) : Option (α × α × α × α) :=
  match segments.flatMap Segment.controls with
  | [] => none
  | p :: ps => some <| ps.foldl (fun (l, t, r, b) q =>
      (Scalar.min l q.x, Scalar.min t q.y, Scalar.max r q.x, Scalar.max b q.y)) (p.x, p.y, p.x, p.y)

/-- A polygon that follows the contour: the start of every line and eight points of every curve. -/
def contourPolygon (segments : List (Segment α)) : List (Point α) :=
  segments.flatMap fun
    | .line p _ => [p]
    | s => (List.range 8).map fun i => s.pointAt (Scalar.ofNat i / 8.0)

/-- Pairs of neighbours in a closed polygon, the last point being joined to the first. -/
def closedEdges {β : Type} : List β → List (β × β)
  | [] => []
  | p :: ps => (p :: ps).zip (ps ++ [p])

/-- Area centroid of a contour by the shoelace formula. A contour without area has its centre in
the middle of its control box. -/
def centroid (segments : List (Segment α)) : Point α :=
  let (area, cx, cy) := (closedEdges (contourPolygon segments)).foldl
    (fun ((area, cx, cy) : ω × ω × ω) ((p, q) : Point α × Point α) =>
      let p : Point ω := p.widen
      let q : Point ω := q.widen
      let f := p.x * q.y - q.x * p.y
      (area + f, cx + (p.x + q.x) * f, cy + (p.y + q.y) * f)) (0.0, 0.0, 0.0)
  if Scalar.abs area < 1e-6 then
    match controlBounds? segments with
    | some (l, t, r, b) => ⟨(l + r) / 2.0, (t + b) / 2.0⟩
    | none => Point.origin
  else ⟨narrow (cx / (3.0 * area)), narrow (cy / (3.0 * area))⟩

end Flowchart
