import Flowchart.Geometry.Segment

/-!
# Points at a given distance along a path

A table of the lengths of all leading parts of a path finds the segment in which a distance falls;
within a curve the parameter is then found by Newton steps that are kept inside a shrinking
interval.
-/

namespace Flowchart

variable {α ω : Type} [Scalar α] [Scalar ω] [Widening α ω]

/-- One segment of a path together with the part of the path that it covers. -/
structure Piece (α : Type) where
  /-- the segment itself -/
  segment : Segment α
  /-- length of the path up to the start of the segment -/
  before : α
  /-- length of the path up to the end of the segment -/
  after : α

/-- The length table of a path whose segments follow a part of length `before`. -/
def measureFrom (before : α) : List (Segment α) → List (Piece α)
  | [] => []
  | s :: rest =>
    let after := before + s.length
    ⟨s, before, after⟩ :: measureFrom after rest

/-- The length table of a path. -/
def measurePath (segments : List (Segment α)) : List (Piece α) := measureFrom 0.0 segments

/-- Length of the whole measured path. -/
def totalLength (pieces : List (Piece α)) : α := (pieces.getLast?.map Piece.after).getD 0.0

/-- One step of the search for the parameter with partial length `target`: the interval is cut at
the current parameter, and the next parameter is the Newton step if that falls inside, else the
middle of the interval. -/
def Segment.refineParameter (s : Segment α) (target : α) (lo hi t : α) : α × α × α :=
  let err := s.lengthTo t - target
  let hi := if 0.0 < err then t else hi
  let lo := if 0.0 < err then lo else t
  let d : Point ω := s.derivativeAt (widen t)
  let speed : α := narrow (Scalar.sqrt (d.x * d.x + d.y * d.y))
  let newton := t - err / speed
  let next := if 1e-6 < speed ∧ lo < newton ∧ newton < hi then newton else (lo + hi) / 2.0
  (lo, hi, next)

/-- The parameter whose partial length is `target`, up to a thousandth, after at most `steps`
refinements. -/
def Segment.parameterOfLength (s : Segment α) (target : α) : Nat → α → α → α → α
  | 0, _, _, t => t
  | steps + 1, lo, hi, t =>
    if Scalar.abs (s.lengthTo t - target) < 1e-3 then t
    else
      let (lo, hi, t) := s.refineParameter target lo hi t
      s.parameterOfLength target steps lo hi t

/-- Segments this short are not subdivided: the gap between 1 and the next narrow number. -/
def negligibleLength : α := 1.1920928955078125e-7

/-- The point of a piece at distance `s` from the start of the path. -/
def Piece.pointAt (p : Piece α) (s : α) : Point α :=
  let span := p.after - p.before
  if span ≤ negligibleLength then p.segment.start
  else
    let target := s - p.before
    p.segment.pointAt (p.segment.parameterOfLength target 16 0.0 1.0 (target / span))

/-- The last piece that starts no later than `s`; the first piece if none does. -/
def pieceAt? (s : α) : List (Piece α) → Option (Piece α)
  | [] => none
  | [p] => some p
  | p :: q :: rest => if p.after ≤ s then pieceAt? s (q :: rest) else some p

/-- The point at distance `s` from the start, the ends of the path standing for distances outside
its range. A path without segments has no points. -/
def pointAtLength? (pieces : List (Piece α)) (s : α) : Option (Point α) :=
  if s ≤ 0.0 then pieces.head?.map fun p => p.segment.start
  else if totalLength pieces ≤ s then pieces.getLast?.map fun p => p.segment.stop
  else (pieceAt? s pieces).map fun p => p.pointAt s

/-- The point at a share of the whole length. -/
def pointAtFraction? (pieces : List (Piece α)) (fraction : α) : Option (Point α) :=
  pointAtLength? pieces (Scalar.clamp fraction 0.0 1.0 * totalLength pieces)

end Flowchart
