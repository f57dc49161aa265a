import Flowchart.Scalar

/-!
# Points of the drawing plane

The first coordinate grows to the right and the second one downwards.
-/

namespace Flowchart

/-- A position, or a displacement, in the plane. -/
structure Point (α : Type) where
  /-- distance from the left edge -/
  x : α
  /-- distance from the top edge -/
  y : α
  deriving Repr, DecidableEq, Inhabited

namespace Point

variable {α : Type} [Scalar α]

/-- The point where both axes start. -/
def origin : Point α := ⟨0.0, 0.0⟩

/-- Componentwise sum. -/
def add (p q : Point α) : Point α := ⟨p.x + q.x, p.y + q.y⟩

/-- Componentwise difference. -/
def sub (p q : Point α) : Point α := ⟨p.x - q.x, p.y - q.y⟩

/-- Both coordinates multiplied by the same factor. -/
def scale (p : Point α) (k : α) : Point α := ⟨p.x * k, p.y * k⟩

/-- Both coordinates agree. -/
def same (p q : Point α) : Bool := p.x == q.x && p.y == q.y

/-- Both coordinates are finite numbers. -/
def isFinite (p : Point α) : Bool := Scalar.isFinite p.x && Scalar.isFinite p.y

/-- Straight-line distance. -/
def distance (p q : Point α) : α :=
  Scalar.sqrt ((q.x - p.x) * (q.x - p.x) + (q.y - p.y) * (q.y - p.y))

/-- The cross product of two displacements: twice the signed area they span. -/
def cross (p q : Point α) : α := p.x * q.y - p.y * q.x

/-- A point in the wide type. -/
def widen {ω : Type} [Widening α ω] (p : Point α) : Point ω :=
  ⟨Flowchart.widen p.x, Flowchart.widen p.y⟩

/-- The narrow point nearest to a wide one. -/
def narrow {ω : Type} [Widening α ω] (p : Point ω) : Point α :=
  ⟨Flowchart.narrow p.x, Flowchart.narrow p.y⟩

end Point

end Flowchart
