import Flowchart.Geometry.Point

/-!
# Axis-aligned boxes

A box is given by its upper left corner and its extent. Overlap and containment are strict: two
boxes that share only part of their outlines are apart, and a point on the outline is outside.
-/

namespace Flowchart

/-- An axis-aligned box. -/
structure Rect (α : Type) where
  /-- left edge -/
  x : α
  /-- top edge -/
  y : α
  /-- extent to the right -/
  width : α
  /-- extent downwards -/
  height : α
  deriving Repr, DecidableEq, Inhabited

namespace Rect

variable {α : Type} [Scalar α]

/-- The box with all four numbers zero, which stands for "no box". -/
def empty : Rect α := ⟨0.0, 0.0, 0.0, 0.0⟩

/-- The box between two opposite corners. -/
def ofBounds (left top right bottom : α) : Rect α := ⟨left, top, right - left, bottom - top⟩

/-- Right edge. -/
def right (r : Rect α) : α := r.x + r.width

/-- Bottom edge. -/
def bottom (r : Rect α) : α := r.y + r.height

/-- The point in the middle. -/
def center (r : Rect α) : Point α := ⟨r.x + r.width / 2.0, r.y + r.height / 2.0⟩

/-- The box grown by `pad` on all four sides. -/
def inflate (r : Rect α) (pad : α) : Rect α :=
  ⟨r.x - pad, r.y - pad, r.width + pad * 2.0, r.height + pad * 2.0⟩

/-- The smallest box around two boxes. -/
def union (r s : Rect α) : Rect α :=
  ofBounds (Scalar.min r.x s.x) (Scalar.min r.y s.y) (Scalar.max r.right s.right)
    (Scalar.max r.bottom s.bottom)

/-- The interiors of the two boxes meet. -/
def intersects (r s : Rect α) : Bool :=
  decide (r.x < s.right) && decide (s.x < r.right) && decide (r.y < s.bottom)
    && decide (s.y < r.bottom)

/-- The point lies in the interior. -/
def contains (r : Rect α) (p : Point α) : Bool :=
  decide (r.x < p.x) && decide (p.x < r.right) && decide (r.y < p.y) && decide (p.y < r.bottom)

/-- The box moved by a displacement. -/
def translate (r : Rect α) (d : Point α) : Rect α := { r with x := r.x + d.x, y := r.y + d.y }

/-- The smallest box around all members of a list, if there is one. -/
def unionAll? : List (Rect α) → Option (Rect α)
  | [] => none
  | r :: rs => some (rs.foldl union r)

end Rect

end Flowchart
