import Flowchart.Geometry.Point

/-!
# Polylines

A route is a list of corners. Two clean-ups apply to every route: corners that do not bend it are
dropped, and its ends are shortened so that the symbols drawn there are not hidden by the node.
-/

namespace Flowchart

variable {α : Type} [Scalar α]

/-! ## Dropping corners -/

/-- Two corners that count as the same one. -/
def Point.near (p q : Point α) : Bool := decide (p.distance q < 1e-3)

/-- The corner `b` lies straight on the way from `a` to `p`: no bend and no turning back. -/
def straightOn (a b p : Point α) : Bool :=
  let u := b.sub a
  let v := p.sub b
  decide (Scalar.abs (u.cross v) < 1e-3) && decide ((0.0 : α) ≤ u.x * v.x + u.y * v.y)

/-- Adds a corner to a cleaned-up route that is kept in reverse. The corner before it is dropped if
the route runs straight on there and it is not one of the pinned ones. -/
def addCorner (pinned : List (Point α)) : List (Point α) → Point α → List (Point α)
  | [], p => [p]
  | [b], p => if b.near p then [b] else [p, b]
  | b :: a :: rest, p =>
    if b.near p then b :: a :: rest
    else if straightOn a b p && !pinned.any b.near then p :: a :: rest
    else p :: b :: a :: rest

/-- Drops repeated corners and corners without a bend, the pinned ones excepted. -/
def simplifyKeeping (pinned points : List (Point α)) : List (Point α) :=
  (points.foldl (addCorner pinned) []).reverse

/-- Drops repeated corners and corners without a bend. -/
def simplify (points : List (Point α)) : List (Point α) := simplifyKeeping [] points

/-! ## Room for symbols -/

/-- An end moved towards the next corner, unless they are closer than twice the offset. -/
def pulledTip (offset : α) (tip toward : Point α) : Point α :=
  let len := tip.distance toward
  if offset * 2.0 < len then
    ⟨tip.x + (toward.x - tip.x) / len * offset, tip.y + (toward.y - tip.y) / len * offset⟩
  else tip

/-- Shortens a route where it starts. -/
def pullStart (offset : α) : List (Point α) → List (Point α)
  | p :: q :: rest => pulledTip offset p q :: q :: rest
  | ps => ps

/-- Shortens a route where it ends. -/
def pullEnd (offset : α) (points : List (Point α)) : List (Point α) :=
  (pullStart offset points.reverse).reverse

/-- Shortens a route at the ends that carry a symbol, the far end first. -/
def pullBack (atStart atEnd : Bool) (offset : α) (points : List (Point α)) : List (Point α) :=
  if offset ≤ 0.0 then points
  else
    let points := if atEnd then pullEnd offset points else points
    if atStart then pullStart offset points else points

end Flowchart
