import Flowchart.Route.Orthogonal

/-!
# Obstacles

A connection must not run through nodes and blocks that it has nothing to do with. A run that passes
through such a box from side to side is replaced by a detour along the nearer side; the route then
has new runs, and the search starts over, up to a bound.
-/

namespace Flowchart

variable {α : Type} [Scalar α]

/-- A box that most connections have to go around. -/
structure Obstacle (α : Type) where
  /-- the box -/
  box : Rect α
  /-- nodes whose connections may pass -/
  insiders : List String
  deriving Inhabited

/-- Room kept around nodes. -/
def obstaclePad (options : LayoutOptions α) : α := Scalar.max (options.nodeSpacing * 0.35) 6.0

/-- All obstacles: the nodes with some room around them, then the blocks. -/
def obstacles (options : LayoutOptions α) (nodes : List (PlacedNode α))
    (blocks : List (PlacedBlock α)) : List (Obstacle α) :=
  nodes.map (fun n => ⟨n.box.inflate (obstaclePad options * 0.5), [n.id]⟩)
    ++ (blocks.filter fun b => decide ((0.0 : α) < b.box.width)).map fun b => ⟨b.box, b.members⟩

/-- The connection has to go around the obstacle: neither of its ends is an insider. -/
def Obstacle.blocks (o : Obstacle α) (e : Edge) : Bool :=
  !o.insiders.contains e.source && !o.insiders.contains e.target

/-- The four corners that lead a run around a box, if the run passes through it from side to side.
The detour keeps to the nearer side, in doubt the upper or left one. -/
def detour? (a b : Point α) (r : Rect α) : Option (List (Point α)) :=
  if r.contains a || r.contains b then none
  else if Scalar.abs (a.y - b.y) < alignTolerance then
    let y := a.y
    if y ≤ r.y ∨ r.bottom ≤ y ∨ r.x ≤ Scalar.min a.x b.x ∨ Scalar.max a.x b.x ≤ r.right then none
    else
      let around := if y - r.y ≤ r.bottom - y then r.y else r.bottom
      let (enter, exit) := if a.x < b.x then (r.x, r.right) else (r.right, r.x)
      some [⟨enter, y⟩, ⟨enter, around⟩, ⟨exit, around⟩, ⟨exit, y⟩]
  else if Scalar.abs (a.x - b.x) < alignTolerance then
    let x := a.x
    if x ≤ r.x ∨ r.right ≤ x ∨ r.y ≤ Scalar.min a.y b.y ∨ Scalar.max a.y b.y ≤ r.bottom then none
    else
      let around := if x - r.x ≤ r.right - x then r.x else r.right
      let (enter, exit) := if a.y < b.y then (r.y, r.bottom) else (r.bottom, r.y)
      some [⟨x, enter⟩, ⟨around, enter⟩, ⟨around, exit⟩, ⟨x, exit⟩]
  else none

/-- The route with a detour put into the first run that meets an obstacle, if one does. -/
def detourOnce? (boxes : List (Rect α)) : List (Point α) → Option (List (Point α))
  | a :: b :: rest =>
    match boxes.findSome? (detour? a b) with
    | some corners => some (a :: (corners ++ b :: rest))
    | none => (detourOnce? boxes (b :: rest)).map (a :: ·)
  | _ => none

/-- Puts in detours until no run meets an obstacle, at most `left` of them. -/
def detourLoop (boxes : List (Rect α)) : (left : Nat) → List (Point α) → List (Point α)
  | 0, points => points
  | left + 1, points =>
    match detourOnce? boxes points with
    | some points => detourLoop boxes left points
    | none => points

/-- Leads a route around the obstacles of its connection, with at most 32 detours. -/
def avoidObstacles (all : List (Obstacle α)) (e : Edge) (points : List (Point α)) :
    List (Point α) :=
  detourLoop ((all.filter (·.blocks e)).map Obstacle.box) 32 points

end Flowchart
