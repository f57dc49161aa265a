import Flowchart.Route.Ports

/-!
# Orthogonal routes

Routes between two anchored ports that run along the axes. Two ports on the same axis are joined

* by a bend halfway, if they face each other with enough room between them,
* by a turn beyond both of them, if they face the same way,
* and by a detour around both nodes otherwise.

Two ports on different axes are joined by one corner if it lies ahead of both, and by a bend through
both stubs otherwise. Only ports on the y axis are treated; the x axis is reduced to it by
exchanging the axes.
-/

namespace Flowchart

variable {α : Type} [Scalar α]

/-- Displacements below this count as aligned. -/
def alignTolerance : α := 0.5

/-- A route to be found: two anchors with their ports, and the boxes of the two nodes. -/
structure Leg (α : Type) where
  /-- where it leaves -/
  start : Point α
  /-- side at which it leaves -/
  startPort : Port
  /-- where it enters -/
  stop : Point α
  /-- side at which it enters -/
  stopPort : Port
  /-- box of the node it leaves -/
  source : Rect α
  /-- box of the node it enters -/
  target : Rect α
  deriving Inhabited

/-- The point with its axes exchanged. -/
def Point.transposed {β : Type} (p : Point β) : Point β := ⟨p.y, p.x⟩

/-- The box with its axes exchanged. -/
def Rect.transposed {β : Type} (r : Rect β) : Rect β := ⟨r.y, r.x, r.height, r.width⟩

/-- The same route with the axes exchanged. -/
def Leg.transposed {β : Type} (l : Leg β) : Leg β :=
  ⟨l.start.transposed, l.startPort.transposed, l.stop.transposed, l.stopPort.transposed,
    l.source.transposed, l.target.transposed⟩

/-- The end of a straight run out of a port. -/
def stubEnd (p : Point α) (port : Port) (length : α) : Point α :=
  let n : Point α := port.normal
  ⟨p.x + n.x * length, p.y + n.y * length⟩

/-! ## Ports on the same axis -/

/-- Facing ports with room between them: straight if they are aligned, else with a bend halfway that
is displaced by the channel but stays half a stub away from both ends. -/
def facingRoute (l : Leg α) (stub channel : α) : List (Point α) :=
  let s := l.start
  let e := l.stop
  if Scalar.abs (s.x - e.x) < alignTolerance then [s, ⟨s.x, e.y⟩]
  else
    let lo := Scalar.min s.y e.y + stub * 0.5
    let hi := Scalar.max s.y e.y - stub * 0.5
    let mid := Scalar.clamp ((s.y + e.y) / 2.0 + channel) (Scalar.min lo hi) (Scalar.max hi lo)
    [s, ⟨s.x, mid⟩, ⟨e.x, mid⟩, e]

/-- Ports that face the same way: a turn one stub beyond the further one. -/
def turningRoute (l : Leg α) (stub : α) : List (Point α) :=
  let s := l.start
  let e := l.stop
  let turn := if l.startPort == .south then Scalar.max s.y e.y + stub
    else Scalar.min s.y e.y - stub
  [s, ⟨s.x, turn⟩, ⟨e.x, turn⟩, e]

/-- A detour around both boxes, on the side that costs less. -/
def detourRoute (l : Leg α) (stub pad : α) : List (Point α) :=
  let s := l.start
  let e := l.stop
  let s₁ := stubEnd s l.startPort stub
  let e₁ := stubEnd e l.stopPort stub
  let left := Scalar.min l.source.x l.target.x - pad
  let right := Scalar.max l.source.right l.target.right + pad
  let cost (x : α) := Scalar.abs (s.x - x) + Scalar.abs (e.x - x)
  let side := if cost right ≤ cost left then right else left
  [s, s₁, ⟨side, s₁.y⟩, ⟨side, e₁.y⟩, e₁, e]

/-- A route between two ports on the y axis. -/
def sameAxisRoute (l : Leg α) (stub channel pad : α) : List (Point α) :=
  let out : Point α := l.startPort.normal
  let travel := (l.stop.y - l.start.y) * out.y
  if l.startPort != l.stopPort && decide (stub * 2.0 ≤ travel) then facingRoute l stub channel
  else if l.startPort == l.stopPort then turningRoute l stub
  else detourRoute l stub pad

/-! ## Ports on different axes -/

/-- How far `p` lies ahead of an anchor at a port. -/
def aheadOf (anchor : Point α) (port : Port) (p : Point α) : α :=
  let n : Point α := port.normal
  (p.x - anchor.x) * n.x + (p.y - anchor.y) * n.y

/-- A route between two ports on different axes. -/
def crossAxisRoute (l : Leg α) (stub : α) : List (Point α) :=
  let s := l.start
  let e := l.stop
  let corner : Point α := if l.startPort.isVertical then ⟨s.x, e.y⟩ else ⟨e.x, s.y⟩
  if alignTolerance < aheadOf s l.startPort corner ∧ alignTolerance < aheadOf e l.stopPort corner then
    [s, corner, e]
  else
    let s₁ := stubEnd s l.startPort stub
    let e₁ := stubEnd e l.stopPort stub
    let mid : Point α := if l.startPort.isVertical then ⟨e₁.x, s₁.y⟩ else ⟨s₁.x, e₁.y⟩
    [s, s₁, mid, e₁, e]

/-- A route along the axes between two anchored ports. -/
def orthogonalRoute (l : Leg α) (stub channel pad : α) : List (Point α) :=
  match l.startPort.isVertical, l.stopPort.isVertical with
  | true, true => sameAxisRoute l stub channel pad
  | false, false => (sameAxisRoute l.transposed stub channel pad).map Point.transposed
  | _, _ => crossAxisRoute l stub

/-! ## Given waypoints -/

/-- The corners put between two stops that are not aligned on either axis, and the second stop. -/
def elbow (verticalFlow : Bool) (a b : Point α) : List (Point α) :=
  if alignTolerance ≤ Scalar.abs (a.x - b.x) ∧ alignTolerance ≤ Scalar.abs (a.y - b.y) then
    if verticalFlow then
      let y := (a.y + b.y) / 2.0
      [⟨a.x, y⟩, ⟨b.x, y⟩, b]
    else
      let x := (a.x + b.x) / 2.0
      [⟨x, a.y⟩, ⟨x, b.y⟩, b]
  else [b]

/-- The corners after `a` of a route through all the stops that follow. -/
def elbowsFrom (verticalFlow : Bool) (a : Point α) : List (Point α) → List (Point α)
  | [] => []
  | b :: rest => elbow verticalFlow a b ++ elbowsFrom verticalFlow b rest

/-- A route through all waypoints. -/
def waypointRoute (verticalFlow : Bool) (start : Point α) (waypoints : List (Point α))
    (stop : Point α) : List (Point α) :=
  start :: elbowsFrom verticalFlow start (waypoints ++ [stop])

/-! ## Loops -/

/-- The route of a connection that leads back to its node: around one corner of the node. -/
def loopRoute (n : PlacedNode α) (direction : Direction) (options : LayoutOptions α) :
    List (Point α) :=
  let pad := Scalar.max options.nodeSpacing 20.0 * 0.6
  let ⟨x, y, w, h⟩ := n.box
  match direction with
  | .leftRight | .rightLeft =>
    [⟨x + w, y + h / 2.0⟩, ⟨x + w + pad, y + h / 2.0⟩, ⟨x + w + pad, y - pad⟩,
      ⟨x + w / 2.0, y - pad⟩, ⟨x + w / 2.0, y⟩]
  | .bottomTop =>
    [⟨x + w / 2.0, y⟩, ⟨x + w / 2.0, y - pad⟩, ⟨x + w + pad, y - pad⟩,
      ⟨x + w + pad, y + h / 2.0⟩, ⟨x + w, y + h / 2.0⟩]
  | .topDown =>
    [⟨x + w / 2.0, y + h⟩, ⟨x + w / 2.0, y + h + pad⟩, ⟨x + w + pad, y + h + pad⟩,
      ⟨x + w + pad, y + h / 2.0⟩, ⟨x + w, y + h / 2.0⟩]

end Flowchart
