import Flowchart.Route.Obstacles
import Flowchart.Route.Polyline

/-!
# Routes of all connections

A connection without waypoints is routed from port to port, one with waypoints through them. The
route is cleaned up, led around obstacles, cleaned up again, and shortened where symbols are drawn.
Waypoints survive both clean-ups.
-/

namespace Flowchart

variable {α ω : Type} [Scalar α] [Scalar ω] [Widening α ω] [Trigonometry ω]

/-- The route between two nodes before it is cleaned up. -/
def rawRoute (options : LayoutOptions α) (source target : PlacedNode α) (link : FlowEdge α)
    (p : EdgePorts α) : List (Point α) :=
  let start := anchorPoint source p.start p.startOffset
  let stop := anchorPoint target p.stop p.stopOffset
  if link.waypoints.isEmpty then
    orthogonalRoute ⟨start, p.start, stop, p.stop, source.box, target.box⟩
      (stubLength options source target) p.channel (obstaclePad options)
  else waypointRoute (!link.direction.isHorizontal) start link.waypoints stop

/-- The route of one connection; one without ports is a loop. -/
def routeLink (options : LayoutOptions α) (nodes : List (PlacedNode α)) (all : List (Obstacle α))
    (link : FlowEdge α) (ports : Option (EdgePorts α)) : List (Point α) :=
  let e := link.edge
  match placedNode? nodes e.source, placedNode? nodes e.target with
  | some source, some target =>
    let points := match ports with
      | none => loopRoute source link.direction options
      | some p =>
        let raw := simplifyKeeping link.waypoints (rawRoute options source target link p)
        simplifyKeeping link.waypoints (avoidObstacles all e raw)
    pullBack e.arrowStart e.arrowEnd options.arrowOffset points
  | _, _ => []

/-- The routes of all connections, in order. A connection of an unknown node has none. -/
def routeEdges (options : LayoutOptions α) (nodes : List (PlacedNode α))
    (blocks : List (PlacedBlock α)) (links : List (FlowEdge α)) : List (List (Point α)) :=
  let all := obstacles options nodes blocks
  (links.zip (assignPorts options nodes links)).map fun (link, ports) =>
    routeLink options nodes all link ports

end Flowchart
