import Flowchart.Geometry.Ray
import Flowchart.Layout.Options
import Flowchart.Layout.Parts

/-!
# Ports

A connection leaves and enters a node through one of its four sides. The sides follow from where the
two nodes lie relative to the flow; a decision with two branches sends them out on both sides of the
flow. Connections that share a side are spread along it in the order of what they lead to, so that
they do not cross close to the node.
-/

namespace Flowchart

/-- A side of a node. -/
inductive Port where
  | north
  | east
  | south
  | west
  deriving Repr, DecidableEq, Inhabited

namespace Port

/-- The outward unit vector. -/
def normal {α : Type} [Scalar α] : Port → Point α
  | north => ⟨0.0, -1.0⟩
  | east => ⟨1.0, 0.0⟩
  | south => ⟨0.0, 1.0⟩
  | west => ⟨-1.0, 0.0⟩

/-- Connections leave this side along the y axis. -/
def isVertical : Port → Bool
  | north | south => true
  | _ => false

/-- The side across the node. -/
def opposite : Port → Port
  | north => south
  | east => west
  | south => north
  | west => east

/-- The side at which the flow leaves a node. -/
def exitFor : Direction → Port
  | .topDown => south
  | .bottomTop => north
  | .leftRight => east
  | .rightLeft => west

/-- The side at which the flow enters a node. -/
def entryFor (d : Direction) : Port := (exitFor d).opposite

/-- The side after the two axes were exchanged. -/
def transposed : Port → Port
  | north => west
  | west => north
  | south => east
  | east => south

end Port

/-- A connection to be routed. -/
structure FlowEdge (α : Type) where
  /-- the connection itself -/
  edge : Edge
  /-- points it passes through on its way -/
  waypoints : List (Point α)
  /-- the flow it follows -/
  direction : Direction
  deriving Inhabited

/-- Where a connection meets its two nodes. -/
structure EdgePorts (α : Type) where
  /-- side at which it leaves -/
  start : Port
  /-- side at which it enters -/
  stop : Port
  /-- distance along the side it leaves, from its middle -/
  startOffset : α
  /-- distance along the side it enters, from its middle -/
  stopOffset : α
  /-- displacement of a bend halfway, which keeps parallel connections apart -/
  channel : α
  deriving Repr, Inhabited

/-- A connection together with its position in the diagram and its ports. -/
structure PortedLink (α : Type) where
  /-- position in the diagram -/
  index : Nat
  /-- the connection -/
  link : FlowEdge α
  /-- its ports -/
  ports : EdgePorts α
  deriving Inhabited

section

variable {α : Type} [Scalar α]

/-! ## Choice of the sides -/

/-- Where one node lies as seen from another. -/
inductive Relation where
  /-- further along the flow -/
  | forward
  /-- against the flow -/
  | backward
  /-- neither -/
  | beside
  deriving Repr, DecidableEq

/-- How far along the flow a point lies. -/
def alongFlow (p : Point α) : Direction → α
  | .topDown => p.y
  | .bottomTop => -p.y
  | .leftRight => p.x
  | .rightLeft => -p.x

/-- Half the extent of a node along the flow. -/
def halfAlongFlow (n : PlacedNode α) (d : Direction) : α :=
  if d.isHorizontal then n.box.width / 2.0 else n.box.height / 2.0

/-- Where `target` lies as seen from `source`. Nodes less than half of their joint extent apart are
beside each other. -/
def relation (source target : PlacedNode α) (d : Direction) : Relation :=
  let delta := alongFlow target.center d - alongFlow source.center d
  let reach := (halfAlongFlow source d + halfAlongFlow target d) * 0.5
  if reach < delta then .forward else if delta < -reach then .backward else .beside

/-- The facing sides of two nodes that lie beside each other. -/
def lateralPorts (source target : PlacedNode α) (d : Direction) : Port × Port :=
  if d.isHorizontal then
    if source.center.y ≤ target.center.y then (.south, .north) else (.north, .south)
  else if source.center.x ≤ target.center.x then (.east, .west) else (.west, .east)

/-- The sides of a connection on its own. One that runs against the flow leaves and enters like any
other unless it has points to pass through on the way back. -/
def choosePorts (source target : PlacedNode α) (link : FlowEdge α) : Port × Port :=
  match relation source target link.direction with
  | .forward => (.exitFor link.direction, .entryFor link.direction)
  | .backward =>
    if link.waypoints.isEmpty then (.exitFor link.direction, .entryFor link.direction)
    else (.entryFor link.direction, .exitFor link.direction)
  | .beside => lateralPorts source target link.direction

/-- The ports of a connection on its own. Loops have none, and neither have connections of unknown
nodes. -/
def initialPorts (nodes : List (PlacedNode α)) (link : FlowEdge α) : Option (EdgePorts α) :=
  if link.edge.isLoop then none
  else
    match placedNode? nodes link.edge.source, placedNode? nodes link.edge.target with
    | some source, some target =>
      let (start, stop) := choosePorts source target link
      some ⟨start, stop, 0.0, 0.0, 0.0⟩
    | _, _ => none

/-! ## Branches of decisions -/

/-- How far across the flow the target of a connection lies. -/
def targetAcross (nodes : List (PlacedNode α)) (d : Direction) (p : PortedLink α) : α :=
  match placedNode? nodes p.link.edge.target with
  | some n => if d.isHorizontal then n.center.y else n.center.x
  | none => 0.0

/-- The sides at which the two branches of a decision leave, the first branch first. The branch
whose target has the smaller coordinate takes the side with the smaller one. -/
def branchPorts (nodes : List (PlacedNode α)) (first second : PortedLink α) : Port × Port :=
  let d := first.link.direction
  let (low, high) : Port × Port := if d.isHorizontal then (.north, .south) else (.west, .east)
  if targetAcross nodes d second < targetAcross nodes d first then (high, low) else (low, high)

/-- Redirects a connection that is one of the two branches of a decision. -/
def splitBranch (nodes : List (PlacedNode α)) (all : List (PortedLink α)) (p : PortedLink α) :
    PortedLink α :=
  let isDecision := match placedNode? nodes p.link.edge.source with
    | some n => n.shape == .diamond
    | none => false
  match isDecision, all.filter (·.link.edge.source == p.link.edge.source) with
  | true, [first, second] =>
    let (a, b) := branchPorts nodes first second
    { p with ports := { p.ports with start := if p.index == first.index then a else b } }
  | _, _ => p

/-! ## Spreading along a side -/

/-- One end of a connection at a side of a node. -/
structure SideEnd (α : Type) where
  /-- the node -/
  node : String
  /-- the side -/
  port : Port
  /-- position of the connection in the diagram -/
  index : Nat
  /-- the connection leaves here -/
  leaves : Bool
  /-- coordinate along the side of what the connection leads to -/
  far : α
  deriving Inhabited

/-- The coordinate of a point along a side. -/
def alongSide (port : Port) (p : Point α) : α := if port.isVertical then p.x else p.y

/-- The two ends of a connection. -/
def sideEnds (nodes : List (PlacedNode α)) (p : PortedLink α) : List (SideEnd α) :=
  let e := p.link.edge
  match placedNode? nodes e.source, placedNode? nodes e.target with
  | some source, some target =>
    let ahead := p.link.waypoints.head?.getD target.center
    let behind := p.link.waypoints.getLast?.getD source.center
    [⟨e.source, p.ports.start, p.index, true, alongSide p.ports.start ahead⟩,
      ⟨e.target, p.ports.stop, p.index, false, alongSide p.ports.stop behind⟩]
  | _, _ => []

/-- Order of ends along a side: by what they lead to, then by position in the diagram. -/
def endLe (a b : SideEnd α) : Bool :=
  if Scalar.totalLe a.far b.far then
    if Scalar.totalLe b.far a.far then decide (a.index ≤ b.index) else true
  else false

/-- All ends at a side, in order along it. -/
def endsAt (ends : List (SideEnd α)) (node : String) (port : Port) : List (SideEnd α) :=
  (ends.filter fun e => e.node == node && e.port == port).mergeSort endLe

/-- Extent of a side of a node. -/
def sideExtent (n : PlacedNode α) (port : Port) : α :=
  if port.isVertical then n.box.width else n.box.height

/-- Distance between neighbouring ends when `count` of them share a side. -/
def endStep (options : LayoutOptions α) (side : α) (count : Nat) : α :=
  let pad := Scalar.clamp (side * options.portPadRatio) options.portPadMin options.portPadMax
  let usable := Scalar.max (side - pad * 2.0) 0.0
  Scalar.min (usable / Scalar.ofNat (count - 1)) (options.edgeSpacing * 2.0)

/-- Displacement from the middle of the member at position `i` among `count` evenly spaced ones. -/
def fromMiddle (i count : Nat) (step : α) : α :=
  (Scalar.ofNat i - Scalar.ofNat (count - 1) / 2.0) * step

/-- Offset and channel of one end. An end that has a side to itself stays in the middle; channels
are counted among the leaving ends only. -/
def spreadEnd (options : LayoutOptions α) (nodes : List (PlacedNode α)) (ends : List (SideEnd α))
    (node : String) (port : Port) (index : Nat) : α × α :=
  let members := endsAt ends node port
  match placedNode? nodes node with
  | none => (0.0, 0.0)
  | some n =>
    if members.length < 2 then (0.0, 0.0)
    else
      let leaving := members.filter SideEnd.leaves
      (fromMiddle (members.findIdx (·.index == index)) members.length
          (endStep options (sideExtent n port) members.length),
        fromMiddle (leaving.findIdx (·.index == index)) leaving.length options.edgeSpacing)

/-- Spreads both ends of a connection. -/
def spreadLink (options : LayoutOptions α) (nodes : List (PlacedNode α)) (ends : List (SideEnd α))
    (p : PortedLink α) : EdgePorts α :=
  let e := p.link.edge
  let (startOffset, channel) := spreadEnd options nodes ends e.source p.ports.start p.index
  let (stopOffset, _) := spreadEnd options nodes ends e.target p.ports.stop p.index
  { p.ports with startOffset := startOffset, stopOffset := stopOffset, channel := channel }

/-- The ports of all connections, in order. -/
def assignPorts (options : LayoutOptions α) (nodes : List (PlacedNode α)) (links : List (FlowEdge α)) :
    List (Option (EdgePorts α)) :=
  let ported := links.zipIdx.map fun (link, i) =>
    (initialPorts nodes link).map fun ports => (⟨i, link, ports⟩ : PortedLink α)
  let all := ported.filterMap id
  let split := ported.map fun p? => p?.map (splitBranch nodes all)
  let ends := (split.filterMap id).flatMap (sideEnds nodes)
  split.map fun p? => p?.map (spreadLink options nodes ends)

/-! ## Anchors -/

/-- The shortest straight run out of and into the ports between two nodes. -/
def stubLength (options : LayoutOptions α) (source target : PlacedNode α) : α :=
  let base := options.nodeSpacing * 0.35
  let cap := Scalar.min (Scalar.min source.box.width source.box.height)
    (Scalar.min target.box.width target.box.height) * 0.35
  let longest := if Scalar.isFinite cap ∧ (0.0 : α) < cap then cap else 22.0
  Scalar.clamp (Scalar.min base longest) 6.0 22.0

end

section

variable {α ω : Type} [Scalar α] [Scalar ω] [Widening α ω] [Trigonometry ω]

/-- Where a connection meets the outline of a node: the ray from the centroid, displaced along the
side by the offset, in the direction of the port. A ray that misses the outline ends at the box. -/
def anchorPoint (n : PlacedNode α) (port : Port) (offset : α) : Point α :=
  let outline := n.outline
  let c := centroid outline
  let most := sideExtent n port / 2.0 - 1.0
  let offset := if (0.0 : α) < most then Scalar.clamp offset (-most) most else 0.0
  let origin : Point α := if port.isVertical then ⟨c.x + offset, c.y⟩ else ⟨c.x, c.y + offset⟩
  match rayCrossing? outline origin port.normal with
  | some p => p
  | none =>
    match port with
    | .north => ⟨origin.x, n.box.y⟩
    | .south => ⟨origin.x, n.box.bottom⟩
    | .west => ⟨n.box.x, origin.y⟩
    | .east => ⟨n.box.right, origin.y⟩

end

end Flowchart
