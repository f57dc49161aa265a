import Flowchart.Layout.Boxes
import Flowchart.Layout.Canvas
import Flowchart.Layout.Directed
import Flowchart.Layout.Sizing
import Flowchart.Route.Edges
import Flowchart.Route.Labels
import Flowchart.Settings.Theme

/-!
# Layout of diagrams

Labels are measured and nodes sized, the layered phases place the nodes, blocks are fitted around
their members and pushed apart, and connections are routed and labelled. A diagram that is too large
is refused before any of this.

Two algorithms are known by name: the layered one with whatever ranking strategy the options ask
for, and the same with the network simplex.
-/

namespace Flowchart

/-- Why a diagram was not laid out. -/
inductive LayoutError where
  /-- it has more nodes or connections than the options allow -/
  | tooComplex (nodes edges maxNodes maxEdges : Nat)
  /-- no algorithm has the name that the options give -/
  | unknownEngine (name : String)
  deriving Repr, DecidableEq

/-- The message of an error. -/
def LayoutError.message : LayoutError → String
  | tooComplex nodes edges maxNodes maxEdges =>
    "diagram too complex: " ++ toString nodes ++ " nodes / " ++ toString edges
      ++ " edges exceeds limit of " ++ toString maxNodes ++ " nodes / " ++ toString maxEdges
      ++ " edges"
  | unknownEngine name => "unknown layout engine: " ++ name

namespace Layout

section

variable {α : Type} [Scalar α]

/-! ## Preparing nodes, blocks and connections -/

/-- The position of the innermost block that lists a node, the first one of equal depth. -/
def innermost? (flat : List FlatBlock) (id : String) : Option Nat :=
  (flat.zipIdx.foldl (fun (best : Option (Nat × Nat)) (b, i) =>
    if b.block.contains id then
      match best with
      | some (depth, _) => if depth < b.depth then some (b.depth, i) else best
      | none => some (b.depth, i)
    else best) none).map Prod.snd

/-- A block and all blocks around it, outermost first; `fuel` bounds their number. -/
def enclosing (flat : List FlatBlock) : (fuel : Nat) → Nat → List Nat
  | 0, _ => []
  | fuel + 1, i =>
    match (flat[i]?).bind FlatBlock.parent with
    | some p => enclosing flat fuel p ++ [i]
    | none => [i]

/-- The blocks around a node, outermost first. -/
def clusterPath (flat : List FlatBlock) (id : String) : List Nat :=
  match innermost? flat id with
  | some i => enclosing flat flat.length i
  | none => []

/-- A node of the diagram with its label measured and its box sized, still at the origin. -/
def sizeNode (theme : Theme α) (options : LayoutOptions α) (m : Measurer α) (g : Diagram α)
    (n : Node α) : PlacedNode α :=
  let style := g.nodeStyle n.id
  let label := labelBlock m options (style.fontSize.getD theme.fontSize) n.shownLabel
  let (width, height) := n.shape.size options label
  { id := n.id, box := ⟨0.0, 0.0, width, height⟩, label := label, shape := n.shape, style := style,
    parent := n.parent }

/-- The connections of known nodes with their positions in the diagram. -/
def keptEdges (g : Diagram α) : List (Edge × Nat) :=
  g.edges.zipIdx.filter fun (e, _) => g.hasNode e.source && g.hasNode e.target

/-- A block of the diagram with its title measured, still without a box. -/
def titleBlock (theme : Theme α) (options : LayoutOptions α) (m : Measurer α) (g : Diagram α)
    (b : FlatBlock) : PlacedBlock α where
  id := b.block.id
  label := b.block.label
  title := labelBlock m options theme.fontSize b.block.label
  members := b.block.members.filter g.hasNode
  box := Rect.empty
  depth := b.depth
  parent := b.parent
  direction := b.block.direction

/-- A connection of the diagram with its route, its label measured but not placed. -/
def drawEdge (theme : Theme α) (options : LayoutOptions α) (m : Measurer α) (g : Diagram α)
    (e : Edge) (index : Nat) (points : List (Point α)) : PlacedEdge α where
  source := e.source
  target := e.target
  label := (e.label.filter (!Text.isBlankText ·)).map (labelBlock m options theme.fontSize)
  points := points
  curved := options.curvedEdges
  kind := e.kind
  line := e.line
  arrowStart := e.arrowStart
  arrowEnd := e.arrowEnd
  startMarker := if e.arrowStart then e.kind.startMarker? else none
  endMarker := if e.arrowEnd then e.kind.endMarker? else none
  style := g.edgeStyle index

/-! ## The phases -/

/-- Nodes and connections after the layered phases, blocks with a direction of their own
included. -/
def placed (options : LayoutOptions α) (d : Direction) (flat : List FlatBlock)
    (nodes : List (PlacedNode α)) (edges : List Edge) : FlowState α × LayoutStats :=
  let sizes := nodes.map fun n =>
    (⟨n.id, n.box.width, n.box.height, clusterPath flat n.id⟩ : SizedNode α)
  let links := edges.zipIdx.map fun (e, i) => (⟨i, e.source, e.target⟩ : NodeLink)
  let p := Placement.compute options d sizes links
  let start : FlowState α :=
    ⟨(nodes.map p.put).mergeSort placedLe,
      edges.zipIdx.map fun (e, i) => ⟨e, p.waypointsOf i, d⟩⟩
  (start.replaceDirected options d flat sizes, p.stats)

/-- Distances around and between blocks. -/
def boxSpacing (options : LayoutOptions α) : BoxSpacing α :=
  ⟨options.blockPadding, options.blockTitlePadding, options.nodeSpacing * 0.5⟩

end

variable {α ω : Type} [Scalar α] [Scalar ω] [Widening α ω] [Trigonometry ω]

/-- All parts of a diagram where the phases put them: sized, placed, settled, routed and labelled,
but not moved to the origin. -/
def arranged (theme : Theme α) (options : LayoutOptions α) (m : Measurer α) (g : Diagram α) :
    Layout α :=
  let d := options.directionOverride.getD g.direction
  let flat := g.flatBlocks
  let kept := keptEdges g
  let (flow, stats) := placed options d flat (g.listedNodes.map (sizeNode theme options m g))
    (kept.map Prod.fst)
  let boxes : BoxState α := ⟨flat.map (titleBlock theme options m g), flow.nodes⟩
  let (boxes, passes) := boxes.settle d (boxSpacing options)
  let blocks := placeEmpty options boxes.nodes boxes.blocks
  let links := flow.links.map (FlowState.followEnds flow.nodes boxes.nodes)
  let routes := routeEdges options boxes.nodes blocks links
  let edges := (kept.zip routes).map fun ((e, i), points) => drawEdge theme options m g e i points
  { direction := d
    nodes := boxes.nodes
    edges := placeLabels boxes.nodes edges
    blocks := blocks
    width := 0.0
    height := 0.0
    stats := { stats with overlapPasses := passes } }

/-- Lays out a diagram with the layered algorithm. -/
def layered (theme : Theme α) (options : LayoutOptions α) (m : Measurer α) (g : Diagram α) :
    Except LayoutError (Layout α) :=
  if options.maxNodes < g.nodes.length || options.maxEdges < g.edges.length then
    .error (.tooComplex g.nodes.length g.edges.length options.maxNodes options.maxEdges)
  else .ok (arranged theme options m g).normalize

end Layout

/-! ## Algorithms by name -/

/-- A layout algorithm. -/
inductive Engine where
  /-- the layered one -/
  | layered
  /-- the layered one, always with the network simplex -/
  | dagre
  deriving Repr, DecidableEq

namespace Engine

/-- The name an algorithm calls itself. -/
def name : Engine → String
  | layered => "layered"
  | dagre => "dagre"

/-- The names under which algorithms are found. -/
def registry : List (String × Engine) :=
  [("layered", layered), ("sugiyama", layered), ("dagre", dagre)]

/-- The algorithm of a given name, in either case and with blanks around it. -/
def ofName? (name : String) : Option Engine := registry.lookup (Text.lowerAscii (Text.trim name))

/-- The options as an algorithm sees them. -/
def adjust {α : Type} (options : LayoutOptions α) : Engine → LayoutOptions α
  | layered => options
  | dagre => { options with rankStrategy := .networkSimplex }

end Engine

/-- Lays out a diagram with the algorithm that the options name. -/
def computeLayout {α ω : Type} [Scalar α] [Scalar ω] [Widening α ω] [Trigonometry ω]
    (theme : Theme α) (options : LayoutOptions α) (m : Measurer α) (g : Diagram α) :
    Except LayoutError (Layout α) :=
  match Engine.ofName? options.engine with
  | some e => Layout.layered theme (e.adjust options) m g
  | none => .error (.unknownEngine options.engine)

end Flowchart
