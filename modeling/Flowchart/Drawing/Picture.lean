import Flowchart.Decimal.Fixed
import Flowchart.Drawing.Primitive
import Flowchart.Geometry.PathText
import Flowchart.Layout.Parts
import Flowchart.Settings.Layers

/-!
# The picture of a layout

Blocks are painted first, then the lines of connections, then nodes and at last the labels of
connections, so that no line covers a node or a label. Everything is displaced by the padding of the
picture.
-/

namespace Flowchart

/-! ## Lines of text -/

/-- Height of one line of a label. -/
def TextBlock.lineHeight (b : TextBlock Float32) (fontSize : Float32) : Float32 :=
  if b.lines.isEmpty then fontSize else b.height / Float32.ofNat b.lines.length

/-- The lines of a label below each other, the first one starting at height `top`. Each line is a
copy of `style`. -/
def stackLines (b : TextBlock Float32) (style : TextRun) (top : Float32) : List TextRun :=
  let step := b.lineHeight style.size
  b.lines.zipIdx.map fun (line, i) =>
    { style with
      position := ⟨style.position.x, top + step * (Float32.ofNat i + 0.5)⟩
      content := line }

/-- The lines of a label centred at the position of `style`; empty lines are left out. -/
def centredLines (b : TextBlock Float32) (style : TextRun) : List Primitive :=
  ((stackLines b style (style.position.y - b.height / 2.0)).filter (!·.content.isEmpty)).map .text

/-! ## Blocks -/

/-- Distance between the upper edge of a block and its title, and around the label of a
connection. -/
def labelPad : Float32 := 4.0

/-- A block: its box and its title. -/
def drawBlock (theme : Theme Float32) (pad : Float32) (b : PlacedBlock Float32) : List Primitive :=
  let box : Rect Float32 := b.box.translate ⟨pad, pad⟩
  let frame : Primitive := .rect box 6.0
    { fill := some theme.blockFill, stroke := some theme.blockStroke, strokeWidth := 1.0 }
  if Text.isBlankText b.label then [frame]
  else
    let style : TextRun :=
      { position := ⟨box.x + b.box.width / 2.0, box.y⟩, content := "", family := theme.fontFamily,
        size := theme.fontSize, fill := theme.text }
    frame :: (stackLines b.title style (box.y + labelPad)).map .text

/-! ## Connections -/

/-- Width of lines that no setting changes. -/
def defaultStrokeWidth : LineStyle → Float32
  | .thick => 2.8
  | .solid | .dotted => 1.4

/-- Dash pattern of lines that no setting changes. -/
def defaultDashes : LineStyle → Option String
  | .dotted => some "3 3"
  | _ => none

/-- How the line of a connection is painted. -/
def edgePaint (theme : Theme Float32) (e : PlacedEdge Float32) : Paint where
  stroke := some (e.style.stroke.getD theme.line)
  strokeWidth := e.style.strokeWidth.getD (defaultStrokeWidth e.line)
  dashes := e.style.dashes <|> defaultDashes e.line

/-- The line of a connection. -/
def drawEdgeLine (theme : Theme Float32) (pad : Float32) (e : PlacedEdge Float32) :
    List Primitive :=
  if e.points.length < 2 then []
  else
    let moved := e.segments.map fun s => s.map fun p => p.add ⟨pad, pad⟩
    [.path (pathText moved) (edgePaint theme e) e.startMarker e.endMarker]

/-- The label of a connection, on a patch that covers the line. -/
def drawEdgeLabel (theme : Theme Float32) (pad : Float32) (e : PlacedEdge Float32) :
    List Primitive :=
  match e.label, e.labelAnchor with
  | some label, some anchor =>
    let c : Point Float32 := anchor.add ⟨pad, pad⟩
    let patch : Rect Float32 :=
      ⟨c.x - label.width / 2.0 - labelPad, c.y - label.height / 2.0 - labelPad,
        label.width + labelPad * 2.0, label.height + labelPad * 2.0⟩
    .rect patch 2.0 { fill := some theme.labelBackground }
      :: centredLines label
        { position := c, content := "", family := theme.fontFamily, size := theme.fontSize,
          fill := e.style.labelColor.getD theme.text }
  | _, _ => []

/-! ## Nodes -/

/-- How a node is painted. -/
def nodePaint (theme : Theme Float32) (n : PlacedNode Float32) : Paint where
  fill := some (n.style.fill.getD theme.nodeFill)
  stroke := some (n.style.stroke.getD theme.nodeStroke)
  strokeWidth := n.style.strokeWidth.getD 1.4
  dashes := n.style.dashes

/-- A position in path text, with two decimal places. -/
def placesText (p : Point Float32) : String :=
  Decimal.twoPlaces (Decimal.value32 p.x) ++ "," ++ Decimal.twoPlaces (Decimal.value32 p.y)

/-- The path text of the lines inside a shape that are not part of its outline: the side bars of a
subroutine, the inner circle of a double circle, the front of the lid of a cylinder. -/
def shapeDetail? (b : Rect Float32) : Shape → Option String
  | .subroutine =>
    let inset : Float32 := Scalar.min (b.width * 0.08) 8.0
    let bar (x : Float32) := "M" ++ placesText ⟨x, b.y⟩ ++ " L" ++ placesText ⟨x, b.y + b.height⟩
    some (bar (b.x + inset) ++ " " ++ bar (b.x + b.width - inset))
  | .doubleCircle =>
    some (pathText (ellipseOutline (b.x + b.width / 2.0) (b.y + b.height / 2.0)
      (Scalar.max (b.width / 2.0 - 4.0) 1.0) (Scalar.max (b.height / 2.0 - 4.0) 1.0)))
  | .cylinder =>
    let ry : Float32 := Scalar.min (b.height * 0.1) (b.width / 2.0)
    some (pathText ((ellipseOutline (b.x + b.width / 2.0) (b.y + ry) (b.width / 2.0) ry).take 2))
  | _ => none

/-- The shape of a node. -/
def drawShape (shape : Shape) (box : Rect Float32) (paint : Paint) : List Primitive :=
  if shape == .rectangle then [.rect box 0.0 paint]
  else
    .path (pathText (shape.outline box) ++ "Z") paint none none
      :: ((shapeDetail? box shape).map fun d =>
        Primitive.path d { paint with fill := none } none none).toList

/-- A node: its shape and its label. -/
def drawNode (theme : Theme Float32) (pad : Float32) (n : PlacedNode Float32) : List Primitive :=
  let box : Rect Float32 := n.box.translate ⟨pad, pad⟩
  drawShape n.shape box (nodePaint theme n)
    ++ centredLines n.label
      { position := box.center, content := "", family := n.style.fontFamily.getD theme.fontFamily,
        size := n.style.fontSize.getD theme.fontSize, weight := n.style.fontWeight,
        fill := n.style.textColor.getD theme.nodeText }

/-! ## The whole picture -/

/-- The picture of a layout. -/
def Layout.draw (l : Layout Float32) (theme : Theme Float32) (options : DrawingOptions Float32) :
    Picture where
  width := l.width + options.padding * 2.0
  height := l.height + options.padding * 2.0
  background := options.background
  lineColor := theme.line
  elements :=
    (l.blocks.filter PlacedBlock.hasBox).flatMap (drawBlock theme options.padding)
      ++ l.edges.flatMap (drawEdgeLine theme options.padding)
      ++ l.nodes.flatMap (drawNode theme options.padding)
      ++ l.edges.flatMap (drawEdgeLabel theme options.padding)

end Flowchart
