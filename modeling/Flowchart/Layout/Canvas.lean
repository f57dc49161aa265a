import Flowchart.Layout.Options
import Flowchart.Layout.Parts

/-!
# The canvas

When everything is routed, the layout is shifted so that it starts at the origin on both axes, and
the size of its joint box becomes the size of the canvas. Blocks without any content, which no node
gives a place, are put in a column to the right before that.
-/

namespace Flowchart

variable {α : Type} [Scalar α]

/-! ## Blocks without content -/

/-- The box of a block without content, with its upper left corner at a given place. -/
def emptyBox (options : LayoutOptions α) (title : TextBlock α) (corner : Point α) : Rect α :=
  ⟨corner.x, corner.y, Scalar.max (title.width + options.blockPadding * 2.0) 80.0,
    Scalar.max title.height options.blockTitlePadding + options.blockPadding * 2.0⟩

/-- Puts the outermost blocks without a box below each other, the first one at `corner`. -/
def stackEmpty (options : LayoutOptions α) : Point α → List (PlacedBlock α) → List (PlacedBlock α)
  | _, [] => []
  | corner, b :: rest =>
    if b.parent.isSome || b.hasBox then b :: stackEmpty options corner rest
    else
      let box := emptyBox options b.title corner
      let below : Point α := ⟨corner.x, corner.y + (box.height + options.nodeSpacing * 0.5)⟩
      { b with box := box } :: stackEmpty options below rest

/-- Gives boxes to the outermost blocks without content. -/
def placeEmpty (options : LayoutOptions α) (nodes : List (PlacedNode α))
    (blocks : List (PlacedBlock α)) : List (PlacedBlock α) :=
  let content := nodes.map PlacedNode.box
    ++ (blocks.filter PlacedBlock.hasBox).map PlacedBlock.box
  match Rect.unionAll? content with
  | some r => stackEmpty options ⟨r.right + options.nodeSpacing, r.y⟩ blocks
  | none => stackEmpty options Point.origin blocks

/-! ## Normal position -/

/-- The boxes that a connection takes up: its corners and its label. -/
def PlacedEdge.extents (e : PlacedEdge α) : List (Rect α) :=
  e.points.map (fun p => ⟨p.x, p.y, 0.0, 0.0⟩)
    ++ match e.labelAnchor, e.label with
      | some c, some l => [⟨c.x - l.width / 2.0, c.y - l.height / 2.0, l.width, l.height⟩]
      | _, _ => []

/-- Everything that takes up room. -/
def Layout.extents (l : Layout α) : List (Rect α) :=
  l.nodes.map PlacedNode.box ++ (l.blocks.filter PlacedBlock.hasBox).map PlacedBlock.box
    ++ l.edges.flatMap PlacedEdge.extents

/-- The connection moved by a displacement. -/
def PlacedEdge.translate (e : PlacedEdge α) (d : Point α) : PlacedEdge α :=
  { e with points := e.points.map (·.add d), labelAnchor := e.labelAnchor.map (·.add d) }

/-- The block moved by a displacement; without a box it stays. -/
def PlacedBlock.translate (b : PlacedBlock α) (d : Point α) : PlacedBlock α :=
  if b.hasBox then { b with box := b.box.translate d } else b

/-- The layout moved to the origin, on a canvas of its size. A layout of nothing stays as it is. -/
def Layout.normalize (l : Layout α) : Layout α :=
  match Rect.unionAll? l.extents with
  | none => l
  | some r =>
    let d : Point α := ⟨-r.x, -r.y⟩
    { l with
      nodes := l.nodes.map (·.translate d)
      blocks := l.blocks.map (·.translate d)
      edges := l.edges.map (·.translate d)
      width := r.width
      height := r.height }

end Flowchart
