import Flowchart.Geometry.ArcLength
import Flowchart.Layout.Parts

/-!
# Places of labels

The label of a connection is put halfway along its route. If it would cover a node or an earlier
label there, places on both sides of the route are tried, in three steps of growing distance; if
none is free, it stays halfway.
-/

namespace Flowchart

variable {α ω : Type} [Scalar α] [Scalar ω] [Widening α ω]

/-- The unit normal of a measured path in its middle; a path without a tangent there has the upward
normal. -/
def middleNormal (pieces : List (Piece α)) (mid : Point α) : Point α :=
  let total := totalLength pieces
  let half := total / 2.0
  let ahead := (pointAtLength? pieces (Scalar.min (half + 1.0) total)).getD mid
  let behind := (pointAtLength? pieces (Scalar.max (half - 1.0) 0.0)).getD mid
  let t := ahead.sub behind
  let len := Scalar.sqrt (t.x * t.x + t.y * t.y)
  if (1e-6 : α) < len then ⟨-t.y / len, t.x / len⟩ else ⟨0.0, -1.0⟩

/-- The box of a label with room around it, centred at a point. -/
def labelBox (label : TextBlock α) (c : Point α) : Rect α :=
  let w := label.width + 8.0
  let h := label.height + 8.0
  ⟨c.x - w / 2.0, c.y - h / 2.0, w, h⟩

/-- The places tried for a label, in order. -/
def labelPlaces (label : TextBlock α) (mid normal : Point α) : List (Point α) :=
  let box := labelBox label mid
  let reach := if Scalar.abs normal.y < Scalar.abs normal.x then box.width else box.height
  mid :: [1, 2, 3].flatMap fun ring =>
    let d := reach * 0.6 * Scalar.ofNat ring
    [⟨mid.x + normal.x * d, mid.y + normal.y * d⟩, ⟨mid.x - normal.x * d, mid.y - normal.y * d⟩]

/-- The first place where the label covers none of the taken boxes, or the middle. -/
def choosePlace (taken : List (Rect α)) (label : TextBlock α) (mid normal : Point α) : Point α :=
  ((labelPlaces label mid normal).find? fun c =>
    taken.all fun r => !r.intersects (labelBox label c)).getD mid

/-- The place of the label of a connection, if it has both a label and a route. -/
def labelPlace? (taken : List (Rect α)) (e : PlacedEdge α) : Option (TextBlock α × Point α) :=
  match e.label with
  | none => none
  | some label =>
    if e.points.length < 2 then none
    else
      let pieces := measurePath e.segments
      (pointAtFraction? pieces 0.5).map fun mid =>
        (label, choosePlace taken label mid (middleNormal pieces mid))

/-- Places labels one after the other, each one taking its box. -/
def placeLabelsFrom (taken : List (Rect α)) : List (PlacedEdge α) → List (PlacedEdge α)
  | [] => []
  | e :: rest =>
    match labelPlace? taken e with
    | none => e :: placeLabelsFrom taken rest
    | some (label, c) =>
      { e with labelAnchor := some c } :: placeLabelsFrom (labelBox label c :: taken) rest

/-- Places all labels of connections. -/
def placeLabels (nodes : List (PlacedNode α)) (edges : List (PlacedEdge α)) :
    List (PlacedEdge α) :=
  placeLabelsFrom (nodes.map PlacedNode.box) edges

end Flowchart
