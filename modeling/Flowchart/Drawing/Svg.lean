import Flowchart.Drawing.Markup
import Flowchart.Drawing.Picture

/-!
# Scalable vector graphics

A picture becomes one element per primitive, after the definitions of the three symbols and a
background. Numbers have two decimal places; only font sizes are written with as few digits as they
need.
-/

namespace Flowchart.Svg

/-! ## Attributes -/

/-- A number with two decimal places. -/
def places (x : Float32) : String := Decimal.twoPlaces (Decimal.value32 x)

/-- An attribute that holds a number. -/
def number (name : String) (x : Float32) : Attribute := ⟨name, places x⟩

/-- An attribute that is left out when there is no value. -/
def optional (name : String) : Option String → List Attribute
  | some value => [.escaped name value]
  | none => []

/-- The attributes of a paint. The width of a line is only given with its colour. -/
def paint (p : Paint) : List Attribute :=
  .escaped "fill" (p.fill.getD "none")
    :: (match p.stroke with
      | some stroke => [.escaped "stroke" stroke, number "stroke-width" p.strokeWidth]
      | none => [])
    ++ optional "stroke-dasharray" p.dashes

/-- The name under which a symbol is defined. -/
def markerId : Marker → String
  | .arrow => "marker-arrow"
  | .circle => "marker-circle"
  | .cross => "marker-cross"

/-- A reference to the definition of a symbol. -/
def markerRef (name : String) : Option Marker → List Attribute
  | some m => [⟨name, "url(#" ++ markerId m ++ ")"⟩]
  | none => []

/-- The value of the anchor attribute. -/
def anchorName : TextAnchor → String
  | .start => "start"
  | .middle => "middle"
  | .stop => "end"

/-- The value of the baseline attribute. -/
def baselineName : Baseline → String
  | .alphabetic => "alphabetic"
  | .middle => "central"
  | .hanging => "hanging"

/-! ## Elements -/

/-- The definition of a symbol in a box of ten by ten units. `refX` is the place of its tip. -/
def marker (m : Marker) (refX size orient : String) (content : Markup) : Markup :=
  .node "marker" [⟨"id", markerId m⟩, ⟨"viewBox", "0 0 10 10"⟩, ⟨"refX", refX⟩, ⟨"refY", "5"⟩,
    ⟨"markerWidth", size⟩, ⟨"markerHeight", size⟩, ⟨"orient", orient⟩] [content]

/-- The definitions of all symbols in one colour. -/
def definitions (color : String) : Markup :=
  .node "defs" []
    [marker .arrow "9" "8" "auto-start-reverse"
        (.void "path" [⟨"d", "M0,0 L10,5 L0,10 z"⟩, .escaped "fill" color]),
      marker .circle "5" "8" "auto"
        (.void "circle" [⟨"cx", "5"⟩, ⟨"cy", "5"⟩, ⟨"r", "4"⟩, .escaped "fill" color]),
      marker .cross "5" "9" "auto"
        (.void "path" [⟨"d", "M1,1 L9,9 M9,1 L1,9"⟩, .escaped "stroke" color,
          ⟨"stroke-width", "1.5"⟩])]

/-- The attributes of a box. -/
def boxAttributes (r : Rect Float32) (radius : Float32) : List Attribute :=
  [number "x" r.x, number "y" r.y, number "width" r.width, number "height" r.height]
    ++ if 0.0 < radius then [number "rx" radius, number "ry" radius] else []

/-- The attributes of a line of text. -/
def textAttributes (t : TextRun) : List Attribute :=
  [number "x" t.position.x, number "y" t.position.y, ⟨"text-anchor", anchorName t.anchor⟩,
    ⟨"dominant-baseline", baselineName t.baseline⟩, .escaped "font-family" t.family,
    ⟨"font-size", Decimal.text32 t.size⟩, .escaped "fill" t.fill] ++ optional "font-weight" t.weight

/-- The element of a primitive. Path text is written as it is. -/
def element : Primitive → Markup
  | .rect box radius p => .void "rect" (boxAttributes box radius ++ paint p)
  | .path data p startMarker stopMarker =>
    .void "path" (⟨"d", Text.trim data⟩ :: paint p ++ markerRef "marker-start" startMarker
      ++ markerRef "marker-end" stopMarker)
  | .text run => .node "text" (textAttributes run) [.text run.content]

/-- The document of a picture. -/
def document (p : Picture) : Markup :=
  let size := places p.width ++ " " ++ places p.height
  .node "svg" [⟨"xmlns", "http://www.w3.org/2000/svg"⟩, number "width" p.width,
      number "height" p.height, ⟨"viewBox", "0 0 " ++ size⟩]
    (definitions p.lineColor
      :: .void "rect" [⟨"width", "100%"⟩, ⟨"height", "100%"⟩, .escaped "fill" p.background]
      :: p.elements.map element)

end Flowchart.Svg

namespace Flowchart

/-- The picture as a text of scalable vector graphics. -/
def Picture.toSvg (p : Picture) : String := (Svg.document p).render

/-- The layout as a text of scalable vector graphics. -/
def Layout.toSvg (l : Layout Float32) (theme : Theme Float32) (options : DrawingOptions Float32) :
    String :=
  (l.draw theme options).toSvg

end Flowchart
