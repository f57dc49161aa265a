import Flowchart.Drawing.Primitive
import Flowchart.Json.Value

/-!
# Pictures as JSON

The primitives of a picture in their order, each one tagged with its kind.
-/

namespace Flowchart

/-- The name of a text anchor. -/
def TextAnchor.name : TextAnchor → String
  | start => "start"
  | middle => "middle"
  | stop => "end"

/-- The name of a baseline. -/
def Baseline.name : Baseline → String
  | alphabetic => "alphabetic"
  | middle => "middle"
  | hanging => "hanging"

/-- The name of a marker. -/
def Marker.name : Marker → String
  | arrow => "Arrow"
  | circle => "Circle"
  | cross => "Cross"

/-- All fields of a paint. -/
def Paint.toJson (p : Paint) : Json :=
  .object [("fill", .ofText? p.fill), ("stroke", .ofText? p.stroke),
    ("stroke_width", .ofFloat32 p.strokeWidth), ("dasharray", .ofText? p.dashes)]

/-- All fields of a primitive. -/
def Primitive.toJson : Primitive → Json
  | rect b radius paint => .object [("kind", .text "rect"), ("x", .ofFloat32 b.x),
      ("y", .ofFloat32 b.y), ("width", .ofFloat32 b.width), ("height", .ofFloat32 b.height),
      ("radius", .ofFloat32 radius), ("paint", paint.toJson)]
  | path d paint startMarker stopMarker => .object [("kind", .text "path"), ("d", .text d),
      ("paint", paint.toJson), ("marker_start", .ofText? (startMarker.map Marker.name)),
      ("marker_end", .ofText? (stopMarker.map Marker.name))]
  | text t => .object [("kind", .text "text"), ("x", .ofFloat32 t.position.x),
      ("y", .ofFloat32 t.position.y), ("text", .text t.content), ("anchor", .text t.anchor.name),
      ("baseline", .text t.baseline.name), ("font_family", .text t.family),
      ("font_size", .ofFloat32 t.size), ("font_weight", .ofText? t.weight), ("fill", .text t.fill)]

/-- A picture. -/
def Picture.toJson (p : Picture) : Json :=
  .object [("width", .ofFloat32 p.width), ("height", .ofFloat32 p.height),
    ("background", .text p.background), ("line_color", .text p.lineColor),
    ("elements", .array (p.elements.map Primitive.toJson))]

end Flowchart
