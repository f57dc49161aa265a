import Flowchart.Settings.Decode

/-!
# Settings written as JSON

Themes and layout options are written with all their fields. Layout options can also be changed
field by field, under the same names; a value of a wrong type is refused and an unknown name is
ignored.
-/

namespace Flowchart

/-- All fields of a theme. -/
def Theme.toJson (t : Theme Float32) : Json :=
  .object [("font_family", .text t.fontFamily), ("font_size", .ofFloat32 t.fontSize),
    ("primary_color", .text t.nodeFill), ("primary_text_color", .text t.nodeText),
    ("primary_border_color", .text t.nodeStroke), ("line_color", .text t.line),
    ("secondary_color", .text t.secondary), ("tertiary_color", .text t.tertiary),
    ("text_color", .text t.text), ("edge_label_background", .text t.labelBackground),
    ("cluster_background", .text t.blockFill), ("cluster_border", .text t.blockStroke),
    ("background", .text t.background)]

/-- The name of a direction as options spell it. -/
def Direction.optionName (d : Direction) : String :=
  match d with
  | .topDown => "TopDown"
  | .bottomTop => "BottomTop"
  | .leftRight => "LeftRight"
  | .rightLeft => "RightLeft"

namespace LayoutOptions

/-- All fields of layout options. -/
def toJson (o : LayoutOptions Float32) : Json :=
  .object [("node_spacing", .ofFloat32 o.nodeSpacing), ("rank_spacing", .ofFloat32 o.rankSpacing),
    ("edge_spacing", .ofFloat32 o.edgeSpacing), ("node_padding_x", .ofFloat32 o.nodePaddingX),
    ("node_padding_y", .ofFloat32 o.nodePaddingY), ("subgraph_padding", .ofFloat32 o.blockPadding),
    ("subgraph_title_padding", .ofFloat32 o.blockTitlePadding),
    ("label_line_height", .ofFloat32 o.labelLineHeight),
    ("max_label_width_chars", .ofNat o.maxLabelChars), ("rank_strategy", .text o.rankStrategy.name),
    ("order_passes", .ofNat o.orderPasses), ("coordinate_sweeps", .ofNat o.coordinateSweeps),
    ("network_simplex_max_iterations", .ofNat o.simplexLimit), ("curved_edges", .bool o.curvedEdges),
    ("arrow_offset", .ofFloat32 o.arrowOffset), ("port_pad_ratio", .ofFloat32 o.portPadRatio),
    ("port_pad_min", .ofFloat32 o.portPadMin), ("port_pad_max", .ofFloat32 o.portPadMax),
    ("max_nodes", .ofNat o.maxNodes), ("max_edges", .ofNat o.maxEdges), ("engine", .text o.engine),
    ("direction_override", .ofText? (o.directionOverride.map Direction.optionName))]

/-- Reads the name of a ranking strategy; only the exact names count. -/
def strategyOfJson? (v : Json) : Option RankStrategy :=
  v.text?.bind fun s => [RankStrategy.longestPath, .tightTree, .networkSimplex].find? (·.name == s)

/-- The options with one field replaced; none when the value has a wrong type. -/
def withField? (o : LayoutOptions Float32) (name : String) (v : Json) :
    Option (LayoutOptions Float32) :=
  match name with
  | "node_spacing" => v.float32?.map fun x => { o with nodeSpacing := x }
  | "rank_spacing" => v.float32?.map fun x => { o with rankSpacing := x }
  | "edge_spacing" => v.float32?.map fun x => { o with edgeSpacing := x }
  | "node_padding_x" => v.float32?.map fun x => { o with nodePaddingX := x }
  | "node_padding_y" => v.float32?.map fun x => { o with nodePaddingY := x }
  | "subgraph_padding" => v.float32?.map fun x => { o with blockPadding := x }
  | "subgraph_title_padding" => v.float32?.map fun x => { o with blockTitlePadding := x }
  | "label_line_height" => v.float32?.map fun x => { o with labelLineHeight := x }
  | "max_label_width_chars" => v.count?.map fun n => { o with maxLabelChars := n }
  | "rank_strategy" => (strategyOfJson? v).map fun r => { o with rankStrategy := r }
  | "order_passes" => v.count?.map fun n => { o with orderPasses := n }
  | "coordinate_sweeps" => v.count?.map fun n => { o with coordinateSweeps := n }
  | "network_simplex_max_iterations" => v.count?.map fun n => { o with simplexLimit := n }
  | "curved_edges" => v.bool?.map fun b => { o with curvedEdges := b }
  | "arrow_offset" => v.float32?.map fun x => { o with arrowOffset := x }
  | "port_pad_ratio" => v.float32?.map fun x => { o with portPadRatio := x }
  | "port_pad_min" => v.float32?.map fun x => { o with portPadMin := x }
  | "port_pad_max" => v.float32?.map fun x => { o with portPadMax := x }
  | "max_nodes" => v.count?.map fun n => { o with maxNodes := n }
  | "max_edges" => v.count?.map fun n => { o with maxEdges := n }
  | "engine" => v.text?.map fun s => { o with engine := s }
  | "direction_override" => (directionOfName? v).map fun d => { o with directionOverride := some d }
  | _ => some o

/-- The options with all fields of an object replaced, except those that are null. -/
def withFields? (o : LayoutOptions Float32) : Json → Option (LayoutOptions Float32)
  | .object fields => fields.foldlM (fun o (k, v) => match v with
    | .null => some o
    | v => o.withField? k v) o
  | _ => none

end LayoutOptions

/-- Padding and background of a picture. -/
def DrawingOptions.toJson (d : DrawingOptions Float32) : Json :=
  .object [("padding", .ofFloat32 d.padding), ("background", .text d.background)]

/-- All settings. -/
def Settings.toJson (s : Settings Float32) : Json :=
  .object [("theme", s.theme.toJson), ("layout", s.layout.toJson), ("render", s.drawing.toJson)]

end Flowchart
