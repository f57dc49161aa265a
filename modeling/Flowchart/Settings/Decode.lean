import Flowchart.Decimal.Reading
import Flowchart.Json.Expected
import Flowchart.Json.Record
import Flowchart.Settings.Layers

/-!
# Settings as JSON

A settings file is one record with further records inside. A value of a wrong type anywhere makes
the whole layer unreadable; the settings inside a diagram are then ignored, and a file is refused
with the first fault in its text.
-/

namespace Flowchart

namespace ColorOverrides

/-- The fields of explicit colours. -/
def fields : List (String × Json.Expected) :=
  ["background", "text", "nodeFill", "nodeStroke", "edgeStroke", "edgeLabelBackground",
    "subgraphFill", "subgraphStroke"].map fun name => (name, .text)

/-- Reads explicit colours; as an array they may be cut short. -/
def ofJson? (j : Json) : Option ColorOverrides := do
  let color := Json.optional Json.text?
  match ← Json.record? (fields.map Prod.fst) true j with
  | [a, b, c, d, e, f, g, h] =>
    some ⟨← color a, ← color b, ← color c, ← color d, ← color e, ← color f, ← color g, ← color h⟩
  | _ => none

end ColorOverrides

/-- Drops the unit of a length, however often it is written. The text is given in reverse. -/
def dropUnit : List Char → List Char
  | 'x' :: 'p' :: rest => dropUnit rest
  | cs => cs

/-- Reads a font size: a number, or a text that holds a number and maybe its unit. The inner `none`
stands for a text without a number. -/
def fontSizeOfJson? : Json → Option (Option Float32)
  | .text s =>
    some ((Decimal.read? (dropUnit (Text.trimChars s.toList).reverse).reverse).map
      Decimal.Written.toFloat32)
  | j => j.float32?.map some

namespace ThemeVariables

/-- The fields of single settings of a theme. -/
def fields : List (String × Json.Expected) :=
  [("fontFamily", .text), ("fontSize", .numberOrText "NumberOrString"), ("primaryColor", .text),
    ("primaryTextColor", .text), ("primaryBorderColor", .text), ("lineColor", .text),
    ("secondaryColor", .text), ("tertiaryColor", .text), ("textColor", .text),
    ("edgeLabelBackground", .text), ("clusterBkg", .text), ("clusterBorder", .text),
    ("background", .text)]

/-- Reads single settings of a theme. -/
def ofJson? (j : Json) : Option (ThemeVariables Float32) := do
  let text := Json.optional Json.text?
  match ← Json.record? (fields.map Prod.fst) false j with
  | [a, b, c, d, e, f, g, h, i, k, l, m, n] =>
    let size ← Json.optional fontSizeOfJson? b
    some ⟨← text a, size.join, ← text c, ← text d, ← text e, ← text f, ← text g, ← text h, ← text i,
      ← text k, ← text l, ← text m, ← text n⟩
  | _ => none

end ThemeVariables

namespace FlowSettings

/-- The fields of settings of the layout. -/
def fields : List (String × Json.Expected) :=
  [("nodeSpacing", .single), ("rankSpacing", .single), ("edgeSpacing", .single),
    ("padding", .single), ("curve", .text), ("rankStrategy", .text), ("ranker", .text),
    ("orderPasses", .count), ("layoutEngine", .text)]

/-- Reads settings of the layout. -/
def ofJson? (j : Json) : Option (FlowSettings Float32) := do
  let number := Json.optional Json.float32?
  let text := Json.optional Json.text?
  match ← Json.record? (fields.map Prod.fst) false j with
  | [a, b, c, d, e, f, g, h, i] =>
    some ⟨← number a, ← number b, ← number c, ← number d, ← text e, ← text f, ← text g,
      ← Json.optional Json.count? h, ← text i⟩
  | _ => none

end FlowSettings

namespace SettingsLayer

/-- The fields of a settings file. -/
def fields : List (String × Json.Expected) :=
  [("theme", .text), ("themeVariables", .record "ThemeVariables" ThemeVariables.fields false),
    ("flowchart", .record "FlowchartConfig" FlowSettings.fields false),
    ("colors", .record "ColorOverrides" ColorOverrides.fields true), ("maxNodes", .count),
    ("maxEdges", .count)]

/-- Reads a settings file, or the settings inside a diagram. -/
def ofJson? (j : Json) : Option (SettingsLayer Float32) := do
  match ← Json.record? (fields.map Prod.fst) false j with
  | [a, b, c, d, e, f] =>
    some ⟨← Json.optional Json.text? a, ← Json.optional ThemeVariables.ofJson? b,
      ← Json.optional FlowSettings.ofJson? c, ← Json.optional ColorOverrides.ofJson? d,
      ← Json.optional Json.count? e, ← Json.optional Json.count? f⟩
  | _ => none

/-- Reads the text of a settings file. A text that holds the expected record can be decoded, so the
second fault does not arise. -/
def ofText (text : String) : Except Json.Problem (SettingsLayer Float32) := do
  let j ← Json.parseRecord "ConfigFile" fields text
  match ofJson? j with
  | some layer => .ok layer
  | none => .error ((Json.Fault.before .valueExpected []).locate text)

end SettingsLayer

/-- Reads the name of a direction as options spell it. -/
def directionOfName? : Json → Option Direction
  | .text "TopDown" => some .topDown
  | .text "BottomTop" => some .bottomTop
  | .text "LeftRight" => some .leftRight
  | .text "RightLeft" => some .rightLeft
  | _ => none

namespace CallerOptions

/-- Reads the options of a caller; as an array they may be cut short. -/
def ofJson? (j : Json) : Option (CallerOptions Float32) := do
  let number := Json.optional Json.float32?
  let text := Json.optional Json.text?
  let count := Json.optional Json.count?
  match ← Json.record? ["direction", "nodeSpacing", "rankSpacing", "edgeSpacing", "fontFamily",
      "fontSize", "padding", "curved", "theme", "colors", "maxNodes", "maxEdges"] true j with
  | [a, b, c, d, e, f, g, h, i, k, l, m] =>
    some ⟨← Json.optional directionOfName? a, ← number b, ← number c, ← number d, ← text e,
      ← number f, ← number g, ← Json.defaulted false Json.bool? h, ← text i,
      ← Json.defaulted {} ColorOverrides.ofJson? k, ← count l, ← count m⟩
  | _ => none

end CallerOptions

/-- Decodes the settings inside a diagram. -/
abbrev SettingsDecoder := Json → Option (SettingsLayer Float32)

namespace Settings

/-- Applies the settings inside a diagram, if they can be decoded. -/
def withInit (s : Settings Float32) (init : Json)
    (decode : SettingsDecoder := SettingsLayer.ofJson?) : Settings Float32 :=
  match decode init with
  | some layer => s.withLayer layer
  | none => s

end Settings

end Flowchart
