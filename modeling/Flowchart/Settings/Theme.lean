import Flowchart.Scalar
import Flowchart.Text.Blank

/-!
# Themes

A theme names the font and the colours of a drawing. Some themes come with the library and are found
by name; any colour of a theme can be overridden by an explicit one.
-/

namespace Flowchart

/-- Font and colours of a drawing. -/
structure Theme (α : Type) where
  /-- font of all labels -/
  fontFamily : String
  /-- font size of all labels -/
  fontSize : α
  /-- interior of nodes -/
  nodeFill : String
  /-- labels of nodes -/
  nodeText : String
  /-- outlines of nodes -/
  nodeStroke : String
  /-- connections -/
  line : String
  /-- second colour -/
  secondary : String
  /-- third colour -/
  tertiary : String
  /-- all other texts -/
  text : String
  /-- background of the labels of connections -/
  labelBackground : String
  /-- interior of blocks -/
  blockFill : String
  /-- outlines of blocks -/
  blockStroke : String
  /-- background of the drawing -/
  background : String
  deriving Repr, DecidableEq, Inhabited

/-- Explicit colours, which win over those of a theme. -/
structure ColorOverrides where
  background : Option String := none
  text : Option String := none
  nodeFill : Option String := none
  nodeStroke : Option String := none
  edgeStroke : Option String := none
  edgeLabelBackground : Option String := none
  subgraphFill : Option String := none
  subgraphStroke : Option String := none
  deriving Repr, DecidableEq, Inhabited

namespace Theme

variable {α : Type}

/-- The theme with explicit colours put in. The colour for texts is used for the labels of nodes and
for all other texts. -/
def override (t : Theme α) (c : ColorOverrides) : Theme α :=
  { t with
    background := c.background.getD t.background
    nodeText := c.text.getD t.nodeText
    text := c.text.getD t.text
    nodeFill := c.nodeFill.getD t.nodeFill
    nodeStroke := c.nodeStroke.getD t.nodeStroke
    line := c.edgeStroke.getD t.line
    labelBackground := c.edgeLabelBackground.getD t.labelBackground
    blockFill := c.subgraphFill.getD t.blockFill
    blockStroke := c.subgraphStroke.getD t.blockStroke }

variable [Scalar α]

/-- The theme used when nothing else is said. -/
def modern : Theme α where
  fontFamily := "Inter, Segoe UI, system-ui, -apple-system, sans-serif"
  fontSize := 13.0
  nodeFill := "#F8FAFF"
  nodeText := "#1C2430"
  nodeStroke := "#C7D2E5"
  line := "#7A8AA6"
  secondary := "#EEF2F8"
  tertiary := "#FFFFFF"
  text := "#1C2430"
  labelBackground := "#FFFFFF"
  blockFill := "#F7FAFF"
  blockStroke := "#D7E0F0"
  background := "#FFFFFF"

/-- The modern theme on a dark background. -/
def dark : Theme α :=
  { modern with
    nodeFill := "#1E2533"
    nodeText := "#E6EAF2"
    nodeStroke := "#4A5870"
    line := "#8FA0BF"
    secondary := "#262E3D"
    tertiary := "#151A23"
    text := "#E6EAF2"
    labelBackground := "#151A23"
    blockFill := "#19202B"
    blockStroke := "#3A465A"
    background := "#0F131A" }

/-- Violet nodes and yellow blocks. -/
def mermaid : Theme α where
  fontFamily := "\"trebuchet ms\", verdana, arial, sans-serif"
  fontSize := 16.0
  nodeFill := "#ECECFF"
  nodeText := "#333333"
  nodeStroke := "#9370DB"
  line := "#333333"
  secondary := "#FFFFDE"
  tertiary := "#ECECFF"
  text := "#333333"
  labelBackground := "#E8E8E8"
  blockFill := "#FFFFDE"
  blockStroke := "#AAAA33"
  background := "#FFFFFF"

/-- Grey on a dark background. -/
def mermaidDark : Theme α :=
  { mermaid with
    nodeFill := "#1F2020"
    nodeText := "#E0DFDF"
    nodeStroke := "#CCCCCC"
    line := "#D3D3D3"
    secondary := "#3A3A3A"
    tertiary := "#333333"
    text := "#CCCCCC"
    labelBackground := "#585858"
    blockFill := "#474949"
    blockStroke := "#888888"
    background := "#333333" }

/-- Green nodes and blocks. -/
def forest : Theme α :=
  { mermaid with
    nodeFill := "#CDE498"
    nodeText := "#000000"
    nodeStroke := "#13540C"
    line := "#008000"
    secondary := "#CDFFB2"
    tertiary := "#F4F4F4"
    text := "#000000"
    labelBackground := "#E8E8E8"
    blockFill := "#CDFFB2"
    blockStroke := "#6EAA49" }

/-- Shades of grey. -/
def neutral : Theme α :=
  { mermaid with
    nodeFill := "#EEEEEE"
    nodeText := "#111111"
    nodeStroke := "#999999"
    line := "#666666"
    secondary := "#F4F4F4"
    tertiary := "#FFFFFF"
    text := "#333333"
    labelBackground := "#FFFFFF"
    blockFill := "#F4F4F4"
    blockStroke := "#999999" }

/-- Cream-coloured nodes. -/
def base : Theme α :=
  { mermaid with
    nodeFill := "#FFF4DD"
    nodeText := "#333333"
    nodeStroke := "#F4D29B"
    line := "#333333"
    secondary := "#FFFFDE"
    tertiary := "#FFF4DD"
    text := "#333333"
    labelBackground := "#FFF4DD"
    blockFill := "#FFFDF5"
    blockStroke := "#DCC48E" }

/-- The theme of a given name, in either case and with blanks around it. -/
def ofName? (name : String) : Option (Theme α) :=
  match Text.lowerAscii (Text.trim name) with
  | "default" | "modern" => some modern
  | "dark" => some dark
  | "forest" => some forest
  | "neutral" => some neutral
  | "base" => some base
  | "mermaid" => some mermaid
  | "mermaid-dark" => some mermaidDark
  | _ => none

end Theme

/-- The names under which themes are advertised. -/
def themeNames : List String :=
  ["default", "dark", "forest", "neutral", "base", "mermaid", "mermaid-dark"]

end Flowchart
