import Flowchart.Layout.Options
import Flowchart.Settings.Theme

/-!
# Layers of settings

The settings of a drawing start from a standard and are changed by layers: a settings file, the
settings inside a diagram, and the options of a caller. A layer names some settings and leaves the
others alone. Within a layer a theme is chosen first, single settings of the theme come next and
explicit colours last, so that they win. The background of the drawing always follows the background
of the theme.
-/

namespace Flowchart

/-- How the canvas is turned into a picture. -/
structure DrawingOptions (α : Type) where
  /-- room around the canvas -/
  padding : α
  /-- background of the picture -/
  background : String
  deriving Repr, DecidableEq, Inhabited

/-- All settings of a drawing. -/
structure Settings (α : Type) where
  /-- font and colours -/
  theme : Theme α
  /-- distances, limits and strategies of the layout -/
  layout : LayoutOptions α
  /-- how the picture is made -/
  drawing : DrawingOptions α
  deriving Inhabited

/-- Single settings of a theme. -/
structure ThemeVariables (α : Type) where
  fontFamily : Option String := none
  /-- a font size that cannot be read counts as none -/
  fontSize : Option α := none
  primaryColor : Option String := none
  primaryTextColor : Option String := none
  primaryBorderColor : Option String := none
  lineColor : Option String := none
  secondaryColor : Option String := none
  tertiaryColor : Option String := none
  textColor : Option String := none
  edgeLabelBackground : Option String := none
  clusterBkg : Option String := none
  clusterBorder : Option String := none
  background : Option String := none
  deriving Inhabited

/-- Settings of the layout that a settings file may name. -/
structure FlowSettings (α : Type) where
  nodeSpacing : Option α := none
  rankSpacing : Option α := none
  edgeSpacing : Option α := none
  padding : Option α := none
  /-- name of the kind of curve -/
  curve : Option String := none
  /-- name of the ranking strategy -/
  rankStrategy : Option String := none
  /-- name of the ranking strategy, if `rankStrategy` gives none -/
  ranker : Option String := none
  orderPasses : Option Nat := none
  layoutEngine : Option String := none
  deriving Inhabited

/-- A settings file, or the settings inside a diagram. -/
structure SettingsLayer (α : Type) where
  theme : Option String := none
  themeVariables : Option (ThemeVariables α) := none
  flowchart : Option (FlowSettings α) := none
  colors : Option ColorOverrides := none
  maxNodes : Option Nat := none
  maxEdges : Option Nat := none
  deriving Inhabited

/-- The options of a caller. -/
structure CallerOptions (α : Type) where
  direction : Option Direction := none
  nodeSpacing : Option α := none
  rankSpacing : Option α := none
  edgeSpacing : Option α := none
  fontFamily : Option String := none
  fontSize : Option α := none
  padding : Option α := none
  curved : Bool := false
  theme : Option String := none
  colors : ColorOverrides := {}
  maxNodes : Option Nat := none
  maxEdges : Option Nat := none
  deriving Inhabited

namespace Settings

variable {α : Type}

/-- Replaces the whole theme. -/
def withTheme (s : Settings α) (theme : Theme α) : Settings α :=
  { s with theme := theme, drawing := { s.drawing with background := theme.background } }

/-- Replaces the theme by one found by name; an unknown name changes nothing. -/
def withThemeNamed [Scalar α] (s : Settings α) (name : Option String) : Settings α :=
  match name.bind Theme.ofName? with
  | some theme => s.withTheme theme
  | none => s

/-- Puts in explicit colours. -/
def withColors (s : Settings α) (c : ColorOverrides) : Settings α :=
  { s with
    theme := s.theme.override c
    drawing := { s.drawing with background := c.background.getD s.drawing.background } }

/-- Puts in single settings of the theme. -/
def withVariables (s : Settings α) (v : ThemeVariables α) : Settings α :=
  let t := s.theme
  { s with
    theme :=
      { fontFamily := v.fontFamily.getD t.fontFamily
        fontSize := v.fontSize.getD t.fontSize
        nodeFill := v.primaryColor.getD t.nodeFill
        nodeText := v.primaryTextColor.getD t.nodeText
        nodeStroke := v.primaryBorderColor.getD t.nodeStroke
        line := v.lineColor.getD t.line
        secondary := v.secondaryColor.getD t.secondary
        tertiary := v.tertiaryColor.getD t.tertiary
        text := v.textColor.getD t.text
        labelBackground := v.edgeLabelBackground.getD t.labelBackground
        blockFill := v.clusterBkg.getD t.blockFill
        blockStroke := v.clusterBorder.getD t.blockStroke
        background := v.background.getD t.background }
    drawing := { s.drawing with background := v.background.getD s.drawing.background } }

/-- Kinds of curve that are drawn straight; all others are smooth. -/
def straightCurves : List String := ["linear", "step", "stepbefore", "stepafter"]

/-- The kind of curve is smooth. -/
def isSmooth (curve : String) : Bool :=
  !straightCurves.contains (Text.lowerAscii (Text.trim curve))

/-- Puts in settings of the layout. A strategy that is not known changes nothing, and at least one
sweep of the ordering is made. -/
def withFlow (s : Settings α) (f : FlowSettings α) : Settings α :=
  let o := s.layout
  { s with
    layout :=
      { o with
        nodeSpacing := f.nodeSpacing.getD o.nodeSpacing
        rankSpacing := f.rankSpacing.getD o.rankSpacing
        edgeSpacing := f.edgeSpacing.getD o.edgeSpacing
        orderPasses := (f.orderPasses.map (max 1)).getD o.orderPasses
        curvedEdges := (f.curve.map isSmooth).getD o.curvedEdges
        rankStrategy := ((f.rankStrategy <|> f.ranker).bind RankStrategy.ofName?).getD
          o.rankStrategy
        engine := f.layoutEngine.getD o.engine }
    drawing := { s.drawing with padding := f.padding.getD s.drawing.padding } }

/-- Puts in limits. -/
def withLimits (s : Settings α) (maxNodes maxEdges : Option Nat) : Settings α :=
  { s with
    layout :=
      { s.layout with
        maxNodes := maxNodes.getD s.layout.maxNodes
        maxEdges := maxEdges.getD s.layout.maxEdges } }

variable [Scalar α]

/-- The settings used when nothing else is said. -/
def standard : Settings α where
  theme := .modern
  layout := .standard
  drawing := ⟨8.0, (Theme.modern (α := α)).background⟩

/-- Applies a settings file, or the settings inside a diagram. -/
def withLayer (s : Settings α) (l : SettingsLayer α) : Settings α :=
  ((((s.withThemeNamed l.theme).withVariables (l.themeVariables.getD {})).withFlow
    (l.flowchart.getD {})).withColors (l.colors.getD {})).withLimits l.maxNodes l.maxEdges

/-- Applies the options of a caller. -/
def withOptions (s : Settings α) (c : CallerOptions α) : Settings α :=
  let s := s.withThemeNamed c.theme
  let s := { s with
    theme := { s.theme with
      fontFamily := c.fontFamily.getD s.theme.fontFamily
      fontSize := c.fontSize.getD s.theme.fontSize } }
  let s := (s.withColors c.colors).withLimits c.maxNodes c.maxEdges
  let o := s.layout
  { s with
    layout :=
      { o with
        directionOverride := c.direction <|> o.directionOverride
        nodeSpacing := c.nodeSpacing.getD o.nodeSpacing
        rankSpacing := c.rankSpacing.getD o.rankSpacing
        edgeSpacing := c.edgeSpacing.getD o.edgeSpacing
        curvedEdges := c.curved || o.curvedEdges }
    drawing := { s.drawing with padding := c.padding.getD s.drawing.padding } }

end Settings

end Flowchart
