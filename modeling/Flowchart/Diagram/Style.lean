/-!
# Styles

A style names the appearance settings it wants to change and leaves the others open. Styles are
layered: a later one overwrites the fields that it sets.
-/

namespace Flowchart

/-- Appearance settings of a node; an unset field leaves the theme's choice. -/
structure NodeStyle (α : Type) where
  /-- colour of the interior -/
  fill : Option String := none
  /-- colour of the outline -/
  stroke : Option String := none
  /-- width of the outline -/
  strokeWidth : Option α := none
  /-- dash pattern of the outline -/
  dashes : Option String := none
  /-- colour of the label -/
  textColor : Option String := none
  /-- font of the label -/
  fontFamily : Option String := none
  /-- font size of the label -/
  fontSize : Option α := none
  /-- font weight of the label -/
  fontWeight : Option String := none
  deriving Repr, DecidableEq, Inhabited

namespace NodeStyle

variable {α : Type}

/-- The style that sets nothing. -/
def empty : NodeStyle α := {}

/-- `base` with the fields that `top` sets overwritten. -/
def merge (base top : NodeStyle α) : NodeStyle α where
  fill := top.fill <|> base.fill
  stroke := top.stroke <|> base.stroke
  strokeWidth := top.strokeWidth <|> base.strokeWidth
  dashes := top.dashes <|> base.dashes
  textColor := top.textColor <|> base.textColor
  fontFamily := top.fontFamily <|> base.fontFamily
  fontSize := top.fontSize <|> base.fontSize
  fontWeight := top.fontWeight <|> base.fontWeight

end NodeStyle

/-- Appearance settings of a connection. -/
structure EdgeStyle (α : Type) where
  /-- colour of the line -/
  stroke : Option String := none
  /-- width of the line -/
  strokeWidth : Option α := none
  /-- dash pattern of the line -/
  dashes : Option String := none
  /-- colour of the label -/
  labelColor : Option String := none
  deriving Repr, DecidableEq, Inhabited

namespace EdgeStyle

variable {α : Type}

/-- The style that sets nothing. -/
def empty : EdgeStyle α := {}

/-- `base` with the fields that `top` sets overwritten. -/
def merge (base top : EdgeStyle α) : EdgeStyle α where
  stroke := top.stroke <|> base.stroke
  strokeWidth := top.strokeWidth <|> base.strokeWidth
  dashes := top.dashes <|> base.dashes
  labelColor := top.labelColor <|> base.labelColor

end EdgeStyle

end Flowchart
