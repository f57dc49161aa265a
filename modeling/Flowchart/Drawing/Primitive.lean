import Flowchart.Diagram.Shape
import Flowchart.Geometry.Rect

/-!
# Pictures

A picture is a canvas with a background and a list of primitives, each painted over those before it.
It says nothing about the format in which it is stored.
-/

namespace Flowchart

/-- How an area or a line is painted. -/
structure Paint where
  /-- colour of the interior -/
  fill : Option String := none
  /-- colour of the line -/
  stroke : Option String := none
  /-- width of the line -/
  strokeWidth : Float32 := 0.0
  /-- dash pattern of the line -/
  dashes : Option String := none
  deriving Inhabited

/-- Which end of a line of text is at its position. -/
inductive TextAnchor where
  | start
  | middle
  | stop
  deriving Repr, DecidableEq, Inhabited

/-- Which height of a line of text is at its position. -/
inductive Baseline where
  | alphabetic
  | middle
  | hanging
  deriving Repr, DecidableEq, Inhabited

/-- A line of text on the canvas. -/
structure TextRun where
  /-- where it is -/
  position : Point Float32
  /-- the line itself -/
  content : String
  anchor : TextAnchor := .middle
  baseline : Baseline := .middle
  /-- its font -/
  family : String
  /-- its font size -/
  size : Float32
  /-- its font weight -/
  weight : Option String := none
  /-- its colour -/
  fill : String
  deriving Inhabited

/-- Something that is painted. -/
inductive Primitive where
  /-- a box with corners of a given radius -/
  | rect (box : Rect Float32) (radius : Float32) (paint : Paint)
  /-- a path, given by its path text, with symbols at its ends -/
  | path (data : String) (paint : Paint) (startMarker stopMarker : Option Marker)
  /-- a line of text -/
  | text (run : TextRun)
  deriving Inhabited

/-- A canvas with what is painted on it. -/
structure Picture where
  /-- width of the canvas -/
  width : Float32
  /-- height of the canvas -/
  height : Float32
  /-- colour of the canvas -/
  background : String
  /-- colour of the symbols at the ends of connections -/
  lineColor : String
  /-- what is painted, the lowest first -/
  elements : List Primitive
  deriving Inhabited

end Flowchart
