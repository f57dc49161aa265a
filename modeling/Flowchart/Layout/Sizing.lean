import Flowchart.Layout.Options
import Flowchart.Layout.Parts
import Flowchart.Measure.Lines

/-!
# Sizes of labels and nodes

A label is broken into lines and every line is wrapped at the width of so many average characters.
The box of a node is the box of its label with padding around it, changed so that the label fits the
outline.
-/

namespace Flowchart

variable {α : Type} [Scalar α]

/-- The lines of a label in its font; there is always one. -/
def wrappedLines (m : Measurer α) (options : LayoutOptions α) (fontSize : α) (text : String) :
    List String :=
  let limit := Scalar.ofNat options.maxLabelChars * averageCharWidth fontSize
  match (labelLines text).flatMap fun line => m.wrapLine line limit fontSize with
  | [] => [""]
  | lines => lines

/-- Breaks and measures a label. -/
def labelBlock (m : Measurer α) (options : LayoutOptions α) (fontSize : α) (text : String) :
    TextBlock α :=
  let lines := wrappedLines m options fontSize text
  ⟨lines, Scalar.maxFromZero (lines.map fun l => m.lineWidth l fontSize),
    Scalar.ofNat lines.length * fontSize * options.labelLineHeight⟩

/-- Shares of the padding that an outline leaves beside, and above and below its label. -/
def Shape.paddingFactors : Shape → α × α
  | .stadium => (0.43, 0.5)
  | .subroutine => (0.54, 0.5)
  | .parallelogram => (0.894, 0.5)
  | .parallelogramAlt => (0.904, 0.5)
  | _ => (1.0, 1.0)

/-- The box that an outline needs around a padded label. Diamonds and circles are as wide as they
are high, and a circle without a label is small. -/
def Shape.grow (options : LayoutOptions α) (blank : Bool) (width height : α) : Shape → α × α
  | .diamond =>
    let size := Scalar.max width height * 0.95
    (size, size)
  | .circle | .doubleCircle =>
    let size := if blank then Scalar.max (options.nodePaddingY * 1.4) 14.0
      else Scalar.max width height
    (size, size)
  | .roundRect => (width * 1.1, height * 1.05)
  | .cylinder => (width * 1.1, height * 1.1)
  | .hexagon => (width * 1.2, height * 1.1)
  | .trapezoid | .trapezoidAlt | .asymmetric => (width * 1.2, height)
  | _ => (width, height)

/-- Width and height of a node with a given label. -/
def Shape.size (options : LayoutOptions α) (label : TextBlock α) (s : Shape) : α × α :=
  let (kx, ky) : α × α := s.paddingFactors
  s.grow options label.isBlank (label.width + options.nodePaddingX * kx * 2.0)
    (label.height + options.nodePaddingY * ky * 2.0)

end Flowchart
