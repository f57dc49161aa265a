import Flowchart.Drawing.Svg
import Flowchart.Grammar.Document
import Flowchart.Layout.Engine
import Flowchart.Measure.Estimated
import Flowchart.Settings.Decode

/-!
# From text to picture

The whole way in one step. The settings of a diagram are those it is given, changed by the settings
inside its text and then by the options of the caller, which win.
-/

namespace Flowchart

/-- Why a text was not turned into a picture. -/
inductive RenderError where
  /-- it is no diagram -/
  | parse (e : ParseError)
  /-- it was not laid out -/
  | layout (e : LayoutError)
  deriving Repr, DecidableEq

/-- The message of an error. -/
def RenderError.message : RenderError → String
  | parse e => e.message
  | layout e => e.message

/-- The settings for a diagram: `base`, then those inside its text, then the options of the
caller. -/
def Document.settingsOver (d : Document) (base : Settings Float32)
    (options : CallerOptions Float32) : Settings Float32 :=
  let s := match d.settings with
    | some init => base.withInit init
    | none => base
  s.withOptions options

/-- Parses and lays out a text. The settings that were followed are returned too. -/
def layoutText (base : Settings Float32) (options : CallerOptions Float32)
    (m : Measurer Float32) (text : String) :
    Except RenderError (Layout Float32 × Settings Float32) :=
  match parseDocument text with
  | .error e => .error (.parse e)
  | .ok d =>
    let s := d.settingsOver base options
    match computeLayout s.theme s.layout m d.diagram with
    | .error e => .error (.layout e)
    | .ok l => .ok (l, s)

/-- Turns a text into a text of scalable vector graphics, with estimated widths. -/
def svgOfText (options : CallerOptions Float32) (text : String) : Except RenderError String :=
  (layoutText .standard options .estimated text).map fun (l, s) => l.toSvg s.theme s.drawing

end Flowchart
