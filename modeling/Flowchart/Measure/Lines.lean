import Flowchart.Scalar
import Flowchart.Text.Blank

/-!
# Lines of a label

A label is broken into lines at line feeds, at the escape for one, and at break tags. A line that is
too wide is wrapped: its words are put on lines greedily, each line taking as many as fit, and a
word that is too wide on its own gets a line of its own.

How wide a line is depends on the font. All that is asked of it is one function, the `Measurer`.
-/

namespace Flowchart

/-- Measures text in some font. -/
structure Measurer (α : Type) where
  /-- width of one line at a font size -/
  lineWidth : String → α → α

/-! ## Breaking -/

/-- The characters of a label with every written line break turned into a line feed. -/
def breakTags : List Char → List Char
  | '<' :: 'b' :: 'r' :: '/' :: '>' :: rest => '\n' :: breakTags rest
  | '<' :: 'b' :: 'r' :: ' ' :: '/' :: '>' :: rest => '\n' :: breakTags rest
  | '<' :: 'b' :: 'r' :: '>' :: rest => '\n' :: breakTags rest
  | '\\' :: 'n' :: rest => '\n' :: breakTags rest
  | c :: rest => c :: breakTags rest
  | [] => []

/-- The trimmed lines of a label; there is at least one. -/
def labelLines (text : String) : List String :=
  ((breakTags text.toList).splitOnP (· == '\n')).map fun l => String.ofList (Text.trimChars l)

namespace Measurer

variable {α : Type} [Scalar α]

/-- Width and height of a label that is not wrapped. -/
def measure (m : Measurer α) (text : String) (fontSize : α) : α × α :=
  let lines := labelLines text
  (Scalar.maxFromZero (lines.map fun l => m.lineWidth l fontSize),
    Scalar.ofNat (max lines.length 1) * fontSize * 1.5)

/-! ## Wrapping -/

/-- Puts words on lines, the first line starting with `current`. -/
def wrapWords (m : Measurer α) (limit fontSize : α) (current : String) :
    List String → List String
  | [] => [current]
  | w :: ws =>
    let longer := current ++ " " ++ w
    if limit < m.lineWidth longer fontSize then current :: wrapWords m limit fontSize w ws
    else wrapWords m limit fontSize longer ws

/-- Wraps a line at a width. A line that fits is left as it is. -/
def wrapLine (m : Measurer α) (line : String) (limit fontSize : α) : List String :=
  if m.lineWidth line fontSize ≤ limit then [line]
  else
    match Text.words line with
    | [] => []
    | w :: ws => m.wrapWords limit fontSize w ws

end Measurer

/-- The width an average character is reckoned with. -/
def averageCharWidth {α : Type} [Scalar α] (fontSize : α) : α := fontSize * 0.56

end Flowchart
