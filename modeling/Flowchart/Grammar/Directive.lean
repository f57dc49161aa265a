import Flowchart.Diagram.Direction
import Flowchart.Diagram.Style
import Flowchart.Decimal.Reading
import Flowchart.Grammar.Reference

/-!
# Directives

Statements that say how things look or where they belong: style classes, styles of nodes and links,
directions, and the headers of blocks.
-/

namespace Flowchart

/-! ## Style settings -/

/-- The settings of a style text: pairs of a key and a value with a colon between, separated by
commas. Parts without a colon, a key or a value are left out. -/
def styleSettings (cs : List Char) : List (String × List Char) :=
  (cs.splitOnP (· == ',')).filterMap fun part =>
    match Text.splitAtChar? (· == ':') part with
    | none => none
    | some (key, value) =>
      let key := Text.trimChars key
      let value := Text.trimChars value
      if key.isEmpty || value.isEmpty then none else some (String.ofList key, value)

/-- The text without the unit of pixels at its end, however often it stands there; `fuel` bounds the
number of times. -/
def dropPixels : (fuel : Nat) → List Char → List Char
  | 0, cs => cs
  | fuel + 1, cs =>
    if ['p', 'x'].isSuffixOf cs then dropPixels fuel (cs.take (cs.length - 2)) else cs

/-- Reads a size, with or without its unit. -/
def readPixels? (cs : List Char) : Option Float32 :=
  (Decimal.read? (Text.trimChars (dropPixels cs.length cs))).map Decimal.Written.toFloat32

/-- Adds one setting to the style of a node; an unreadable size unsets it. -/
def applyNodeSetting (style : NodeStyle Float32) : String × List Char → NodeStyle Float32
  | ("fill", v) => { style with fill := some (String.ofList v) }
  | ("stroke", v) => { style with stroke := some (String.ofList v) }
  | ("stroke-width", v) => { style with strokeWidth := readPixels? v }
  | ("stroke-dasharray", v) => { style with dashes := some (String.ofList v) }
  | ("color", v) => { style with textColor := some (String.ofList v) }
  | ("font-family", v) => { style with fontFamily := some (String.ofList v) }
  | ("font-size", v) => { style with fontSize := readPixels? v }
  | ("font-weight", v) => { style with fontWeight := some (String.ofList v) }
  | _ => style

/-- Reads the style of a node. -/
def readNodeStyle (cs : List Char) : NodeStyle Float32 :=
  (styleSettings cs).foldl applyNodeSetting {}

/-- Adds one setting to the style of a link. -/
def applyEdgeSetting (style : EdgeStyle Float32) : String × List Char → EdgeStyle Float32
  | ("stroke", v) => { style with stroke := some (String.ofList v) }
  | ("stroke-width", v) => { style with strokeWidth := readPixels? v }
  | ("stroke-dasharray", v) => { style with dashes := some (String.ofList v) }
  | ("color", v) => { style with labelColor := some (String.ofList v) }
  | _ => style

/-- Reads the style of a link. -/
def readEdgeStyle (cs : List Char) : EdgeStyle Float32 :=
  (styleSettings cs).foldl applyEdgeSetting {}

/-! ## Statements about styles -/

/-- A style given to some names. -/
structure NamedStyle (β : Type) where
  /-- whom it is given to -/
  names : List String
  /-- the style -/
  style : β
  deriving Repr, DecidableEq

/-- Reads names and the style they are given, which are the second and the third word of a
statement; the third word reaches to the end. Nothing is read if one of them is missing. -/
def readNamedStyle? (cs : List Char) : Option (NamedStyle (NodeStyle Float32)) :=
  let (_, names, rest) := Text.threeWords cs
  let rest := Text.trimChars rest
  if names.isEmpty || rest.isEmpty then none
  else some ⟨(Text.commaList names).map String.ofList, readNodeStyle rest⟩

/-- Reads a whole number that fits 64 bits; a plus sign may stand before it. -/
def readIndex? (cs : List Char) : Option Nat :=
  let digits := match cs with
    | '+' :: rest => rest
    | _ => cs
  if digits.isEmpty || !digits.all Char.isDigit then none
  else
    let n := Decimal.natOfDigits digits
    if n < 0x10000000000000000 then some n else none

/-- Which links a style is given to. -/
inductive LinkSelection where
  /-- all links -/
  | all
  /-- the links with these numbers -/
  | numbered (indices : List Nat)
  deriving Repr, DecidableEq

/-- Reads the style of links: the numbers come first, and the style begins with the first word that
holds a colon. -/
def readLinkStyle? (cs : List Char) : Option (LinkSelection × EdgeStyle Float32) :=
  let words := Text.runsOutside Text.isBlank cs
  if words.length < 3 then none
  else
    let selection := (words.drop 1).takeWhile fun w => !w.contains ':'
    let styleWords := (words.drop 1).drop selection.length
    if styleWords.isEmpty then none
    else
      let style := readEdgeStyle (List.intercalate [' '] styleWords)
      if selection == ["default".toList] then some (.all, style)
      else
        let indices := (selection.flatMap fun w => w.splitOnP (· == ',')).filterMap fun w =>
          readIndex? (Text.trimChars w)
        some (.numbered indices, style)

/-- Reads which nodes get which classes. The last word names the classes, the words between it and
the keyword name the nodes. -/
def readClassLine (cs : List Char) : List (String × String) :=
  let words := Text.runsOutside Text.isBlank cs
  match words.getLast? with
  | none => []
  | some last =>
    if words.length < 3 then []
    else
      let nodes := Text.commaList (List.intercalate [' '] (words.drop 1).dropLast)
      let names := Text.commaList last
      nodes.flatMap fun id => names.map fun name => (String.ofList id, String.ofList name)

/-! ## Blocks -/

/-- Reads a direction statement. -/
def readDirectionLine? (cs : List Char) : Option Direction :=
  match Text.runsOutside Text.isBlank cs with
  | [keyword, token] =>
    if keyword == "direction".toList then Direction.ofToken? (String.ofList token) else none
  | _ => none

/-- The id and the title of a block, as far as its header gives them. -/
structure BlockHeader where
  /-- the id -/
  id : Option String := none
  /-- the title -/
  title : Option String := none
  deriving Repr, DecidableEq

/-- Reads a header that is not an id with a title in delimiters: a single word is an id, an id may
be followed by a title in quotes, and anything else is a title. -/
def readPlainHeader (cs : List Char) : BlockHeader :=
  match Text.splitAtChar? Text.isBlank cs with
  | none => { id := some (String.ofList cs) }
  | some (id, rest) =>
    if (Text.dropFront Text.isBlank rest).head? == some '"' && isIdentifier id then
      { id := some (String.ofList id), title := cleanLabel? rest }
    else { title := some (String.ofList cs) }

/-- Reads the header of a block after its keyword. -/
def readBlockHeader (cs : List Char) : BlockHeader :=
  let trimmed := (splitClasses cs).1
  if trimmed.isEmpty then {}
  else if trimmed.head? == some '"' then { title := cleanLabel? trimmed }
  else
    match Text.splitBefore? isOpening trimmed with
    | none => readPlainHeader trimmed
    | some (before, shapeText) =>
      let id := Text.trimChars before
      match readShape? (Text.trimChars shapeText) with
      | some (title, _) =>
        if isIdentifier id then
          { id := some (String.ofList id), title := cleanLabel? title.toList }
        else readPlainHeader trimmed
      | none => readPlainHeader trimmed

end Flowchart
