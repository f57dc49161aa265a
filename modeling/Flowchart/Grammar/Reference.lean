import Flowchart.Diagram.Shape
import Flowchart.Grammar.Mask
import Flowchart.Text.Search

/-!
# References to nodes

A node is referred to by its id, which may be followed by a label between the delimiters of a shape
and by class names after three colons each.
-/

namespace Flowchart

/-- Opening and closing delimiters of the shapes. Longer delimiters come before their own
beginnings. -/
def shapeDelimiters : List (List Char × List Char × Shape) :=
  [(['(', '(', '('], [')', ')', ')'], .doubleCircle),
    (['(', '('], [')', ')'], .circle),
    (['(', '['], [']', ')'], .stadium),
    (['[', '('], [')', ']'], .cylinder),
    (['[', '['], [']', ']'], .subroutine),
    (['[', '/'], ['/', ']'], .parallelogram),
    (['[', '\\'], ['\\', ']'], .parallelogramAlt),
    (['[', '/'], ['\\', ']'], .trapezoid),
    (['[', '\\'], ['/', ']'], .trapezoidAlt),
    (['{', '{'], ['}', '}'], .hexagon),
    (['('], [')'], .roundRect),
    (['['], [']'], .rectangle),
    (['{'], ['}'], .diamond),
    (['>'], [']'], .asymmetric)]

/-! ## Labels -/

/-- The trimmed text without the quotes around it, if it has any. -/
def stripQuotes (cs : List Char) : List Char :=
  let trimmed := Text.trimChars cs
  if 2 ≤ trimmed.length && trimmed.head? == some '"' && trimmed.getLast? == some '"' then
    (trimmed.drop 1).dropLast
  else trimmed

/-- The text of a label without blanks, bars and quotes around it; none if nothing is left. -/
def cleanLabel? (cs : List Char) : Option String :=
  let bar (c : Char) : Bool := c == '|'
  let inner := stripQuotes (Text.dropBack bar (Text.dropFront bar (Text.trimChars cs)))
  if inner.isEmpty then none else some (String.ofList inner)

/-! ## Identifiers -/

/-- An identifier begins with a letter, number or underscore; hyphens and points may follow. -/
def isIdentifier : List Char → Bool
  | [] => false
  | c :: cs =>
    Text.isIdentifierChar c && cs.all fun d => Text.isIdentifierChar d || d == '-' || d == '.'

/-! ## Shapes -/

/-- What stands between two delimiters that enclose the whole text. -/
def between? (opening closing cs : List Char) : Option (List Char) :=
  if opening.length + closing.length ≤ cs.length && opening.isPrefixOf cs && closing.isSuffixOf cs
  then some ((cs.drop opening.length).take (cs.length - opening.length - closing.length))
  else none

/-- Reads a label in the delimiters of a shape. -/
def readShape? (cs : List Char) : Option (String × Shape) :=
  shapeDelimiters.findSome? fun (opening, closing, shape) =>
    (between? opening closing cs).map fun inner => (String.ofList (stripQuotes inner), shape)

/-! ## Classes -/

/-- The class names in the text after three colons. -/
def classNames (cs : List Char) : List String :=
  ((Text.splitOnWord [':', ':', ':'] cs.length cs).flatMap Text.commaList).map String.ofList

/-- Cuts a marked text at the first visible place of three colons. -/
def splitAtColons? : List Marked → Option (List Char × List Char)
  | [] => none
  | m :: ms =>
    if [':', ':', ':'].isPrefixOf (Marked.shownChars (m :: ms)) then
      some ([], Marked.chars ((m :: ms).drop 3))
    else (splitAtColons? ms).map fun (before, after) => (m.char :: before, after)

/-- The trimmed text before the class names, and the class names. -/
def splitClasses (cs : List Char) : List Char × List String :=
  match splitAtColons? (markLabels cs) with
  | none => (Text.trimChars cs, [])
  | some (before, after) => (Text.trimChars before, classNames after)

/-! ## References -/

/-- A mention of a node. -/
structure NodeRef where
  /-- the node -/
  id : String
  /-- its label, if one is given here -/
  label : Option String := none
  /-- its shape, if one is given here -/
  shape : Option Shape := none
  /-- classes it is to have -/
  classes : List String := []
  deriving Repr, DecidableEq

/-- Why a statement is skipped. -/
inductive Rejection where
  /-- an arrow opened a text and no other arrow closed it -/
  | openEdgeLabel
  /-- no node stands before the first arrow -/
  | noSource
  /-- no node stands after an arrow -/
  | noTarget
  /-- nothing stands beside a separator of nodes -/
  | emptyReference
  /-- a shape was opened and not closed -/
  | openShape (text : String)
  /-- what should be a node is none -/
  | badReference (text : String)
  /-- a block was closed and none is open -/
  | endWithoutBlock
  deriving Repr, DecidableEq

/-- The text of a rejection. -/
def Rejection.message : Rejection → String
  | openEdgeLabel => "edge label is not closed by an arrow"
  | noSource => "arrow has no source node"
  | noTarget => "arrow has no target node"
  | emptyReference => "empty node reference around `&`"
  | openShape text => "unterminated shape `" ++ text ++ "`"
  | badReference text => "invalid node reference `" ++ text ++ "`"
  | endWithoutBlock => "`end` without an open subgraph"

/-- A character that may open a shape. -/
def opensShape (c : Char) : Bool := isOpening c || c == '>'

/-- Reads a mention of a node. -/
def readReference (cs : List Char) : Except Rejection NodeRef :=
  let (base, classes) := splitClasses cs
  match Text.splitBefore? opensShape base with
  | none =>
    if isIdentifier base then .ok { id := String.ofList base, classes := classes }
    else .error (.badReference (String.ofList base))
  | some (before, shapeText) =>
    match readShape? (Text.trimChars shapeText) with
    | none => .error (.openShape (String.ofList (Text.trimChars shapeText)))
    | some (label, shape) =>
      let id := Text.trimChars before
      if isIdentifier id then
        .ok { id := String.ofList id, label := some label, shape := some shape, classes := classes }
      else .error (.badReference (String.ofList base))

end Flowchart
