import Flowchart.Grammar.Chain
import Flowchart.Grammar.Directive

/-!
# Statements

What a statement is, is decided by its beginning: keywords first, and whatever has none is a chain.
Reading a statement does not depend on the statements before it.
-/

namespace Flowchart

/-- A statement of a diagram. -/
inductive Statement where
  /-- closes the innermost block -/
  | closeBlock
  /-- opens a block -/
  | openBlock (header : BlockHeader)
  /-- sets the flow direction of the innermost block or of the diagram -/
  | direction (d : Direction)
  /-- defines style classes -/
  | defineClasses (style : Option (NamedStyle (NodeStyle Float32)))
  /-- gives classes to nodes -/
  | assignClasses (pairs : List (String × String))
  /-- gives a style to nodes -/
  | styleNodes (style : Option (NamedStyle (NodeStyle Float32)))
  /-- gives a style to links -/
  | styleLinks (style : Option (LinkSelection × EdgeStyle Float32))
  /-- has no meaning for the layout -/
  | ignored
  /-- nodes and links -/
  | chain (c : Chain)
  /-- cannot be read -/
  | rejected (reason : Rejection)
  deriving Repr

/-- What follows a keyword that stands alone or is followed by a blank; the blanks are dropped. -/
def afterKeyword? (keyword : String) (cs : List Char) : Option (List Char) :=
  if keyword.toList.isPrefixOf cs then
    match cs.drop keyword.length with
    | [] => some []
    | c :: rest => if Text.isBlank c then some (Text.dropFront Text.isBlank rest) else none
  else none

/-- The text begins with a word, including the space after it. -/
def startsWith (word : String) (cs : List Char) : Bool := word.toList.isPrefixOf cs

/-- The text begins with a word that does not run on. -/
def startsWithWord (word : String) (cs : List Char) : Bool :=
  startsWith word cs && match cs.drop word.length with
    | [] => true
    | c :: _ => !Text.isWordChar c

/-- Keywords of statements that are skipped without a warning. -/
def ignoredKeywords : List String := ["click", "accTitle", "accDescr", "title"]

/-- Reads a statement, which is trimmed and not empty. -/
def readStatement (cs : List Char) : Statement :=
  if cs == "end".toList then .closeBlock
  else
    match afterKeyword? "subgraph" cs with
    | some header => .openBlock (readBlockHeader header)
    | none =>
      match readDirectionLine? cs with
      | some d => .direction d
      | none =>
        if startsWith "classDef " cs then .defineClasses (readNamedStyle? cs)
        else if startsWith "class " cs then .assignClasses (readClassLine cs)
        else if startsWith "style " cs then .styleNodes (readNamedStyle? cs)
        else if startsWith "linkStyle " cs then .styleLinks (readLinkStyle? cs)
        else if ignoredKeywords.any fun w => startsWithWord w cs then .ignored
        else
          match readChain cs with
          | .ok c => .chain c
          | .error reason => .rejected reason

end Flowchart
