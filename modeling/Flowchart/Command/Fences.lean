import Flowchart.Text.Blank

/-!
# Diagrams in prose

A text with fenced blocks holds a diagram in every block whose fence is followed by the word
`mermaid`. A fence is made of three or more of one marker character; a line of exactly three of them
closes the block, whatever the length of the fence that opened it. A block that is not closed does
not count.
-/

namespace Flowchart.Command

/-- The characters fences are made of. -/
def fenceMarkers : List Char := ['\x60', '~', ':']

/-- The shortest fence of a marker. -/
def fenceOf (marker : Char) : List Char := List.replicate 3 marker

/-- The trimmed line opens a block with a diagram, with a fence of the given marker. -/
def opensWith (line : List Char) (marker : Char) : Bool :=
  (fenceOf marker).isPrefixOf line
    && "mermaid".toList.isPrefixOf (Text.trimChars (line.dropWhile (· == marker)))

/-- The marker of the fence that a line opens a block with, if it does. -/
def openingMarker? (line : String) : Option Char :=
  fenceMarkers.find? (opensWith (Text.trimChars line.toList))

/-- The line closes a block with a fence of the given marker. -/
def closes (marker : Char) (line : String) : Bool :=
  let cs := Text.trimChars line.toList
  (fenceOf marker).isPrefixOf cs && (cs.drop 3).all Text.isBlank

mutual

/-- The diagrams in a list of lines outside any block. -/
def blocksOutside : List String → List (List String)
  | [] => []
  | l :: rest =>
    match openingMarker? l with
    | some marker => blocksInside marker [] rest
    | none => blocksOutside rest

/-- The diagrams in a list of lines inside a block, whose lines so far are kept in reverse. -/
def blocksInside (marker : Char) (body : List String) : List String → List (List String)
  | [] => []
  | l :: rest =>
    if closes marker l then body.reverse :: blocksOutside rest
    else blocksInside marker (l :: body) rest

end

/-- The diagrams in a text with fenced blocks. -/
def fencedDiagrams (text : String) : List String :=
  (blocksOutside (Text.lines text)).map (String.intercalate "\n")

end Flowchart.Command
