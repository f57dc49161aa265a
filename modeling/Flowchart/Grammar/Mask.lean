import Flowchart.Text.Letter

/-!
# Hiding label text

Labels may hold anything, also arrows and separators. Before a statement is cut into parts, its
label text is hidden: what stands between the delimiters of a shape, in quotes, or between two bars.
The delimiters themselves stay visible. A statement becomes a list of *marked* characters, so that
what is found by its visible characters can be cut out of the list together with the hidden ones.
-/

namespace Flowchart

/-- A character of a statement with the information whether it may act as punctuation. -/
structure Marked where
  /-- the character -/
  char : Char
  /-- it is not part of a label -/
  visible : Bool
  deriving Repr, DecidableEq, Inhabited

namespace Marked

/-- What a scan for punctuation sees: hidden characters look like blanks. -/
def shown (m : Marked) : Char := if m.visible then m.char else ' '

/-- The characters of a marked text. -/
def chars (ms : List Marked) : List Char := ms.map Marked.char

/-- The text as a scan for punctuation sees it. -/
def shownChars (ms : List Marked) : List Char := ms.map Marked.shown

/-- The text with every hidden character replaced by as many spaces as it has bytes, so that both
texts have the same length. -/
def maskText (ms : List Marked) : List Char :=
  ms.flatMap fun m => if m.visible then [m.char] else List.replicate m.char.utf8Size ' '

end Marked

/-- What the characters read so far have opened. -/
structure MaskState where
  /-- shape delimiters that are open -/
  depth : Nat := 0
  /-- inside quotes -/
  quoted : Bool := false
  /-- between two bars -/
  barred : Bool := false
  /-- the character before -/
  previous : Char := '\x00'
  deriving Repr, DecidableEq

/-- An opening bracket of a shape. -/
def isOpening (c : Char) : Bool := c == '[' || c == '(' || c == '{'

/-- A closing bracket of a shape. -/
def isClosing (c : Char) : Bool := c == ']' || c == ')' || c == '}'

namespace MaskState

/-- Takes one character; the first component tells whether it stays visible. -/
def step (s : MaskState) (c : Char) : Bool × MaskState :=
  let outside := s.depth == 0
  let next := { s with previous := c }
  if s.quoted then
    if c == '"' then (outside && !s.barred, { next with quoted := false }) else (false, next)
  else if s.barred then
    if c == '|' then (true, { next with barred := false }) else (false, next)
  else if c == '"' then (outside, { next with quoted := true })
  else if isOpening c then (outside, { next with depth := s.depth + 1 })
  else if isClosing c && !outside then (s.depth == 1, { next with depth := s.depth - 1 })
  else if c == '>' && outside && Text.isIdentifierChar s.previous then
    (true, { next with depth := 1 })
  else if c == '|' && outside then (true, { next with barred := true })
  else (outside, next)

end MaskState

/-- Marks the characters of a text that continues from a state. -/
def markFrom : MaskState → List Char → List Marked
  | _, [] => []
  | s, c :: cs => ⟨c, (s.step c).1⟩ :: markFrom (s.step c).2 cs

/-- Marks the characters of a text. -/
def markLabels (cs : List Char) : List Marked := markFrom {} cs

end Flowchart
