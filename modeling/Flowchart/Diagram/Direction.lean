import Flowchart.Text.Blank

/-!
# Flow directions

The direction in which the ranks of a diagram advance. Layout is done downwards and then transposed
for the two horizontal directions and mirrored for the two that run backwards.
-/

namespace Flowchart

/-- The direction in which successors are placed. -/
inductive Direction where
  /-- from top to bottom -/
  | topDown
  /-- from bottom to top -/
  | bottomTop
  /-- from left to right -/
  | leftRight
  /-- from right to left -/
  | rightLeft
  deriving Repr, DecidableEq, Inhabited

namespace Direction

/-- Reads a direction token, in either case and with blanks around it. -/
def ofToken? (token : String) : Option Direction :=
  match Text.upperAscii (Text.trim token) with
  | "TD" | "TB" => some topDown
  | "BT" => some bottomTop
  | "LR" => some leftRight
  | "RL" => some rightLeft
  | _ => none

/-- The token a direction is written as. -/
def token : Direction → String
  | topDown => "TB"
  | bottomTop => "BT"
  | leftRight => "LR"
  | rightLeft => "RL"

/-- Ranks advance along the x axis. -/
def isHorizontal : Direction → Bool
  | leftRight | rightLeft => true
  | _ => false

/-- The drawing is mirrored after it was laid out in the opposite direction. -/
def isMirrored : Direction → Bool
  | bottomTop | rightLeft => true
  | _ => false

end Direction

end Flowchart
