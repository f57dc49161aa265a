import Flowchart.Decimal.Fixed
import Flowchart.Decimal.Reading
import Flowchart.Geometry.Arc
import Flowchart.Text.Blank

/-!
# Path text

Segments are exchanged as the path data of scalable vector graphics: letters for the commands, with
coordinates that are absolute after a capital letter and relative to the current point after a small
one. The writer uses the absolute commands `M L Q C` and starts a new part only where two
consecutive segments do not touch. The reader accepts the commands `M L H V Q C A Z` in both forms;
a letter may be left out when the command before it is repeated, where a line follows a move.
-/

namespace Flowchart

/-- How coordinates are written in path text and read from it. -/
class PathNumber (α : Type) where
  /-- the text of a coordinate -/
  write : α → String
  /-- the coordinate given by a decimal -/
  ofWritten : Decimal.Written → α

instance : PathNumber Float32 where
  write := Decimal.coordinateText
  ofWritten := Decimal.Written.toFloat32

/-! ## Writing -/

section Writing

variable {α : Type} [Scalar α] [PathNumber α]

/-- A point as two numbers with a comma between. -/
def Point.pathText (p : Point α) : String := PathNumber.write p.x ++ "," ++ PathNumber.write p.y

/-- The drawing command of a segment, without its first point. -/
def Segment.pathText : Segment α → String
  | .line _ p => "L" ++ p.pathText
  | .quad _ c p => "Q" ++ c.pathText ++ " " ++ p.pathText
  | .cubic _ c₁ c₂ p => "C" ++ c₁.pathText ++ " " ++ c₂.pathText ++ " " ++ p.pathText

/-- The commands of a list of segments; `cursor` is where the one before it ended. -/
def pathWords (cursor : Option (Point α)) : List (Segment α) → List String
  | [] => []
  | s :: rest =>
    let moves := match cursor with
      | none => true
      | some c => decide ((1e-3 : α) < c.distance s.start)
    let tail := s.pathText :: pathWords (some s.stop) rest
    if moves then ("M" ++ s.start.pathText) :: tail else tail

/-- The path text of a list of segments. -/
def pathText (segments : List (Segment α)) : String :=
  String.intercalate " " (pathWords none segments)

end Writing

/-! ## Reading -/

/-- What is wrong with a path text. -/
inductive PathProblem where
  /-- a number was expected, and this was found -/
  | expectedNumber (found : String)
  /-- a flag of an arc is neither 0 nor 1 -/
  | expectedFlag
  /-- coordinates without a command -/
  | expectedCommand
  /-- a letter that is no command -/
  | unsupportedCommand (letter : Char)
  /-- coordinates right after a command that closes a part -/
  | numberAfterClose
  deriving Repr, DecidableEq

/-- A path text that cannot be read. -/
structure PathError where
  /-- bytes before the place of the problem -/
  offset : Nat
  /-- what is wrong there -/
  problem : PathProblem
  deriving Repr, DecidableEq

/-- The text of a problem. -/
def PathProblem.message : PathProblem → String
  | expectedNumber found => "expected number, found `" ++ found ++ "`"
  | expectedFlag => "expected arc flag 0 or 1"
  | expectedCommand => "expected path command"
  | unsupportedCommand letter => "unsupported command `" ++ letter.toString ++ "`"
  | numberAfterClose => "unexpected number after closepath"

/-- The text of an error. -/
def PathError.message (e : PathError) : String :=
  "invalid path data at byte " ++ toString e.offset ++ ": " ++ e.problem.message

/-- Where the reader stands in the text. -/
structure PathCursor where
  /-- bytes before the rest -/
  offset : Nat
  /-- what was not read yet -/
  rest : List Char
  deriving Repr, DecidableEq

namespace PathCursor

/-- Advances over the first `count` characters. -/
def advance (c : PathCursor) (count : Nat) : PathCursor :=
  ⟨(c.rest.take count).foldl (fun n ch => n + ch.utf8Size) c.offset, c.rest.drop count⟩

/-- Skips commas and blanks. -/
def skipSeparators (c : PathCursor) : PathCursor :=
  c.advance (c.rest.takeWhile fun ch => Text.isAsciiBlank ch || ch == ',').length

/-- An error at the current place. -/
def fail {β : Type} (c : PathCursor) (problem : PathProblem) : Except PathError β :=
  .error ⟨c.offset, problem⟩

/-- The characters of a number without its exponent: an optional sign and digits with at most one
point. -/
def mantissaLength (cs : List Char) : Nat :=
  let sign := match cs with
    | '-' :: _ => 1
    | '+' :: _ => 1
    | _ => 0
  let afterSign := cs.drop sign
  let whole := (afterSign.takeWhile Char.isDigit).length
  match afterSign.drop whole with
  | '.' :: more => sign + whole + 1 + (more.takeWhile Char.isDigit).length
  | _ => sign + whole

/-- The characters of an exponent, zero if the text has none. -/
def exponentLength : List Char → Nat
  | c :: cs =>
    if c == 'e' || c == 'E' then
      let sign := match cs with
        | '-' :: _ => 1
        | '+' :: _ => 1
        | _ => 0
      let digits := ((cs.drop sign).takeWhile Char.isDigit).length
      if digits == 0 then 0 else 1 + sign + digits
    else 0
  | [] => 0

/-- The characters that would be read as a number. -/
def numberLength (cs : List Char) : Nat :=
  let n := mantissaLength cs
  if n == 0 then 0 else n + exponentLength (cs.drop n)

/-- Reads a number after separators. -/
def number {α : Type} [PathNumber α] (c : PathCursor) : Except PathError (α × PathCursor) :=
  let c := c.skipSeparators
  let text := c.rest.take (numberLength c.rest)
  match Decimal.read? text with
  | some w => .ok (PathNumber.ofWritten w, c.advance text.length)
  | none => c.fail (.expectedNumber (String.ofList text))

/-- Reads a point. -/
def point {α : Type} [PathNumber α] (c : PathCursor) : Except PathError (Point α × PathCursor) := do
  let (x, c) ← c.number
  let (y, c) ← c.number
  return (⟨x, y⟩, c)

/-- Reads a flag of an arc: a single character. -/
def flag (c : PathCursor) : Except PathError (Bool × PathCursor) :=
  let c := c.skipSeparators
  match c.rest with
  | '0' :: _ => .ok (false, c.advance 1)
  | '1' :: _ => .ok (true, c.advance 1)
  | _ => c.fail .expectedFlag

/-- A number could start here. -/
def atNumber (c : PathCursor) : Bool :=
  match c.rest with
  | ch :: _ => ch.isDigit || ch == '-' || ch == '+' || ch == '.'
  | [] => false

end PathCursor

/-- What the commands read so far have drawn. -/
structure PathState (α : Type) where
  /-- segments, the last one first -/
  drawn : List (Segment α)
  /-- where the pen is -/
  current : Point α
  /-- where the current part started -/
  partStart : Point α
  /-- the letter of the last command -/
  command : Option Char

namespace PathState

variable {α ω : Type} [Scalar α] [Scalar ω] [Widening α ω] [Trigonometry ω] [PathNumber α]

/-- Nothing drawn, the pen at the origin. -/
def initial : PathState α := ⟨[], Point.origin, Point.origin, none⟩

/-- Draws segments that end at `stop`. -/
def draw (s : PathState α) (segments : List (Segment α)) (stop : Point α) : PathState α :=
  { s with drawn := segments.reverse ++ s.drawn, current := stop }

/-- The point meant by coordinates after a command. -/
def resolve (s : PathState α) (relative : Bool) (p : Point α) : Point α :=
  if relative then p.add s.current else p

/-- Carries out one command whose letter was read already. -/
def runCommand (s : PathState α) (letter : Char) (c : PathCursor) :
    Except PathError (PathState α × PathCursor) := do
  let relative := letter.isLower
  match letter.toUpper with
  | 'M' =>
    let (p, c) ← c.point
    let p := s.resolve relative p
    return ({ s with current := p, partStart := p }, c)
  | 'L' =>
    let (p, c) ← c.point
    let p := s.resolve relative p
    return (s.draw [.line s.current p] p, c)
  | 'H' =>
    let (v, c) ← c.number
    let p : Point α := ⟨if relative then s.current.x + v else v, s.current.y⟩
    return (s.draw [.line s.current p] p, c)
  | 'V' =>
    let (v, c) ← c.number
    let p : Point α := ⟨s.current.x, if relative then s.current.y + v else v⟩
    return (s.draw [.line s.current p] p, c)
  | 'Q' =>
    let (q, c) ← c.point
    let (p, c) ← c.point
    let p := s.resolve relative p
    return (s.draw [.quad s.current (s.resolve relative q) p] p, c)
  | 'C' =>
    let (q₁, c) ← c.point
    let (q₂, c) ← c.point
    let (p, c) ← c.point
    let p := s.resolve relative p
    return (s.draw [.cubic s.current (s.resolve relative q₁) (s.resolve relative q₂) p] p, c)
  | 'A' =>
    let (rx, c) ← c.number
    let (ry, c) ← c.number
    let (tilt, c) ← c.number
    let (large, c) ← c.flag
    let (sweep, c) ← c.flag
    let (p, c) ← c.point
    let p := s.resolve relative p
    return (s.draw (ellipticalArc s.current rx ry tilt large sweep p) p, c)
  | 'Z' =>
    let closing := if (1e-6 : α) < s.current.distance s.partStart then
      [Segment.line s.current s.partStart] else []
    return (s.draw closing s.partStart, c)
  | _ => throw ⟨c.offset - 1, .unsupportedCommand letter⟩

/-- The command that coordinates without a letter belong to. -/
def implied? (s : PathState α) : Option Char :=
  match s.command with
  | none => none
  | some 'Z' => none
  | some 'z' => none
  | some 'M' => some 'L'
  | some 'm' => some 'l'
  | some letter => some letter

/-- Reads one command with its coordinates; the cursor stands at its first character. -/
def step (s : PathState α) (c : PathCursor) (next : Char) :
    Except PathError (PathState α × PathCursor) := do
  let (letter, c) ←
    if next.isAlpha then pure (next, c.advance 1)
    else match s.implied? with
      | some letter => pure (letter, c)
      | none => c.fail .expectedCommand
  let (s, c) ← s.runCommand letter c
  let ahead := c.skipSeparators
  if letter.toUpper == 'Z' && ahead.atNumber then ahead.fail .numberAfterClose
  else return ({ s with command := some letter }, ahead)

/-- Reads commands to the end of the text; every command takes at least one character. -/
def run : (fuel : Nat) → PathState α → PathCursor → Except PathError (PathState α)
  | 0, s, _ => .ok s
  | fuel + 1, s, c =>
    let c := c.skipSeparators
    match c.rest with
    | [] => .ok s
    | next :: _ =>
      match s.step c next with
      | .error e => .error e
      | .ok (s, c) => run fuel s c

end PathState

/-- Reads a path text as a list of segments. -/
def parsePath {α ω : Type} [Scalar α] [Scalar ω] [Widening α ω] [Trigonometry ω] [PathNumber α]
    (text : String) : Except PathError (List (Segment α)) :=
  let cs := text.toList
  match PathState.run (cs.length + 1) (PathState.initial : PathState α) ⟨0, cs⟩ with
  | .error e => .error e
  | .ok s => .ok s.drawn.reverse

end Flowchart
