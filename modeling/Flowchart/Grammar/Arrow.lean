import Flowchart.Diagram.Shape
import Flowchart.Grammar.Mask

/-!
# Arrows

A link is drawn with dashes, equals signs or dots: at least three of them, or two and a head. Two
dashes, two equals signs or a dash and a dot by themselves open the text of a link, which the next
arrow closes. An arrow is recognised at its first character and reaches as far as it can; a head in
the form of a letter that runs into an identifier belongs to the identifier.
-/

namespace Flowchart

/-- What an arrow means. -/
inductive ArrowToken where
  /-- it opens the text of a link -/
  | labelOpen
  /-- it is a link -/
  | link (kind : LinkKind) (line : LineStyle)
  deriving Repr, DecidableEq

/-- How many characters at the front equal `c`. -/
def runLength (c : Char) (cs : List Char) : Nat := (cs.takeWhile (· == c)).length

/-- The characters that end an arrow with a head. -/
def isHead (c : Char) : Bool := c == '>' || c == 'o' || c == 'x'

/-- The first character of a text is a head. -/
def startsWithHead (cs : List Char) : Bool :=
  match cs with
  | c :: _ => isHead c
  | [] => false

/-- Length of an arrow with heads at both ends, given what follows its first head. -/
def doubleArrowLength (cs : List Char) : Nat :=
  let dashes := runLength '-' cs
  let equals := runLength '=' cs
  if 2 ≤ dashes && (cs.drop dashes).head? == some '>' then dashes + 2
  else if 2 ≤ equals && (cs.drop equals).head? == some '>' then equals + 2
  else if dashes == 1 then
    let dots := runLength '.' (cs.drop 1)
    if 1 ≤ dots && ['-', '>'].isPrefixOf (cs.drop (1 + dots)) then dots + 4 else 0
  else 0

/-- Length of an arrow made of one repeated character, given the length of the run and what follows
it: a run of two and a head, or of three; a bare run of two opens a text. -/
def plainArrowLength (run : Nat) (after : List Char) : Nat :=
  if run < 2 then 0 else if startsWithHead after then run + 1 else run

/-- Length of an arrow that begins with a dash and a dot, given what follows the dash. -/
def dottedArrowLength (cs : List Char) : Nat :=
  let dots := runLength '.' cs
  match cs.drop dots with
  | '-' :: after => if startsWithHead after then dots + 3 else dots + 2
  | _ => 2

/-- Length of an arrow that begins with a dot and ends a dotted text, given what follows the dot. -/
def dotClosingLength (cs : List Char) : Nat :=
  let dashes := runLength '-' cs
  if dashes == 0 then 0
  else if startsWithHead (cs.drop dashes) then dashes + 2 else dashes + 1

/-- How many characters at the front of a text form an arrow, zero if there is none. -/
def arrowLength : List Char → Nat
  | '<' :: cs => doubleArrowLength cs
  | '-' :: '.' :: cs => dottedArrowLength ('.' :: cs)
  | '-' :: cs => plainArrowLength (runLength '-' cs + 1) (cs.drop (runLength '-' cs))
  | '=' :: cs => plainArrowLength (runLength '=' cs + 1) (cs.drop (runLength '=' cs))
  | '.' :: cs => dotClosingLength cs
  | _ => 0

/-- An arrow that ends in a letter gives it back if an identifier character follows. -/
def settledLength (cs : List Char) : Nat :=
  let n := arrowLength cs
  let letterHead := match (cs.take n).getLast? with
    | some c => c == 'o' || c == 'x'
    | none => false
  let runsOn := match (cs.drop n).head? with
    | some c => Text.isIdentifierChar c
    | none => false
  if letterHead && runsOn then n - 1 else n

/-- The meaning of the characters of an arrow. -/
def classifyArrow (token : List Char) : ArrowToken :=
  if token == ['-', '-'] || token == ['=', '='] || token == ['-', '.'] then .labelOpen
  else
    let line : LineStyle :=
      if token.contains '=' then .thick else if token.contains '.' then .dotted else .solid
    let kind : LinkKind :=
      if token.head? == some '<' then .bidirectional
      else match token.getLast? with
        | some '>' => .arrow
        | some 'o' => .circleEnd
        | some 'x' => .crossEnd
        | _ => .plain
    .link kind line

/-- A statement cut at its arrows: the text before the first one, and every arrow with the text up
to the next one. -/
structure ArrowSplit where
  /-- text before the first arrow -/
  first : List Marked
  /-- arrows, each with the text after it -/
  rest : List (ArrowToken × List Marked)
  deriving Repr

/-- Cuts a marked text at its arrows, which are looked for among the visible characters from the
left; `fuel` bounds the number of steps. -/
def splitArrowsWith : (fuel : Nat) → List Marked → ArrowSplit
  | 0, ms => ⟨ms, []⟩
  | _, [] => ⟨[], []⟩
  | fuel + 1, m :: ms =>
    let n := settledLength (Marked.shownChars (m :: ms))
    if n == 0 then
      let split := splitArrowsWith fuel ms
      { split with first := m :: split.first }
    else
      let token := classifyArrow (Marked.shownChars ((m :: ms).take n))
      let split := splitArrowsWith fuel ((m :: ms).drop n)
      ⟨[], (token, split.first) :: split.rest⟩

/-- Cuts a marked text at its arrows. -/
def splitArrows (ms : List Marked) : ArrowSplit := splitArrowsWith ms.length ms

end Flowchart
