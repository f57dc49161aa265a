import Flowchart.Text.Blank

/-!
# Finding and cutting text

Small searches in lists of characters: the first place where a word occurs, the first blank, the
pieces between separators.
-/

namespace Flowchart.Text

/-- The parts before and after the first occurrence of a word. -/
def splitAtWord? (word : List Char) : List Char → Option (List Char × List Char)
  | [] => if word.isEmpty then some ([], []) else none
  | c :: cs =>
    if word.isPrefixOf (c :: cs) then some ([], (c :: cs).drop word.length)
    else (splitAtWord? word cs).map fun (before, after) => (c :: before, after)

/-- The parts before and after the first character of a class, which itself is dropped. -/
def splitAtChar? (p : Char → Bool) : List Char → Option (List Char × List Char)
  | [] => none
  | c :: cs =>
    if p c then some ([], cs)
    else (splitAtChar? p cs).map fun (before, after) => (c :: before, after)

/-- The parts before and after the last character of a class, which itself is dropped. -/
def splitAtLastChar? (p : Char → Bool) (cs : List Char) : Option (List Char × List Char) :=
  (splitAtChar? p cs.reverse).map fun (after, before) => (before.reverse, after.reverse)

/-- The part before the first character of a class, and the rest from that character on. -/
def splitBefore? (p : Char → Bool) (cs : List Char) : Option (List Char × List Char) :=
  match cs.dropWhile (!p ·) with
  | [] => none
  | rest => some (cs.takeWhile (!p ·), rest)

/-- The pieces between occurrences of a word, which has to be non-empty; `fuel` bounds their
number. -/
def splitOnWord (word : List Char) : (fuel : Nat) → List Char → List (List Char)
  | 0, cs => [cs]
  | fuel + 1, cs =>
    match splitAtWord? word cs with
    | some (before, after) => before :: splitOnWord word fuel after
    | none => [cs]

/-- At most three pieces: up to the first blank, up to the second one, and the rest. -/
def threeWords (cs : List Char) : List Char × List Char × List Char :=
  match splitAtChar? isBlank cs with
  | none => (cs, [], [])
  | some (first, rest) =>
    match splitAtChar? isBlank rest with
    | none => (first, rest, [])
    | some (second, rest) => (first, second, rest)

/-- The non-empty trimmed pieces between commas. -/
def commaList (cs : List Char) : List (List Char) :=
  ((cs.splitOnP (· == ',')).map trimChars).filter (!·.isEmpty)

end Flowchart.Text
