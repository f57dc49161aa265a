import Flowchart.Grammar.Mask
import Flowchart.Json.Relaxed
import Flowchart.Text.Search

/-!
# From text to statements

A text is a sequence of lines; a line holds statements separated by semicolons. Comments begin with
two percent signs outside quotes. A line that holds a settings directive contributes no statements;
its value is read as JSON, strictly or else relaxed, and the last readable one counts.
-/

namespace Flowchart

/-! ## Statements of a line -/

/-- What the characters of a line have opened, as far as it keeps a semicolon from ending a
statement. -/
structure SplitState where
  /-- brackets that are open -/
  depth : Nat := 0
  /-- inside quotes -/
  quoted : Bool := false
  /-- between two bars -/
  barred : Bool := false
  deriving Repr, DecidableEq

namespace SplitState

/-- A semicolon ends a statement here. -/
def isFree (s : SplitState) : Bool := !s.quoted && s.depth == 0 && !s.barred

/-- Takes one character. -/
def step (s : SplitState) (c : Char) : SplitState :=
  if s.quoted then if c == '"' then { s with quoted := false } else s
  else if c == '"' then { s with quoted := true }
  else if c == '|' && s.depth == 0 then { s with barred := !s.barred }
  else if isOpening c then { s with depth := s.depth + 1 }
  else if isClosing c then { s with depth := s.depth - 1 }
  else s

end SplitState

/-- Cuts a line at the semicolons that end statements; `s` is the state at the beginning. -/
def cutStatements (s : SplitState) : List Char → List (List Char)
  | [] => [[]]
  | c :: cs =>
    if c == ';' && s.isFree then [] :: cutStatements s cs
    else
      match cutStatements (s.step c) cs with
      | part :: rest => (c :: part) :: rest
      | [] => [[c]]

/-- The statements of a line, trimmed, empty ones left out. -/
def splitStatements (cs : List Char) : List (List Char) :=
  ((cutStatements {} cs).map Text.trimChars).filter (!·.isEmpty)

/-! ## Comments and settings -/

/-- The part of a line before two percent signs outside quotes. -/
def beforeComment : (quoted : Bool) → List Char → List Char
  | _, [] => []
  | quoted, c :: cs =>
    let quoted := if c == '"' then !quoted else quoted
    if !quoted && c == '%' && cs.head? == some '%' then [] else c :: beforeComment quoted cs

/-- The line without a comment at its end. -/
def stripComment (cs : List Char) : List Char := Text.trimChars (beforeComment false cs)

/-- A text begins, after blanks, with the closing mark of a settings directive. -/
def closesSettings (cs : List Char) : Bool :=
  "\x7d%%".toList.isPrefixOf (Text.dropFront Text.isBlank cs)

/-- The longest part that ends in a brace with the closing mark of a directive after it. -/
def settingsBody? : List Char → Option (List Char)
  | [] => none
  | c :: cs =>
    match settingsBody? cs with
    | some body => some (c :: body)
    | none => if c == '}' && closesSettings cs then some [c] else none

/-- The value text of a settings directive at the beginning of a line. -/
def settingsText? (cs : List Char) : Option (List Char) :=
  let skip := Text.dropFront Text.isBlank
  if "%%\x7b".toList.isPrefixOf cs then
    let cs := skip (cs.drop 3)
    if "init".toList.isPrefixOf cs then
      match skip (cs.drop 4) with
      | ':' :: rest =>
        match skip rest with
        | '{' :: rest => (settingsBody? rest).map ('{' :: ·)
        | _ => none
      | _ => none
    else none
  else none

/-- Reads the value of a settings directive. -/
abbrev SettingsReader := List Char → Option Json

/-- The reader of settings: strict notation, or else the relaxed one. -/
def readSettings? (cs : List Char) : Option Json :=
  let text := String.ofList cs
  match Json.parse? text with
  | some j => some j.normalize
  | none => (Json.Relaxed.parse? text).map Json.normalize

/-! ## The whole text -/

/-- What one line of a text contributes. -/
inductive LineContent where
  /-- nothing -/
  | nothing
  /-- settings, still as text -/
  | settings (value : List Char)
  /-- text made of statements -/
  | text (cs : List Char)

/-- Reads one line. -/
def readLine (line : List Char) : LineContent :=
  let trimmed := Text.trimChars line
  match settingsText? trimmed with
  | some value => .settings value
  | none =>
    if "%%".toList.isPrefixOf trimmed then .nothing
    else
      let rest := stripComment trimmed
      if rest.isEmpty then .nothing else .text rest

/-- The statements of a text, each with the number of its line, counted from one. -/
def numberedStatements (lines : List (List Char)) : List (Nat × List Char) :=
  lines.zipIdx.flatMap fun (line, i) =>
    match readLine line with
    | .text cs => (splitStatements cs).map fun s => (i + 1, s)
    | _ => []

/-- The settings that the lines of a text leave in force: the last ones that can be read. -/
def lastSettings? (read : SettingsReader) (lines : List (List Char)) : Option Json :=
  lines.foldl (fun found line =>
    match readLine line with
    | .settings value => read value <|> found
    | _ => found) none

end Flowchart
