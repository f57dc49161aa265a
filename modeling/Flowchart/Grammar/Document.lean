import Flowchart.Grammar.Builder
import Flowchart.Grammar.Lines

/-!
# Reading a diagram

A text has to begin with a header, which may name the flow direction and may be followed by a
statement on its line. The statements after it either change the diagram or are skipped with a
warning; only a missing header or an unknown direction make the whole text unreadable.
-/

namespace Flowchart

/-- Why a text is no diagram. -/
inductive ParseError where
  /-- there is no statement at all -/
  | emptyInput
  /-- the first statement is no header -/
  | missingHeader (line : Nat)
  /-- the header names a direction that does not exist -/
  | invalidDirection (line column : Nat) (token : String)
  deriving Repr, DecidableEq

/-- The text of an error. -/
def ParseError.message : ParseError → String
  | emptyInput => "input is empty"
  | missingHeader line =>
    "line " ++ toString line ++ ": expected `flowchart <DIR>` or `graph <DIR>` header"
  | invalidDirection line column token =>
    "line " ++ toString line ++ ", column " ++ toString column ++ ": invalid direction `" ++ token
      ++ "` (expected TB, TD, BT, LR or RL)"

/-- A diagram with what else its text says. -/
structure Document where
  /-- the diagram -/
  diagram : Diagram Float32
  /-- value of the settings directive -/
  settings : Option Json
  /-- statements that were skipped -/
  warnings : List Diagnostic

/-- The header of a text. -/
structure Header where
  /-- the keyword it begins with -/
  keyword : String
  /-- the direction, if one is named -/
  token : List Char
  /-- a statement on the same line, if there is one -/
  statement : List Char

/-- Reads a statement as a header. -/
def readHeader? (cs : List Char) : Option Header :=
  let read (keyword : String) := (afterKeyword? keyword cs).map fun rest =>
    let rest := Text.trimChars rest
    match Text.splitAtChar? Text.isBlank rest with
    | some (token, statement) => Header.mk keyword token (Text.trimChars statement)
    | none => ⟨keyword, rest, []⟩
  match read "flowchart" with
  | some h => some h
  | none => read "graph"

/-- The column of a direction token, counted from one: its first place after the first place of the
header's keyword in the line. -/
def tokenColumn (lines : List (List Char)) (line : Nat) (keyword : String) (token : List Char) :
    Nat :=
  match lines[line - 1]? with
  | none => 1
  | some raw =>
    let after := match Text.splitAtWord? keyword.toList raw with
      | some (_, after) => after
      | none => raw
    match Text.splitAtWord? token after with
    | some (between, _) => raw.length - after.length + between.length + 1
    | none => 1

/-- Carries out statements that stand on given lines. -/
def runStatements (b : Builder) (statements : List (Nat × List Char)) : Builder :=
  statements.foldl (fun b (line, cs) => b.run line (readStatement cs)) b

/-- Starts a diagram from its header, which stands on a given line. -/
def startDiagram (lines : List (List Char)) (line : Nat) (h : Header) :
    Except ParseError Builder :=
  if h.token.isEmpty then .ok {}
  else
    match Direction.ofToken? (String.ofList h.token) with
    | none =>
      .error (.invalidDirection line (tokenColumn lines line h.keyword h.token)
        (String.ofList h.token))
    | some d =>
      let b : Builder := { diagram := { direction := d } }
      if h.statement.isEmpty then .ok b else .ok (b.run line (readStatement h.statement))

/-- Reads a text given by its lines. -/
def parseLines (read : SettingsReader) (lines : List (List Char)) : Except ParseError Document :=
  match numberedStatements lines with
  | [] => .error .emptyInput
  | (line, first) :: rest =>
    match readHeader? first with
    | none => .error (.missingHeader line)
    | some h =>
      match startDiagram lines line h with
      | .error e => .error e
      | .ok b =>
        let b := runStatements b rest
        .ok ⟨b.finish, lastSettings? read lines, b.warnings⟩

/-- Reads a text as a diagram. Settings inside the text are read by the given reader. -/
def parseDocument (text : String) (read : SettingsReader := readSettings?) :
    Except ParseError Document :=
  parseLines read ((Text.lines text).map String.toList)

end Flowchart
