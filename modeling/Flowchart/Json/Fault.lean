/-!
# Faults in a JSON text

A text is read from the front, and the first fault ends the reading. A fault is remembered with the
number of bytes behind its place; only when it is reported is the place turned into a line and a
column, both counted so that the first byte of a text is at line 1, column 1.
-/

namespace Flowchart.Json

/-- What is wrong. -/
inductive FaultKind where
  /-- the text ends inside an array -/
  | endInArray
  /-- the text ends inside an object -/
  | endInObject
  /-- the text ends inside a string -/
  | endInText
  /-- the text ends where a value is expected -/
  | endInValue
  /-- no colon after a field name -/
  | colonExpected
  /-- no comma or bracket after an item -/
  | arrayEndExpected
  /-- no comma or brace after a field -/
  | objectEndExpected
  /-- a misspelt word -/
  | wordExpected
  /-- no value -/
  | valueExpected
  /-- no field name -/
  | keyExpected
  /-- an unknown escape -/
  | badEscape
  /-- a malformed number -/
  | badNumber
  /-- a number too large for double precision -/
  | numberTooLarge
  /-- a control character inside a string -/
  | controlCharacter
  /-- half of a pair of surrogates that is followed by a different escape, or stands first -/
  | loneSurrogate
  /-- half of a pair of surrogates that is not followed by an escape -/
  | unfinishedPair
  /-- a comma after the last item or field -/
  | trailingComma
  /-- something behind the end -/
  | trailingCharacters
  /-- arrays and objects nest too deep -/
  | tooDeep
  /-- a value of a wrong type -/
  | wrongType (found expected : String)
  /-- a value of the right type that is out of range -/
  | wrongValue (found expected : String)
  /-- a field that occurs twice -/
  | duplicateField (name : String)
  /-- an array that is too short for a record -/
  | tooShort (found : Nat) (record : String) (fields : Nat)
  /-- a value that is none of the alternatives -/
  | noAlternative (name : String)
  deriving Repr, DecidableEq, Inhabited

/-- The message for a fault. -/
def FaultKind.message : FaultKind → String
  | endInArray => "EOF while parsing a list"
  | endInObject => "EOF while parsing an object"
  | endInText => "EOF while parsing a string"
  | endInValue => "EOF while parsing a value"
  | colonExpected => "expected `:`"
  | arrayEndExpected => "expected `,` or `]`"
  | objectEndExpected => "expected `,` or `\x7d`"
  | wordExpected => "expected ident"
  | valueExpected => "expected value"
  | keyExpected => "key must be a string"
  | badEscape => "invalid escape"
  | badNumber => "invalid number"
  | numberTooLarge => "number out of range"
  | controlCharacter => "control character (\\u0000-\\u001F) found while parsing a string"
  | loneSurrogate => "lone leading surrogate in hex escape"
  | unfinishedPair => "unexpected end of hex escape"
  | trailingComma => "trailing comma"
  | trailingCharacters => "trailing characters"
  | tooDeep => "recursion limit exceeded"
  | wrongType found expected => "invalid type: " ++ found ++ ", expected " ++ expected
  | wrongValue found expected => "invalid value: " ++ found ++ ", expected " ++ expected
  | duplicateField name => "duplicate field `" ++ name ++ "`"
  | tooShort found record fields =>
    "invalid length " ++ toString found ++ ", expected struct " ++ record ++ " with "
      ++ toString fields ++ " elements"
  | noAlternative name => "data did not match any variant of untagged enum " ++ name

/-- The number of bytes that characters take up. -/
def byteCount (cs : List Char) : Nat := cs.foldl (fun n c => n + c.utf8Size) 0

/-- A fault and where it is. -/
structure Fault where
  /-- what is wrong -/
  kind : FaultKind
  /-- the number of bytes behind its place -/
  left : Nat
  deriving Repr, DecidableEq, Inhabited

namespace Fault

/-- A fault reported in front of the rest of a text. -/
def before (kind : FaultKind) (rest : List Char) : Fault := ⟨kind, byteCount rest⟩

/-- A fault reported behind the first byte of the rest of a text. -/
def behindByte (kind : FaultKind) (rest : List Char) : Fault := ⟨kind, byteCount rest - 1⟩

end Fault

/-- A fault as it is reported. -/
structure Problem where
  /-- what is wrong -/
  kind : FaultKind
  /-- line of the fault -/
  line : Nat
  /-- bytes of that line up to the fault -/
  column : Nat
  deriving Repr, DecidableEq, Inhabited

/-- The bytes behind the last line feed. -/
def lastLine (bytes : List UInt8) : List UInt8 :=
  (bytes.reverse.takeWhile (· != 10)).reverse

/-- A fault in a text, with its line and column. -/
def Fault.locate (text : String) (f : Fault) : Problem :=
  let bytes := text.toUTF8.toList
  let read := bytes.take (bytes.length - f.left)
  ⟨f.kind, 1 + read.count 10, (lastLine read).length⟩

/-- The message for a problem. -/
def Problem.message (p : Problem) : String :=
  p.kind.message ++ " at line " ++ toString p.line ++ " column " ++ toString p.column

end Flowchart.Json
