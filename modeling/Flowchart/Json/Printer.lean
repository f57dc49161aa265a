import Flowchart.Json.Value

/-!
# Printing JSON

Two layouts: compact, without any blanks, and indented by two spaces a level, where only empty
arrays and objects stay on one line. Single precision numbers are printed with the fewest digits
that read back, whole ones with a zero fraction; a number that is not finite is printed as the null
value.
-/

namespace Flowchart.Json

/-- A hexadecimal digit. -/
def hexChar (n : Nat) : Char :=
  if n < 10 then Char.ofNat ('0'.toNat + n) else Char.ofNat ('a'.toNat + n - 10)

/-- A character inside a string literal. -/
def escapeChar (c : Char) : List Char :=
  match c with
  | '"' => ['\\', '"']
  | '\\' => ['\\', '\\']
  | '\x08' => ['\\', 'b']
  | '\x0c' => ['\\', 'f']
  | '\n' => ['\\', 'n']
  | '\r' => ['\\', 'r']
  | '\t' => ['\\', 't']
  | c =>
    if c.toNat < 0x20 then ['\\', 'u', '0', '0', hexChar (c.toNat / 16), hexChar (c.toNat % 16)]
    else [c]

/-- A string literal. -/
def quote (s : String) : String := String.ofList ('"' :: s.toList.flatMap escapeChar ++ ['"'])

/-- The text of a number. -/
def numberText : JsonNumber → String
  | .natural n => toString n
  | .negative n => "-" ++ toString n
  | .double x => (Decimal.dataText? Decimal.window64 (Decimal.value64 x)).getD "null"
  | .single x => (Decimal.dataText? Decimal.window32 (Decimal.value32 x)).getD "null"

mutual

/-- The value without blanks. -/
def compact : Json → String
  | .null => "null"
  | .bool true => "true"
  | .bool false => "false"
  | .number n => numberText n
  | .text s => quote s
  | .array items => "[" ++ String.intercalate "," (compactItems items) ++ "]"
  | .object fields => "\x7b" ++ String.intercalate "," (compactFields fields) ++ "\x7d"

/-- The texts of the items of an array. -/
def compactItems : List Json → List String
  | [] => []
  | v :: rest => compact v :: compactItems rest

/-- The texts of the fields of an object. -/
def compactFields : List (String × Json) → List String
  | [] => []
  | (k, v) :: rest => (quote k ++ ":" ++ compact v) :: compactFields rest

end

/-- A line break followed by the blanks of a level. -/
def lineAt (level : Nat) : String := String.ofList ('\n' :: List.replicate (2 * level) ' ')

mutual

/-- The value laid out over several lines; `level` is the depth of its own lines. -/
def pretty (level : Nat) : Json → String
  | .array [] => "[]"
  | .array items =>
    "[" ++ String.intercalate "," (prettyItems (level + 1) items) ++ lineAt level ++ "]"
  | .object [] => "\x7b\x7d"
  | .object fields =>
    "\x7b" ++ String.intercalate "," (prettyFields (level + 1) fields) ++ lineAt level ++ "\x7d"
  | other => compact other

/-- The items of an array, each on a line of its own. -/
def prettyItems (level : Nat) : List Json → List String
  | [] => []
  | v :: rest => (lineAt level ++ pretty level v) :: prettyItems level rest

/-- The fields of an object, each on a line of its own. -/
def prettyFields (level : Nat) : List (String × Json) → List String
  | [] => []
  | (k, v) :: rest => (lineAt level ++ quote k ++ ": " ++ pretty level v) :: prettyFields level rest

end

end Flowchart.Json
