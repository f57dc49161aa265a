import Flowchart.Json.Printer
import Flowchart.Json.Reader
import Flowchart.Text.Shown

/-!
# Reading what is expected

When it is known what a text has to hold, each value is checked as it is read, so that the first
fault is the first in the text. Values that nobody asks for are skipped, which is more lenient than
reading them: numbers may be too large, surrogates may stand alone and nesting has no limit.

Some faults concern a record as a whole: a field that occurs twice, an array that is too short, a
value that is none of the alternatives. They are reported behind the closing bracket or brace of the
record, if it follows at once.
-/

namespace Flowchart.Json

/-- What a value has to be. -/
inductive Expected where
  /-- a text -/
  | text
  /-- a single precision number -/
  | single
  /-- a whole number from zero on -/
  | count
  /-- a number or a text -/
  | numberOrText (name : String)
  /-- a record, all fields of which may be missing or null; `short` tells whether as an array it may
  leave out fields at its end -/
  | record (name : String) (fields : List (String × Expected)) (short : Bool)

/-! ## Skipping -/

/-- Skips the rest of a string after its opening quote. -/
def skipStringTail : (fuel : Nat) → List Char → Except Fault (List Char)
  | 0, _ | _, [] => .error (.before .endInText [])
  | fuel + 1, c :: cs =>
    if c == '"' then .ok cs
    else if c == '\\' then
      match cs with
      | 'u' :: rest =>
        match readHex4 rest with
        | .ok (_, rest) => skipStringTail fuel rest
        | .error f => .error f
      | e :: rest =>
        if (escapeValue? e).isSome then skipStringTail fuel rest
        else .error (.behindByte .badEscape (e :: rest))
      | [] => .error (.before .endInText [])
    else if c.toNat < 0x20 then .error (.before .controlCharacter (c :: cs))
    else skipStringTail fuel cs

/-- Skips the rest of a string after its opening quote. -/
def skipString (cs : List Char) : Except Fault (List Char) := skipStringTail (cs.length + 1) cs

/-- Skips a number; where the text ends inside it, it is malformed. -/
def skipNumber (cs : List Char) : Except Fault (List Char) :=
  let unsigned := match cs with
    | '-' :: rest => rest
    | _ => cs
  let skipped := do
    let (_, rest) ← readWhole unsigned
    let (_, rest) ← readFraction rest
    let (_, rest) ← readExponent rest
    .ok rest
  skipped.mapError fun f => { f with kind := .badNumber }

/-- Skips a comma or a closing character. -/
def afterSkipped (close : Char) (onEnd onOther : FaultKind) (cs : List Char) :
    Except Fault Follow :=
  match skipSpace cs with
  | [] => .error (.before onEnd [])
  | c :: rest =>
    if c == close then .ok (.close rest)
    else if c == ',' then .ok (.more rest)
    else .error (.behindByte onOther (c :: rest))

mutual

/-- Skips a value. -/
def skipValue : (fuel : Nat) → List Char → Except Fault (List Char)
  | 0, _ => .error (.before .endInValue [])
  | fuel + 1, cs =>
    match skipSpace cs with
    | [] => .error (.before .endInValue [])
    | '"' :: rest => skipString rest
    | '[' :: rest =>
      match skipSpace rest with
      | [] => .error (.before .endInArray [])
      | ']' :: r => .ok r
      | r => skipItems fuel r
    | '\x7b' :: rest =>
      match skipSpace rest with
      | '\x7d' :: r => .ok r
      | r => skipFields fuel r
    | 't' :: rest => readTrue rest
    | 'f' :: rest => readFalse rest
    | 'n' :: rest => readNull rest
    | c :: rest =>
      if startsNumber c then skipNumber (c :: rest)
      else .error (.behindByte .valueExpected (c :: rest))

/-- Skips the items of an array up to its closing bracket. -/
def skipItems : (fuel : Nat) → List Char → Except Fault (List Char)
  | 0, _ => .error (.before .endInValue [])
  | fuel + 1, cs =>
    match skipValue fuel cs with
    | .error f => .error f
    | .ok rest =>
      match afterSkipped ']' .endInArray .arrayEndExpected rest with
      | .error f => .error f
      | .ok (.close r) => .ok r
      | .ok (.more r) => skipItems fuel r

/-- Skips the fields of an object up to its closing brace. -/
def skipFields : (fuel : Nat) → List Char → Except Fault (List Char)
  | 0, _ => .error (.before .endInValue [])
  | fuel + 1, cs =>
    match skipSpace cs with
    | '"' :: rest =>
      match (skipString rest).bind readColon with
      | .error f => .error f
      | .ok rest =>
        match skipValue fuel rest with
        | .error f => .error f
        | .ok rest =>
          match afterSkipped '\x7d' .endInObject .objectEndExpected rest with
          | .error f => .error f
          | .ok (.close r) => .ok r
          | .ok (.more r) => skipFields fuel r
    | [] => .error (.before .endInObject [])
    | rest => .error (.behindByte .keyExpected rest)

end

/-! ## Values of a wrong type -/

/-- A number in a message. -/
def shownNumber : JsonNumber → String
  | .natural n => "integer `" ++ toString n ++ "`"
  | .negative n => "integer `-" ++ toString n ++ "`"
  | other => "floating point `" ++ numberText other ++ "`"

/-- The fault for a value of a wrong type. Single values are read first. -/
def wrongType (expected : String) (cs : List Char) : Fault :=
  let found (read : Except Fault (String × List Char)) : Fault :=
    match read with
    | .ok (s, rest) => .before (.wrongType s expected) rest
    | .error f => f
  match cs with
  | 'n' :: rest => found ((readNull rest).map fun r => ("null", r))
  | 't' :: rest => found ((readTrue rest).map fun r => ("boolean `true`", r))
  | 'f' :: rest => found ((readFalse rest).map fun r => ("boolean `false`", r))
  | '"' :: rest => found ((readString rest).map fun (s, r) => ("string " ++ Text.shown ['"'] s, r))
  | '[' :: _ => .before (.wrongType "sequence" expected) cs
  | '\x7b' :: _ => .before (.wrongType "map" expected) cs
  | c :: _ =>
    if startsNumber c then found ((readNumber cs).map fun (n, r) => (shownNumber n, r))
    else .behindByte .valueExpected cs
  | [] => .before .endInValue []

/-- Reads a text. -/
def expectText (cs : List Char) : Except Fault (Json × List Char) :=
  match cs with
  | '"' :: rest => (readString rest).map fun (s, r) => (.text s, r)
  | _ => .error (wrongType "a string" cs)

/-- Reads a number for which `check` finds no fault. -/
def expectNumber (expected : String) (check : JsonNumber → Option FaultKind) (cs : List Char) :
    Except Fault (Json × List Char) :=
  match cs with
  | c :: _ =>
    if startsNumber c then do
      let (n, rest) ← readNumber cs
      match check n with
      | none => .ok (.number n, rest)
      | some kind => .error (.before kind rest)
    else .error (wrongType expected cs)
  | [] => .error (wrongType expected cs)

/-- What is wrong with a number that has to be a count. -/
def countFault (expected : String) (n : JsonNumber) : Option FaultKind :=
  match n with
  | .natural _ => none
  | .negative _ => some (.wrongValue (shownNumber n) expected)
  | other => some (.wrongType (shownNumber other) expected)

/-! ## Records -/

/-- Why reading a record stops. -/
inductive Stop where
  /-- a fault with its place -/
  | placed (fault : Fault)
  /-- a fault of the whole record, with the text where it was noticed -/
  | ofRecord (kind : FaultKind) (rest : List Char)

/-- The place of a fault of a whole record that is an object. -/
def Stop.inObject : Stop → Fault
  | placed f => f
  | ofRecord kind rest =>
    match skipSpace rest with
    | '\x7d' :: r => .before kind r
    | r => .before kind r

/-- The place of a fault of a whole record that is an array. -/
def Stop.inArray : Stop → Fault
  | placed f => f
  | ofRecord kind rest =>
    match skipSpace rest with
    | ']' :: r => .before kind r
    | ',' :: r => .before kind (skipSpace r)
    | r => .before kind r

/-- Reads what follows an opening bracket. -/
def firstItem (cs : List Char) : Except Fault Follow :=
  match skipSpace cs with
  | [] => .error (.before .endInArray [])
  | ']' :: rest => .ok (.close rest)
  | rest => .ok (.more rest)

/-- Reads the closing bracket of a record. -/
def closeRecord (cs : List Char) : Except Fault (List Char) :=
  match skipSpace cs with
  | [] => .error (.before .endInArray [])
  | ']' :: rest => .ok rest
  | ',' :: rest =>
    match skipSpace rest with
    | ']' :: r => .error (.before .trailingComma r)
    | r => .error (.behindByte .trailingCharacters r)
  | rest => .error (.behindByte .trailingCharacters rest)

mutual

/-- Reads a field of a record. -/
def readField : (fuel depth : Nat) → Expected → List Char → Except Stop (Json × List Char)
  | 0, _, _, _ => .error (.placed (.before .endInValue []))
  | fuel + 1, depth, e, cs =>
    match skipSpace cs with
    | [] => .error (.placed (.before .endInValue []))
    | 'n' :: rest => ((readNull rest).map fun r => (Json.null, r)).mapError .placed
    | rest =>
      match e with
      | .text => (expectText rest).mapError .placed
      | .single => (expectNumber "f32" (fun _ => none) rest).mapError .placed
      | .count => (expectNumber "usize" (countFault "usize") rest).mapError .placed
      | .numberOrText name =>
        match readValue (2 * rest.length + 2) depth rest with
        | .error f => .error (.placed f)
        | .ok (.number n, r) => .ok (.number n, r)
        | .ok (.text s, r) => .ok (.text s, r)
        | .ok (_, r) => .error (.ofRecord (.noAlternative name) r)
      | .record name fields short => (readRecord fuel depth name fields short rest).mapError .placed

/-- Reads a record. -/
def readRecord : (fuel depth : Nat) → String → List (String × Expected) → Bool → List Char →
    Except Fault (Json × List Char)
  | 0, _, _, _, _, _ => .error (.before .endInValue [])
  | fuel + 1, depth, name, fields, short, cs =>
    match skipSpace cs with
    | '[' :: rest =>
      if depth ≤ 1 then .error (.before .tooDeep rest)
      else
        (readRecordItems fuel (depth - 1) (.tooShort · name fields.length) fields short [] rest).mapError
          Stop.inArray
    | '\x7b' :: rest =>
      if depth ≤ 1 then .error (.before .tooDeep rest)
      else
        match firstField rest with
        | .error f => .error f
        | .ok (.close r) => .ok (.object [], r)
        | .ok (.more r) => (readRecordFields fuel (depth - 1) fields [] r).mapError Stop.inObject
    | rest => .error (wrongType ("struct " ++ name) rest)

/-- Reads the fields of a record that is an object, from inside the first field name on. -/
def readRecordFields : (fuel depth : Nat) → List (String × Expected) → List (String × Json) →
    List Char → Except Stop (Json × List Char)
  | 0, _, _, _, _ => .error (.placed (.before .endInValue []))
  | fuel + 1, depth, fields, acc, cs => do
    let (key, rest) ← (readString cs).mapError .placed
    let (acc, rest) ←
      match fields.lookup key with
      | none => do
        let rest ← (readColon rest).mapError .placed
        let rest ← (skipValue (2 * rest.length + 2) rest).mapError .placed
        .ok (acc, rest)
      | some e =>
        if acc.any fun (k, _) => k == key then .error (.ofRecord (.duplicateField key) rest)
        else do
          let rest ← (readColon rest).mapError .placed
          let (v, rest) ← readField fuel depth e rest
          .ok ((key, v) :: acc, rest)
    match ← (afterField rest).mapError .placed with
    | .close r => .ok (.object acc.reverse, r)
    | .more r => readRecordFields fuel depth fields acc r

/-- Reads the fields of a record that is an array. -/
def readRecordItems : (fuel depth : Nat) → (tooShort : Nat → FaultKind) → List (String × Expected) →
    Bool → List (String × Json) → List Char → Except Stop (Json × List Char)
  | 0, _, _, _, _, _, _ => .error (.placed (.before .endInValue []))
  | _ + 1, _, _, [], _, acc, cs =>
    ((closeRecord cs).map fun r => (Json.object acc.reverse, r)).mapError .placed
  | fuel + 1, depth, tooShort, (key, e) :: more, short, acc, cs => do
    match ← ((if acc.isEmpty then firstItem else afterItem) cs).mapError .placed with
    | .close r =>
      if short then .ok (.object acc.reverse, r)
      else .error (.ofRecord (tooShort acc.length) (']' :: r))
    | .more r =>
      let (v, rest) ← readField fuel depth e r
      readRecordItems fuel depth tooShort more short ((key, v) :: acc) rest

end

/-- Reads a whole text as one record. The result is an object with the fields that are present. -/
def parseRecord (name : String) (fields : List (String × Expected)) (text : String) :
    Except Problem Json :=
  let cs := text.toList
  let read : Except Fault Json := do
    let start := skipSpace cs
    let (v, rest) ← readRecord (2 * cs.length + fields.length + 4) depthLimit name fields false start
    expectEnd rest
    .ok v
  read.mapError (Fault.locate text)

end Flowchart.Json
