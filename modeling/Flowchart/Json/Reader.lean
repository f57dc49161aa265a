import Flowchart.Json.Fault
import Flowchart.Json.Value
import Flowchart.Decimal.Reading

/-!
# Reading JSON

The strict grammar. A whole number that fits 64 bits keeps its value; any other number is turned
into double precision from its leading digits, as many as fit 64 bits, and a power of ten, with one
rounding for each of the two and one for their product or quotient. A number too large for double
precision is refused. Arrays and objects nest at most 127 deep. The first fault is reported with its
place.
-/

namespace Flowchart.Json

/-- Blanks allowed between the tokens of the strict grammar. -/
def isSpace (c : Char) : Bool := c == ' ' || c == '\t' || c == '\n' || c == '\r'

/-- Skips blanks. -/
def skipSpace (cs : List Char) : List Char := cs.dropWhile isSpace

/-- The first whole number that no longer fits 64 bits. -/
def wordLimit : Nat := 0x10000000000000000

/-- A power of ten in double precision. -/
def powerOfTen (k : Nat) : Float := Decimal.floatOfDecimal false 1 k

/-- `significand * 10 ^ exponent` in double precision: quotients are taken in steps of `10 ^ 308`,
and an infinite product is refused. -/
def scaleByTen (significand : Float) (exponent : Int) : (fuel : Nat) → Option Float
  | 0 => some 0.0
  | fuel + 1 =>
    if exponent.natAbs ≤ 308 then
      if 0 ≤ exponent then
        let x := significand * powerOfTen exponent.natAbs
        if x.isInf then none else some x
      else some (significand / powerOfTen exponent.natAbs)
    else if significand == 0.0 then some significand
    else if 0 ≤ exponent then none
    else scaleByTen (significand / powerOfTen 308) (exponent + 308) fuel

/-- The significand built from as many leading digits as fit 64 bits, and how many digits were left
over. -/
def takeSignificand (start : Nat) : List Char → Nat × Nat
  | [] => (start, 0)
  | d :: ds =>
    let next := 10 * start + (d.toNat - '0'.toNat)
    if next < wordLimit then takeSignificand next ds else (start, ds.length + 1)

/-- The value of a number given by its sign, its digits before and after the point and its
exponent. -/
def numberValue? (negative : Bool) (whole fraction : List Char) (hasFraction : Bool)
    (exponent : Option Int) : Option JsonNumber :=
  let (significand, droppedWhole) := takeSignificand 0 whole
  if !hasFraction && exponent.isNone && droppedWhole == 0 then
    if !negative then some (.natural significand)
    else if significand == 0 || 0x8000000000000000 < significand then
      some (.double (-(Float.ofNat significand)))
    else some (.negative significand)
  else
    let (significand, droppedFraction) := takeSignificand significand fraction
    let place : Int := (droppedWhole : Int) - ((fraction.length : Int) - droppedFraction)
    let shift := exponent.getD 0
    if 0x80000000 ≤ shift.natAbs then
      if significand != 0 && 0 < shift then none
      else some (.double (if negative then -0.0 else 0.0))
    else
      (scaleByTen (Float.ofNat significand) (place + shift) 10).map fun x =>
        .double (if negative then -x else x)

/-- Reads the digits of an exponent after its letter. -/
def readExponentTail (cs : List Char) : Except Fault (Int × List Char) :=
  let (negative, rest) := Decimal.splitSign cs
  match rest with
  | [] => .error (.before .endInValue [])
  | c :: _ =>
    if !c.isDigit then .error (.behindByte .badNumber rest)
    else
      let n : Int := Decimal.natOfDigits (rest.takeWhile Char.isDigit)
      .ok (if negative then -n else n, rest.dropWhile Char.isDigit)

/-- Reads an exponent if one follows. -/
def readExponent : List Char → Except Fault (Option Int × List Char)
  | c :: cs =>
    if c == 'e' || c == 'E' then (readExponentTail cs).map fun (n, rest) => (some n, rest)
    else .ok (none, c :: cs)
  | [] => .ok (none, [])

/-- Reads a fraction if one follows; it has at least one digit. -/
def readFraction : List Char → Except Fault (Option (List Char) × List Char)
  | '.' :: rest =>
    match rest with
    | [] => .error (.before .endInValue [])
    | c :: _ =>
      if c.isDigit then .ok (some (rest.takeWhile Char.isDigit), rest.dropWhile Char.isDigit)
      else .error (.behindByte .badNumber rest)
  | cs => .ok (none, cs)

/-- Reads the digits before the point; a zero stands alone. -/
def readWhole : List Char → Except Fault (List Char × List Char)
  | [] => .error (.before .endInValue [])
  | c :: rest =>
    if !c.isDigit then .error (.behindByte .badNumber (c :: rest))
    else if c == '0' then
      if (rest.head?.map Char.isDigit).getD false then .error (.behindByte .badNumber rest)
      else .ok (['0'], rest)
    else .ok (c :: rest.takeWhile Char.isDigit, rest.dropWhile Char.isDigit)

/-- The digits of an exponent that are left over when it stops to fit 32 bits. -/
def exponentSurplus (digits : List Char) : Nat :=
  match (List.range (digits.length + 1)).find? fun k =>
      0x80000000 ≤ Decimal.natOfDigits (digits.take k) with
  | some k => digits.length - k
  | none => 0

/-- Reads a number without its sign. -/
def readUnsigned (negative : Bool) (cs : List Char) : Except Fault (JsonNumber × List Char) := do
  let (whole, rest) ← readWhole cs
  let (fraction, rest) ← readFraction rest
  let (exponent, tail) ← readExponent rest
  match numberValue? negative whole (fraction.getD []) fraction.isSome exponent with
  | some n => .ok (n, tail)
  | none =>
    let digits := (Decimal.splitSign (rest.drop 1)).2.takeWhile Char.isDigit
    .error ⟨.numberTooLarge, byteCount tail + exponentSurplus digits⟩

/-- Reads a number. -/
def readNumber : List Char → Except Fault (JsonNumber × List Char)
  | '-' :: rest => readUnsigned true rest
  | cs => readUnsigned false cs

/-- The value of a hexadecimal digit. -/
def hexDigit? (c : Char) : Option Nat :=
  if '0' ≤ c && c ≤ '9' then some (c.toNat - '0'.toNat)
  else if 'a' ≤ c && c ≤ 'f' then some (c.toNat - 'a'.toNat + 10)
  else if 'A' ≤ c && c ≤ 'F' then some (c.toNat - 'A'.toNat + 10)
  else none

/-- The value of four hexadecimal digits. -/
def hexValue4? (a b c d : Char) : Option Nat := do
  some ((((← hexDigit? a) * 16 + (← hexDigit? b)) * 16 + (← hexDigit? c)) * 16 + (← hexDigit? d))

/-- The fault for something else than four hexadecimal digits. Four bytes count as read, if there
are as many. -/
def hexFault (cs : List Char) : Fault :=
  let left := byteCount cs
  if left < 4 then ⟨.endInText, 0⟩ else ⟨.badEscape, left - 4⟩

/-- Reads exactly four hexadecimal digits. -/
def readHex4 (cs : List Char) : Except Fault (Nat × List Char) :=
  match cs with
  | a :: b :: c :: d :: rest =>
    match hexValue4? a b c d with
    | some n => .ok (n, rest)
    | none => .error (hexFault cs)
  | _ => .error (hexFault cs)

/-- The number is the first half of a pair of surrogates. -/
def isLeading (n : Nat) : Bool := 0xD800 ≤ n && n ≤ 0xDBFF

/-- The number is the second half of a pair of surrogates. -/
def isTrailing (n : Nat) : Bool := 0xDC00 ≤ n && n ≤ 0xDFFF

/-- Reads a character that has to follow. -/
def expectInText (c : Char) : List Char → Except Fault (List Char)
  | [] => .error (.before .endInText [])
  | d :: rest => if c == d then .ok rest else .error (.behindByte .unfinishedPair (d :: rest))

/-- Reads the digits of a Unicode escape; a leading surrogate has to be followed by the escape of a
trailing one, and a trailing surrogate cannot stand alone. -/
def readUnicode (cs : List Char) : Except Fault (Char × List Char) := do
  let (first, rest) ← readHex4 cs
  if isTrailing first then .error (.before .loneSurrogate rest)
  else if isLeading first then
    let rest ← expectInText '\\' rest
    let rest ← expectInText 'u' rest
    let (second, rest) ← readHex4 rest
    if isTrailing second then
      .ok (Char.ofNat (0x10000 + (first - 0xD800) * 0x400 + (second - 0xDC00)), rest)
    else .error (.before .loneSurrogate rest)
  else .ok (Char.ofNat first, rest)

/-- The character that a letter stands for after a backslash. -/
def escapeValue? : Char → Option Char
  | '"' => some '"'
  | '\\' => some '\\'
  | '/' => some '/'
  | 'b' => some '\x08'
  | 'f' => some '\x0c'
  | 'n' => some '\n'
  | 'r' => some '\r'
  | 't' => some '\t'
  | _ => none

/-- Reads the rest of a string after its opening quote; `acc` holds the characters so far in
reverse. -/
def readStringTail : (fuel : Nat) → List Char → List Char → Except Fault (String × List Char)
  | 0, _, _ | _, _, [] => .error (.before .endInText [])
  | fuel + 1, acc, c :: cs =>
    if c == '"' then .ok (String.ofList acc.reverse, cs)
    else if c == '\\' then
      match cs with
      | 'u' :: rest =>
        match readUnicode rest with
        | .ok (u, rest) => readStringTail fuel (u :: acc) rest
        | .error f => .error f
      | e :: rest =>
        match escapeValue? e with
        | some v => readStringTail fuel (v :: acc) rest
        | none => .error (.behindByte .badEscape (e :: rest))
      | [] => .error (.before .endInText [])
    else if c.toNat < 0x20 then .error (.before .controlCharacter cs)
    else readStringTail fuel (c :: acc) cs

/-- Reads the rest of a string after its opening quote. -/
def readString (cs : List Char) : Except Fault (String × List Char) :=
  readStringTail (cs.length + 1) [] cs

/-- Reads the rest of a fixed word. -/
def readWord : (word : List Char) → List Char → Except Fault (List Char)
  | [], cs => .ok cs
  | _ :: _, [] => .error (.before .endInValue [])
  | w :: word, c :: cs =>
    if w == c then readWord word cs else .error (.behindByte .wordExpected (c :: cs))

/-- Reads the rest of the word for null. -/
def readNull (cs : List Char) : Except Fault (List Char) := readWord ['u', 'l', 'l'] cs

/-- Reads the rest of the word for true. -/
def readTrue (cs : List Char) : Except Fault (List Char) := readWord ['r', 'u', 'e'] cs

/-- Reads the rest of the word for false. -/
def readFalse (cs : List Char) : Except Fault (List Char) := readWord ['a', 'l', 's', 'e'] cs

/-- The character may begin a number. -/
def startsNumber (c : Char) : Bool := c == '-' || c.isDigit

/-- What follows an item of an array or a field of an object. -/
inductive Follow where
  /-- the closing bracket or brace -/
  | close (rest : List Char)
  /-- a comma and then something else than the closing bracket or brace -/
  | more (rest : List Char)

/-- Reads what follows an item of an array. -/
def afterItem (cs : List Char) : Except Fault Follow :=
  match skipSpace cs with
  | [] => .error (.before .endInArray [])
  | ']' :: rest => .ok (.close rest)
  | ',' :: rest =>
    match skipSpace rest with
    | [] => .error (.before .endInValue [])
    | ']' :: rest => .error (.before .trailingComma rest)
    | rest => .ok (.more rest)
  | rest => .error (.behindByte .arrayEndExpected rest)

/-- Reads the quote in front of a field name. -/
def openKey : List Char → Except Fault (List Char)
  | '"' :: rest => .ok rest
  | [] => .error (.before .endInValue [])
  | rest => .error (.behindByte .keyExpected rest)

/-- Reads what follows a field of an object; the quote of the next field name is read, too. -/
def afterField (cs : List Char) : Except Fault Follow :=
  match skipSpace cs with
  | [] => .error (.before .endInObject [])
  | '}' :: rest => .ok (.close rest)
  | ',' :: rest =>
    match skipSpace rest with
    | '}' :: rest => .error (.before .trailingComma rest)
    | rest => (openKey rest).map .more
  | rest => .error (.behindByte .objectEndExpected rest)

/-- Reads what follows an opening brace; the quote of the first field name is read, too. -/
def firstField (cs : List Char) : Except Fault Follow :=
  match skipSpace cs with
  | [] => .error (.before .endInObject [])
  | '}' :: rest => .ok (.close rest)
  | rest => (openKey rest).map .more

/-- Reads the colon between a field name and a value. -/
def readColon (cs : List Char) : Except Fault (List Char) :=
  match skipSpace cs with
  | [] => .error (.before .endInObject [])
  | ':' :: rest => .ok rest
  | rest => .error (.behindByte .colonExpected rest)

mutual

/-- Reads a value; `depth` is how many more levels may open. -/
def readValue : (fuel depth : Nat) → List Char → Except Fault (Json × List Char)
  | 0, _, _ => .error (.before .endInValue [])
  | fuel + 1, depth, cs =>
    match skipSpace cs with
    | [] => .error (.before .endInValue [])
    | '"' :: rest => (readString rest).map fun (s, r) => (.text s, r)
    | '[' :: rest =>
      if depth ≤ 1 then .error (.before .tooDeep rest)
      else
        match skipSpace rest with
        | [] => .error (.before .endInArray [])
        | ']' :: r => .ok (.array [], r)
        | r => readItems fuel (depth - 1) [] r
    | '{' :: rest =>
      if depth ≤ 1 then .error (.before .tooDeep rest)
      else
        match firstField rest with
        | .error f => .error f
        | .ok (.close r) => .ok (.object [], r)
        | .ok (.more r) => readFields fuel (depth - 1) [] r
    | 't' :: rest => (readTrue rest).map fun r => (.bool true, r)
    | 'f' :: rest => (readFalse rest).map fun r => (.bool false, r)
    | 'n' :: rest => (readNull rest).map fun r => (.null, r)
    | c :: rest =>
      if startsNumber c then (readNumber (c :: rest)).map fun (n, r) => (.number n, r)
      else .error (.behindByte .valueExpected (c :: rest))

/-- Reads the items of an array up to its closing bracket; at least one item has to follow. -/
def readItems : (fuel depth : Nat) → List Json → List Char → Except Fault (Json × List Char)
  | 0, _, _, _ => .error (.before .endInValue [])
  | fuel + 1, depth, acc, cs =>
    match readValue fuel depth cs with
    | .error f => .error f
    | .ok (v, rest) =>
      match afterItem rest with
      | .error f => .error f
      | .ok (.close r) => .ok (.array (v :: acc).reverse, r)
      | .ok (.more r) => readItems fuel depth (v :: acc) r

/-- Reads the fields of an object up to its closing brace, from inside the first field name on. -/
def readFields : (fuel depth : Nat) → List (String × Json) → List Char →
    Except Fault (Json × List Char)
  | 0, _, _, _ => .error (.before .endInValue [])
  | fuel + 1, depth, acc, cs =>
    match readString cs with
    | .error f => .error f
    | .ok (key, rest) =>
      match readColon rest with
      | .error f => .error f
      | .ok rest =>
        match readValue fuel depth rest with
        | .error f => .error f
        | .ok (v, rest) =>
          match afterField rest with
          | .error f => .error f
          | .ok (.close r) => .ok (.object ((key, v) :: acc).reverse, r)
          | .ok (.more r) => readFields fuel depth ((key, v) :: acc) r

end

/-- How many levels of arrays and objects may be open. -/
def depthLimit : Nat := 128

/-- Nothing but blanks may follow. -/
def expectEnd (cs : List Char) : Except Fault Unit :=
  match skipSpace cs with
  | [] => .ok ()
  | rest => .error (.behindByte .trailingCharacters rest)

/-- Reads a whole text as one value. -/
def parse (text : String) : Except Fault Json := do
  let cs := text.toList
  let (v, rest) ← readValue (2 * cs.length + 2) depthLimit cs
  expectEnd rest
  .ok v

/-- Reads a whole text as one value, if it is one. -/
def parse? (text : String) : Option Json := (parse text).toOption

end Flowchart.Json
