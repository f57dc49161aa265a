import Flowchart.Json.Reader
import Flowchart.Text.Letter
import Flowchart.Text.Blank

/-!
# Reading relaxed JSON

The relaxed grammar is meant for values typed by hand: comments, strings in single quotes, field
names without quotes but maybe with escapes, commas after the last item, a plus sign, hexadecimal
whole numbers of 32 bits, numbers with nothing before or after the point, and the words for infinity
and for an undefined number. A number without point and exponent has to fit a signed whole number of
64 bits; an infinite or undefined number stands for no value.
-/

namespace Flowchart.Json.Relaxed

/-- The character ends a line. -/
def isLineEnd (c : Char) : Bool :=
  c == '\n' || c == '\r' || c.toNat == 0x2028 || c.toNat == 0x2029

/-- The character separates tokens. -/
def isGap (c : Char) : Bool :=
  c.toNat == 0xFEFF || (Text.isBlank c && c.toNat != 0x85)

/-- Skips a comment up to its closing mark, if it has one. -/
def skipBlockComment : List Char → Option (List Char)
  | '*' :: '/' :: rest => some rest
  | _ :: rest => skipBlockComment rest
  | [] => none

/-- Skips blanks and comments. -/
def skip : (fuel : Nat) → List Char → List Char
  | 0, cs => cs
  | fuel + 1, cs =>
    match cs.dropWhile isGap with
    | '/' :: '/' :: rest => skip fuel (rest.dropWhile (!isLineEnd ·))
    | '/' :: '*' :: rest =>
      match skipBlockComment rest with
      | some rest => skip fuel rest
      | none => '/' :: '*' :: rest
    | rest => rest

/-- Skips blanks and comments before the next token. -/
def skipGap (cs : List Char) : List Char := skip (cs.length + 1) cs

/-- The character that a letter stands for after a backslash; most stand for themselves. -/
def escapeValue? (c : Char) : Option Char :=
  match c with
  | 'b' => some '\x08'
  | 'f' => some '\x0c'
  | 'n' => some '\n'
  | 'r' => some '\r'
  | 't' => some '\t'
  | 'v' => some '\x0b'
  | '0' => some '\x00'
  | c => if c.isDigit then none else some c

/-- Reads two hexadecimal digits as a character. -/
def readHex2 : List Char → Option (Char × List Char)
  | a :: b :: rest => do
    let a ← hexDigit? a
    let b ← hexDigit? b
    some (Char.ofNat (a * 16 + b), rest)
  | _ => none

/-- Skips line breaks that are hidden behind a backslash. -/
def skipContinuations : List Char → List Char
  | '\\' :: '\r' :: '\n' :: rest => skipContinuations rest
  | '\\' :: c :: rest => if isLineEnd c then skipContinuations rest else '\\' :: c :: rest
  | cs => cs

/-- The character for a pair of surrogates. The two halves are put together bit by bit: ten bits
come from each, and the bit above the lower sixteen is set. A pair whose own bit is set there
already thus stands for a character one plane lower than elsewhere. -/
def joinPair (first second : Nat) : Char :=
  Char.ofNat (((first - 0xD800) <<< 10) ||| (second - 0xDC00 + 0x10000))

/-- Reads the digits of a Unicode escape. A leading surrogate has to be followed by the escape of a
trailing one, inside a string also behind hidden line breaks. -/
def readUnicode (inString : Bool) (cs : List Char) : Option (Char × List Char) := do
  let (first, rest) ← (readHex4 cs).toOption
  if isTrailing first then none
  else if isLeading first then
    match if inString then skipContinuations rest else rest with
    | '\\' :: 'u' :: rest =>
      let (second, rest) ← (readHex4 rest).toOption
      if isTrailing second then some (joinPair first second, rest) else none
    | _ => none
  else some (Char.ofNat first, rest)

/-- Reads the rest of a string up to the given quote. -/
def readStringTail (quote : Char) : (fuel : Nat) → List Char → List Char →
    Option (String × List Char)
  | 0, _, _ => none
  | _, _, [] => none
  | fuel + 1, acc, c :: cs =>
    if c == quote then some (String.ofList acc.reverse, cs)
    else if c == '\\' then
      match cs with
      | '\r' :: '\n' :: rest => readStringTail quote fuel acc rest
      | 'u' :: rest =>
        match readUnicode true rest with
        | some (u, rest) => readStringTail quote fuel (u :: acc) rest
        | none => none
      | 'x' :: rest =>
        match readHex2 rest with
        | some (u, rest) => readStringTail quote fuel (u :: acc) rest
        | none => none
      | e :: rest =>
        if isLineEnd e then readStringTail quote fuel acc rest
        else
          match escapeValue? e with
          | some v => readStringTail quote fuel (v :: acc) rest
          | none => none
      | [] => none
    else if isLineEnd c then none
    else readStringTail quote fuel (c :: acc) cs

/-- Reads the rest of a field name without quotes. An escape may stand for any character, also for
one that could not stand there itself; `ok` tells which characters can. -/
def readNameTail (ok : Char → Bool) : (fuel : Nat) → List Char → List Char →
    Option (String × List Char)
  | 0, _, _ => none
  | _, acc, [] => some (String.ofList acc.reverse, [])
  | fuel + 1, acc, '\\' :: 'u' :: rest =>
    match readUnicode false rest with
    | some (u, rest) => readNameTail Text.isNamePart fuel (u :: acc) rest
    | none => none
  | fuel + 1, acc, c :: cs =>
    if ok c then readNameTail Text.isNamePart fuel (c :: acc) cs
    else some (String.ofList acc.reverse, c :: cs)

/-- Reads a field name without quotes; it has at least one character. -/
def readName (cs : List Char) : Option (String × List Char) :=
  match readNameTail Text.isNameStart (cs.length + 1) [] cs with
  | some (name, rest) => if name.isEmpty then none else some (name, rest)
  | none => none

/-- Reads a field name. -/
def readKey : List Char → Option (String × List Char)
  | [] => none
  | c :: cs =>
    if c == '"' || c == '\'' then readStringTail c (cs.length + 1) [] cs else readName (c :: cs)

/-- The value of a decimal without point and exponent. -/
def wholeNumber? (negative : Bool) (n : Nat) : Option Json :=
  if negative then
    if n == 0 then some (.ofNat 0)
    else if n ≤ 0x8000000000000000 then some (.number (.negative n)) else none
  else if n < 0x8000000000000000 then some (.ofNat n) else none

/-- The value of a decimal with a point or an exponent. -/
def fractionalNumber? (negative : Bool) (digits : Nat) (exponent : Int) : Option Json :=
  let x := Decimal.floatOfDecimal negative digits exponent
  if x.isInf then none else some (.number (.double x))

/-- Reads the digits of a number after its sign. -/
def readUnsigned (signed negative : Bool) (cs : List Char) : Option (Json × List Char) :=
  match cs with
  | '0' :: x :: h :: rest =>
    if (x == 'x' || x == 'X') && (hexDigit? h).isSome then
      let digits := (h :: rest).takeWhile fun c => (hexDigit? c).isSome
      let n := digits.foldl (fun n c => 16 * n + (hexDigit? c).getD 0) 0
      if signed || 0x100000000 ≤ n then none
      else some (.ofNat n, (h :: rest).dropWhile fun c => (hexDigit? c).isSome)
    else readDecimal negative cs
  | _ => readDecimal negative cs
where
  /-- Reads a decimal number. -/
  readDecimal (negative : Bool) (cs : List Char) : Option (Json × List Char) := do
    let whole := match cs with
      | '0' :: _ => ['0']
      | _ => cs.takeWhile Char.isDigit
    let rest := cs.drop whole.length
    let (fraction, hasPoint, rest) := match rest with
      | '.' :: more =>
        let ds := more.takeWhile Char.isDigit
        if whole.isEmpty && ds.isEmpty then ([], false, rest)
        else (ds, true, more.dropWhile Char.isDigit)
      | _ => ([], false, rest)
    if whole.isEmpty && !hasPoint then none
    else
      let (exponent, rest) := (readExponent rest).toOption.getD (none, rest)
      let digits := Decimal.natOfDigits (whole ++ fraction)
      let value ←
        if hasPoint || exponent.isSome then
          fractionalNumber? negative digits (exponent.getD 0 - fraction.length)
        else wholeNumber? negative digits
      some (value, rest)

/-- Reads a number or one of the two number words. -/
def readNumber (cs : List Char) : Option (Json × List Char) :=
  let plus := cs.head? == some '+'
  let minus := cs.head? == some '-'
  let rest := if plus || minus then cs.drop 1 else cs
  let infinity := "Infinity".toList
  let undefined := "NaN".toList
  if infinity.isPrefixOf rest then if plus then none else some (.null, rest.drop 8)
  else if undefined.isPrefixOf rest then if plus then none else some (.null, rest.drop 3)
  else readUnsigned (plus || minus) minus rest

mutual

/-- Reads a value. -/
def readValue : (fuel : Nat) → List Char → Option (Json × List Char)
  | 0, _ => none
  | fuel + 1, cs =>
    match skipGap cs with
    | '"' :: rest => (readStringTail '"' (rest.length + 1) [] rest).map fun (s, r) => (.text s, r)
    | '\'' :: rest =>
      (readStringTail '\'' (rest.length + 1) [] rest).map fun (s, r) => (.text s, r)
    | '[' :: rest =>
      match skipGap rest with
      | ']' :: r => some (.array [], r)
      | r => readItems fuel [] r
    | '{' :: rest =>
      match skipGap rest with
      | '}' :: r => some (.object [], r)
      | r => readFields fuel [] r
    | 't' :: rest => (readTrue rest).toOption.map fun r => (.bool true, r)
    | 'f' :: rest => (readFalse rest).toOption.map fun r => (.bool false, r)
    | 'n' :: rest => (readNull rest).toOption.map fun r => (.null, r)
    | rest => readNumber rest

/-- Reads the items of an array up to its closing bracket. -/
def readItems : (fuel : Nat) → List Json → List Char → Option (Json × List Char)
  | 0, _, _ => none
  | fuel + 1, acc, cs =>
    match readValue fuel cs with
    | none => none
    | some (v, rest) =>
      match skipGap rest with
      | ',' :: r =>
        match skipGap r with
        | ']' :: r => some (.array (v :: acc).reverse, r)
        | r => readItems fuel (v :: acc) r
      | ']' :: r => some (.array (v :: acc).reverse, r)
      | _ => none

/-- Reads the fields of an object up to its closing brace. -/
def readFields : (fuel : Nat) → List (String × Json) → List Char → Option (Json × List Char)
  | 0, _, _ => none
  | fuel + 1, acc, cs =>
    match readKey (skipGap cs) with
    | none => none
    | some (key, rest) =>
      match skipGap rest with
      | ':' :: rest =>
        match readValue fuel rest with
        | none => none
        | some (v, rest) =>
          match skipGap rest with
          | ',' :: r =>
            match skipGap r with
            | '}' :: r => some (.object ((key, v) :: acc).reverse, r)
            | r => readFields fuel ((key, v) :: acc) r
          | '}' :: r => some (.object ((key, v) :: acc).reverse, r)
          | _ => none
      | _ => none

end

/-- Reads a whole text as one value of the relaxed grammar. -/
def parse? (text : String) : Option Json :=
  let cs := text.toList
  match readValue (2 * cs.length + 2) cs with
  | some (v, rest) => if (skipGap rest).isEmpty then some v else none
  | none => none

end Flowchart.Json.Relaxed
