import Flowchart.Decimal.Binary

/-!
# Reading decimals

A number is written as an optional sign, digits with at most one point among them, and an optional
exponent; at least one digit has to stand before the exponent. The words for infinity and for an
undefined value are numbers too, in any case of letters.
-/

namespace Flowchart.Decimal

/-- The value of a list of decimal digits. -/
def natOfDigits (ds : List Char) : Nat :=
  ds.foldl (fun n d => 10 * n + (d.toNat - '0'.toNat)) 0

/-- A decimal as written. -/
inductive Written where
  /-- plus or minus `digits * 10 ^ exponent` -/
  | finite (negative : Bool) (digits : Nat) (exponent : Int)
  /-- plus or minus infinity -/
  | infinite (negative : Bool)
  /-- an undefined value -/
  | undefined (negative : Bool)
  deriving Repr, DecidableEq

/-- Splits a sign off; no sign means plus. -/
def splitSign : List Char → Bool × List Char
  | '-' :: cs => (true, cs)
  | '+' :: cs => (false, cs)
  | cs => (false, cs)

/-- Reads an exponent part that must take up the whole text. -/
def readExponent? : List Char → Option Int
  | [] => some 0
  | c :: cs =>
    if c == 'e' || c == 'E' then
      let (negative, ds) := splitSign cs
      if ds.isEmpty || !ds.all Char.isDigit then none
      else some (if negative then -(natOfDigits ds : Int) else natOfDigits ds)
    else none

/-- Reads an unsigned number that is not a word. -/
def readUnsigned? (cs : List Char) : Option (Nat × Int) := do
  let whole := cs.takeWhile Char.isDigit
  let rest := cs.dropWhile Char.isDigit
  let (fraction, rest) := match rest with
    | '.' :: more => (more.takeWhile Char.isDigit, more.dropWhile Char.isDigit)
    | _ => ([], rest)
  if whole.isEmpty && fraction.isEmpty then none
  else
    let exponent ← readExponent? rest
    some (natOfDigits (whole ++ fraction), exponent - fraction.length)

/-- Reads a whole text as a number. -/
def read? (text : List Char) : Option Written :=
  let (negative, cs) := splitSign text
  let word := String.ofList (cs.map Char.toLower)
  if word == "inf" || word == "infinity" then some (.infinite negative)
  else if word == "nan" then some (.undefined negative)
  else (readUnsigned? cs).map fun (digits, exponent) => .finite negative digits exponent

/-- The single precision number nearest to what is written. -/
def Written.toFloat32 : Written → Float32
  | finite negative digits exponent => float32OfDecimal negative digits exponent
  | infinite negative => Float32.ofBits (if negative then 0xFF800000 else 0x7F800000)
  | undefined negative => Float32.ofBits (if negative then 0xFFC00000 else 0x7FC00000)

/-- Reads a whole text as a single precision number. -/
def readFloat32? (text : String) : Option Float32 := (read? text.toList).map Written.toFloat32

end Flowchart.Decimal
