import Flowchart.Decimal.Shortest

/-!
# Two decimal places

Two ways of cutting a number down to hundredths. A style value is written with exactly two places,
rounded from its exact value with ties going to the even neighbour. A path coordinate is first
rounded to the nearest hundredth in its own arithmetic and then written with the fewest digits, so
that whole coordinates are whole numbers in the text.
-/

namespace Flowchart.Decimal

/-- Digits of hundredths with a point before the last two. -/
def hundredthChars (hundredths : Nat) : List Char :=
  let cs := digitChars hundredths
  let cs := List.replicate (3 - cs.length) '0' ++ cs
  cs.take (cs.length - 2) ++ '.' :: cs.drop (cs.length - 2)

/-- A value with exactly two decimal places. -/
def twoPlaces : BinaryValue → String
  | .undefined => "NaN"
  | .infinite negative => String.ofList (signChars negative ++ ['i', 'n', 'f'])
  | .finite negative m e _ =>
    let (num, den) := BinaryFormat.shiftQuotient (m * 100) 1 (-e)
    String.ofList (signChars negative ++ hundredthChars (BinaryFormat.roundQuotient num den))

/-- The nearest whole number, a half going away from zero, as a signed integer; `none` for values
that are not finite. -/
def roundAway? : BinaryValue → Option Int
  | .finite negative m e _ =>
    let (num, den) := BinaryFormat.shiftQuotient m 1 (-e)
    let n : Int := ((2 * num + den) / (2 * den) : Nat)
    some (if negative then -n else n)
  | _ => none

/-- The number is whole. -/
def isWhole : BinaryValue → Bool
  | .finite _ m e _ => 0 ≤ e || m % Nat.pow 2 (-e).toNat == 0
  | _ => false

/-- The whole number in the range of 64-bit signed integers that is closest to a whole value. -/
def wholeClamped : BinaryValue → Int
  | .finite negative m e _ =>
    let n : Int := if 0 ≤ e then (m * Nat.pow 2 e.toNat : Nat) else (m / Nat.pow 2 (-e).toNat : Nat)
    if negative then max (-n) (-0x8000000000000000) else min n 0x7FFFFFFFFFFFFFFF
  | .infinite true => -0x8000000000000000
  | .infinite false => 0x7FFFFFFFFFFFFFFF
  | .undefined => 0

/-- A single precision number rounded to the nearest whole one, a half going away from zero. -/
def round32 (x : Float32) : Float32 :=
  match roundAway? (value32 x) with
  | some n => float32OfDecimal (decide (n < 0)) n.natAbs 0
  | none => x

/-- Whole numbers below this bound are multiples of a hundredth exactly, so rounding to hundredths
leaves them as they are. -/
def plainBound : Nat := 0x20000

/-- A coordinate in path text: hundredths, whole numbers without a point. Infinite coordinates are
written as the outermost whole numbers of 64 bits. -/
def coordinateText (x : Float32) : String :=
  let exact := value32 x
  if isWhole exact && (wholeClamped exact).natAbs < plainBound then toString (wholeClamped exact)
  else
    let rounded := value32 (round32 (x * 100.0) / 100.0)
    match rounded with
    | .infinite _ => toString (wholeClamped rounded)
    | _ => if isWhole rounded then toString (wholeClamped rounded) else positionalText rounded

end Flowchart.Decimal
