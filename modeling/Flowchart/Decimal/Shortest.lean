import Flowchart.Decimal.Binary

/-!
# The fewest digits that read back

The text of a binary number is the decimal with the fewest digits among those that round to it, and
of these the one nearest to it. For one digit, two digits and so on, the two neighbours of the
number on the grid of decimals with that many digits are compared, in exact arithmetic, with the
interval of reals that round to the number. The ends of the interval belong to it when the mantissa
is even, because a tie goes to the even neighbour. When the number lies halfway between both
neighbours, positional text takes the upper one and data files take the even one.

Two layouts of the digits are in use: positional, without an exponent whatever the size, and
scientific outside a window of moderate sizes.
-/

namespace Flowchart.Decimal

/-- A decimal: `digits * 10 ^ exponent`. -/
structure Digits where
  /-- all digits as one number -/
  digits : Nat
  /-- power of ten of the last digit -/
  exponent : Int
  deriving Repr, DecidableEq

/-- The positive number `mantissa * 2 ^ exponent` and the interval that rounds to it, all in units
of a quarter step and as fractions over a common denominator. -/
structure RoundingInterval where
  /-- the number -/
  value : Nat
  /-- lower end of the interval -/
  low : Nat
  /-- upper end of the interval -/
  high : Nat
  /-- the ends belong to the interval -/
  closed : Bool
  /-- the binary exponent of the unit -/
  unit : Int

/-- The interval of reals that round to a positive binary number. -/
def roundingInterval (mantissa : Nat) (exponent : Int) (tight : Bool) : RoundingInterval where
  value := 4 * mantissa
  low := 4 * mantissa - if tight then 1 else 2
  high := 4 * mantissa + 2
  closed := mantissa % 2 == 0
  unit := exponent - 2

/-- The factors that bring `n * 2 ^ unit` and `c * 10 ^ place` to a common scale. -/
def commonScale (unit place : Int) : Nat × Nat :=
  (Nat.pow 2 unit.toNat * Nat.pow 10 (-place).toNat,
    Nat.pow 10 place.toNat * Nat.pow 2 (-unit).toNat)

/-- Which of two decimals is taken when a number lies halfway between them. -/
inductive TieRule where
  /-- the larger one -/
  | up
  /-- the one with an even last digit -/
  | even
  deriving Repr, DecidableEq

/-- The lower of two neighbours is taken, given its digits and the distances to both. -/
def TieRule.takesLower (rule : TieRule) (digits toLower toUpper : Nat) : Bool :=
  toLower < toUpper || (toLower == toUpper && rule == .even && digits % 2 == 0)

/-- The better of the two neighbours with `place` as last decimal place, if one lies in the
interval. -/
def gridPoint? (rule : TieRule) (i : RoundingInterval) (place : Int) : Option Nat :=
  let (p, q) := commonScale i.unit place
  let v := i.value * p
  let below := v / q
  let inside (c : Nat) : Bool :=
    if i.closed then i.low * p ≤ c * q && c * q ≤ i.high * p
    else i.low * p < c * q && c * q < i.high * p
  let above := below + 1
  match inside below && below != 0, inside above with
  | true, true =>
    if rule.takesLower below (v - below * q) (above * q - v) then some below else some above
  | true, false => some below
  | false, true => some above
  | false, false => none

/-- The power of ten above `value * 2 ^ unit`: the least `k` with the number below `10 ^ k`,
searched upwards from a lower bound. -/
def decimalMagnitude (value : Nat) (unit : Int) : (fuel : Nat) → Int → Int
  | 0, k => k
  | fuel + 1, k =>
    let (p, q) := commonScale unit k
    if value * p < q then k else decimalMagnitude value unit fuel (k + 1)

/-- Removes zeros at the end of the digits. -/
def stripZeros : (fuel : Nat) → Digits → Digits
  | 0, d => d
  | fuel + 1, d =>
    if d.digits != 0 && d.digits % 10 == 0 then stripZeros fuel ⟨d.digits / 10, d.exponent + 1⟩
    else d

/-- Tries grids of more and more digits. -/
def searchGrids (rule : TieRule) (i : RoundingInterval) (magnitude : Int) :
    (fuel count : Nat) → Digits
  | 0, _ => ⟨0, 0⟩
  | fuel + 1, count =>
    let place := magnitude - count
    match gridPoint? rule i place with
    | some c => stripZeros 20 ⟨c, place⟩
    | none => searchGrids rule i magnitude fuel (count + 1)

/-- The fewest digits that read back as the positive number `mantissa * 2 ^ exponent`. -/
def shortest (rule : TieRule) (mantissa : Nat) (exponent : Int) (tight : Bool) : Digits :=
  let i := roundingInterval mantissa exponent tight
  let bits : Int := (i.value.log2 : Int) + i.unit
  let start := bits * 30103 / 100000 - 1
  searchGrids rule i (decimalMagnitude i.value i.unit 4 start) 20 1

/-! ## Layouts -/

/-- The decimal digits of a natural number. -/
def digitChars (n : Nat) : List Char := Nat.toDigits 10 n

/-- Digits written out positionally, with a point only where there are fractional digits. -/
def Digits.positional (d : Digits) : List Char :=
  let cs := digitChars d.digits
  if 0 ≤ d.exponent then cs ++ List.replicate d.exponent.toNat '0'
  else
    let places := (-d.exponent).toNat
    if places < cs.length then
      cs.take (cs.length - places) ++ '.' :: cs.drop (cs.length - places)
    else '0' :: '.' :: List.replicate (places - cs.length) '0' ++ cs

/-- Digits in scientific form: one digit, a point if more follow, and the exponent. -/
def Digits.scientific (d : Digits) : List Char :=
  let cs := digitChars d.digits
  let exponent : Int := d.exponent + cs.length - 1
  let power := (if exponent < 0 then ['-'] else []) ++ digitChars exponent.natAbs
  match cs with
  | [] => []
  | [c] => c :: 'e' :: power
  | c :: rest => c :: '.' :: rest ++ 'e' :: power

/-- A minus sign for negative numbers. -/
def signChars (negative : Bool) : List Char := if negative then ['-'] else []

/-- The text of a value, positionally whatever its size; zero has a sign too. -/
def positionalText : BinaryValue → String
  | .undefined => "NaN"
  | .infinite negative => String.ofList (signChars negative ++ ['i', 'n', 'f'])
  | .finite negative m e tight =>
    if m == 0 then String.ofList (signChars negative ++ ['0'])
    else String.ofList (signChars negative ++ (shortest .up m e tight).positional)

/-- Which sizes are written positionally in data files, by the place of the decimal point relative
to the first digit. -/
structure DataWindow where
  /-- the point is further right than this -/
  above : Int
  /-- the point is at most this far right -/
  upTo : Int

/-- Single precision numbers are positional from a millionth to below ten billions. -/
def window32 : DataWindow := ⟨-6, 13⟩

/-- Double precision numbers are positional from a hundred thousandth to below ten quadrillions. -/
def window64 : DataWindow := ⟨-5, 16⟩

/-- The text of a value in data files: whole numbers end in a zero fraction, and outside the window
the scientific form is used. There is no text for values that are not finite. -/
def dataText? (window : DataWindow) : BinaryValue → Option String
  | .undefined => none
  | .infinite _ => none
  | .finite negative m e tight =>
    if m == 0 then some (String.ofList (signChars negative ++ ['0', '.', '0']))
    else
      let d := shortest .even m e tight
      let point : Int := (digitChars d.digits).length + d.exponent
      let body :=
        if window.above < point && point ≤ window.upTo then
          if 0 ≤ d.exponent then d.positional ++ ['.', '0'] else d.positional
        else d.scientific
      some (String.ofList (signChars negative ++ body))

/-- The positional text of a single precision number. -/
def text32 (x : Float32) : String := positionalText (value32 x)

end Flowchart.Decimal
