/-!
# Binary floating point numbers as exact values

A finite binary number is a natural number times a power of two. `BinaryFormat.parts` reads that
form off a bit pattern, and `BinaryFormat.nearest` goes the other way: it finds the pattern of the
representable number closest to a given quotient, a tie going to the even neighbour. All decimal
reading and printing rests on these two functions, so that no digit depends on rounded arithmetic.
-/

namespace Flowchart.Decimal

/-- The two numbers that fix an interchange format. -/
structure BinaryFormat where
  /-- stored bits of the significand -/
  fractionBits : Nat
  /-- bits of the exponent field -/
  exponentBits : Nat

/-- Single precision. -/
def single : BinaryFormat := ⟨23, 8⟩

/-- Double precision. -/
def double : BinaryFormat := ⟨52, 11⟩

/-- The value of a bit pattern. -/
inductive BinaryValue where
  /-- plus or minus `mantissa * 2 ^ exponent`; `tight` tells that the next smaller number of the
  same sign is only half as far away as the next larger one -/
  | finite (negative : Bool) (mantissa : Nat) (exponent : Int) (tight : Bool)
  /-- plus or minus infinity -/
  | infinite (negative : Bool)
  /-- not a number -/
  | undefined
  deriving Repr, DecidableEq

namespace BinaryFormat

/-- The exponent field of infinities and undefined values. -/
def topExponent (f : BinaryFormat) : Nat := Nat.pow 2 f.exponentBits - 1

/-- The exponent of the smallest positive number. -/
def leastExponent (f : BinaryFormat) : Int :=
  2 - Int.pow 2 (f.exponentBits - 1) - (f.fractionBits : Int)

/-- The pattern of positive infinity. -/
def infinityBits (f : BinaryFormat) : Nat := f.topExponent * Nat.pow 2 f.fractionBits

/-- The value of a bit pattern. -/
def parts (f : BinaryFormat) (bits : Nat) : BinaryValue :=
  let fraction := bits % Nat.pow 2 f.fractionBits
  let field := bits / Nat.pow 2 f.fractionBits % Nat.pow 2 f.exponentBits
  let negative := bits / Nat.pow 2 (f.fractionBits + f.exponentBits) % 2 == 1
  if field == f.topExponent then
    if fraction == 0 then .infinite negative else .undefined
  else if field == 0 then .finite negative fraction f.leastExponent false
  else
    .finite negative (fraction + Nat.pow 2 f.fractionBits) (f.leastExponent + field - 1)
      (fraction == 0 && field != 1)

/-- The quotient rounded to the nearest natural number, a tie going to the even one. -/
def roundQuotient (num den : Nat) : Nat :=
  let q := num / den
  let r := num % den
  if 2 * r < den then q else if 2 * r == den then q + q % 2 else q + 1

/-- A quotient scaled down by a power of two, which may be negative. -/
def shiftQuotient (num den : Nat) (exponent : Int) : Nat × Nat :=
  if 0 ≤ exponent then (num, den * Nat.pow 2 exponent.toNat)
  else (num * Nat.pow 2 (-exponent).toNat, den)

/-- The pattern of the positive number nearest to `num / den`. Numbers that exceed the largest
finite one by half a step or more become infinite. -/
def nearest (f : BinaryFormat) (num den : Nat) : Nat :=
  if num == 0 then 0
  else
    let estimate : Int := (num.log2 : Int) - den.log2 - f.fractionBits - 1
    let (n, d) := shiftQuotient num den estimate
    let exponent := if n / d < Nat.pow 2 (f.fractionBits + 1) then estimate else estimate + 1
    let exponent := max exponent f.leastExponent
    let (n, d) := shiftQuotient num den exponent
    let bits := (exponent - f.leastExponent).toNat * Nat.pow 2 f.fractionBits + roundQuotient n d
    min bits f.infinityBits

/-- The pattern of the positive number nearest to `digits * 10 ^ exponent`. Exponents far outside
the range of the format are settled without computing the power of ten. -/
def nearestDecimal (f : BinaryFormat) (digits : Nat) (exponent : Int) : Nat :=
  if digits == 0 then 0
  else
    let magnitude : Int := (Nat.toDigits 10 digits).length + exponent
    if 400 < magnitude then f.infinityBits
    else if magnitude < -400 then 0
    else if 0 ≤ exponent then f.nearest (digits * Nat.pow 10 exponent.toNat) 1
    else f.nearest digits (Nat.pow 10 (-exponent).toNat)

end BinaryFormat

/-- The value of a single precision number. -/
def value32 (x : Float32) : BinaryValue := single.parts x.toBits.toNat

/-- The value of a double precision number. -/
def value64 (x : Float) : BinaryValue := double.parts x.toBits.toNat

/-- The single precision number nearest to a decimal. -/
def float32OfDecimal (negative : Bool) (digits : Nat) (exponent : Int) : Float32 :=
  let bits := single.nearestDecimal digits exponent
  Float32.ofBits (bits + if negative then 0x80000000 else 0).toUInt32

/-- The double precision number nearest to a decimal. -/
def floatOfDecimal (negative : Bool) (digits : Nat) (exponent : Int) : Float :=
  let bits := double.nearestDecimal digits exponent
  Float.ofBits (bits + if negative then 0x8000000000000000 else 0).toUInt64

end Flowchart.Decimal
