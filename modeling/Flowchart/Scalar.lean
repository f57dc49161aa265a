/-!
# Scalars: the numbers a drawing is made of

Every position, size and spacing of a drawing is a scalar. The layout runs on single precision
numbers, but nothing in it depends on how they are rounded, so the algorithms are written over any
type with the operations below: `Float32` when the program runs, an exact ordered field when a
statement about positions is to be proved.

Two kinds of scalar meet in the geometry. Coordinates are stored *narrow* and curves are evaluated
*wide*; `Widening` ties a narrow type to the wide one used for its intermediate results. In an
exact reading both are the same type and the conversions are the identity.
-/

namespace Flowchart

/-- The operations a coordinate type offers. No laws are asked for here: rounded arithmetic has
few, and exact arithmetic has them all. -/
class Scalar (α : Type) extends Add α, Sub α, Mul α, Div α, Neg α, LT α, LE α, BEq α,
    OfScientific α where
  /-- strict comparison is decidable -/
  decLt : DecidableLT α
  /-- comparison is decidable -/
  decLe : DecidableLE α
  /-- the scalar nearest to a natural number -/
  ofNat : Nat → α
  /-- absolute value -/
  abs : α → α
  /-- square root -/
  sqrt : α → α
  /-- neither infinite nor undefined -/
  isFinite : α → Bool
  /-- a total order that extends `≤` to every value, used wherever scalars are sorted -/
  totalLe : α → α → Bool

namespace Scalar

variable {α : Type} [Scalar α]

instance : DecidableLT α := Scalar.decLt
instance : DecidableLE α := Scalar.decLe

/-- The smaller of two scalars. An undefined argument is ignored in favour of the other one, and
of two equal arguments the first is returned. -/
protected def min (a b : α) : α := if b < a then b else if a == a then a else b

/-- The larger of two scalars, with the conventions of `Scalar.min`. -/
protected def max (a b : α) : α := if a < b then b else if a == a then a else b

/-- The nearest value between two bounds; an undefined value stays as it is. -/
def clamp (x lo hi : α) : α := if x < lo then lo else if hi < x then hi else x

/-- Zero, the start of every sum. -/
protected def zero : α := 0.0

/-- The sum of a list, added from the left. -/
def sum (xs : List α) : α := xs.foldl (· + ·) 0.0

/-- The largest member of a list, at least zero. -/
def maxFromZero (xs : List α) : α := xs.foldl Scalar.max 0.0

/-- The smallest member of a list, if there is one. -/
def minimum? : List α → Option α
  | [] => none
  | x :: xs => some (xs.foldl Scalar.min x)

/-- The largest member of a list, if there is one. -/
def maximum? : List α → Option α
  | [] => none
  | x :: xs => some (xs.foldl Scalar.max x)

/-- The sign carried by a number, as a factor applied to `magnitude`: a negative zero counts as
negative. -/
def withSignOf (magnitude x : α) : α :=
  if x < 0.0 then -magnitude else if (1.0 / x : α) < 0.0 then -magnitude else magnitude

/-- The middle of a non-empty sorted list; a list of even length has two middle members, and their
mean is taken. -/
def middle? (sorted : List α) : Option α :=
  let half := sorted.length / 2
  if sorted.length % 2 == 1 then sorted[half]?
  else match sorted[half - 1]?, sorted[half]? with
    | some a, some b => some ((a + b) / 2.0)
    | _, _ => none

end Scalar

/-- The wide type in which intermediate results of the geometry over `α` are computed. -/
class Widening (α : Type) (ω : outParam Type) where
  /-- every narrow value is a wide one -/
  widen : α → ω
  /-- the narrow value nearest to a wide one -/
  narrow : ω → α

export Widening (widen narrow)

/-- The functions needed for circular arcs and for the roots of cubics. -/
class Trigonometry (ω : Type) where
  /-- half a turn, in radians -/
  pi : ω
  /-- sine -/
  sin : ω → ω
  /-- cosine -/
  cos : ω → ω
  /-- tangent -/
  tan : ω → ω
  /-- the angle in the upper half turn with the given cosine -/
  arccos : ω → ω
  /-- cube root, of the sign of its argument -/
  cbrt : ω → ω

/-! ## The two floating point widths -/

/-- Position of a single precision number in the total order of all its values: undefined values
with a sign bit first, then the numbers, with the negative zero before the positive one. -/
def totalKey32 (x : Float32) : Int :=
  let bits := x.toBits.toNat
  if bits < 0x80000000 then (bits : Int) else (0x80000000 : Int) - 1 - bits

/-- Position of a double precision number in the total order of all its values. -/
def totalKey64 (x : Float) : Int :=
  let bits := x.toBits.toNat
  if bits < 0x8000000000000000 then (bits : Int) else (0x8000000000000000 : Int) - 1 - bits

instance : Scalar Float32 where
  decLt := inferInstance
  decLe := inferInstance
  ofNat := Float32.ofNat
  abs := Float32.abs
  sqrt := Float32.sqrt
  isFinite := Float32.isFinite
  totalLe a b := decide (totalKey32 a ≤ totalKey32 b)

instance : Scalar Float where
  decLt := inferInstance
  decLe := inferInstance
  ofNat := Float.ofNat
  abs := Float.abs
  sqrt := Float.sqrt
  isFinite := Float.isFinite
  totalLe a b := decide (totalKey64 a ≤ totalKey64 b)

instance : Widening Float32 Float where
  widen := Float32.toFloat
  narrow := Float.toFloat32

instance : Trigonometry Float where
  pi := Float.ofBits 0x400921FB54442D18
  sin := Float.sin
  cos := Float.cos
  tan := Float.tan
  arccos := Float.acos
  cbrt := Float.cbrt

end Flowchart
