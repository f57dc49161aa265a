import Flowchart.Scalar
import Mathlib.Algebra.Order.Group.Unbundled.Abs
import Mathlib.Algebra.Order.Ring.Int

/-!
# Scalars read as whole numbers

Weights and cut values are scalars. Where they are whole numbers that are not too large the
scalars add them without rounding, and what is proved about whole numbers holds of the scalars. A
`WholeReading` says which scalars are whole numbers and up to what bound this is so.
-/

namespace Flowchart

/-- A way to read some scalars as whole numbers, by which a sum is exact as long as it is not larger
than a bound. -/
structure WholeReading (α : Type) [Scalar α] where
  /-- the scalar is this whole number -/
  Reads : α → Int → Prop
  /-- up to which sums are exact -/
  bound : Int
  add : ∀ {x y a b}, Reads x a → Reads y b → |a + b| ≤ bound → Reads (x + y) (a + b)
  neg : ∀ {x a}, Reads x a → Reads (-x) (-a)
  lt_zero : ∀ {x a}, Reads x a → (x < 0.0 ↔ a < 0)

end Flowchart
