import Mathlib.Analysis.Complex.Norm
import Mathlib.Analysis.SpecialFunctions.Pow.Real
import Mathlib.Analysis.SpecialFunctions.Trigonometric.Inverse
import Flowchart.Geometry.Point
import Flowchart.Proofs.Scalar.Exact

/-!
# Real scalars

Distances between points are square roots, which rational numbers do not have. Over the real numbers
every function that the geometry takes is exact, and the plane of the drawing is the plane of
complex numbers with its distance. So what is said about how far points are apart is said about this
reading.
-/

namespace Flowchart

noncomputable section

instance : SquareRoot ℝ := ⟨Real.sqrt⟩

/-- Exact scalars are as wide as they need to be. -/
instance : Widening ℝ ℝ := ⟨id, id⟩

instance : Trigonometry ℝ where
  pi := Real.pi
  sin := Real.sin
  cos := Real.cos
  tan := Real.tan
  arccos := Real.arccos
  cbrt x := SignType.sign x * |x| ^ (1.0 / 3.0 : ℝ)

end

namespace Point

variable {p q : Point ℝ}

/-- A position as a complex number. -/
def toComplex (p : Point ℝ) : ℂ := ⟨p.x, p.y⟩

theorem distance_eq_norm (p q : Point ℝ) : p.distance q = ‖q.toComplex - p.toComplex‖ := by
  rw [Complex.norm_eq_sqrt_sq_add_sq, sq, sq]
  rfl

theorem distance_self (p : Point ℝ) : p.distance p = 0 := by
  rw [distance_eq_norm, sub_self, norm_zero]

theorem distance_nonneg (p q : Point ℝ) : 0 ≤ p.distance q := by
  rw [distance_eq_norm]
  exact norm_nonneg _

theorem distance_comm (p q : Point ℝ) : p.distance q = q.distance p := by
  rw [distance_eq_norm, distance_eq_norm, norm_sub_rev]

theorem distance_triangle (p q r : Point ℝ) : p.distance r ≤ p.distance q + q.distance r := by
  rw [add_comm]
  simp only [distance_eq_norm]
  exact norm_sub_le_norm_sub_add_norm_sub _ _ _

/-- Points are at least as far apart as either of their coordinates. -/
theorem abs_sub_le_distance (p q : Point ℝ) :
    |q.x - p.x| ≤ p.distance q ∧ |q.y - p.y| ≤ p.distance q := by
  rw [distance_eq_norm]
  exact ⟨Complex.abs_re_le_norm (q.toComplex - p.toComplex),
    Complex.abs_im_le_norm (q.toComplex - p.toComplex)⟩

theorem eq_of_distance_eq_zero (h : p.distance q = 0) : p = q := by
  have hcoordinates := abs_sub_le_distance p q
  rw [h, abs_nonpos_iff, abs_nonpos_iff, sub_eq_zero, sub_eq_zero] at hcoordinates
  cases p
  cases q
  rw [mk.injEq]
  exact ⟨hcoordinates.1.symm, hcoordinates.2.symm⟩

theorem distance_of_x_eq (h : p.x = q.x) : p.distance q = |q.y - p.y| := by
  change Real.sqrt ((q.x - p.x) * (q.x - p.x) + (q.y - p.y) * (q.y - p.y)) = _
  rw [h, sub_self, mul_zero, zero_add, Real.sqrt_mul_self_eq_abs]

theorem distance_of_y_eq (h : p.y = q.y) : p.distance q = |q.x - p.x| := by
  change Real.sqrt ((q.x - p.x) * (q.x - p.x) + (q.y - p.y) * (q.y - p.y)) = _
  rw [h, sub_self, mul_zero, add_zero, Real.sqrt_mul_self_eq_abs]

end Point

end Flowchart
