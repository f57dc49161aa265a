import Mathlib.Algebra.Order.Field.Basic
import Mathlib.Algebra.Order.Field.Rat
import Mathlib.Data.Rat.Sqrt
import Mathlib.Order.Interval.Set.Defs
import Mathlib.Tactic.Linarith
import Mathlib.Tactic.NormNum
import Mathlib.Tactic.Ring
import Flowchart.Scalar

/-!
# Exact scalars

The numbers of an ordered field are never rounded, and every operation on positions has the laws one
expects of it. Rational numbers can be computed, real numbers have all square roots; what is said of
any ordered field holds for both.

The square root is the one operation that a field need not have. Routes take it where a corner is
pulled back from an arrow head and where a label is put beside its connection, so over the rational
numbers, where `Rat.sqrt 2 = 1`, these points are not where real numbers would put them. What
depends on distances is said over the real numbers, and what holds wherever the points lie is said
for every square root.
-/

namespace Flowchart

/-- Rational numbers with their own operations, which can be computed. -/
instance : Scalar ℚ where
  decLt := inferInstance
  decLe := inferInstance
  ofNat := Nat.cast
  abs a := if a ≤ -a then -a else a
  sqrt := Rat.sqrt
  isFinite _ := true
  totalLe a b := decide (a ≤ b)

/-- A field that comes with a square root, which may or may not be exact. -/
class SquareRoot (α : Type) where
  /-- the square root -/
  sqrt : α → α

instance : SquareRoot ℚ := ⟨Rat.sqrt⟩

/-- The numbers of an ordered field are scalars. For rational numbers these are the operations they
have anyway. -/
instance (priority := low) exactScalar {α : Type} [Field α] [LinearOrder α] [SquareRoot α] :
    Scalar α where
  decLt := inferInstance
  decLe := inferInstance
  ofNat := Nat.cast
  abs a := if a ≤ -a then -a else a
  sqrt := SquareRoot.sqrt
  isFinite _ := true
  totalLe a b := decide (a ≤ b)

namespace Scalar

variable {α : Type} [Field α] [LinearOrder α] [SquareRoot α] {a b x lo hi : α} {xs : List α}

/-! ## Smallest and largest -/

@[simp] theorem min_eq (a b : α) : Scalar.min a b = min a b := by
  rw [Scalar.min, min_def]
  by_cases h : b < a
  · rw [if_pos h, if_neg (not_le.mpr h)]
  · rw [if_neg h, if_pos (not_lt.mp h), if_pos (beq_self_eq_true a)]

@[simp] theorem max_eq (a b : α) : Scalar.max a b = max a b := by
  rw [Scalar.max, max_def]
  by_cases h : a < b
  · rw [if_pos h, if_pos h.le]
  · rw [if_neg h, if_pos (beq_self_eq_true a)]
    split
    · exact le_antisymm ‹a ≤ b› (not_lt.mp h)
    · rfl

@[simp] theorem abs_eq (a : α) : Scalar.abs a = |a| := by
  change (if a ≤ -a then -a else a) = |a|
  rw [abs_eq_max_neg, max_def]

/-- A clamped number lies between its bounds, if these are in order. -/
theorem clamp_mem_Icc (h : lo ≤ hi) : clamp x lo hi ∈ Set.Icc lo hi := by
  unfold clamp
  split
  · exact ⟨le_rfl, h⟩
  · split
    · exact ⟨h, le_rfl⟩
    · exact ⟨not_lt.mp ‹_›, not_lt.mp ‹_›⟩

/-- and it stays as it is if it did so before. -/
theorem clamp_eq_self (h : x ∈ Set.Icc lo hi) : clamp x lo hi = x := by
  rw [clamp, if_neg h.1.not_gt, if_neg h.2.not_gt]

theorem le_foldl_max (xs : List α) (a : α) :
    a ≤ xs.foldl Scalar.max a ∧ ∀ x ∈ xs, x ≤ xs.foldl Scalar.max a := by
  induction xs generalizing a with
  | nil => exact ⟨le_rfl, nofun⟩
  | cons x xs ih =>
    rw [List.foldl_cons, max_eq]
    obtain ⟨hle, hall⟩ := ih (max a x)
    refine ⟨(le_max_left a x).trans hle, fun y hy => ?_⟩
    rcases List.mem_cons.mp hy with rfl | hy
    · exact (le_max_right a y).trans hle
    · exact hall y hy

theorem foldl_min_le (xs : List α) (a : α) :
    xs.foldl Scalar.min a ≤ a ∧ ∀ x ∈ xs, xs.foldl Scalar.min a ≤ x := by
  induction xs generalizing a with
  | nil => exact ⟨le_rfl, nofun⟩
  | cons x xs ih =>
    rw [List.foldl_cons, min_eq]
    obtain ⟨hle, hall⟩ := ih (min a x)
    refine ⟨hle.trans (min_le_left a x), fun y hy => ?_⟩
    rcases List.mem_cons.mp hy with rfl | hy
    · exact hle.trans (min_le_right a y)
    · exact hall y hy

theorem le_maxFromZero (h : x ∈ xs) : x ≤ maxFromZero xs := (le_foldl_max xs 0.0).2 x h

theorem minimum?_le (h : minimum? xs = some a) (hx : x ∈ xs) : a ≤ x := by
  cases xs with
  | nil => cases hx
  | cons y xs =>
    obtain rfl := Option.some.inj h
    rcases List.mem_cons.mp hx with rfl | hx
    · exact (foldl_min_le xs x).1
    · exact (foldl_min_le xs y).2 x hx

/-! ## Literals -/

variable [IsStrictOrderedRing α]

@[simp] theorem lit_zero : (0.0 : α) = 0 := by norm_num

@[simp] theorem lit_one : (1.0 : α) = 1 := by norm_num

@[simp] theorem lit_two : (2.0 : α) = 2 := by norm_num

theorem sum_eq (xs : List α) : Scalar.sum xs = xs.sum := by
  rw [Scalar.sum, lit_zero, List.sum_eq_foldl]

theorem maxFromZero_nonneg (xs : List α) : 0 ≤ maxFromZero xs :=
  lit_zero.ge.trans (le_foldl_max xs 0.0).1

end Scalar

end Flowchart
