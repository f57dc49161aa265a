import Flowchart.Proofs.Boxes.Overlap

/-!
# Along an axis

What is done along the two axes of the plane is mostly the same with the coordinates exchanged. A
point has a coordinate on each axis, and a box begins and ends somewhere on each.
-/

namespace Flowchart

/-- One of the two directions in which a box has an extent. -/
inductive Axis where
  /-- from left to right -/
  | horizontal
  /-- from top to bottom -/
  | vertical
  deriving DecidableEq

/-- Where a point is on an axis. -/
def Point.coord (p : Point ℚ) : Axis → ℚ
  | .horizontal => p.x
  | .vertical => p.y

namespace Axis

/-- The axis across. -/
def other : Axis → Axis
  | horizontal => vertical
  | vertical => horizontal

/-- The point with given coordinates on the axis and on the other one. -/
def point (along across : ℚ) : Axis → Point ℚ
  | horizontal => ⟨along, across⟩
  | vertical => ⟨across, along⟩

variable {axis : Axis} {along across : ℚ} {P : Axis → Prop}

@[simp] theorem coord_point (axis : Axis) (along across : ℚ) :
    (axis.point along across).coord axis = along := by
  cases axis <;> rfl

@[simp] theorem coord_other_point (axis : Axis) (along across : ℚ) :
    (axis.point along across).coord axis.other = across := by
  cases axis <;> rfl

@[simp] theorem other_other (axis : Axis) : axis.other.other = axis := by
  cases axis <;> rfl

/-- There are no axes but one and the other. -/
theorem eq_or_eq_other (axis across : Axis) : across = axis ∨ across = axis.other := by
  cases axis <;> cases across <;> simp [other]

theorem forall_iff (axis : Axis) : (∀ x, P x) ↔ P axis ∧ P axis.other := by
  refine ⟨fun h => ⟨h _, h _⟩, fun ⟨h, h'⟩ x => ?_⟩
  obtain rfl | rfl := axis.eq_or_eq_other x
  · exact h
  · exact h'

end Axis

namespace Rect

variable {r s : Rect ℚ} {p : Point ℚ}

/-- Where a box begins. -/
def low (r : Rect ℚ) : Axis → ℚ
  | .horizontal => r.x
  | .vertical => r.y

/-- Where a box ends. -/
def high (r : Rect ℚ) : Axis → ℚ
  | .horizontal => r.right
  | .vertical => r.bottom

/-- Where the centre of a box is. -/
def middle (r : Rect ℚ) (axis : Axis) : ℚ := r.center.coord axis

theorem middle_eq (r : Rect ℚ) (axis : Axis) : r.middle axis = (r.low axis + r.high axis) / 2 := by
  cases axis <;>
    simp only [middle, Point.coord, center, low, high, right, bottom, Scalar.lit_two] <;> ring

theorem low_translate (r : Rect ℚ) (axis : Axis) (amount : ℚ) :
    (r.translate (axis.point amount 0)).low axis = r.low axis + amount := by
  cases axis <;> rfl

/-- A point is inside a box if it is between the ends of the box on both axes. -/
theorem contains_iff :
    r.contains p = true ↔ ∀ axis, r.low axis < p.coord axis ∧ p.coord axis < r.high axis := by
  rw [Axis.forall_iff .horizontal, contains]
  simp only [Bool.and_eq_true, decide_eq_true_eq, and_assoc]
  rfl

theorem contains_eq_false_iff :
    r.contains p = false ↔ ∃ axis, p.coord axis ≤ r.low axis ∨ r.high axis ≤ p.coord axis := by
  rw [← Bool.not_eq_true, contains_iff]
  simp only [not_forall, not_and_or, not_lt]

theorem low_lt_high_of_intersects (h : r.intersects s = true) (axis : Axis) :
    r.low axis < s.high axis ∧ s.low axis < r.high axis := by
  obtain ⟨hleft, hright, htop, hbottom⟩ := intersects_iff.mp h
  cases axis
  · exact ⟨hleft, hright⟩
  · exact ⟨htop, hbottom⟩

theorem Within.low_le (h : r.Within s) (axis : Axis) : s.low axis ≤ r.low axis := by
  cases axis
  · exact h.left
  · exact h.top

theorem Within.high_le (h : r.Within s) (axis : Axis) : r.high axis ≤ s.high axis := by
  cases axis
  · exact h.right
  · exact h.bottom

end Rect

end Flowchart
