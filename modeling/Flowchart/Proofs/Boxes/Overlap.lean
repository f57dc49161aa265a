import Flowchart.Proofs.Scalar.Exact
import Flowchart.Layout.Boxes

/-!
# Boxes within boxes

Two boxes that lie within others can only overlap if these do. A box around a content has every part
of the content within it, and a box that was put outside another one does not overlap it.
-/

namespace Flowchart

/-- No point of the box lies outside the other one. -/
structure Rect.Within {α : Type} [Scalar α] (r outer : Rect α) : Prop where
  left : outer.x ≤ r.x
  right : r.right ≤ outer.right
  top : outer.y ≤ r.y
  bottom : r.bottom ≤ outer.bottom

variable {α : Type} [Field α] [LinearOrder α] [SquareRoot α] {r s t outer : Rect α}

namespace Rect

namespace Within

theorem refl (r : Rect α) : r.Within r := ⟨le_rfl, le_rfl, le_rfl, le_rfl⟩

theorem trans (h : r.Within s) (h' : s.Within t) : r.Within t :=
  ⟨h'.left.trans h.left, h.right.trans h'.right, h'.top.trans h.top, h.bottom.trans h'.bottom⟩

theorem width_le [IsStrictOrderedRing α] (h : r.Within outer) : r.width ≤ outer.width := by
  have hright : r.x + r.width ≤ outer.x + outer.width := h.right
  linarith [h.left]

theorem height_le [IsStrictOrderedRing α] (h : r.Within outer) : r.height ≤ outer.height := by
  have hbottom : r.y + r.height ≤ outer.y + outer.height := h.bottom
  linarith [h.top]

end Within

/-! ## Overlap -/

theorem intersects_iff : r.intersects s = true ↔
    r.x < s.right ∧ s.x < r.right ∧ r.y < s.bottom ∧ s.y < r.bottom := by
  simp only [intersects, Bool.and_eq_true, decide_eq_true_eq, and_assoc]

/-- Boxes around overlapping ones overlap, so two boxes that do not overlap have no content in
common. -/
theorem Within.intersects {r' s' : Rect α} (hr : r.Within r') (hs : s.Within s')
    (h : r.intersects s = true) : r'.intersects s' = true := by
  obtain ⟨hleft, hright, htop, hbottom⟩ := intersects_iff.mp h
  exact intersects_iff.mpr ⟨hr.left.trans_lt (hleft.trans_le hs.right),
    hs.left.trans_lt (hright.trans_le hr.right), hr.top.trans_lt (htop.trans_le hs.bottom),
    hs.top.trans_lt (hbottom.trans_le hr.bottom)⟩

/-- Boxes within others that are apart are apart. -/
theorem Within.apart {r' s' : Rect α} (hr : r.Within r') (hs : s.Within s')
    (h : r'.intersects s' = false) : r.intersects s = false := by
  rw [Bool.eq_false_iff] at h ⊢
  exact mt (hr.intersects hs) h

/-- Boxes that are moved alike overlap as before. -/
theorem intersects_translate [IsStrictOrderedRing α] (r s : Rect α) (d : Point α) :
    (r.translate d).intersects (s.translate d) = r.intersects s := by
  have hshift : ∀ a b w c : α, a + c < b + c + w ↔ a < b + w := fun a b w c => by
    rw [add_right_comm, add_lt_add_iff_right]
  rw [Bool.eq_iff_iff, intersects_iff, intersects_iff]
  simp only [translate, Rect.right, Rect.bottom, hshift]

theorem translate_zero (r : Rect α) : r.translate ⟨0, 0⟩ = r := by
  simp only [translate, add_zero]

theorem translate_translate (r : Rect α) (d e : Point α) :
    (r.translate d).translate e = r.translate (d.add e) := by
  simp only [translate, Point.add, add_assoc]

/-! ## Boxes around others -/

theorem within_union_left (r s : Rect α) : r.Within (r.union s) := by
  simp only [union, ofBounds, Scalar.min_eq, Scalar.max_eq]
  exact ⟨min_le_left _ _, by simp [Rect.right], min_le_left _ _, by simp [Rect.bottom]⟩

theorem within_union_right (r s : Rect α) : s.Within (r.union s) := by
  simp only [union, ofBounds, Scalar.min_eq, Scalar.max_eq]
  exact ⟨min_le_right _ _, by simp [Rect.right], min_le_right _ _, by simp [Rect.bottom]⟩

theorem within_foldl_union (rs : List (Rect α)) (s : Rect α) :
    s.Within (rs.foldl union s) ∧ ∀ r ∈ rs, r.Within (rs.foldl union s) := by
  induction rs generalizing s with
  | nil => exact ⟨.refl s, nofun⟩
  | cons r rs ih =>
    obtain ⟨hstart, hrest⟩ := ih (s.union r)
    exact ⟨(within_union_left s r).trans hstart,
      List.forall_mem_cons.mpr ⟨(within_union_right s r).trans hstart, hrest⟩⟩

/-- The box around some boxes has each of them within it. -/
theorem exists_unionAll {rs : List (Rect α)} (hr : r ∈ rs) :
    ∃ outer, unionAll? rs = some outer ∧ r.Within outer := by
  cases rs with
  | nil => cases hr
  | cons s rs =>
    obtain ⟨hstart, hrest⟩ := within_foldl_union rs s
    refine ⟨_, rfl, ?_⟩
    rcases List.mem_cons.mp hr with rfl | hr
    · exact hstart
    · exact hrest r hr

end Rect

variable [IsStrictOrderedRing α]

theorem PlacedBlock.hasBox_iff {b : PlacedBlock α} :
    b.hasBox = true ↔ 0 < b.box.width ∧ 0 < b.box.height := by
  simp [PlacedBlock.hasBox]

/-- A block around a box of positive size has a box of positive size. -/
theorem Rect.Within.hasBox {b : PlacedBlock α} (h : r.Within b.box) (hwidth : 0 < r.width)
    (hheight : 0 < r.height) : b.hasBox = true :=
  PlacedBlock.hasBox_iff.mpr ⟨hwidth.trans_le h.width_le, hheight.trans_le h.height_le⟩

namespace BoxState

variable {spacing : BoxSpacing α} {title gap : α}

/-- Padding and room for a title are added around the content. -/
theorem within_wrap (hpadding : 0 ≤ spacing.padding) (htitle : 0 ≤ title) (r : Rect α) :
    r.Within (wrap spacing title r) := by
  constructor <;> simp only [wrap, Rect.right, Rect.bottom, Scalar.lit_two] <;> linarith

/-- A box that was put outside another one is apart from it. -/
theorem pushOutside_apart (hgap : 0 ≤ gap) (outer r : Rect α) :
    (pushOutside gap outer r).intersects outer = false := by
  rw [Bool.eq_false_iff, ne_eq, Rect.intersects_iff]
  rintro ⟨hleft, hright, htop, hbottom⟩
  unfold pushOutside at hleft hright htop hbottom
  simp only [Rect.right, Rect.bottom] at hleft hright htop hbottom
  split at hleft
  · -- it was put to the right or to the left
    rename_i haxis
    simp only [if_pos haxis] at hright
    split at hleft
    · linarith
    · rename_i hside
      rw [if_neg hside] at hright
      linarith
  · -- it was put below or above
    rename_i haxis
    simp only [if_neg haxis] at htop hbottom
    split at htop
    · linarith
    · rename_i hside
      rw [if_neg hside] at hbottom
      linarith

end BoxState

end Flowchart
