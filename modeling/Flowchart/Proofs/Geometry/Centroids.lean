import Flowchart.Proofs.Geometry.Polygons

/-!
# Centroids of the polygonal shapes

The centroid of a polygonal shape is at fixed shares of its box, like the corners. The box of an
area below the tolerance is taken for one without an area, and its middle stands for the centroid.
-/

namespace Flowchart

variable {corners shares : List (Point ℝ)} {shape : Shape} {b : Rect ℝ} {p q : Point ℝ}

/-! ## The middle of the control points -/

/-- Left, top, right and bottom edge of the smallest box around the points. -/
structure Bounds (points : List (Point ℝ)) (box : ℝ × ℝ × ℝ × ℝ) : Prop where
  around : ∀ p ∈ points, (box.1 ≤ p.x ∧ p.x ≤ box.2.2.1) ∧ box.2.1 ≤ p.y ∧ p.y ≤ box.2.2.2
  left : ∃ p ∈ points, p.x = box.1
  top : ∃ p ∈ points, p.y = box.2.1
  right : ∃ p ∈ points, p.x = box.2.2.1
  bottom : ∃ p ∈ points, p.y = box.2.2.2

theorem exists_mem_concat {points : List (Point ℝ)} {f : Point ℝ → ℝ} {l m : ℝ}
    (h : ∃ p ∈ points, f p = l) (hm : m = l ∨ m = f q) : ∃ p ∈ points ++ [q], f p = m := by
  obtain ⟨p, hp, rfl⟩ := h
  rcases hm with rfl | rfl
  exacts [⟨p, List.mem_append_left _ hp, rfl⟩,
    ⟨q, List.mem_append_right _ (List.mem_singleton_self q), rfl⟩]

/-- Bounds of some points and one more point bound all of them together. -/
theorem Bounds.concat {points : List (Point ℝ)} {l t r m : ℝ} (h : Bounds points (l, t, r, m))
    (q : Point ℝ) :
    Bounds (points ++ [q]) (min l q.x, min t q.y, max r q.x, max m q.y) where
  around p hp := by
    rcases List.mem_append.mp hp with hp | hp
    · obtain ⟨⟨hl, hr⟩, ht, hm⟩ := h.around p hp
      exact ⟨⟨(min_le_left _ _).trans hl, hr.trans (le_max_left _ _)⟩, (min_le_left _ _).trans ht,
        hm.trans (le_max_left _ _)⟩
    · obtain rfl := List.mem_singleton.mp hp
      exact ⟨⟨min_le_right _ _, le_max_right _ _⟩, min_le_right _ _, le_max_right _ _⟩
  left := exists_mem_concat h.left (min_choice _ _)
  top := exists_mem_concat h.top (min_choice _ _)
  right := exists_mem_concat h.right (max_choice _ _)
  bottom := exists_mem_concat h.bottom (max_choice _ _)

/-- The control box is the smallest box around the control points. -/
theorem controlBounds?_spec {segments : List (Segment ℝ)}
    (hne : segments.flatMap Segment.controls ≠ []) :
    ∃ box, controlBounds? segments = some box ∧ Bounds (segments.flatMap Segment.controls) box := by
  rw [controlBounds?]
  obtain ⟨p, ps, hcons⟩ := List.exists_cons_of_ne_nil hne
  rw [hcons]
  refine ⟨_, rfl, ?_⟩
  have hfold : ∀ (ps seen : List (Point ℝ)) (box : ℝ × ℝ × ℝ × ℝ), Bounds seen box →
      Bounds (seen ++ ps) (ps.foldl (fun (l, t, r, b) q =>
        (Scalar.min l q.x, Scalar.min t q.y, Scalar.max r q.x, Scalar.max b q.y)) box) := by
    intro ps
    induction ps with
    | nil =>
      intro seen box h
      rwa [List.append_nil]
    | cons q ps ih =>
      rintro seen ⟨l, t, r, m⟩ h
      rw [List.foldl_cons, List.append_cons]
      refine ih _ _ ?_
      simp only [Scalar.min_eq, Scalar.max_eq]
      exact h.concat q
  refine hfold ps [p] _ ⟨?_, ?_, ?_, ?_, ?_⟩
  all_goals simp

theorem mem_controls : p ∈ (polygonOutline corners).flatMap Segment.controls ↔ p ∈ corners := by
  simp only [polygonOutline, List.mem_flatMap, List.mem_map, exists_exists_and_eq_and,
    Segment.controls, List.mem_pair]
  constructor
  · rintro ⟨e, he, rfl | rfl⟩
    exacts [(mem_of_mem_closedEdges he).1, (mem_of_mem_closedEdges he).2]
  · intro hp
    obtain ⟨e, he, rfl⟩ := List.mem_map.mp ((map_fst_closedEdges corners).symm ▸ hp)
    exact ⟨e, he, .inl rfl⟩

/-- The control box of a polygon that fills a box is that box. -/
theorem Fills.controlBounds? (h : Fills shares) (hwidth : 0 < b.width) (hheight : 0 < b.height) :
    controlBounds? (polygonOutline (shares.map b.at)) =
      some (b.x, b.y, b.x + b.width, b.y + b.height) := by
  have hmem : ∀ {p}, p ∈ (polygonOutline (shares.map b.at)).flatMap Segment.controls ↔
      ∃ s ∈ shares, b.at s = p := mem_controls.trans List.mem_map
  obtain ⟨s₀, hs₀, -⟩ := h.left
  obtain ⟨⟨l, t, r, m⟩, hbox, hbounds⟩ :=
    controlBounds?_spec (List.ne_nil_of_mem (hmem.mpr ⟨s₀, hs₀, rfl⟩))
  have haround : ∀ s ∈ shares, (l ≤ (b.at s).x ∧ (b.at s).x ≤ r) ∧ t ≤ (b.at s).y ∧ (b.at s).y ≤ m :=
    fun s hs => hbounds.around _ (hmem.mpr ⟨s, hs, rfl⟩)
  have hinside : ∀ p ∈ (polygonOutline (shares.map b.at)).flatMap Segment.controls,
      (b.x ≤ p.x ∧ p.x ≤ b.x + b.width) ∧ b.y ≤ p.y ∧ p.y ≤ b.y + b.height := by
    intro p hp
    obtain ⟨s, hs, rfl⟩ := hmem.mp hp
    obtain ⟨⟨hx0, hx1⟩, hy0, hy1⟩ := h.within s hs
    have hx0 := mul_nonneg hx0 hwidth.le
    have hx1 := mul_le_of_le_one_left hwidth.le hx1
    have hy0 := mul_nonneg hy0 hheight.le
    have hy1 := mul_le_of_le_one_left hheight.le hy1
    refine ⟨⟨?_, ?_⟩, ?_, ?_⟩ <;> simp only [Rect.at] <;> linarith
  have hleft : l = b.x := by
    obtain ⟨s, hs, hzero⟩ := h.left
    obtain ⟨p, hp, rfl⟩ := hbounds.left
    refine le_antisymm ((haround s hs).1.1.trans_eq ?_) (hinside p hp).1.1
    simp [Rect.at, hzero]
  have htop : t = b.y := by
    obtain ⟨s, hs, hzero⟩ := h.top
    obtain ⟨p, hp, rfl⟩ := hbounds.top
    refine le_antisymm ((haround s hs).2.1.trans_eq ?_) (hinside p hp).2.1
    simp [Rect.at, hzero]
  have hright : r = b.x + b.width := by
    obtain ⟨s, hs, hone⟩ := h.right
    obtain ⟨p, hp, rfl⟩ := hbounds.right
    refine le_antisymm (hinside p hp).1.2 (Eq.trans_le ?_ (haround s hs).1.2)
    simp [Rect.at, hone]
  have hbottom : m = b.y + b.height := by
    obtain ⟨s, hs, hone⟩ := h.bottom
    obtain ⟨p, hp, rfl⟩ := hbounds.bottom
    refine le_antisymm (hinside p hp).2.2 (Eq.trans_le ?_ (haround s hs).2.2)
    simp [Rect.at, hone]
  rw [hbox, hleft, htop, hright, hbottom]

/-! ## The centroid -/

/-- Twice the area of a polygon and six times its first moments, added up over the edges. -/
noncomputable def moments (corners : List (Point ℝ)) : ℝ × ℝ × ℝ :=
  (closedEdges corners).foldl (fun ((area, cx, cy) : ℝ × ℝ × ℝ) ((p, q) : Point ℝ × Point ℝ) =>
    let f := p.x * q.y - q.x * p.y
    (area + f, cx + (p.x + q.x) * f, cy + (p.y + q.y) * f)) (0.0, 0.0, 0.0)

theorem contourPolygon_polygonOutline (corners : List (Point ℝ)) :
    contourPolygon (polygonOutline corners) = corners := by
  calc contourPolygon (polygonOutline corners)
      = (closedEdges corners).flatMap fun e => [e.1] := by
        rw [contourPolygon, polygonOutline, List.flatMap_map]
    _ = (closedEdges corners).map Prod.fst := by rw [List.map_eq_flatMap]
    _ = corners := map_fst_closedEdges corners

/-- The shapes fill at least half of their box. -/
theorem Shape.moments_at (h : shape.shares? = some shares) (b : Rect ℝ) :
    ∃ k : ℝ, 1 ≤ k ∧ moments (shares.map b.at) =
      (k * (b.width * b.height), (b.at shape.middle).x * (3 * (k * (b.width * b.height))),
        (b.at shape.middle).y * (3 * (k * (b.width * b.height)))) := by
  cases shape <;> cases h
  case' rectangle | subroutine => refine ⟨2, by norm_num, ?_⟩
  case' diamond => refine ⟨1, by norm_num, ?_⟩
  case' hexagon => refine ⟨3 / 2, by norm_num, ?_⟩
  case' parallelogram | parallelogramAlt | trapezoid | trapezoidAlt =>
    refine ⟨41 / 25, by norm_num, ?_⟩
  case' asymmetric => refine ⟨89 / 50, by norm_num, ?_⟩
  all_goals
    simp only [moments, closedEdges, List.map_cons, List.map_nil, List.cons_append, List.nil_append,
      List.zip_cons_cons, List.zip_nil_right, List.foldl_cons, List.foldl_nil, Rect.at, Shape.middle,
      Scalar.lit_zero, Prod.mk.injEq]
    refine ⟨?_, ?_, ?_⟩ <;> ring

/-- The centroid of a polygonal shape, but for boxes that count as being without an area. -/
theorem Shape.centroid_eq (h : shape.shares? = some shares) (hwidth : 0 < b.width)
    (hheight : 0 < b.height) :
    centroid (polygonOutline (shares.map b.at)) = b.at shape.middle ∨
      b.width * b.height < 1e-6 ∧
        centroid (polygonOutline (shares.map b.at)) = b.at ⟨1 / 2, 1 / 2⟩ := by
  obtain ⟨k, hk, hmoments⟩ := Shape.moments_at h b
  have harea : 0 < b.width * b.height := mul_pos hwidth hheight
  have hkarea : 0 < k * (b.width * b.height) := by positivity
  have hfold : (closedEdges (shares.map b.at)).foldl
      (fun ((area, cx, cy) : ℝ × ℝ × ℝ) ((p, q) : Point ℝ × Point ℝ) =>
        let p : Point ℝ := p.widen
        let q : Point ℝ := q.widen
        let f := p.x * q.y - q.x * p.y
        (area + f, cx + (p.x + q.x) * f, cy + (p.y + q.y) * f)) (0.0, 0.0, 0.0) = _ := hmoments
  rw [centroid, contourPolygon_polygonOutline, hfold,
    (Shape.fills h).controlBounds? hwidth hheight]
  dsimp only
  split
  case isTrue hsmall =>
    rw [Scalar.abs_eq, abs_of_pos hkarea] at hsmall
    refine .inr ⟨(le_mul_of_one_le_left harea.le hk).trans_lt hsmall, ?_⟩
    simp only [Rect.at, Scalar.lit_two, Point.mk.injEq]
    constructor <;> ring
  case isFalse =>
    left
    have hthree : (3.0 : ℝ) = 3 := by norm_num
    have hne : 3 * (k * (b.width * b.height)) ≠ 0 := by positivity
    simp only [narrow, id, hthree, mul_div_cancel_right₀ _ hne]

end Flowchart
