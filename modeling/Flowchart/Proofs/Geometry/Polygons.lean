import Flowchart.Proofs.Geometry.Rays
import Flowchart.Geometry.Outline

/-!
# Polygons in a box

The corners of a polygonal shape are at fixed shares of its box, so whether a point is inside is
settled in the unit square. All of these polygons are convex, lie in their box, and touch each of
its sides.
-/

namespace Flowchart

/-! ## Closed polygons -/

section

variable {β γ : Type} {P : β → Prop} {R : β → β → Prop} {corners : List β} {a b p q : β}

/-- The edges of a polygon whose corners are mapped are the mapped edges. -/
theorem closedEdges_map (f : β → γ) (corners : List β) :
    closedEdges (corners.map f) = (closedEdges corners).map (Prod.map f f) := by
  cases corners with
  | nil => rfl
  | cons p ps =>
    change (f p :: ps.map f).zip (ps.map f ++ [f p]) = ((p :: ps).zip (ps ++ [p])).map (Prod.map f f)
    rw [← List.zip_map, List.map_cons, List.map_append, List.map_singleton]

/-- Every corner is the start of one edge, in order. -/
theorem map_fst_closedEdges (corners : List β) : (closedEdges corners).map Prod.fst = corners := by
  cases corners with
  | nil => rfl
  | cons p ps => exact List.map_fst_zip (by simp)

/-- What holds of all edges between two corners holds along the chain of the corners. -/
theorem isChain_of_zip {ps : List β} (h : ∀ e ∈ (p :: ps).zip (ps ++ [q]), R e.1 e.2) :
    (p :: (ps ++ [q])).IsChain R := by
  induction ps generalizing p with
  | nil => exact .cons_cons (h (p, q) (by simp)) (.singleton q)
  | cons r ps ih =>
    refine .cons_cons (h (p, r) (by simp)) (ih fun e he => h e ?_)
    rw [List.cons_append, List.zip_cons_cons]
    exact List.mem_cons_of_mem _ he

/-- What every edge carries from its start to its end holds of all corners if it holds of one: once
around, from the start of an edge to the first corner and from there on to the end of that edge. -/
theorem forall_of_closedEdges (hcarry : ∀ e ∈ closedEdges corners, P e.1 → P e.2) (ha : a ∈ corners)
    (hPa : P a) (hb : b ∈ corners) : P b := by
  cases corners with
  | nil => cases ha
  | cons p ps =>
    have hchain : (p :: (ps ++ [p])).IsChain fun a b => P a → P b := isChain_of_zip hcarry
    have htrans : IsTrans β fun a b => P a → P b := ⟨fun _ _ _ hab hbc => hbc ∘ hab⟩
    have hpairs := List.isChain_iff_pairwise.mp hchain
    obtain ⟨hfirst, hrest⟩ := List.pairwise_cons.mp hpairs
    have hPp : P p := by
      rcases List.mem_cons.mp ha with rfl | ha
      · exact hPa
      · exact (List.pairwise_append.mp hrest).2.2 a ha p (List.mem_singleton_self p) hPa
    rcases List.mem_cons.mp hb with rfl | hb
    · exact hPp
    · exact hfirst b (List.mem_append_left _ hb) hPp

/-- A polygon with corners on both sides has an edge from one to the other. -/
theorem exists_edge (ha : a ∈ corners) (hPa : P a) (hb : b ∈ corners) (hPb : ¬ P b) :
    ∃ e ∈ closedEdges corners, P e.1 ∧ ¬ P e.2 := by
  by_contra hnone
  refine hPb (forall_of_closedEdges (fun e he hP => ?_) ha hPa hb)
  by_contra hP'
  exact hnone ⟨e, he, hP, hP'⟩

end

variable {corners shares : List (Point ℝ)} {shape : Shape} {b : Rect ℝ} {p q : Point ℝ}

/-- The point is on the inner side of every edge. -/
def Inside (corners : List (Point ℝ)) (q : Point ℝ) : Prop :=
  ∀ e ∈ closedEdges corners, 0 < (e.2.sub e.1).cross (q.sub e.1)

/-! ## Shares of a box -/

/-- The point at given shares of a box, from its upper left corner. -/
def Rect.at (b : Rect ℝ) (s : Point ℝ) : Point ℝ := ⟨b.x + s.x * b.width, b.y + s.y * b.height⟩

/-- The shares at which the corners of a polygonal shape are. -/
noncomputable def Shape.shares? : Shape → Option (List (Point ℝ))
  | .rectangle | .subroutine => some [⟨0, 0⟩, ⟨1, 0⟩, ⟨1, 1⟩, ⟨0, 1⟩]
  | .diamond => some [⟨1 / 2, 0⟩, ⟨1, 1 / 2⟩, ⟨1 / 2, 1⟩, ⟨0, 1 / 2⟩]
  | .hexagon => some [⟨1 / 4, 0⟩, ⟨3 / 4, 0⟩, ⟨1, 1 / 2⟩, ⟨3 / 4, 1⟩, ⟨1 / 4, 1⟩, ⟨0, 1 / 2⟩]
  | .parallelogram => some [⟨9 / 50, 0⟩, ⟨1, 0⟩, ⟨41 / 50, 1⟩, ⟨0, 1⟩]
  | .parallelogramAlt => some [⟨0, 0⟩, ⟨41 / 50, 0⟩, ⟨1, 1⟩, ⟨9 / 50, 1⟩]
  | .trapezoid => some [⟨9 / 50, 0⟩, ⟨41 / 50, 0⟩, ⟨1, 1⟩, ⟨0, 1⟩]
  | .trapezoidAlt => some [⟨0, 0⟩, ⟨1, 0⟩, ⟨41 / 50, 1⟩, ⟨9 / 50, 1⟩]
  | .asymmetric => some [⟨0, 0⟩, ⟨39 / 50, 0⟩, ⟨1, 1 / 2⟩, ⟨39 / 50, 1⟩, ⟨0, 1⟩]
  | .roundRect | .stadium | .cylinder | .circle | .doubleCircle => none

/-- The shares at which the centroid of a polygonal shape is. -/
noncomputable def Shape.middle : Shape → Point ℝ
  | .trapezoid => ⟨1 / 2, 22 / 41⟩
  | .trapezoidAlt => ⟨1 / 2, 19 / 41⟩
  | .asymmetric => ⟨5971 / 13350, 1 / 2⟩
  | _ => ⟨1 / 2, 1 / 2⟩

/-- The corners of a polygonal shape lie at its shares of the box. -/
theorem Shape.corners?_eq (shape : Shape) (b : Rect ℝ) :
    shape.corners? b = shape.shares?.map (·.map b.at) := by
  cases shape <;> simp only [Shape.corners?, Shape.shares?, Rect.at, Option.map_some, Option.map_none,
    List.map_cons, List.map_nil, Option.some.injEq, List.cons.injEq, Point.mk.injEq, and_true] <;>
    norm_num
  all_goals (repeat' apply And.intro) <;> ring

/-- The point is in the unit square. -/
def InUnit (s : Point ℝ) : Prop := (0 ≤ s.x ∧ s.x ≤ 1) ∧ 0 ≤ s.y ∧ s.y ≤ 1

/-- The polygon lies in the unit square and touches each of its sides. Edges have at least a certain
extent along each axis they are not perpendicular to, and only points of the square are inside. -/
structure Fills (shares : List (Point ℝ)) : Prop where
  within : ∀ s ∈ shares, InUnit s
  left : ∃ s ∈ shares, s.x = 0
  right : ∃ s ∈ shares, s.x = 1
  top : ∃ s ∈ shares, s.y = 0
  bottom : ∃ s ∈ shares, s.y = 1
  wide : ∀ e ∈ closedEdges shares, e.1.x = e.2.x ∨ 9 / 50 ≤ |e.2.x - e.1.x|
  tall : ∀ e ∈ closedEdges shares, e.1.y = e.2.y ∨ 9 / 50 ≤ |e.2.y - e.1.y|
  inner : ∀ q, Inside shares q → (0 < q.x ∧ q.x < 1) ∧ 0 < q.y ∧ q.y < 1

/-- What it means to be inside is written out for one edge, as an inequality between coordinates. -/
theorem inside_cons_iff {a b : Point ℝ} {rest : List (Point ℝ × Point ℝ)} :
    (∀ e ∈ (a, b) :: rest, 0 < (e.2.sub e.1).cross (q.sub e.1)) ↔
      0 < (b.x - a.x) * (q.y - a.y) - (b.y - a.y) * (q.x - a.x) ∧
        ∀ e ∈ rest, 0 < (e.2.sub e.1).cross (q.sub e.1) :=
  List.forall_mem_cons

/-- What is inside a shape is inside the unit square. -/
theorem Shape.unit_of_inside (h : shape.shares? = some shares) (hq : Inside shares q) :
    (0 < q.x ∧ q.x < 1) ∧ 0 < q.y ∧ q.y < 1 := by
  unfold Inside at hq
  cases shape <;> cases h
  all_goals
    simp only [closedEdges, List.cons_append, List.nil_append, List.zip_cons_cons, List.zip_nil_right,
      inside_cons_iff] at hq
    refine ⟨⟨?_, ?_⟩, ?_, ?_⟩ <;> linarith only [hq]

/-- The corners of each shape lie in the unit square and reach each of its sides. -/
theorem Shape.fills (h : shape.shares? = some shares) : Fills shares := by
  have hinner : ∀ q, Inside shares q → (0 < q.x ∧ q.x < 1) ∧ 0 < q.y ∧ q.y < 1 := fun _ =>
    Shape.unit_of_inside h
  cases shape <;> cases h
  all_goals
    refine ⟨?_, ?_, ?_, ?_, ?_, ?_, ?_, hinner⟩ <;> simp [closedEdges, InUnit] <;>
      norm_num [abs_of_pos, abs_of_neg]

/-! ## Stretching the unit square -/

variable {s r : Point ℝ}

/-- The way between two shares of a box is stretched with the box. -/
theorem Rect.at_sub_at (b : Rect ℝ) (s r : Point ℝ) :
    (b.at s).sub (b.at r) = ⟨(s.x - r.x) * b.width, (s.y - r.y) * b.height⟩ := by
  simp only [Rect.at, Point.sub, Point.mk.injEq]
  constructor <;> ring

/-- Areas are stretched by the area of the box, so they keep their sign. -/
theorem cross_at (b : Rect ℝ) (s r q : Point ℝ) :
    ((b.at s).sub (b.at r)).cross ((b.at q).sub (b.at r)) =
      (s.sub r).cross (q.sub r) * (b.width * b.height) := by
  rw [Rect.at_sub_at, Rect.at_sub_at]
  simp only [Point.cross, Point.sub]
  ring

/-- A box with an inside has every point at some shares. -/
theorem Rect.exists_at (hwidth : 0 < b.width) (hheight : 0 < b.height) (p : Point ℝ) :
    ∃ s, b.at s = p := by
  refine ⟨⟨(p.x - b.x) / b.width, (p.y - b.y) / b.height⟩, ?_⟩
  simp only [Rect.at, div_mul_cancel₀ _ hwidth.ne', div_mul_cancel₀ _ hheight.ne', add_sub_cancel]

/-- A point is inside the shape in a box exactly if its shares are inside the shape in the unit
square. -/
theorem inside_at_iff (hwidth : 0 < b.width) (hheight : 0 < b.height) :
    Inside (shares.map b.at) (b.at q) ↔ Inside shares q := by
  simp only [Inside, closedEdges_map, List.forall_mem_map, Prod.map_fst, Prod.map_snd, cross_at]
  exact forall₂_congr fun e _ => mul_pos_iff_of_pos_right (mul_pos hwidth hheight)

/-! ## Points on an outline -/

/-- The point at a share of the way from one point to another. -/
def Point.toward (a b : Point ℝ) (t : ℝ) : Point ℝ := ⟨a.x + (b.x - a.x) * t, a.y + (b.y - a.y) * t⟩

/-- Points between two others stay between them when the square is stretched. -/
theorem Rect.at_toward (b : Rect ℝ) (s r : Point ℝ) (t : ℝ) :
    b.at (s.toward r t) = (b.at s).toward (b.at r) t := by
  simp only [Rect.at, Point.toward, Point.mk.injEq]
  constructor <;> ring

/-- The outline of a polygon consists of the points of its edges. -/
theorem onContour_polygonOutline : OnContour (polygonOutline corners) p ↔
    ∃ e ∈ closedEdges corners, ∃ t ∈ Set.Icc (0 : ℝ) 1, p = e.1.toward e.2 t := by
  simp only [OnContour, polygonOutline, List.mem_map, exists_exists_and_eq_and, pointAt_line]
  rfl

/-- The outline in a box consists of the stretched points of the edges in the unit square. -/
theorem onContour_at : OnContour (polygonOutline (shares.map b.at)) p ↔
    ∃ e ∈ closedEdges shares, ∃ t ∈ Set.Icc (0 : ℝ) 1, p = b.at (e.1.toward e.2 t) := by
  simp only [onContour_polygonOutline, closedEdges_map, List.mem_map,
    exists_exists_and_eq_and, Prod.map_fst, Prod.map_snd, Rect.at_toward]

/-- The outline crosses every level between two corners. A highest corner may lie on the level
itself, and then no edge rises above it and this corner is the point. -/
theorem exists_on_level {f : Point ℝ → ℝ} {c : ℝ}
    (hf : ∀ s r t, f (s.toward r t) = f s + (f r - f s) * t) (hlow : ∃ s ∈ shares, f s ≤ c)
    (hhigh : ∃ s ∈ shares, c ≤ f s) :
    ∃ e ∈ closedEdges shares, ∃ t ∈ Set.Icc (0 : ℝ) 1, f (e.1.toward e.2 t) = c := by
  obtain ⟨s, hs, hsc⟩ := hlow
  obtain ⟨r, hr, hrc⟩ := hhigh
  -- a highest corner may be on the level itself, and then no edge rises above it
  by_cases htop : f r ≤ c
  · obtain ⟨e, he, rfl⟩ := List.mem_map.mp ((map_fst_closedEdges shares).symm ▸ hr)
    refine ⟨e, he, 0, ⟨le_rfl, zero_le_one⟩, ?_⟩
    rw [hf, mul_zero, add_zero]
    exact le_antisymm htop hrc
  · obtain ⟨e, he, hbelow, habove⟩ := exists_edge (P := fun s => f s ≤ c) hs hsc hr htop
    rw [not_le] at habove
    have hrise : 0 < f e.2 - f e.1 := by linarith
    refine ⟨e, he, (c - f e.1) / (f e.2 - f e.1), ⟨?_, ?_⟩, ?_⟩
    · exact div_nonneg (by linarith) hrise.le
    · exact (div_le_one hrise).mpr (by linarith)
    · rw [hf, mul_div_cancel₀ _ hrise.ne']
      ring

theorem mem_of_mem_closedEdges {β : Type} {corners : List β} {e : β × β}
    (he : e ∈ closedEdges corners) : e.1 ∈ corners ∧ e.2 ∈ corners := by
  cases corners with
  | nil => cases he
  | cons p ps =>
    obtain ⟨hstart, hstop⟩ := List.of_mem_zip he
    exact ⟨hstart, List.perm_append_singleton p ps |>.mem_iff.mp hstop⟩

/-- Between two numbers of the unit interval there are only numbers of that interval. -/
theorem toward_mem_Icc {u v t : ℝ} (hu : 0 ≤ u ∧ u ≤ 1) (hv : 0 ≤ v ∧ v ≤ 1)
    (ht : t ∈ Set.Icc (0 : ℝ) 1) : 0 ≤ u + (v - u) * t ∧ u + (v - u) * t ≤ 1 := by
  obtain ⟨ht0, ht1⟩ := ht
  have hv0 := mul_nonneg hv.1 ht0
  have hu0 := mul_nonneg hu.1 (sub_nonneg.mpr ht1)
  have hv1 := mul_nonneg (sub_nonneg.mpr hv.2) ht0
  have hu1 := mul_nonneg (sub_nonneg.mpr hu.2) (sub_nonneg.mpr ht1)
  constructor <;> linarith

/-- The outline lies in the box: with its corners every point between two of them has coordinates
between zero and one. -/
theorem Fills.inUnit_toward (h : Fills shares) {e : Point ℝ × Point ℝ} (he : e ∈ closedEdges shares)
    {t : ℝ} (ht : t ∈ Set.Icc (0 : ℝ) 1) : InUnit (e.1.toward e.2 t) := by
  obtain ⟨hstart, hstop⟩ := mem_of_mem_closedEdges he
  obtain ⟨hx, hy⟩ := h.within e.1 hstart
  obtain ⟨hx', hy'⟩ := h.within e.2 hstop
  exact ⟨toward_mem_Icc hx hx' ht, toward_mem_Icc hy hy' ht⟩

/-- The point is within a hundredth of the contour. -/
def NearContour (segments : List (Segment ℝ)) (p : Point ℝ) : Prop :=
  ∃ q, OnContour segments q ∧ p.distance q ≤ 1 / 100

/-- A point of the outline is near it. -/
theorem OnContour.near {segments : List (Segment ℝ)} (h : OnContour segments p) :
    NearContour segments p := ⟨p, h, by rw [Point.distance_self]; norm_num⟩

/-- Two places within a side are no further apart than the side is long. -/
theorem abs_stretch_le {u v k c : ℝ} (hu : 0 ≤ u ∧ u ≤ 1) (hv : 0 ≤ v ∧ v ≤ 1) (hk : 0 < k)
    (hle : k ≤ c) : |v * k - u * k| ≤ c := by
  rw [← sub_mul, abs_mul, abs_of_pos hk]
  have hshare : |v - u| ≤ 1 := abs_sub_le_iff.mpr ⟨by linarith, by linarith⟩
  exact (mul_le_of_le_one_left hk.le hshare).trans hle

/-- Every point of a thin box is near the outline of a polygon that fills it. -/
theorem Fills.near_of_thin (h : Fills shares) (hwidth : 0 < b.width) (hheight : 0 < b.height)
    (hthin : b.width ≤ 1 / 100 ∨ b.height ≤ 1 / 100) (hq : InUnit q) :
    NearContour (polygonOutline (shares.map b.at)) (b.at q) := by
  rcases hthin with hthin | hthin
  · obtain ⟨e, he, t, ht, hlevel⟩ := exists_on_level (f := Point.y) (c := q.y) (fun _ _ _ => rfl)
      (h.top.imp fun s hs => ⟨hs.1, hs.2.trans_le hq.2.1⟩)
      (h.bottom.imp fun s hs => ⟨hs.1, hq.2.2.trans_eq hs.2.symm⟩)
    refine ⟨_, onContour_at.mpr ⟨e, he, t, ht, rfl⟩, ?_⟩
    rw [Point.distance_of_y_eq (by rw [Rect.at, Rect.at, hlevel])]
    simp only [Rect.at, add_sub_add_left_eq_sub]
    exact abs_stretch_le hq.1 (h.inUnit_toward he ht).1 hwidth hthin
  · obtain ⟨e, he, t, ht, hlevel⟩ := exists_on_level (f := Point.x) (c := q.x) (fun _ _ _ => rfl)
      (h.left.imp fun s hs => ⟨hs.1, hs.2.trans_le hq.1.1⟩)
      (h.right.imp fun s hs => ⟨hs.1, hq.1.2.trans_eq hs.2.symm⟩)
    refine ⟨_, onContour_at.mpr ⟨e, he, t, ht, rfl⟩, ?_⟩
    rw [Point.distance_of_x_eq (by rw [Rect.at, Rect.at, hlevel])]
    simp only [Rect.at, add_sub_add_left_eq_sub]
    exact abs_stretch_le hq.2 (h.inUnit_toward he ht).2 hheight hthin

end Flowchart
