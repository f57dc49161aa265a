import Flowchart.Proofs.Geometry.Centroids
import Flowchart.Route.Ports

/-!
# Anchors and outlines

The ray for an anchor starts at the centroid of the node, displaced along the side. The displacement
is kept within the box, not within the shape, so the ray may start outside of the shape and miss it.
Then the anchor is on the side of the box.

* From inside of a polygonal shape a ray always meets the outline.
* For some shapes and sides it does so from everywhere along the side, `Shape.catches`.

Both are part of `anchorPoint_nearContour`. Elsewhere a ray from outside may miss, and then the
anchor is off the outline, `anchorPoint_misses`.
-/

namespace Flowchart

/-! ## Rays towards a side -/

section

variable {α ω : Type} [Scalar α] [Scalar ω] [Widening α ω] [Trigonometry ω]

/-- The displacement along the side, kept within the box. -/
def rayShift (n : PlacedNode α) (port : Port) (offset : α) : α :=
  let most := sideExtent n port / 2.0 - 1.0
  if (0.0 : α) < most then Scalar.clamp offset (-most) most else 0.0

/-- Where the ray for an anchor starts. -/
def rayStart (n : PlacedNode α) (port : Port) (offset : α) : Point α :=
  let c := centroid n.outline
  let shift := rayShift n port offset
  if port.isVertical then ⟨c.x + shift, c.y⟩ else ⟨c.x, c.y + shift⟩

/-- The point on the line of a side of the box that is level with a given one. -/
def Rect.sidePoint (b : Rect α) (port : Port) (p : Point α) : Point α :=
  match port with
  | .north => ⟨p.x, b.y⟩
  | .south => ⟨p.x, b.bottom⟩
  | .west => ⟨b.x, p.y⟩
  | .east => ⟨b.right, p.y⟩

/-- An anchor is where the ray meets the outline, or else on the line of the side. -/
theorem anchorPoint_eq (n : PlacedNode α) (port : Port) (offset : α) :
    anchorPoint n port offset =
      (rayCrossing? n.outline (rayStart n port offset) port.normal).getD
        (n.box.sidePoint port (rayStart n port offset)) := by
  unfold anchorPoint rayStart rayShift
  dsimp only
  split <;> rename_i h <;> rw [h] <;> rfl

end

variable {n : PlacedNode ℝ} {corners shares : List (Point ℝ)} {shape : Shape} {b : Rect ℝ}
  {port : Port} {offset : ℝ} {o p r s : Point ℝ}

theorem rayShift_cases (n : PlacedNode ℝ) (port : Port) (offset : ℝ) :
    rayShift n port offset = 0 ∨ |rayShift n port offset| ≤ sideExtent n port / 2 - 1 := by
  rw [rayShift, Scalar.lit_zero, Scalar.lit_one, Scalar.lit_two]
  split
  case isTrue hmost =>
    obtain ⟨hlow, hhigh⟩ := Scalar.clamp_mem_Icc (x := offset) (neg_le_self hmost.le)
    exact .inr (abs_le.mpr ⟨hlow, hhigh⟩)
  case isFalse => exact .inl rfl

theorem normal_unit (port : Port) :
    (port.normal : Point ℝ).x * (port.normal : Point ℝ).x +
      (port.normal : Point ℝ).y * (port.normal : Point ℝ).y = 1 := by
  cases port <;> norm_num [Port.normal]

/-- How far to the right of the middle line a point is, facing the side. -/
noncomputable def Port.rightward (port : Port) (s : Point ℝ) : ℝ :=
  match port with
  | .north => s.x
  | .east => s.y
  | .south => -s.x
  | .west => -s.y

theorem sideways_at (n : PlacedNode ℝ) (port : Port) (r s : Point ℝ) :
    sideways (n.box.at r) port.normal (n.box.at s) =
      (port.rightward s - port.rightward r) * sideExtent n port := by
  cases port <;>
    simp [sideways_eq, Port.normal, Port.rightward, sideExtent, Port.isVertical, Rect.at] <;>
    ring

theorem sideways_ahead (o dir p : Point ℝ) : sideways (o.ahead dir) dir p = sideways o dir p := by
  simp only [sideways_eq, Point.ahead, Point.add, Point.scale]
  ring

/-- In the unit square, the edge passes from left to right in front of the point. -/
structure Faces (port : Port) (r : Point ℝ) (e : Point ℝ × Point ℝ) : Prop where
  left : port.rightward e.1 ≤ port.rightward r
  right : port.rightward r ≤ port.rightward e.2
  steep : 9 / 50 ≤ port.rightward e.2 - port.rightward e.1
  inner : 0 < (e.2.sub e.1).cross (r.sub e.1)

/-- A ray crosses the edge that the point one tolerance ahead faces. -/
theorem Faces.crossed {e : Point ℝ × Point ℝ} (h : Faces port r e)
    (hwidth : 1 / 100 ≤ n.box.width) (hheight : 1 / 100 ≤ n.box.height)
    (hstart : n.box.at r = o.ahead port.normal) :
    Crossed o port.normal (n.box.at e.1) (n.box.at e.2) := by
  have hside : 1 / 100 ≤ sideExtent n port := by
    unfold sideExtent
    split
    exacts [hwidth, hheight]
  have hsideways (s : Point ℝ) : sideways o port.normal (n.box.at s) =
      (port.rightward s - port.rightward r) * sideExtent n port := by
    rw [← sideways_ahead, ← hstart, sideways_at]
  have hleft := mul_nonneg (sub_nonneg.mpr h.left) (hside.trans' (by norm_num))
  have hright := mul_nonneg (sub_nonneg.mpr h.right) (hside.trans' (by norm_num))
  have hsteep := mul_le_mul h.steep hside (by norm_num) (h.steep.trans' (by norm_num))
  constructor
  · rw [hsideways]
    linarith
  · rwa [hsideways]
  · rw [hsideways, hsideways]
    norm_num at hsteep ⊢
    linarith
  · rw [← hstart, cross_at]
    exact mul_pos h.inner (mul_pos (by linarith) (by linarith))

/-- From a point inside of an outline that fills its box some edge is faced, in every direction of a
port. -/
theorem Fills.exists_faces (h : Fills shares) (hinside : Inside shares r) (port : Port) :
    ∃ e ∈ closedEdges shares, Faces port r e := by
  obtain ⟨⟨hx0, hx1⟩, hy0, hy1⟩ := h.inner r hinside
  obtain ⟨w, hw, hw'⟩ := h.left
  obtain ⟨e, he, he'⟩ := h.right
  obtain ⟨u, hu, hu'⟩ := h.top
  obtain ⟨d, hd, hd'⟩ := h.bottom
  have hsides : (∃ s ∈ shares, port.rightward s ≤ port.rightward r) ∧
      ∃ s ∈ shares, ¬ port.rightward s ≤ port.rightward r := by
    cases port <;> simp only [Port.rightward, not_le]
    · exact ⟨⟨w, hw, by linarith⟩, e, he, by linarith⟩
    · exact ⟨⟨u, hu, by linarith⟩, d, hd, by linarith⟩
    · exact ⟨⟨e, he, by linarith⟩, w, hw, by linarith⟩
    · exact ⟨⟨d, hd, by linarith⟩, u, hu, by linarith⟩
  obtain ⟨⟨s, hs, hs'⟩, t, ht, ht'⟩ := hsides
  obtain ⟨e, he, hleft, hright⟩ :=
    exists_edge (P := fun s => port.rightward s ≤ port.rightward r) hs hs' ht ht'
  rw [not_le] at hright
  refine ⟨e, he, hleft, hright.le, ?_, hinside e he⟩
  have hwide := h.wide e he
  have htall := h.tall e he
  cases port <;> simp only [Port.rightward] at hleft hright ⊢ <;> grind

theorem outline_eq (hshares : n.shape.shares? = some shares) :
    n.outline = polygonOutline (shares.map n.box.at) := by
  simp only [PlacedNode.outline, Shape.outline, Shape.corners?_eq, hshares, Option.map_some]

/-- The anchor is on the outline or on the line of the side, and the latter only if the ray crosses
no edge. -/
theorem anchorPoint_cases (hshares : n.shape.shares? = some shares) (port : Port) (offset : ℝ) :
    OnContour (polygonOutline (shares.map n.box.at)) (anchorPoint n port offset) ∨
      anchorPoint n port offset = n.box.sidePoint port (rayStart n port offset) ∧
      ∀ e ∈ closedEdges shares,
        ¬ Crossed (rayStart n port offset) port.normal (n.box.at e.1) (n.box.at e.2) := by
  rw [anchorPoint_eq, outline_eq hshares]
  cases hcross : rayCrossing? (polygonOutline (shares.map n.box.at)) (rayStart n port offset)
      port.normal with
  | some p => exact .inl (onContour_of_rayCrossing? hcross)
  | none =>
    refine .inr ⟨rfl, fun e he hcrossed => ?_⟩
    have hside : .line (n.box.at e.1) (n.box.at e.2) ∈ polygonOutline (shares.map n.box.at) := by
      rw [polygonOutline, closedEdges_map, List.map_map]
      exact List.mem_map_of_mem he
    obtain ⟨p, hp⟩ := hcrossed.rayCrossing? (normal_unit port) hside
    rw [hcross] at hp
    cases hp

/-! ## Where rays start -/

/-- Shares to one side of `m` and in front of it, facing the side. -/
noncomputable def Port.probe (port : Port) (m : Point ℝ) (shift depth : ℝ) : Point ℝ :=
  match port with
  | .north => ⟨m.x + shift, m.y - depth⟩
  | .east => ⟨m.x + depth, m.y + shift⟩
  | .south => ⟨m.x + shift, m.y + depth⟩
  | .west => ⟨m.x - depth, m.y + shift⟩

/-- The shares of the point of the side that is level with given ones. -/
def Port.level (port : Port) (s : Point ℝ) : Point ℝ :=
  match port with
  | .north => ⟨s.x, 0⟩
  | .east => ⟨1, s.y⟩
  | .south => ⟨s.x, 1⟩
  | .west => ⟨0, s.y⟩

/-- Extent of a node away from a side. -/
noncomputable def sideDepth (n : PlacedNode ℝ) (port : Port) : ℝ :=
  if port.isVertical then n.box.height else n.box.width

/-- The ray starts beside the centroid: its second point lies ahead of the start by a millionth of
the depth of the side. -/
theorem rayStart_ahead {m : Point ℝ} (hwidth : 0 < n.box.width) (hheight : 0 < n.box.height)
    (hcentroid : centroid n.outline = n.box.at m) (port : Port) (offset : ℝ) :
    n.box.at (port.probe m (rayShift n port offset / sideExtent n port) (1e-6 / sideDepth n port)) =
      (rayStart n port offset).ahead port.normal := by
  rw [rayStart, hcentroid]
  cases port <;> simp [Port.probe, sideDepth, sideExtent, Port.isVertical, Port.normal, Rect.at,
    Point.ahead, Point.add, Point.scale, add_mul, sub_mul, hwidth.ne', hheight.ne'] <;>
    constructor <;> ring

theorem sidePoint_at (port : Port) (h : b.at s = o.ahead port.normal) :
    b.sidePoint port o = b.at (port.level s) := by
  have hx : b.x + s.x * b.width = _ := congrArg Point.x h
  have hy : b.y + s.y * b.height = _ := congrArg Point.y h
  cases port <;> simp_all [Rect.sidePoint, Port.level, Rect.at, Rect.right, Rect.bottom, Point.ahead,
    Point.add, Point.scale, Port.normal]

/-- The anchor is near the outline of a thin box if the ray starts level with the side. -/
theorem near_of_thin (hshares : n.shape.shares? = some shares) (hwidth : 0 < n.box.width)
    (hheight : 0 < n.box.height) (hthin : n.box.width ≤ 1 / 100 ∨ n.box.height ≤ 1 / 100)
    (hstart : n.box.at s = (rayStart n port offset).ahead port.normal)
    (hlevel : InUnit (port.level s)) :
    NearContour (polygonOutline (shares.map n.box.at)) (anchorPoint n port offset) := by
  obtain hon | ⟨hside, -⟩ := anchorPoint_cases hshares port offset
  · exact hon.near
  · rw [hside, sidePoint_at port hstart]
    exact (Shape.fills hshares).near_of_thin hwidth hheight hthin hlevel

/-- The anchor is near the outline if the box is thin or the ray faces an edge. In a thin box the
tolerances of the ray count, but no point of such a box is far from the outline. -/
theorem near_of_faces (hshares : n.shape.shares? = some shares) (hwidth : 0 < n.box.width)
    (hheight : 0 < n.box.height)
    (hstart : n.box.at s = (rayStart n port offset).ahead port.normal)
    (hlevel : InUnit (port.level s))
    (hfaces : 1 / 100 ≤ n.box.width → 1 / 100 ≤ n.box.height →
      ∃ e ∈ closedEdges shares, Faces port s e) :
    NearContour (polygonOutline (shares.map n.box.at)) (anchorPoint n port offset) := by
  -- in a thin box the tolerances of the ray count, but no point of it is far from the outline
  by_cases hthin : n.box.width ≤ 1 / 100 ∨ n.box.height ≤ 1 / 100
  · exact near_of_thin hshares hwidth hheight hthin hstart hlevel
  · rw [not_or, not_le, not_le] at hthin
    obtain ⟨e, he, hface⟩ := hfaces hthin.1.le hthin.2.le
    obtain hon | ⟨-, hnone⟩ := anchorPoint_cases hshares port offset
    exacts [hon.near, absurd (hface.crossed hthin.1.le hthin.2.le hstart) (hnone e he)]

/-- A ray that starts inside of the shape ends near its outline. -/
theorem near_of_inside (hshares : n.shape.shares? = some shares) (hwidth : 0 < n.box.width)
    (hheight : 0 < n.box.height)
    (hinside : Inside (shares.map n.box.at) ((rayStart n port offset).ahead port.normal)) :
    NearContour (polygonOutline (shares.map n.box.at)) (anchorPoint n port offset) := by
  obtain ⟨s, hs⟩ := Rect.exists_at hwidth hheight ((rayStart n port offset).ahead port.normal)
  rw [← hs, inside_at_iff hwidth hheight] at hinside
  obtain ⟨⟨hx0, hx1⟩, hy0, hy1⟩ := (Shape.fills hshares).inner s hinside
  refine near_of_faces hshares hwidth hheight hs ?_ fun _ _ =>
    (Shape.fills hshares).exists_faces hinside port
  cases port
  exacts [⟨⟨hx0.le, hx1.le⟩, le_rfl, zero_le_one⟩, ⟨⟨zero_le_one, le_rfl⟩, hy0.le, hy1.le⟩,
    ⟨⟨hx0.le, hx1.le⟩, zero_le_one, le_rfl⟩, ⟨⟨le_rfl, zero_le_one⟩, hy0.le, hy1.le⟩]

/-! ## Shapes that catch every ray -/

/-- A ray towards this side of the shape meets the outline wherever along the side it starts. -/
def Shape.catches (shape : Shape) (port : Port) : Bool :=
  match shape with
  | .rectangle | .subroutine | .diamond | .hexagon => true
  | .parallelogram | .parallelogramAlt | .asymmetric => !port.isVertical
  | .trapezoid => port == .south
  | .trapezoidAlt => port == .north
  | .roundRect | .stadium | .cylinder | .circle | .doubleCircle => false

/-- Where a ray can start: not beyond the box, and not so close to its end that a diagonal edge is
within a tolerance. -/
structure Reachable (shift depth : ℝ) : Prop where
  low : depth - 1 / 2 < shift
  high : shift < 1 / 2 - depth
  ahead : 0 < depth
  near : depth ≤ 1 / 1000

/-- Every ray towards a side of these shapes starts inside, or faces the side of a trapezoid that is
as long as the box. -/
theorem Shape.exists_faces (hshares : shape.shares? = some shares)
    (hcatch : shape.catches port = true) {shift depth : ℝ} (h : Reachable shift depth) :
    ∃ e ∈ closedEdges shares, Faces port (port.probe shape.middle shift depth) e := by
  obtain ⟨hlow, hhigh, hahead, hnear⟩ := h
  have hfills := Shape.fills hshares
  cases shape <;> cases hshares
  case trapezoid =>
    obtain rfl : port = .south := beq_iff_eq.mp hcatch
    refine ⟨(⟨1, 1⟩, ⟨0, 1⟩), by simp [closedEdges], ?_⟩
    constructor <;> simp only [Port.rightward, Port.probe, Shape.middle, Point.cross, Point.sub] <;>
      linarith
  case trapezoidAlt =>
    obtain rfl : port = .north := beq_iff_eq.mp hcatch
    refine ⟨(⟨0, 0⟩, ⟨1, 0⟩), by simp [closedEdges], ?_⟩
    constructor <;> simp only [Port.rightward, Port.probe, Shape.middle, Point.cross, Point.sub] <;>
      linarith
  all_goals
    refine hfills.exists_faces ?_ port
    cases port <;> cases hcatch
  all_goals
    simp only [Inside, closedEdges, List.cons_append, List.nil_append, List.zip_cons_cons,
      List.zip_nil_right, inside_cons_iff, Port.probe, Shape.middle, List.not_mem_nil,
      false_imp_iff, implies_true, and_true]
    (repeat' apply And.intro) <;> linarith only [hlow, hhigh, hahead, hnear]

/-- The middle of the side is in front of the centroid of these shapes. -/
theorem Shape.level_middle (hcatch : shape.catches port = true) (shift depth : ℝ) :
    port.level (port.probe shape.middle shift depth) =
      port.level (port.probe ⟨1 / 2, 1 / 2⟩ shift depth) := by
  cases shape <;> cases port <;> cases hcatch <;> rfl

theorem sideExtent_pos (hwidth : 0 < n.box.width) (hheight : 0 < n.box.height) (port : Port) :
    0 < sideExtent n port := by
  unfold sideExtent
  split
  exacts [hwidth, hheight]

theorem abs_rayShift_le (hwidth : 0 < n.box.width) (hheight : 0 < n.box.height) (port : Port)
    (offset : ℝ) : |rayShift n port offset / sideExtent n port| ≤ 1 / 2 := by
  have hside := sideExtent_pos hwidth hheight port
  rw [abs_div, abs_of_pos hside, div_le_iff₀ hside]
  obtain h | h := rayShift_cases n port offset
  · rw [h, abs_zero]
    linarith
  · linarith

/-- Rays start within reach unless the box is a million times longer than wide. -/
theorem reachable_rayStart (hwidth : 1 / 100 ≤ n.box.width) (hheight : 1 / 100 ≤ n.box.height)
    (hwide : n.box.width < 1e6 * n.box.height) (htall : n.box.height < 1e6 * n.box.width)
    (port : Port) (offset : ℝ) :
    Reachable (rayShift n port offset / sideExtent n port) (1e-6 / sideDepth n port) := by
  obtain ⟨hside, hdepth, hratio⟩ : 1 / 100 ≤ sideExtent n port ∧ 1 / 100 ≤ sideDepth n port ∧
      sideExtent n port < 1e6 * sideDepth n port := by
    unfold sideExtent sideDepth
    split
    exacts [⟨hwidth, hheight, hwide⟩, ⟨hheight, hwidth, htall⟩]
  have hsidepos : 0 < sideExtent n port := by linarith
  have hdepthpos : 0 < sideDepth n port := by linarith
  have hsmall : 1e-6 / sideDepth n port ≤ 1 / 1000 := by
    rw [div_le_iff₀ hdepthpos]
    norm_num
    linarith
  have hroom : |rayShift n port offset / sideExtent n port| < 1 / 2 - 1e-6 / sideDepth n port := by
    obtain h | h := rayShift_cases n port offset
    · rw [h, zero_div, abs_zero]
      linarith
    · have hend : 1e-6 / sideDepth n port < 1 / sideExtent n port := by
        rw [div_lt_div_iff₀ hdepthpos hsidepos]
        norm_num at hratio ⊢
        linarith
      have hshare : |rayShift n port offset / sideExtent n port| ≤ 1 / 2 - 1 / sideExtent n port := by
        rw [abs_div, abs_of_pos hsidepos, div_le_iff₀ hsidepos, sub_mul,
          div_mul_cancel₀ _ hsidepos.ne']
        linarith
      linarith
  obtain ⟨hlow, hhigh⟩ := abs_lt.mp hroom
  exact ⟨by linarith, hhigh, by positivity, hsmall⟩

theorem inUnit_level {shift : ℝ} (h : |shift| ≤ 1 / 2) (port : Port) (depth : ℝ) :
    InUnit (port.level (port.probe ⟨1 / 2, 1 / 2⟩ shift depth)) := by
  obtain ⟨hlow, hhigh⟩ := abs_le.mp h
  cases port <;> simp only [InUnit, Port.level, Port.probe] <;> norm_num <;> constructor <;> linarith

/-- Where the ray starts, from the shares of the centroid. -/
theorem exists_rayStart (hshares : n.shape.shares? = some shares) (hwidth : 0 < n.box.width)
    (hheight : 0 < n.box.height) (port : Port) (offset : ℝ) :
    ∃ m, (m = n.shape.middle ∨ n.box.width * n.box.height < 1e-6 ∧ m = ⟨1 / 2, 1 / 2⟩) ∧
      n.box.at (port.probe m (rayShift n port offset / sideExtent n port)
        (1e-6 / sideDepth n port)) = (rayStart n port offset).ahead port.normal := by
  have hcentroid := Shape.centroid_eq hshares hwidth hheight
  rw [← outline_eq hshares] at hcentroid
  obtain h | ⟨hsmall, h⟩ := hcentroid
  exacts [⟨_, .inl rfl, rayStart_ahead hwidth hheight h port offset⟩,
    ⟨_, .inr ⟨hsmall, rfl⟩, rayStart_ahead hwidth hheight h port offset⟩]

/-- The anchors of these shapes are near the outline for every offset: a box that is not thin has an
area, and then the ray starts beside the centroid. -/
theorem near_of_catches (hshares : n.shape.shares? = some shares) (hwidth : 0 < n.box.width)
    (hheight : 0 < n.box.height) (hcatch : n.shape.catches port = true)
    (hwide : n.box.width < 1e6 * n.box.height) (htall : n.box.height < 1e6 * n.box.width)
    (offset : ℝ) :
    NearContour (polygonOutline (shares.map n.box.at)) (anchorPoint n port offset) := by
  obtain ⟨m, hm, hstart⟩ := exists_rayStart hshares hwidth hheight port offset
  refine near_of_faces hshares hwidth hheight hstart ?_ fun hw hh => ?_
  · have hunit := inUnit_level (abs_rayShift_le hwidth hheight port offset) port
      (1e-6 / sideDepth n port)
    obtain rfl | ⟨-, rfl⟩ := hm
    · rwa [Shape.level_middle hcatch]
    · exact hunit
  · have harea : 1 / 100 * (1 / 100) ≤ n.box.width * n.box.height :=
      mul_le_mul hw hh (by norm_num) hwidth.le
    obtain rfl | ⟨hsmall, -⟩ := hm
    · exact Shape.exists_faces hshares hcatch (reachable_rayStart hw hh hwide htall port offset)
    · norm_num at harea hsmall
      linarith

/-! ## Plain boxes -/

/-- The anchors of a plain box are on its outline. -/
theorem onContour_of_rectangle (hshape : n.shape = .rectangle ∨ n.shape = .subroutine)
    (hwidth : 0 < n.box.width) (hheight : 0 < n.box.height) (port : Port) (offset : ℝ) :
    OnContour n.outline (anchorPoint n port offset) := by
  have hshares : n.shape.shares? = some [⟨0, 0⟩, ⟨1, 0⟩, ⟨1, 1⟩, ⟨0, 1⟩] := by
    rcases hshape with h | h <;> rw [h] <;> rfl
  have hmiddle : n.shape.middle = ⟨1 / 2, 1 / 2⟩ := by
    rcases hshape with h | h <;> rw [h] <;> rfl
  rw [outline_eq hshares]
  obtain hon | ⟨hside, -⟩ := anchorPoint_cases hshares port offset
  · exact hon
  obtain ⟨m, hm, hstart⟩ := exists_rayStart hshares hwidth hheight port offset
  obtain rfl : m = ⟨1 / 2, 1 / 2⟩ := hm.elim (fun h => h.trans hmiddle) fun h => h.2
  rw [hside, sidePoint_at port hstart, onContour_at]
  have hreach := abs_rayShift_le hwidth hheight port offset
  generalize rayShift n port offset / sideExtent n port = u at hreach
  obtain ⟨hlow, hhigh⟩ := abs_le.mp hreach
  cases port
  case north =>
    refine ⟨(⟨0, 0⟩, ⟨1, 0⟩), by simp [closedEdges], 1 / 2 + u, ⟨by linarith, by linarith⟩, ?_⟩
    simp [Port.level, Port.probe, Point.toward]
  case east =>
    refine ⟨(⟨1, 0⟩, ⟨1, 1⟩), by simp [closedEdges], 1 / 2 + u, ⟨by linarith, by linarith⟩, ?_⟩
    simp [Port.level, Port.probe, Point.toward]
  case south =>
    refine ⟨(⟨1, 1⟩, ⟨0, 1⟩), by simp [closedEdges], 1 / 2 - u, ⟨by linarith, by linarith⟩, ?_⟩
    simp [Port.level, Port.probe, Point.toward]
    ring_nf
  case west =>
    refine ⟨(⟨0, 1⟩, ⟨0, 0⟩), by simp [closedEdges], 1 / 2 - u, ⟨by linarith, by linarith⟩, ?_⟩
    simp [Port.level, Port.probe, Point.toward]
    ring_nf

/-- The anchors of a plain box are in the box. -/
theorem anchorPoint_within (hshape : n.shape = .rectangle ∨ n.shape = .subroutine)
    (hwidth : 0 < n.box.width) (hheight : 0 < n.box.height) (port : Port) (offset : ℝ) :
    ∃ s, InUnit s ∧ anchorPoint n port offset = n.box.at s := by
  have hshares : n.shape.shares? = some [⟨0, 0⟩, ⟨1, 0⟩, ⟨1, 1⟩, ⟨0, 1⟩] := by
    rcases hshape with h | h <;> rw [h] <;> rfl
  have hon := onContour_of_rectangle hshape hwidth hheight port offset
  rw [outline_eq hshares] at hon
  obtain ⟨e, he, t, ht, hpoint⟩ := onContour_at.mp hon
  exact ⟨_, (Shape.fills hshares).inUnit_toward he ht, hpoint⟩

/-! ## All polygonal shapes -/

/-- **Rays that start inside meet the outline.** Let the shape of a node be a polygon and its box
have an inside. Every anchor is on the outline, or it is on the line of the side of the box and
level with where its ray starts. It is near the outline if the ray starts inside of the shape, a
tolerance away from the edge in front. Where that need not be so, some shapes still have all anchors
of a side near the outline, unless the box is a million times longer than wide. The anchors of a
plain box are on the outline. -/
theorem anchorPoint_nearContour (n : PlacedNode ℝ) {corners : List (Point ℝ)}
    (hcorners : n.shape.corners? n.box = some corners) (hwidth : 0 < n.box.width)
    (hheight : 0 < n.box.height) (port : Port) (offset : ℝ) :
    let anchor := anchorPoint n port offset
    let start := rayStart n port offset
    (OnContour n.outline anchor ∨ anchor = n.box.sidePoint port start) ∧
    (Inside corners (start.ahead port.normal) → NearContour n.outline anchor) ∧
    (n.shape.catches port = true → n.box.width < 1e6 * n.box.height →
      n.box.height < 1e6 * n.box.width → NearContour n.outline anchor) ∧
    (n.shape = .rectangle ∨ n.shape = .subroutine → OnContour n.outline anchor) := by
  intro anchor start
  rw [Shape.corners?_eq] at hcorners
  obtain ⟨shares, hshares, rfl⟩ := Option.map_eq_some_iff.mp hcorners
  refine ⟨?_, fun hinside => ?_, fun hcatch hwide htall => ?_, fun hshape =>
    onContour_of_rectangle hshape hwidth hheight port offset⟩
  · rw [outline_eq hshares]
    exact (anchorPoint_cases hshares port offset).imp_right fun h => h.1
  · rw [outline_eq hshares]
    exact near_of_inside hshares hwidth hheight hinside
  · rw [outline_eq hshares]
    exact near_of_catches hshares hwidth hheight hcatch hwide htall offset

/-- A wide flag, which ends in a point on its right side. -/
noncomputable def flag : PlacedNode ℝ :=
  { id := "flag", box := ⟨0, 0, 300, 40⟩, label := ⟨[], 0, 0⟩, shape := .asymmetric }

theorem flag_shares : flag.shape.shares? =
    some [⟨0, 0⟩, ⟨39 / 50, 0⟩, ⟨1, 1 / 2⟩, ⟨39 / 50, 1⟩, ⟨0, 1⟩] := rfl

/-- The centroid of the flag is left of the middle of its box. -/
theorem centroid_flag : centroid flag.outline = ⟨11942 / 89, 20⟩ := by
  have hcentroid :=
    Shape.centroid_eq (b := flag.box) flag_shares (by norm_num [flag]) (by norm_num [flag])
  rw [← outline_eq flag_shares] at hcentroid
  obtain h | ⟨hsmall, -⟩ := hcentroid
  · rw [h]
    norm_num [flag, Rect.at, Shape.middle]
  · norm_num [flag] at hsmall

theorem rayStart_flag : rayStart flag .north 0 = ⟨11942 / 89, 20⟩ ∧
    rayStart flag .north (-138) = ⟨-340 / 89, 20⟩ := by
  rw [rayStart, rayStart, centroid_flag]
  constructor
  · norm_num [rayShift, flag, sideExtent, Port.isVertical, Scalar.clamp]
  · norm_num [rayShift, flag, sideExtent, Port.isVertical, Scalar.clamp]

/-- The middle anchor at the top of the flag and all anchors at its right side are near the
outline. -/
theorem anchorPoint_nearContour_flag :
    NearContour flag.outline (anchorPoint flag .north 0) ∧
    ∀ offset, NearContour flag.outline (anchorPoint flag .east offset) := by
  have hcorners : flag.shape.corners? flag.box =
      some ([⟨0, 0⟩, ⟨39 / 50, 0⟩, ⟨1, 1 / 2⟩, ⟨39 / 50, 1⟩, ⟨0, 1⟩].map flag.box.at) := by
    rw [Shape.corners?_eq, flag_shares, Option.map_some]
  have hwidth : 0 < flag.box.width := by norm_num [flag]
  have hheight : 0 < flag.box.height := by norm_num [flag]
  obtain ⟨-, hinside, -, -⟩ := anchorPoint_nearContour flag hcorners hwidth hheight .north 0
  refine ⟨hinside ?_, fun offset => ?_⟩
  · rw [rayStart_flag.1]
    norm_num [Inside, closedEdges, Rect.at, flag, Point.cross, Point.sub, Point.ahead, Point.add,
      Point.scale, Port.normal]
  · obtain ⟨-, -, hcatches, -⟩ :=
      anchorPoint_nearContour flag hcorners hwidth hheight .east offset
    exact hcatches rfl (by norm_num [flag]) (by norm_num [flag])

/-- At the end of its top side, the anchor of the flag is beside the box. -/
theorem anchorPoint_misses :
    0 < flag.box.width ∧ 0 < flag.box.height ∧
    flag.shape.corners? flag.box =
      some ([⟨0, 0⟩, ⟨39 / 50, 0⟩, ⟨1, 1 / 2⟩, ⟨39 / 50, 1⟩, ⟨0, 1⟩].map flag.box.at) ∧
    anchorPoint flag .north (-138) = ⟨-340 / 89, 0⟩ ∧
    ¬ NearContour flag.outline (anchorPoint flag .north (-138)) := by
  have hanchor : anchorPoint flag .north (-138) = ⟨-340 / 89, 0⟩ := by
    have hnone : rayCrossing? flag.outline ⟨-340 / 89, 20⟩ (Port.north.normal : Point ℝ) = none := by
      rw [outline_eq flag_shares]
      refine rayCrossing?_eq_none (normal_unit .north) fun s hs => ?_
      obtain ⟨e, he, rfl⟩ := List.mem_map.mp hs
      refine ⟨e.1, e.2, rfl, ?_⟩
      simp only [closedEdges, List.map_cons, List.map_nil, List.cons_append, List.nil_append,
        List.zip_cons_cons, List.zip_nil_right, List.mem_cons, List.not_mem_nil, or_false] at he
      rcases he with rfl | rfl | rfl | rfl | rfl <;> constructor <;>
        norm_num [sideways_eq, Rect.at, flag, Port.normal]
    rw [anchorPoint_eq, rayStart_flag.2, hnone]
    norm_num [Rect.sidePoint, flag]
  refine ⟨by norm_num [flag], by norm_num [flag], ?_, hanchor, ?_⟩
  · rw [Shape.corners?_eq, flag_shares, Option.map_some]
  · rw [hanchor, outline_eq flag_shares]
    rintro ⟨q, hq, hnear⟩
    obtain ⟨e, he, t, ht, rfl⟩ := onContour_at.mp hq
    obtain ⟨⟨hx, -⟩, -⟩ := (Shape.fills flag_shares).inUnit_toward he ht
    have hfar := (Point.abs_sub_le_distance ⟨-340 / 89, 0⟩ (flag.box.at (e.1.toward e.2 t))).1
    have hx' : 0 ≤ (flag.box.at (e.1.toward e.2 t)).x := by
      simp only [Rect.at, flag]
      linarith
    rw [abs_of_nonneg (by linarith)] at hfar
    linarith

end Flowchart
