import Flowchart.Proofs.Boxes.Axes
import Flowchart.Route.Obstacles
import Mathlib.Data.List.Chain

/-!
# Runs and boxes

A route consists of horizontal and vertical runs. A run is `Clean` for a box if it keeps out of the
inside or passes through from side to side; other runs end in the box or on its outline.

A detour is made for a run that passes through a box. It leaves the run where that enters the box,
follows the outline and comes back, so all of it keeps out of the box, `LeadsAround`. What it is for
another box depends on its corners: a run between corners that are `Off` a box is clean.
-/

namespace Flowchart

variable {a b c p q : Point ℚ} {r s : Rect ℚ} {axis : Axis} {corners points : List (Point ℚ)}

/-! ## Runs and boxes -/

/-- The run between two corners is horizontal or vertical. -/
def Aligned (a b : Point ℚ) : Prop := ∃ axis, a.coord axis = b.coord axis

/-- The point lies on the run between two corners. -/
def OnRun (a b p : Point ℚ) : Prop :=
  ∀ axis, min (a.coord axis) (b.coord axis) ≤ p.coord axis ∧
    p.coord axis ≤ max (a.coord axis) (b.coord axis)

/-- No point of the run lies in the interior of the box. -/
def KeepsOut (r : Rect ℚ) (a b : Point ℚ) : Prop := ∀ p, OnRun a b p → r.contains p = false

/-- The run passes through the box along an axis, and its ends lie beyond both sides. -/
def RunsThrough (r : Rect ℚ) (axis : Axis) (a b : Point ℚ) : Prop :=
  a.coord axis.other = b.coord axis.other ∧
    r.low axis.other < a.coord axis.other ∧ a.coord axis.other < r.high axis.other ∧
    min (a.coord axis) (b.coord axis) < r.low axis ∧ r.high axis < max (a.coord axis) (b.coord axis)

/-- The run does not end in the box: it keeps out of it or passes through. -/
def Clean (r : Rect ℚ) (a b : Point ℚ) : Prop := KeepsOut r a b ∨ ∃ axis, RunsThrough r axis a b

/-- The point lies outside of the box and not on its outline either. -/
def Off (r : Rect ℚ) (p : Point ℚ) : Prop :=
  ∃ axis, p.coord axis < r.low axis ∨ r.high axis < p.coord axis

theorem onRun_iff : OnRun a b p ↔ (min a.x b.x ≤ p.x ∧ p.x ≤ max a.x b.x) ∧
    min a.y b.y ≤ p.y ∧ p.y ≤ max a.y b.y :=
  Axis.forall_iff .horizontal

theorem OnRun.first (a b : Point ℚ) : OnRun a b a := fun _ => ⟨min_le_left _ _, le_max_left _ _⟩

theorem OnRun.last (a b : Point ℚ) : OnRun a b b := fun _ => ⟨min_le_right _ _, le_max_right _ _⟩

theorem onRun_point (axis : Axis) {u : ℚ} (hmin : min (a.coord axis) (b.coord axis) ≤ u)
    (hmax : u ≤ max (a.coord axis) (b.coord axis)) :
    OnRun a b (axis.point u (a.coord axis.other)) := by
  refine (Axis.forall_iff axis).mpr ⟨?_, ?_⟩
  · rw [Axis.coord_point]
    exact ⟨hmin, hmax⟩
  · rw [Axis.coord_other_point]
    exact ⟨min_le_left _ _, le_max_left _ _⟩

/-- What lies between two points of a run lies on the run. -/
theorem OnRun.between (hp : OnRun a b p) (hc : OnRun a b c) (hq : OnRun p c q) : OnRun a b q :=
  fun axis => ⟨(le_min (hp axis).1 (hc axis).1).trans (hq axis).1,
    (hq axis).2.trans (max_le (hp axis).2 (hc axis).2)⟩

/-- A part of a run that keeps out keeps out. -/
theorem KeepsOut.between (h : KeepsOut r a b) (hp : OnRun a b p) (hc : OnRun a b c) :
    KeepsOut r p c := fun q hq => h q (hp.between hc hq)

/-- A run on one side of a box keeps out of it. -/
theorem keepsOut_of_side (axis : Axis)
    (h : max (a.coord axis) (b.coord axis) ≤ r.low axis ∨
      r.high axis ≤ min (a.coord axis) (b.coord axis)) : KeepsOut r a b := by
  intro p hp
  obtain ⟨hmin, hmax⟩ := hp axis
  exact Rect.contains_eq_false_iff.mpr ⟨axis, h.imp hmax.trans fun h => h.trans hmin⟩

/-- What keeps out of a box keeps out of the boxes inside. -/
theorem KeepsOut.mono (h : KeepsOut r a b) (hs : s.Within r) : KeepsOut s a b := by
  intro p hp
  obtain ⟨axis, hside⟩ := Rect.contains_eq_false_iff.mp (h p hp)
  exact Rect.contains_eq_false_iff.mpr ⟨axis, hside.imp (fun h => h.trans (hs.low_le axis))
    fun h => (hs.high_le axis).trans h⟩

theorem Off.beside (h : Off r p) (hlow : r.low axis < p.coord axis)
    (hhigh : p.coord axis < r.high axis) :
    p.coord axis.other < r.low axis.other ∨ r.high axis.other < p.coord axis.other := by
  obtain ⟨across, hoff⟩ := h
  obtain rfl | rfl := axis.eq_or_eq_other across
  · exact (hoff.elim hlow.asymm hhigh.asymm).elim
  · exact hoff

/-- A run with both ends off a box does not end in it: the ends are beside the box, and on different
sides if the run meets it. -/
theorem Aligned.clean (h : Aligned a b) (ha : Off r a) (hb : Off r b) : Clean r a b := by
  by_cases hout : KeepsOut r a b
  · exact .inl hout
  obtain ⟨across, heq⟩ := h
  obtain ⟨p, hp, hin⟩ : ∃ p, OnRun a b p ∧ r.contains p = true := by simpa [KeepsOut] using hout
  obtain ⟨hlow, hhigh⟩ := Rect.contains_iff.mp hin across
  have hpa : p.coord across = a.coord across := by
    obtain ⟨hmin, hmax⟩ := hp across
    rw [← heq, min_self] at hmin
    rw [← heq, max_self] at hmax
    exact le_antisymm hmax hmin
  rw [hpa] at hlow hhigh
  -- both ends are beside the box, and on different sides since the run meets it
  refine .inr ⟨across.other, ?_⟩
  rw [RunsThrough, Axis.other_other]
  refine ⟨heq, hlow, hhigh, ?_⟩
  rcases ha.beside hlow hhigh with ha | ha <;>
    rcases hb.beside (heq ▸ hlow) (heq ▸ hhigh) with hb | hb
  · exact absurd (keepsOut_of_side _ (.inl (max_lt ha hb).le)) hout
  · exact ⟨(min_le_left _ _).trans_lt ha, hb.trans_le (le_max_right _ _)⟩
  · exact ⟨(min_le_right _ _).trans_lt hb, ha.trans_le (le_max_left _ _)⟩
  · exact absurd (keepsOut_of_side _ (.inr (lt_min ha hb).le)) hout

/-- The ends of a run that passes through a box are off the box. -/
theorem RunsThrough.off (h : RunsThrough r axis a b) : Off r a ∧ Off r b := by
  obtain ⟨-, -, -, hlow, hhigh⟩ := h
  rcases le_total (a.coord axis) (b.coord axis) with hab | hba
  · rw [min_eq_left hab] at hlow
    rw [max_eq_right hab] at hhigh
    exact ⟨⟨axis, .inl hlow⟩, ⟨axis, .inr hhigh⟩⟩
  · rw [min_eq_right hba] at hlow
    rw [max_eq_left hba] at hhigh
    exact ⟨⟨axis, .inr hhigh⟩, ⟨axis, .inl hlow⟩⟩

theorem Off.contains_eq_false (h : Off r p) : r.contains p = false :=
  Rect.contains_eq_false_iff.mpr (h.imp fun _ => Or.imp le_of_lt le_of_lt)

/-! ## One detour -/

/-- The corners lead around the box: they leave the run and come back to it, and no part of the way
meets the inside of the box. -/
structure LeadsAround (r : Rect ℚ) (a b : Point ℚ) (corners : List (Point ℚ)) : Prop where
  aligned : (a :: (corners ++ [b])).IsChain Aligned
  outside : (a :: (corners ++ [b])).IsChain (KeepsOut r)
  leaves : ∀ p ∈ corners.head?, OnRun a b p
  returns : ∀ p ∈ corners.getLast?, OnRun a b p

/-- The corners of a detour of a run along an axis, from where it enters the box to where it leaves
it. -/
def detourCorners (axis : Axis) (across enter exit around : ℚ) : List (Point ℚ) :=
  [axis.point enter across, axis.point enter around, axis.point exit around,
    axis.point exit across]

theorem leadsAround_detourCorners (axis : Axis) (heq : a.coord axis.other = b.coord axis.other)
    {enter exit around : ℚ} (hsize : r.low axis ≤ r.high axis)
    (haround : around = r.low axis.other ∨ around = r.high axis.other)
    (hway : (a.coord axis < r.low axis ∧ r.high axis < b.coord axis ∧
        enter = r.low axis ∧ exit = r.high axis) ∨
      (b.coord axis < r.low axis ∧ r.high axis < a.coord axis ∧
        enter = r.high axis ∧ exit = r.low axis)) :
    LeadsAround r a b (detourCorners axis (a.coord axis.other) enter exit around) := by
  have hends : (enter = r.low axis ∨ enter = r.high axis) ∧
      (exit = r.low axis ∨ exit = r.high axis) := by
    rcases hway with ⟨-, -, henter, hexit⟩ | ⟨-, -, henter, hexit⟩
    · exact ⟨.inl henter, .inr hexit⟩
    · exact ⟨.inr henter, .inl hexit⟩
  have hlow : min (a.coord axis) (b.coord axis) ≤ r.low axis := by
    rcases hway with ⟨hlow, -⟩ | ⟨hlow, -⟩
    · exact (min_le_left _ _).trans hlow.le
    · exact (min_le_right _ _).trans hlow.le
  have hhigh : r.high axis ≤ max (a.coord axis) (b.coord axis) := by
    rcases hway with ⟨-, hhigh, -⟩ | ⟨-, hhigh, -⟩
    · exact hhigh.le.trans (le_max_right _ _)
    · exact hhigh.le.trans (le_max_left _ _)
  have hon : ∀ u, u = r.low axis ∨ u = r.high axis →
      OnRun a b (axis.point u (a.coord axis.other)) := by
    rintro u (rfl | rfl)
    · exact onRun_point axis hlow (hsize.trans hhigh)
    · exact onRun_point axis (hlow.trans hsize) hhigh
  constructor
  case aligned =>
    simp only [detourCorners, List.cons_append, List.nil_append, List.isChain_cons_cons,
      List.isChain_singleton, and_true]
    exact ⟨⟨axis.other, by simp⟩, ⟨axis, by simp⟩, ⟨axis.other, by simp⟩, ⟨axis, by simp⟩,
      ⟨axis.other, by simpa using heq⟩⟩
  case outside =>
    simp only [detourCorners, List.cons_append, List.nil_append, List.isChain_cons_cons,
      List.isChain_singleton, and_true]
    -- the first and the last part are beside the box, the others on its outline
    refine ⟨keepsOut_of_side axis ?_, keepsOut_of_side axis ?_, keepsOut_of_side axis.other ?_,
      keepsOut_of_side axis ?_, keepsOut_of_side axis ?_⟩
    · rw [Axis.coord_point]
      rcases hway with ⟨ha, -, rfl, -⟩ | ⟨-, ha, rfl, -⟩
      · exact .inl (max_le ha.le le_rfl)
      · exact .inr (le_min ha.le le_rfl)
    · simpa using hends.1.imp Eq.le Eq.ge
    · simpa using haround.imp Eq.le Eq.ge
    · simpa using hends.2.imp Eq.le Eq.ge
    · rw [Axis.coord_point]
      rcases hway with ⟨-, hb, -, rfl⟩ | ⟨hb, -, -, rfl⟩
      · exact .inr (le_min le_rfl hb.le)
      · exact .inl (max_le le_rfl hb.le)
  case leaves =>
    intro p hp
    obtain rfl := Option.some.inj hp
    exact hon enter hends.1
  case returns =>
    intro p hp
    obtain rfl := Option.some.inj hp
    exact hon exit hends.2

/-- If two numbers reach beyond both ends of an interval, one of them is below it and one above. -/
theorem ends_beyond {u v low high : ℚ} (hlow : min u v < low)
    (hhigh : high < max u v) :
    (u < v ∧ u < low ∧ high < v) ∨ (¬ u < v ∧ v < low ∧ high < u) := by
  rcases lt_or_ge u v with huv | hvu
  · rw [min_eq_left huv.le] at hlow
    rw [max_eq_right huv.le] at hhigh
    exact .inl ⟨huv, hlow, hhigh⟩
  · rw [min_eq_right hvu] at hlow
    rw [max_eq_left hvu] at hhigh
    exact .inr ⟨hvu.not_gt, hlow, hhigh⟩

/-- What a detour is made for: along one of the axes the run reaches beyond both sides of the
box. It turns where the run enters the box and where it leaves it, and goes along one of the
other sides. -/
theorem detour?_cases (h : detour? a b r = some corners) : ∃ axis ends around,
    min (a.coord axis) (b.coord axis) < r.low axis ∧
      r.high axis < max (a.coord axis) (b.coord axis) ∧
      ends = (if a.coord axis < b.coord axis then (r.low axis, r.high axis)
        else (r.high axis, r.low axis)) ∧
      (around = r.low axis.other ∨ around = r.high axis.other) ∧
      corners = detourCorners axis (a.coord axis.other) ends.1 ends.2 around := by
  unfold detour? at h
  simp only [Scalar.min_eq, Scalar.max_eq] at h
  split at h
  · cases h
  split at h
  case isTrue =>
    split at h
    case isTrue => cases h
    case isFalse hpass =>
      obtain ⟨-, -, hlow, hhigh⟩ : r.y < a.y ∧ a.y < r.bottom ∧ min a.x b.x < r.x ∧
          r.right < max a.x b.x := by simpa only [not_or, not_le] using hpass
      exact ⟨.horizontal, _, _, hlow, hhigh, rfl, ite_eq_or_eq _ _ _, (Option.some.inj h).symm⟩
  case isFalse =>
    split at h
    case isFalse => cases h
    case isTrue =>
      split at h
      case isTrue => cases h
      case isFalse hpass =>
        obtain ⟨-, -, hlow, hhigh⟩ : r.x < a.x ∧ a.x < r.right ∧ min a.y b.y < r.y ∧
            r.bottom < max a.y b.y := by simpa only [not_or, not_le] using hpass
        exact ⟨.vertical, _, _, hlow, hhigh, rfl, ite_eq_or_eq _ _ _, (Option.some.inj h).symm⟩

/-- A detour leads around its box: it begins and ends where the run does, and none of its parts
passes through the box. The run has the direction of the axis, since it reaches beyond both
sides. -/
theorem detour?_spec (hab : Aligned a b) (hwidth : 0 ≤ r.width) (hheight : 0 ≤ r.height)
    (h : detour? a b r = some corners) : LeadsAround r a b corners := by
  obtain ⟨axis, ends, around, hlow, hhigh, rfl, haround, rfl⟩ := detour?_cases h
  have hsize : r.low axis ≤ r.high axis := by
    cases axis
    · exact le_add_of_nonneg_right hwidth
    · exact le_add_of_nonneg_right hheight
  have heq : a.coord axis.other = b.coord axis.other := by
    obtain ⟨across, heq⟩ := hab
    obtain rfl | rfl := axis.eq_or_eq_other across
    · rw [heq, min_self] at hlow
      rw [heq, max_self] at hhigh
      linarith
    · exact heq
  refine leadsAround_detourCorners axis heq hsize haround ?_
  rcases ends_beyond hlow hhigh with ⟨hdir, ha, hb⟩ | ⟨hdir, hb, ha⟩
  · rw [if_pos hdir]
    exact .inl ⟨ha, hb, rfl, rfl⟩
  · rw [if_neg hdir]
    exact .inr ⟨hb, ha, rfl, rfl⟩

/-- A run that passes through a box is led around it, for such a run is longer than the box is
high. -/
theorem RunsThrough.detour? (h : RunsThrough r axis a b) (hheight : alignTolerance ≤ r.height) :
    (detour? a b r).isSome = true := by
  obtain ⟨hoffa, hoffb⟩ := h.off
  obtain ⟨heq, hlow, hhigh, hmin, hmax⟩ := h
  have htol : (0 : ℚ) < alignTolerance := by norm_num [alignTolerance]
  have hnear : ∀ u : ℚ, Scalar.abs (u - u) < alignTolerance := fun u => by
    rw [sub_self]
    exact abs_zero.trans_lt htol
  unfold Flowchart.detour?
  rw [hoffa.contains_eq_false, hoffb.contains_eq_false]
  simp only [Bool.or_self, Bool.false_eq_true, ↓reduceIte, Scalar.min_eq, Scalar.max_eq]
  cases axis with
  | horizontal =>
    have hpass : ¬ (a.y ≤ r.y ∨ r.bottom ≤ a.y ∨ r.x ≤ min a.x b.x ∨ max a.x b.x ≤ r.right) := by
      simp only [not_or, not_le]
      exact ⟨hlow, hhigh, hmin, hmax⟩
    have heq : a.y = b.y := heq
    rw [if_pos (heq ▸ hnear _), if_neg hpass]
    rfl
  | vertical =>
    have hpass : ¬ (a.x ≤ r.x ∨ r.right ≤ a.x ∨ r.y ≤ min a.y b.y ∨ max a.y b.y ≤ r.bottom) := by
      simp only [not_or, not_le]
      exact ⟨hlow, hhigh, hmin, hmax⟩
    have heq : a.x = b.x := heq
    have hlong : ¬ Scalar.abs (a.y - b.y) < alignTolerance := by
      have habs : Scalar.abs (a.y - b.y) = max a.y b.y - min a.y b.y :=
        (max_sub_min_eq_abs' a.y b.y).symm
      have hbottom : r.y + r.height < max a.y b.y := hmax
      have htop : min a.y b.y < r.y := hmin
      rw [habs]
      linarith
    rw [if_neg hlong, if_pos (heq ▸ hnear _), if_neg hpass]
    rfl

/-- No part of a detour ends in a box that the detour surrounds or has no corner in, unless the run
did before. -/
theorem LeadsAround.clean (h : LeadsAround r a b corners) (hclean : Clean s a b)
    (hr : s.Within r ∨ ∀ c ∈ corners, Off s c) : (a :: (corners ++ [b])).IsChain (Clean s) := by
  rcases hr with hs | hoff
  · exact h.outside.imp fun _ _ hout => .inl (hout.mono hs)
  cases corners with
  | nil => exact .cons_cons hclean (.singleton b)
  | cons c cs =>
    obtain ⟨hfirst, hrest⟩ := List.isChain_cons.mp h.aligned
    obtain ⟨hmiddle, -, hlast⟩ := List.isChain_append.mp hrest
    refine List.isChain_cons.mpr ⟨fun q hq => ?_, List.isChain_append.mpr
      ⟨hmiddle.imp_of_mem_imp fun p q hp hq hpq => hpq.clean (hoff p hp) (hoff q hq),
        .singleton b, fun p hp q hq => ?_⟩⟩
    · -- from the run to the first corner
      have hqc : q ∈ (c :: cs).head? := hq
      have hoffq := hoff q (List.mem_of_mem_head? hqc)
      rcases hclean with hout | ⟨axis, hthrough⟩
      · exact .inl (hout.between (.first a b) (h.leaves q hqc))
      · exact (hfirst q hq).clean hthrough.off.1 hoffq
    · -- from the last corner back to the run
      have hoffp := hoff p (List.mem_of_mem_getLast? hp)
      obtain rfl : b = q := Option.some.inj hq
      rcases hclean with hout | ⟨axis, hthrough⟩
      · exact .inl (hout.between (h.returns p hp) (.last a b))
      · exact (hlast p hp b hq).clean hoffp hthrough.off.2

/-! ## Whole routes -/

/-- What holds between neighbours of a route and along a detour holds once the detour is in. -/
theorem isChain_splice {R : Point ℚ → Point ℚ → Prop} {front rest : List (Point ℚ)}
    (h : (front ++ a :: b :: rest).IsChain R)
    (hnew : R a b → (a :: (corners ++ [b])).IsChain R) :
    (front ++ a :: (corners ++ b :: rest)).IsChain R := by
  obtain ⟨hfront, hab, hrest⟩ := List.isChain_append_cons_cons.mp h
  exact List.isChain_split.mpr ⟨hfront, List.isChain_cons_split.mpr ⟨hnew hab, hrest⟩⟩

/-- Clean runs that do not pass through keep out. -/
theorem isChain_keepsOut (hclean : points.IsChain (Clean r))
    (hpass : points.IsChain fun a b => ∀ axis, ¬ RunsThrough r axis a b) :
    points.IsChain (KeepsOut r) := by
  induction points with
  | nil => exact .nil
  | cons a points ih =>
    obtain ⟨hclean, hcleans⟩ := List.isChain_cons.mp hclean
    obtain ⟨hpass, hpasses⟩ := List.isChain_cons.mp hpass
    exact List.isChain_cons.mpr ⟨fun b hb => (hclean b hb).resolve_right fun ⟨axis, hthrough⟩ =>
      hpass b hb axis hthrough, ih hcleans hpasses⟩

/-- The point is a corner of the route or lies on one of its runs. -/
def OnRoute (points : List (Point ℚ)) (p : Point ℚ) : Prop :=
  p ∈ points ∨ ∃ a b, [a, b] <:+: points ∧ OnRun a b p

/-- If no run meets the inside of a box, the route does not, provided that it starts outside. -/
theorem contains_eq_false_of_onRoute (h : points.IsChain (KeepsOut r))
    (hstart : ∀ p ∈ points.head?, r.contains p = false) (hp : OnRoute points p) :
    r.contains p = false := by
  rcases hp with hp | ⟨a, b, hab, hp⟩
  · induction points with
    | nil => cases hp
    | cons a points ih =>
      rcases List.mem_cons.mp hp with rfl | hp
      · exact hstart p rfl
      · obtain ⟨hfirst, hrest⟩ := List.isChain_cons.mp h
        exact ih hrest (fun q hq => hfirst q hq q (.last a q)) hp
  · have hchain := List.IsChain.infix h hab
    exact (List.isChain_pair.mp hchain) p hp

end Flowchart
