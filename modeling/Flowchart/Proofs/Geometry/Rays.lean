import Flowchart.Proofs.Scalar.Real
import Flowchart.Geometry.Ray

/-!
# Where rays meet a contour

What a ray finds on a contour is a point of it, whatever the segments are: a crossing is always the
point of a segment at a parameter between its ends, `onContour_of_rayCrossing?`.

Conversely, a ray finds a straight side if the ends of the side lie on both sides of the ray's line
and the crossing is ahead of the origin. The tolerances make this a little stronger: the crossing
must still be ahead of the origin moved forward by one tolerance, and the side must not be almost
parallel to the ray. And it finds nothing on sides that stay to its right.
-/

namespace Flowchart

variable {segments : List (Segment ℝ)} {s : Segment ℝ} {a b o p dir : Point ℝ} {t : ℝ}

/-- The point lies on one of the segments. -/
def OnContour (segments : List (Segment ℝ)) (p : Point ℝ) : Prop :=
  ∃ s ∈ segments, ∃ t ∈ Set.Icc (0 : ℝ) 1, p = s.pointAt t

/-! ## Crossings are points of the contour -/

theorem onSegment_of_crossingAhead? {found : ℝ × Point ℝ}
    (h : s.crossingAhead? o dir t = some found) : ∃ u ∈ Set.Icc (0 : ℝ) 1, found.2 = s.pointAt u := by
  rw [Segment.crossingAhead?] at h
  split at h
  · dsimp only at h
    split at h
    · cases h
    · obtain rfl := Option.some.inj h
      refine ⟨Scalar.clamp t 0.0 1.0, ?_, rfl⟩
      rw [Scalar.lit_zero, Scalar.lit_one]
      exact Scalar.clamp_mem_Icc zero_le_one
  · cases h

/-- The crossing that is nearest so far. -/
noncomputable def nearer (best : Option (ℝ × Point ℝ)) (c : ℝ × Point ℝ) : Option (ℝ × Point ℝ) :=
  match best with
  | none => some c
  | some b => if c.1 < b.1 then some c else some b

/-- All crossings ahead. -/
noncomputable def crossingsAhead (segments : List (Segment ℝ)) (o dir : Point ℝ) :
    List (ℝ × Point ℝ) :=
  segments.flatMap fun s => (s.lineCrossings o dir).filterMap (s.crossingAhead? o dir)

theorem rayCrossing?_eq (segments : List (Segment ℝ)) (o d : Point ℝ) :
    rayCrossing? segments o d =
      ((crossingsAhead segments o (unitDirection d)).foldl nearer none).map Prod.snd := by
  rw [rayCrossing?]
  congr 2
  funext best c
  cases best <;> rfl

/-- The nearest crossing is one of them, and there is one unless there are none. -/
theorem foldl_nearer (found : List (ℝ × Point ℝ)) (best : Option (ℝ × Point ℝ)) :
    (∀ c, found.foldl nearer best = some c → c ∈ found ∨ best = some c) ∧
      (found.foldl nearer best = none → found = [] ∧ best = none) := by
  induction found generalizing best with
  | nil => exact ⟨fun _ h => .inr h, fun h => ⟨rfl, h⟩⟩
  | cons d found ih =>
    obtain ⟨hsome, hnone⟩ := ih (nearer best d)
    have hpicks : nearer best d = some d ∨ nearer best d = best := by
      cases best with
      | none => exact .inl rfl
      | some b =>
        rw [nearer]
        split
        exacts [.inl rfl, .inr rfl]
    refine ⟨fun c hc => ?_, fun h => ?_⟩
    · obtain hmem | hbest := hsome c hc
      · exact .inl (List.mem_cons_of_mem d hmem)
      · rcases hpicks with h | h
        · obtain rfl := Option.some.inj (h.symm.trans hbest)
          exact .inl List.mem_cons_self
        · exact .inr (h.symm.trans hbest)
    · have hnever := (hnone h).2
      cases best with
      | none => cases hnever
      | some b =>
        rw [nearer] at hnever
        split at hnever <;> cases hnever

/-- What a ray finds lies on the contour. -/
theorem onContour_of_rayCrossing? {d : Point ℝ} (h : rayCrossing? segments o d = some p) :
    OnContour segments p := by
  rw [rayCrossing?_eq] at h
  obtain ⟨c, hc, rfl⟩ := Option.map_eq_some_iff.mp h
  obtain hmem | hnone := (foldl_nearer _ none).1 c hc
  · obtain ⟨s, hs, hmem⟩ := List.mem_flatMap.mp hmem
    obtain ⟨t, -, hcross⟩ := List.mem_filterMap.mp hmem
    obtain ⟨u, hu, hpoint⟩ := onSegment_of_crossingAhead? hcross
    exact ⟨s, hs, u, hu, hpoint⟩
  · cases hnone

/-! ## Straight sides -/

theorem pointAt_line (a b : Point ℝ) (t : ℝ) :
    (Segment.line a b).pointAt t = ⟨a.x + (b.x - a.x) * t, a.y + (b.y - a.y) * t⟩ := by
  simp only [Segment.pointAt, Segment.controls, Segment.weights, List.zip_cons_cons,
    List.zip_nil_right, List.foldl_cons, List.foldl_nil, Point.origin, Point.narrow, widen, narrow, id,
    Scalar.lit_zero, Scalar.lit_one]
  congr 1 <;> ring

/-- A direction of length one is its own unit vector. -/
theorem unitDirection_eq (h : dir.x * dir.x + dir.y * dir.y = 1) :
    (unitDirection dir : Point ℝ) = dir := by
  have hlong : ¬ (1 : ℝ) < rootTolerance := by norm_num [rootTolerance]
  simp only [unitDirection, Point.widen, widen, id, h]
  rw [show Scalar.sqrt (1 : ℝ) = 1 from Real.sqrt_one, if_neg hlong, div_one, div_one]

/-- How far a point is to the right of the ray from `o` along `dir`. -/
noncomputable def sideways (o dir p : Point ℝ) : ℝ := dir.cross (p.sub o)

/-- The point one tolerance ahead on the ray. -/
noncomputable def Point.ahead (o dir : Point ℝ) : Point ℝ := o.add (dir.scale 1e-6)

/-- The side from `a` to `b` passes from the left of the ray to its right, it is not almost parallel
to the ray, and it passes ahead of the origin, which is itself on the right of the side. -/
structure Crossed (o dir a b : Point ℝ) : Prop where
  left : sideways o dir a ≤ 0
  right : 0 ≤ sideways o dir b
  steep : 1e-9 ≤ sideways o dir b - sideways o dir a
  inner : 0 < (b.sub a).cross ((o.ahead dir).sub a)

theorem sideways_eq (o dir p : Point ℝ) :
    sideways o dir p = dir.x * (p.y - o.y) - dir.y * (p.x - o.x) := rfl

theorem lineCrossings_line (o dir a b : Point ℝ) : (Segment.line a b).lineCrossings o dir =
    if Scalar.abs (sideways o dir a - sideways o dir b) < (rootTolerance : ℝ) then []
    else [sideways o dir a / (sideways o dir a - sideways o dir b)] := rfl

/-- How far ahead of the origin a side of length `v - u` across the ray is crossed. -/
theorem along_mul (hdir : dir.x * dir.x + dir.y * dir.y = 1)
    (ht : t * (sideways o dir a - sideways o dir b) = sideways o dir a) :
    (dir.x * (a.x + (b.x - a.x) * t - o.x) + dir.y * (a.y + (b.y - a.y) * t - o.y)) *
        (sideways o dir b - sideways o dir a) =
      (b.sub a).cross (o.sub a) := by
  simp only [sideways_eq] at *
  simp only [Point.cross, Point.sub]
  linear_combination (-(dir.x * (b.x - a.x) + dir.y * (b.y - a.y))) * ht +
    ((b.x - a.x) * (o.y - a.y) - (b.y - a.y) * (o.x - a.x)) * hdir

theorem cross_ahead (o dir a b : Point ℝ) : (b.sub a).cross ((o.ahead dir).sub a) =
    (b.sub a).cross (o.sub a) - 1e-6 * (sideways o dir b - sideways o dir a) := by
  simp only [sideways_eq, Point.cross, Point.sub, Point.ahead, Point.add, Point.scale]
  ring

/-- A crossed side has a crossing ahead. It lies between the ends of the side, so that clamping
leaves its parameter alone. -/
theorem Crossed.exists_crossing (hdir : dir.x * dir.x + dir.y * dir.y = 1) (h : Crossed o dir a b) :
    ∃ t ∈ (Segment.line a b).lineCrossings o dir, ∃ c,
      (Segment.line a b).crossingAhead? o dir t = some c := by
  obtain ⟨hleft, hright, hsteep, hinner⟩ := h
  rw [cross_ahead] at hinner
  rw [lineCrossings_line]
  set u := sideways o dir a with hu
  set v := sideways o dir b with hv
  have hpos : 0 < v - u := lt_of_lt_of_le (by norm_num) hsteep
  have hne : u - v ≠ 0 := by linarith
  obtain ⟨hlow, hhigh⟩ : 0 ≤ u / (u - v) ∧ u / (u - v) ≤ 1 :=
    ⟨div_nonneg_of_nonpos hleft (by linarith), (div_le_one_of_neg (by linarith)).mpr (by linarith)⟩
  refine ⟨u / (u - v), ?_, ?_⟩
  · have hsteep : ¬ Scalar.abs (u - v) < (rootTolerance : ℝ) := by
      rw [Scalar.abs_eq, abs_sub_comm, abs_of_pos hpos]
      exact hsteep.not_gt
    rw [if_neg hsteep]
    exact List.mem_singleton_self _
  · have hrange : -parameterTolerance ≤ u / (u - v) ∧ u / (u - v) ≤ 1.0 + (parameterTolerance : ℝ) := by
      norm_num [parameterTolerance]
      constructor <;> linarith
    -- the crossing is between the ends of the side, so clamping leaves its parameter alone
    have hinside : Scalar.clamp (u / (u - v)) (0.0 : ℝ) 1.0 = u / (u - v) := by
      rw [Scalar.lit_zero, Scalar.lit_one]
      exact Scalar.clamp_eq_self ⟨hlow, hhigh⟩
    have halong := along_mul hdir (o := o) (a := a) (b := b) (div_mul_cancel₀ u hne)
    rw [← halong, ← sub_mul] at hinner
    rw [Segment.crossingAhead?, if_pos hrange]
    simp only [narrow, id, hinside, pointAt_line]
    refine ⟨_, if_neg ?_⟩
    change ¬ _ ≤ (1e-6 : ℝ)
    rw [not_le]
    exact sub_pos.mp (pos_of_mul_pos_left hinner hpos.le)

/-- A ray of unit length that crosses a straight side finds something. -/
theorem Crossed.rayCrossing? (hdir : dir.x * dir.x + dir.y * dir.y = 1) (h : Crossed o dir a b)
    (hside : .line a b ∈ segments) : ∃ p, rayCrossing? segments o dir = some p := by
  rw [← Option.isSome_iff_exists, ← Option.ne_none_iff_isSome, rayCrossing?_eq, unitDirection_eq hdir]
  intro hnone
  obtain ⟨t, ht, c, hc⟩ := h.exists_crossing hdir
  have hnothing := ((foldl_nearer _ none).2 (Option.map_eq_none_iff.mp hnone)).1
  have hmem : c ∈ crossingsAhead segments o dir :=
    List.mem_flatMap.mpr ⟨.line a b, hside, List.mem_filterMap.mpr ⟨t, ht, hc⟩⟩
  rw [hnothing] at hmem
  cases hmem

/-- The side stays on the right of the ray, by more than the tolerance at its ends. -/
structure Missed (o dir a b : Point ℝ) : Prop where
  start : 1e-6 * (sideways o dir b - sideways o dir a) < sideways o dir a
  stop : 1e-6 * (sideways o dir a - sideways o dir b) < sideways o dir b

theorem Missed.crossingAhead? (h : Missed o dir a b)
    (ht : t ∈ (Segment.line a b).lineCrossings o dir) :
    (Segment.line a b).crossingAhead? o dir t = none := by
  obtain ⟨hstart, hstop⟩ := h
  rw [lineCrossings_line] at ht
  set u := sideways o dir a with hu
  set v := sideways o dir b with hv
  split at ht
  case isTrue => cases ht
  case isFalse hsteep =>
    obtain rfl := List.mem_singleton.mp ht
    have hne : u - v ≠ 0 := by
      intro h
      refine hsteep ?_
      rw [h, Scalar.abs_eq, abs_zero, rootTolerance]
      norm_num
    have hout : ¬ (-(parameterTolerance : ℝ) ≤ u / (u - v) ∧
        u / (u - v) ≤ 1.0 + parameterTolerance) := by
      rw [not_and_or, not_le, not_le, parameterTolerance]
      norm_num at hstart hstop ⊢
      rcases lt_or_gt_of_ne hne with hneg | hpos
      · left
        rw [div_lt_iff_of_neg hneg]
        linarith
      · right
        rw [lt_div_iff₀ hpos]
        linarith
    rw [Segment.crossingAhead?, if_neg hout]

/-- A ray of unit length finds nothing on straight sides that it misses. -/
theorem rayCrossing?_eq_none (hdir : dir.x * dir.x + dir.y * dir.y = 1)
    (h : ∀ s ∈ segments, ∃ a b, s = .line a b ∧ Missed o dir a b) :
    rayCrossing? segments o dir = none := by
  have hnothing : crossingsAhead segments o dir = [] := by
    refine List.flatMap_eq_nil_iff.mpr fun s hs => List.filterMap_eq_nil_iff.mpr fun t ht => ?_
    obtain ⟨a, b, rfl, hmissed⟩ := h s hs
    exact hmissed.crossingAhead? ht
  rw [rayCrossing?_eq, unitDirection_eq hdir, hnothing]
  rfl

end Flowchart
