import Flowchart.Proofs.Geometry.Rays
import Flowchart.Geometry.ArcLength
import Flowchart.Geometry.Spline
import Flowchart.Route.Labels

/-!
# Places along a route

The table of a polyline holds the length of the way up to every corner. Looking up a length finds
the run on which it falls: the first one that ends later. Within a straight run the way grows
evenly, so the share of the run that is left over is the parameter itself and the search for it ends
at once. The point that is found cuts the way into a part of the given length and the rest,
`pointAtLength?_exact`.

Runs without length hold no point that is not a corner, and the lookup passes over them. A run may
go in any direction: over the real numbers its length is exact.
-/

namespace Flowchart

/-! ## Ways and the points that cut them -/

/-- Length of the way along the corners. -/
noncomputable def wayLength : List (Point ℝ) → ℝ
  | p :: q :: rest => p.distance q + wayLength (q :: rest)
  | _ => 0

/-- The point lies on the straight run between two points. -/
def AlongRun (p p' q : Point ℝ) : Prop :=
  ∃ t ∈ Set.Icc (0 : ℝ) 1, q = ⟨p.x + (p'.x - p.x) * t, p.y + (p'.y - p.y) * t⟩

/-- The point lies on the way along the corners and cuts it into a part of one length before it and
a part of another length behind it. -/
inductive CutAt : List (Point ℝ) → ℝ → ℝ → Point ℝ → Prop where
  /-- on the first run -/
  | here {p p' q : Point ℝ} {rest : List (Point ℝ)} (h : AlongRun p p' q) :
    CutAt (p :: p' :: rest) (p.distance q) (q.distance p' + wayLength (p' :: rest)) q
  /-- behind the first run -/
  | later {p p' q : Point ℝ} {rest : List (Point ℝ)} {before after : ℝ}
    (h : CutAt (p' :: rest) before after q) :
    CutAt (p :: p' :: rest) (p.distance p' + before) after q

variable {p p' q q' : Point ℝ} {corners rest : List (Point ℝ)} {s t before after : ℝ}

theorem wayLength_cons_cons (p q : Point ℝ) (rest : List (Point ℝ)) :
    wayLength (p :: q :: rest) = p.distance q + wayLength (q :: rest) := rfl

/-- No way has a negative length, since it is a sum of distances. -/
theorem wayLength_nonneg (corners : List (Point ℝ)) : 0 ≤ wayLength corners := by
  induction corners using wayLength.induct with
  | case1 p q rest ih => exact add_nonneg (Point.distance_nonneg p q) ih
  | case2 corners h => exact (wayLength.eq_2 corners h).ge

/-- On a run the way grows evenly: a share of the run has this share of its length. -/
theorem distance_toward (p p' : Point ℝ) {t : ℝ} (ht : 0 ≤ t) :
    p.distance ⟨p.x + (p'.x - p.x) * t, p.y + (p'.y - p.y) * t⟩ = t * p.distance p' := by
  change Real.sqrt _ = t * Real.sqrt _
  rw [← Real.sqrt_mul_self ht, ← Real.sqrt_mul (mul_self_nonneg t), Real.sqrt_mul_self ht]
  congr 1
  ring

/-- A point of a run cuts it into two. -/
theorem AlongRun.distance_add (h : AlongRun p p' q) :
    p.distance q + q.distance p' = p.distance p' := by
  obtain ⟨t, ⟨hzero, hone⟩, rfl⟩ := h
  have hback := distance_toward p' p (sub_nonneg.mpr hone)
  have hsame : (⟨p'.x + (p.x - p'.x) * (1 - t), p'.y + (p.y - p'.y) * (1 - t)⟩ : Point ℝ) =
      ⟨p.x + (p'.x - p.x) * t, p.y + (p'.y - p.y) * t⟩ := by
    congr 1 <;> ring
  rw [hsame, Point.distance_comm, Point.distance_comm p' p] at hback
  rw [distance_toward p p' hzero, hback]
  ring

/-- A point of a run is known from its distance to the start. -/
theorem AlongRun.unique (h : AlongRun p p' q) (h' : AlongRun p p' q')
    (hsame : p.distance q = p.distance q') : q = q' := by
  obtain ⟨t, ⟨ht, -⟩, rfl⟩ := h
  obtain ⟨t', ⟨ht', -⟩, rfl⟩ := h'
  rw [distance_toward p p' ht, distance_toward p p' ht', mul_eq_mul_right_iff] at hsame
  rcases hsame with rfl | hzero
  · rfl
  · obtain rfl := Point.eq_of_distance_eq_zero hzero
    simp

/-- A run begins on itself, at the share zero. -/
theorem alongRun_start (p p' : Point ℝ) : AlongRun p p' p := ⟨0, by simp, by simp⟩

theorem alongRun_stop (p p' : Point ℝ) : AlongRun p p' p' := ⟨1, by simp, by simp⟩

namespace CutAt

/-- The parts before and after a point make up the whole way. -/
theorem add_eq (h : CutAt corners before after q) : before + after = wayLength corners := by
  induction h with
  | here h => rw [wayLength, ← h.distance_add, add_assoc]
  | later h ih => rw [wayLength, ← ih, add_assoc]

/-- The part before a point is at least as long as nothing. -/
theorem before_nonneg (h : CutAt corners before after q) : 0 ≤ before := by
  induction h with
  | @here p _ q _ _ => exact Point.distance_nonneg p q
  | @later p p' _ _ _ _ _ ih => exact add_nonneg (Point.distance_nonneg p p') ih

/-- Where there is no way before it, the point is the first corner. -/
theorem eq_head (h : CutAt (p :: rest) 0 after q) : q = p := by
  generalize hcorners : p :: rest = corners at h
  generalize hbefore : (0 : ℝ) = before at h
  induction h generalizing p rest with
  | here h =>
    obtain ⟨rfl, -⟩ := List.cons.inj hcorners
    exact (Point.eq_of_distance_eq_zero hbefore.symm).symm
  | @later p' p'' q rest' before after h ih =>
    obtain ⟨rfl, -⟩ := List.cons.inj hcorners
    have hbefore' := h.before_nonneg
    have hrun := Point.distance_nonneg p p''
    have hzero : p.distance p'' = 0 := by linarith
    rw [ih rfl (by linarith), Point.eq_of_distance_eq_zero hzero]

/-- A length that is reached on the first run is reached behind it only at the corner between. -/
theorem eq_of_alongRun (h : AlongRun p p' q) (h' : CutAt (p' :: rest) before after q')
    (hsame : p.distance q = p.distance p' + before) : q = q' := by
  have hadd := h.distance_add
  have hrest := Point.distance_nonneg q p'
  have hbefore := h'.before_nonneg
  obtain rfl : before = 0 := by linarith
  rw [h'.eq_head]
  exact Point.eq_of_distance_eq_zero (by linarith)

/-- **A length belongs to one point of the way.** -/
theorem unique {before' after' : ℝ} (h : CutAt corners before after q)
    (h' : CutAt corners before' after' q') (hsame : before = before') : q = q' := by
  induction h generalizing before' after' q' with
  | here h =>
    cases h' with
    | here h' => exact h.unique h' hsame
    | later h' => exact eq_of_alongRun h h' hsame
  | later h ih =>
    cases h' with
    | here h' => exact (eq_of_alongRun h' h hsame.symm).symm
    | later h' => exact ih h' (add_left_cancel hsame)

end CutAt

/-- The first corner cuts the way into nothing and all of it. -/
theorem cutAt_start (p p' : Point ℝ) (rest : List (Point ℝ)) :
    CutAt (p :: p' :: rest) 0 (wayLength (p :: p' :: rest)) p := by
  have h : CutAt (p :: p' :: rest) (p.distance p) (p.distance p' + wayLength (p' :: rest)) p :=
    .here (alongRun_start p p')
  rwa [Point.distance_self, ← wayLength] at h

/-- The last corner cuts the way into all of it and nothing. -/
theorem cutAt_stop (p p' : Point ℝ) (rest : List (Point ℝ)) :
    ∃ q, (p :: p' :: rest).getLast? = some q ∧
      CutAt (p :: p' :: rest) (wayLength (p :: p' :: rest)) 0 q := by
  induction rest generalizing p p' with
  | nil =>
    have h : CutAt [p, p'] (p.distance p') (p'.distance p' + wayLength [p']) p' :=
      .here (alongRun_stop p p')
    refine ⟨p', rfl, ?_⟩
    simpa [wayLength, Point.distance_self] using h
  | cons p'' rest ih =>
    obtain ⟨q, hq, hcut⟩ := ih p' p''
    exact ⟨q, by rwa [List.getLast?_cons_cons], hcut.later⟩

/-! ## The table -/

/-- The length table of a polyline. -/
noncomputable def lengthTable (corners : List (Point ℝ)) : List (Piece ℝ) :=
  measurePath (polylineSegments corners)

/-- How many runs end at this length or before it. -/
noncomputable def runsEnded (pieces : List (Piece ℝ)) (s : ℝ) : Nat :=
  pieces.countP fun piece => decide (piece.after ≤ s)

variable {start : ℝ}

@[simp] theorem length_line (p q : Point ℝ) : (Segment.line p q).length = p.distance q := by
  rw [Segment.length, Segment.lengthTo, Scalar.lit_one, mul_one]

/-- The first entry of the table is that of the first run, and the others start where it ends. -/
theorem measureFrom_cons (start : ℝ) (p p' : Point ℝ) (rest : List (Point ℝ)) :
    measureFrom start (polylineSegments (p :: p' :: rest)) =
      ⟨.line p p', start, start + p.distance p'⟩ ::
        measureFrom (start + p.distance p') (polylineSegments (p' :: rest)) := by
  rw [polylineSegments, measureFrom, length_line]

theorem length_measureFrom (start : ℝ) (segments : List (Segment ℝ)) :
    (measureFrom start segments).length = segments.length := by
  induction segments generalizing start with
  | nil => rfl
  | cons s segments ih => rw [measureFrom, List.length_cons, ih, List.length_cons]

/-- The table has an entry for every run of the polyline. -/
theorem length_lengthTable (corners : List (Point ℝ)) :
    (lengthTable corners).length = (polylineSegments corners).length :=
  length_measureFrom _ _

/-- The table ends with the length of the whole way. -/
theorem getLast?_measureFrom (start : ℝ) (p p' : Point ℝ) (rest : List (Point ℝ)) :
    ∃ piece, (measureFrom start (polylineSegments (p :: p' :: rest))).getLast? = some piece ∧
      piece.after = start + wayLength (p :: p' :: rest) ∧
      some piece.segment.stop = (p :: p' :: rest).getLast? := by
  induction rest generalizing start p p' with
  | nil =>
    rw [measureFrom_cons]
    exact ⟨⟨.line p p', start, start + p.distance p'⟩, rfl, by simp [wayLength], rfl⟩
  | cons p'' rest ih =>
    obtain ⟨piece, hlast, hafter, hstop⟩ := ih (start + p.distance p') p' p''
    refine ⟨piece, ?_, ?_, hstop.trans List.getLast?_cons_cons.symm⟩
    · rw [measureFrom_cons, measureFrom_cons, List.getLast?_cons_cons, ← measureFrom_cons, hlast]
    · rw [hafter, wayLength_cons_cons p, add_assoc]

/-- No entry of the table is smaller than where it starts. -/
theorem le_after_of_mem {piece : Piece ℝ}
    (h : piece ∈ measureFrom start (polylineSegments corners)) : start ≤ piece.after := by
  induction corners using polylineSegments.induct generalizing start with
  | case1 p p' rest ih =>
    rw [measureFrom_cons] at h
    have hrun := Point.distance_nonneg p p'
    rcases List.mem_cons.mp h with rfl | h
    · exact le_add_of_nonneg_right hrun
    · exact (le_add_of_nonneg_right hrun).trans (ih h)
  | case2 corners hcorners =>
    rw [polylineSegments.eq_2 _ hcorners] at h
    cases h

/-! ## Looking up -/

/-- **Within a straight run the parameter is exact.** -/
theorem pointAt_run (hrun : negligibleLength < p.distance p') (start s : ℝ) :
    (⟨.line p p', start, start + p.distance p'⟩ : Piece ℝ).pointAt s =
      ⟨p.x + (p'.x - p.x) * ((s - start) / p.distance p'),
        p.y + (p'.y - p.y) * ((s - start) / p.distance p')⟩ := by
  have hpos : 0 < p.distance p' := lt_of_le_of_lt (by norm_num [negligibleLength]) hrun
  have hspan : start + p.distance p' - start = p.distance p' := add_sub_cancel_left _ _
  have hexact : p.distance p' * ((s - start) / p.distance p') - (s - start) = 0 := by
    rw [mul_div_cancel₀ _ hpos.ne', sub_self]
  rw [Piece.pointAt]
  dsimp only
  rw [hspan, if_neg hrun.not_ge, Segment.parameterOfLength, Segment.lengthTo, hexact, if_pos,
    pointAt_line]
  rw [Scalar.abs_eq]
  norm_num

/-- The first entry is found if it ends behind the length that is looked up. -/
theorem pieceAt?_cons_of_lt {piece : Piece ℝ} (h : s < piece.after) (pieces : List (Piece ℝ)) :
    pieceAt? s (piece :: pieces) = some piece := by
  cases pieces with
  | nil => rfl
  | cons next pieces => rw [pieceAt?, if_neg h.not_ge]

/-- It is passed over if it ends before that, unless it is the only one. -/
theorem pieceAt?_cons_of_le {piece : Piece ℝ} (h : piece.after ≤ s) {pieces : List (Piece ℝ)}
    (hne : pieces ≠ []) : pieceAt? s (piece :: pieces) = pieceAt? s pieces := by
  cases pieces with
  | nil => exact absurd rfl hne
  | cons next pieces => rw [pieceAt?, if_pos h]

/-- The lookup gives the piece that is reached by passing over all that end at the length or before
it, and its point cuts the way there. -/
structure Found (corners : List (Point ℝ)) (start s : ℝ) (piece : Piece ℝ) : Prop where
  /-- the lookup stays inside the table -/
  lookup : pieceAt? s (measureFrom start (polylineSegments corners)) = some piece
  /-- the piece is the one that the entries of the table lead to -/
  index : (measureFrom start (polylineSegments corners))[runsEnded
    (measureFrom start (polylineSegments corners)) s]? = some piece
  /-- its point is at the length -/
  cut : CutAt corners (s - start) (start + wayLength corners - s) (piece.pointAt s)

/-- A length before the end of the first run falls on it. -/
theorem found_here (hrun : negligibleLength < p.distance p') (rest : List (Point ℝ))
    (hlow : start ≤ s) (hhigh : s < start + p.distance p') :
    Found (p :: p' :: rest) start s ⟨.line p p', start, start + p.distance p'⟩ := by
  have hpos : 0 < p.distance p' := by linarith
  refine ⟨?_, ?_, ?_⟩
  · rw [measureFrom_cons]
    exact pieceAt?_cons_of_lt hhigh _
  · have hnone : runsEnded (measureFrom start (polylineSegments (p :: p' :: rest))) s = 0 := by
      rw [runsEnded, List.countP_eq_zero, measureFrom_cons]
      intro piece hpiece hended
      have hlarge : start + p.distance p' ≤ piece.after := by
        rcases List.mem_cons.mp hpiece with rfl | hpiece
        · exact le_rfl
        · exact le_after_of_mem hpiece
      exact (hhigh.trans_le hlarge).not_ge (of_decide_eq_true hended)
    rw [hnone, measureFrom_cons, List.getElem?_cons_zero]
  · rw [pointAt_run hrun]
    have hshare : 0 ≤ (s - start) / p.distance p' := div_nonneg (by linarith) hpos.le
    have hon : AlongRun p p' _ := ⟨(s - start) / p.distance p',
      ⟨hshare, (div_le_one hpos).mpr (by linarith)⟩, rfl⟩
    have hbefore := distance_toward p p' hshare
    rw [div_mul_cancel₀ _ hpos.ne'] at hbefore
    have hadd := hon.distance_add
    have hcut : CutAt (p :: p' :: rest) _ _ _ := .here hon
    rw [hbefore] at hcut hadd
    convert hcut using 1
    rw [wayLength_cons_cons]
    linarith

/-- A length behind the first run falls where it falls on the rest of the way. -/
theorem Found.later {p'' : Point ℝ} {piece : Piece ℝ}
    (h : Found (p' :: p'' :: rest) (start + p.distance p') s piece)
    (hended : start + p.distance p' ≤ s) : Found (p :: p' :: p'' :: rest) start s piece := by
  have hne : measureFrom (start + p.distance p') (polylineSegments (p' :: p'' :: rest)) ≠ [] := by
    rw [measureFrom_cons]
    exact List.cons_ne_nil _ _
  refine ⟨?_, ?_, ?_⟩
  · rw [measureFrom_cons, pieceAt?_cons_of_le hended hne, h.lookup]
  · rw [measureFrom_cons, runsEnded, List.countP_cons_of_pos (by simpa using hended),
      List.getElem?_cons_succ]
    exact h.index
  · have hcut := h.cut.later (p := p)
    rw [wayLength_cons_cons p]
    convert hcut using 1 <;> ring

/-- **Every length falls on a run of the table.** -/
theorem exists_found (hruns : ∀ run ∈ polylineSegments (p :: p' :: rest),
      run.length = 0 ∨ negligibleLength < run.length)
    (hlow : start ≤ s) (hhigh : s < start + wayLength (p :: p' :: rest)) :
    ∃ piece, Found (p :: p' :: rest) start s piece := by
  induction rest generalizing start p p' with
  | nil =>
    rw [wayLength_cons_cons, wayLength.eq_2 _ (by simp), add_zero] at hhigh
    have hrun := hruns _ List.mem_cons_self
    rw [length_line] at hrun
    exact ⟨_, found_here (hrun.resolve_left (by linarith)) [] hlow hhigh⟩
  | cons p'' rest ih =>
    obtain ⟨hrun, hruns⟩ := List.forall_mem_cons.mp hruns
    by_cases hended : start + p.distance p' ≤ s
    · rw [wayLength_cons_cons, ← add_assoc] at hhigh
      obtain ⟨piece, h⟩ := ih hruns hended hhigh
      exact ⟨piece, h.later hended⟩
    · rw [not_le] at hended
      rw [length_line] at hrun
      exact ⟨_, found_here (hrun.resolve_left (by linarith)) _ hlow hended⟩

/-! ## Points of the way -/

/-- The length of the whole way is read off the last entry of the table. -/
theorem totalLength_lengthTable (p p' : Point ℝ) (rest : List (Point ℝ)) :
    totalLength (lengthTable (p :: p' :: rest)) = wayLength (p :: p' :: rest) := by
  obtain ⟨piece, hlast, hafter, -⟩ := getLast?_measureFrom 0.0 p p' rest
  rw [totalLength, lengthTable, measurePath, hlast, Option.map_some, Option.getD_some, hafter,
    Scalar.lit_zero, zero_add]

/-- At a length of zero or less the first corner is found, which is where the polyline begins. -/
theorem pointAtLength?_of_nonpos (hs : s ≤ 0) (p p' : Point ℝ) (rest : List (Point ℝ)) :
    pointAtLength? (lengthTable (p :: p' :: rest)) s = some p := by
  rw [pointAtLength?, Scalar.lit_zero, if_pos hs, lengthTable, measurePath, measureFrom_cons]
  rfl

/-- Above the length of the way the last corner is found. -/
theorem pointAtLength?_of_le (hlong : wayLength (p :: p' :: rest) ≤ s) :
    pointAtLength? (lengthTable (p :: p' :: rest)) s = (p :: p' :: rest).getLast? := by
  rcases le_or_gt s 0 with hs | hs
  · -- the way has no length, so its two ends are one point
    obtain ⟨q, hq, hcut⟩ := cutAt_stop p p' rest
    have hway := wayLength_nonneg (p :: p' :: rest)
    have hnone : wayLength (p :: p' :: rest) = 0 := by linarith
    rw [hnone] at hcut
    rw [pointAtLength?_of_nonpos hs, hq, hcut.eq_head]
  · obtain ⟨piece, hlast, -, hstop⟩ := getLast?_measureFrom 0.0 p p' rest
    rw [pointAtLength?, Scalar.lit_zero, if_neg hs.not_ge, totalLength_lengthTable,
      if_pos hlong, lengthTable, measurePath, hlast, Option.map_some, hstop]

/-- Inside the way the lookup stays inside the table. -/
theorem pieceAt?_lengthTable (hruns : ∀ run ∈ polylineSegments (p :: p' :: rest),
      run.length = 0 ∨ negligibleLength < run.length)
    (hlow : 0 ≤ s) (hhigh : s < wayLength (p :: p' :: rest)) :
    runsEnded (lengthTable (p :: p' :: rest)) s < (polylineSegments (p :: p' :: rest)).length ∧
      pieceAt? s (lengthTable (p :: p' :: rest)) =
        (lengthTable (p :: p' :: rest))[runsEnded (lengthTable (p :: p' :: rest)) s]? := by
  obtain ⟨piece, hfound⟩ := exists_found hruns hlow (by rwa [zero_add])
  have hlookup := hfound.lookup
  have hindex := hfound.index
  rw [← Scalar.lit_zero, ← measurePath, ← lengthTable] at hlookup hindex
  refine ⟨?_, hlookup.trans hindex.symm⟩
  obtain ⟨hlt, -⟩ := List.getElem?_eq_some_iff.mp hindex
  rwa [length_lengthTable] at hlt

/-- At every length of the way there is a point, and it cuts the way there. -/
theorem exists_pointAtLength? (hruns : ∀ run ∈ polylineSegments (p :: p' :: rest),
      run.length = 0 ∨ negligibleLength < run.length)
    (hs : s ∈ Set.Icc 0 (wayLength (p :: p' :: rest))) :
    ∃ q, pointAtLength? (lengthTable (p :: p' :: rest)) s = some q ∧
      CutAt (p :: p' :: rest) s (wayLength (p :: p' :: rest) - s) q := by
  obtain ⟨hlow, hhigh⟩ := hs
  rcases hlow.eq_or_lt with rfl | hpos
  · rw [sub_zero]
    exact ⟨p, pointAtLength?_of_nonpos le_rfl p p' rest, cutAt_start p p' rest⟩
  rcases hhigh.eq_or_lt with rfl | hlt
  · obtain ⟨q, hq, hcut⟩ := cutAt_stop p p' rest
    rw [sub_self]
    exact ⟨q, by rw [pointAtLength?_of_le le_rfl, hq], hcut⟩
  · obtain ⟨piece, hfound⟩ := exists_found hruns hlow (by rwa [zero_add])
    have hcut := hfound.cut
    rw [sub_zero, zero_add] at hcut
    refine ⟨piece.pointAt s, ?_, hcut⟩
    rw [pointAtLength?, Scalar.lit_zero, if_neg hpos.not_ge, totalLength_lengthTable,
      if_neg hlt.not_ge, lengthTable, measurePath, Scalar.lit_zero, hfound.lookup]
    rfl

/-- Half the length leads to a point that cuts the polyline into two halves of the same length. -/
theorem exists_middle (hruns : ∀ run ∈ polylineSegments (p :: p' :: rest),
      run.length = 0 ∨ negligibleLength < run.length) :
    ∃ middle, pointAtFraction? (lengthTable (p :: p' :: rest)) 0.5 = some middle ∧
      CutAt (p :: p' :: rest) (wayLength (p :: p' :: rest) / 2) (wayLength (p :: p' :: rest) / 2)
        middle := by
  have hway := wayLength_nonneg (p :: p' :: rest)
  obtain ⟨middle, hmiddle, hcut⟩ := exists_pointAtLength? hruns
    ⟨div_nonneg hway zero_le_two, half_le_self hway⟩
  rw [sub_half] at hcut
  refine ⟨middle, ?_, hcut⟩
  rw [pointAtFraction?, totalLength_lengthTable, Scalar.clamp_eq_self (by norm_num), ← hmiddle]
  congr 1
  ring

/-- Where nothing is in the way, a label is put in the middle of its route. -/
theorem labelPlace?_middle {e : PlacedEdge ℝ} {label : TextBlock ℝ} {taken : List (Rect ℝ)}
    (hpoints : e.points = p :: p' :: rest) (hstraight : e.curved = false)
    (hlabel : e.label = some label)
    (hmiddle : pointAtFraction? (lengthTable (p :: p' :: rest)) 0.5 = some q)
    (hfree : ∀ r ∈ taken, r.intersects (labelBox label q) = false) :
    labelPlace? taken e = some (label, q) := by
  have hsegments : e.segments = polylineSegments (p :: p' :: rest) := by
    simp [PlacedEdge.segments, hstraight, hpoints]
  have hchosen (normal : Point ℝ) : choosePlace taken label q normal = q := by
    rw [choosePlace, labelPlaces, List.find?_cons_of_pos]
    · rfl
    · rw [List.all_eq_true]
      intro r hr
      rw [hfree r hr, Bool.not_false]
  have hmany : ¬ e.points.length < 2 := by simp [hpoints]
  simp only [labelPlace?, hlabel, if_neg hmany, hsegments]
  rw [← lengthTable, hmiddle, Option.map_some, hchosen]

/-- **Looking up a length is exact.** For every polyline whose runs have no length or more than a
negligible one: at each length from zero to that of the whole way stands the point that cuts the way
there, below zero the first corner and above the last one. A length inside the way leads to a piece
of the table, the one behind all that have ended. So half the length leads to the middle, and there
the label of the route is put if it covers nothing. -/
theorem pointAtLength?_exact {corners : List (Point ℝ)} (hcorners : 2 ≤ corners.length)
    (hruns : ∀ run ∈ polylineSegments corners, run.length = 0 ∨ negligibleLength < run.length) :
    (∀ s ∈ Set.Icc 0 (wayLength corners), ∀ q, pointAtLength? (lengthTable corners) s = some q ↔
      CutAt corners s (wayLength corners - s) q) ∧
    (∀ s ≤ 0, pointAtLength? (lengthTable corners) s = corners.head?) ∧
    (∀ s ≥ wayLength corners, pointAtLength? (lengthTable corners) s = corners.getLast?) ∧
    (∀ s, 0 ≤ s → s < wayLength corners →
      runsEnded (lengthTable corners) s < (polylineSegments corners).length ∧
        pieceAt? s (lengthTable corners) =
          (lengthTable corners)[runsEnded (lengthTable corners) s]?) ∧
    ∃ middle, pointAtFraction? (lengthTable corners) 0.5 = some middle ∧
      CutAt corners (wayLength corners / 2) (wayLength corners / 2) middle ∧
      ∀ (e : PlacedEdge ℝ) (label : TextBlock ℝ) (taken : List (Rect ℝ)), e.points = corners →
        e.curved = false → e.label = some label →
        (∀ r ∈ taken, r.intersects (labelBox label middle) = false) →
          labelPlace? taken e = some (label, middle) := by
  obtain ⟨p, p', rest, rfl⟩ : ∃ p p' rest, corners = p :: p' :: rest := by
    match corners, hcorners with
    | p :: p' :: rest, _ => exact ⟨p, p', rest, rfl⟩
  refine ⟨fun s hs q => ?_, fun s hs => pointAtLength?_of_nonpos hs p p' rest,
    fun s hs => pointAtLength?_of_le hs, fun s hlow hhigh => pieceAt?_lengthTable hruns hlow hhigh,
    ?_⟩
  · obtain ⟨q', hq', hcut'⟩ := exists_pointAtLength? hruns hs
    constructor
    · intro hq
      obtain rfl := Option.some.inj (hq'.symm.trans hq)
      exact hcut'
    · intro hcut
      rw [hcut.unique hcut' rfl, hq']
  · obtain ⟨middle, hmiddle, hcut⟩ := exists_middle hruns
    exact ⟨middle, hmiddle, hcut, fun e label taken hpoints hstraight hlabel hfree =>
      labelPlace?_middle hpoints hstraight hlabel hmiddle hfree⟩

/-- A route down and to the right, with a corner that is given twice. -/
noncomputable def bentRoute : List (Point ℝ) := [⟨0, 0⟩, ⟨0, 1⟩, ⟨0, 1⟩, ⟨1, 1⟩]

/-- On a route with a bend, the length of its first run leads to the bend. -/
theorem pointAtLength?_exact_bent : 2 ≤ bentRoute.length ∧
    (∀ run ∈ polylineSegments bentRoute, run.length = 0 ∨ negligibleLength < run.length) ∧
    pointAtLength? (lengthTable bentRoute) 1 = some ⟨0, 1⟩ := by
  have hdown : (⟨0, 0⟩ : Point ℝ).distance ⟨0, 1⟩ = 1 := by
    rw [Point.distance_of_x_eq (p := ⟨0, 0⟩) (q := ⟨0, 1⟩) rfl]
    norm_num
  have hright : (⟨0, 1⟩ : Point ℝ).distance ⟨1, 1⟩ = 1 := by
    rw [Point.distance_of_y_eq (p := ⟨0, 1⟩) (q := ⟨1, 1⟩) rfl]
    norm_num
  have hway : wayLength bentRoute = 2 := by
    simp only [bentRoute, wayLength, hdown, hright, Point.distance_self]
    norm_num
  have hcorners : 2 ≤ bentRoute.length := by simp [bentRoute]
  have hruns : ∀ run ∈ polylineSegments bentRoute,
      run.length = 0 ∨ negligibleLength < run.length := by
    simp only [bentRoute, polylineSegments, List.forall_mem_cons, length_line, hdown, hright,
      Point.distance_self]
    norm_num [negligibleLength]
  have hcut : CutAt bentRoute 1 (wayLength bentRoute - 1) ⟨0, 1⟩ := by
    have hstop : CutAt bentRoute ((⟨0, 0⟩ : Point ℝ).distance ⟨0, 1⟩) _ ⟨0, 1⟩ :=
      .here (alongRun_stop ⟨0, 0⟩ ⟨0, 1⟩)
    have hadd := hstop.add_eq
    rw [hdown] at hstop hadd
    rwa [eq_sub_of_add_eq' hadd] at hstop
  exact ⟨hcorners, hruns,
    ((pointAtLength?_exact hcorners hruns).1 1 (by rw [hway]; norm_num) ⟨0, 1⟩).mpr hcut⟩

end Flowchart
