import Flowchart.Proofs.Route.Squareness

/-!
# Detours around both nodes

Two opposite ports without room between them are joined by a detour: a stub out of each port, a run
along a level from each stub to the outer side, and one run along that side. The outer side lies
beyond both boxes, and a node never meets the part of the detour at its own port. What is left is
the part at the port of the other node, since the levels are one stub away from the anchors wherever
the other box may be: `Leg.Strikes` says when the first part meets the box of the target.

So a detour keeps out of both boxes unless one end strikes the other node's box,
`orthogonalRoute_keepsOut_iff`. A target that is entirely behind the port is never struck.
-/

namespace Flowchart

variable {l : Leg ℚ} {a b p q : Point ℚ} {r : Rect ℚ} {port : Port} {stub pad : ℚ}

/-! ## Runs that keep out -/

/-- Two intervals that overlap, the first one with its ends and the second one without, have a
number in common. -/
theorem exists_mem_both {u v low high : ℚ} (huv : u ≤ v) (hsize : low < high) (hu : u < high)
    (hv : low < v) : ∃ c, u ≤ c ∧ c ≤ v ∧ low < c ∧ c < high := by
  have hbegin : max u low ≤ min v high :=
    max_le (le_min huv hu.le) (le_min hv.le hsize.le)
  refine ⟨(max u low + min v high) / 2, ?_, ?_, ?_, ?_⟩
  · linarith [le_max_left u low]
  · linarith [min_le_left v high]
  · linarith [le_max_right u low, lt_min hv hsize]
  · linarith [min_le_right v high, max_lt hu hsize]

/-- A run keeps out of a box only by being beside it on one of the axes, or because the box has no
inside: otherwise each coordinate of a point inside is found on its own. -/
theorem keepsOut_iff : KeepsOut r a b ↔ ∃ axis, max (a.coord axis) (b.coord axis) ≤ r.low axis ∨
    r.high axis ≤ min (a.coord axis) (b.coord axis) ∨ r.high axis ≤ r.low axis := by
  constructor
  · intro h
    -- a run beside the box on neither axis has a point inside, one coordinate at a time
    by_contra hmeets
    simp only [not_exists, not_or, not_le] at hmeets
    have hcommon : ∀ axis, ∃ c, min (a.coord axis) (b.coord axis) ≤ c ∧
        c ≤ max (a.coord axis) (b.coord axis) ∧ r.low axis < c ∧ c < r.high axis := fun axis =>
      exists_mem_both min_le_max (hmeets axis).2.2 (hmeets axis).2.1 (hmeets axis).1
    choose c hmin hmax hlow hhigh using hcommon
    let p : Point ℚ := ⟨c .horizontal, c .vertical⟩
    have hcoord : ∀ axis, p.coord axis = c axis := by rintro (_ | _) <;> rfl
    have hout := h p fun axis => by rw [hcoord]; exact ⟨hmin axis, hmax axis⟩
    have hin : r.contains p = true := Rect.contains_iff.mpr fun axis => by
      rw [hcoord]
      exact ⟨hlow axis, hhigh axis⟩
    rw [hout] at hin
    cases hin
  · rintro ⟨axis, hside | hside | hflat⟩
    · exact keepsOut_of_side axis (.inl hside)
    · exact keepsOut_of_side axis (.inr hside)
    · intro p _
      refine Rect.contains_eq_false_iff.mpr ⟨axis, ?_⟩
      exact (le_or_gt (p.coord axis) (r.low axis)).imp_right fun h => hflat.trans h.le

theorem KeepsOut.symm (h : KeepsOut r a b) : KeepsOut r b a := by
  intro p hp
  refine h p fun axis => ?_
  rw [min_comm, max_comm]
  exact hp axis

/-! ## Boxes and ports -/

/-- How far ahead of an anchor at a port a box begins. -/
def nearAhead (p : Point ℚ) (port : Port) (r : Rect ℚ) : ℚ :=
  match port with
  | .north => p.y - r.bottom
  | .east => r.x - p.x
  | .south => r.y - p.y
  | .west => p.x - r.right

/-- How far ahead of an anchor at a port a box ends. -/
def farAhead (p : Point ℚ) (port : Port) (r : Rect ℚ) : ℚ :=
  match port with
  | .north => p.y - r.y
  | .east => r.right - p.x
  | .south => r.bottom - p.y
  | .west => p.x - r.x

/-- The anchor lies on the side of the box that belongs to the port. -/
structure OnSide (r : Rect ℚ) (port : Port) (p : Point ℚ) : Prop where
  ahead : farAhead p port r = 0
  low_le : r.low port.axis.other ≤ p.coord port.axis.other
  le_high : p.coord port.axis.other ≤ r.high port.axis.other

theorem Axis.exists_iff {P : Axis → Prop} (axis : Axis) :
    (∃ x, P x) ↔ P axis ∨ P axis.other := by
  constructor
  · rintro ⟨x, hx⟩
    obtain rfl | rfl := axis.eq_or_eq_other x
    · exact .inl hx
    · exact .inr hx
  · rintro (h | h)
    exacts [⟨_, h⟩, ⟨_, h⟩]

/-- A stub keeps out of a box that is not ahead within its length, or not level with it. -/
theorem keepsOut_stub_iff {d : ℚ} (hd : 0 < d) : KeepsOut r p (stubEnd p port d) ↔
    (farAhead p port r ≤ 0 ∨ d ≤ nearAhead p port r ∨ farAhead p port r ≤ nearAhead p port r) ∨
      p.coord port.axis.other ≤ r.low port.axis.other ∨
      r.high port.axis.other ≤ p.coord port.axis.other := by
  rw [keepsOut_iff, Axis.exists_iff port.axis]
  refine or_congr ?_ ?_
  · cases port <;> simp only [Port.axis, Point.coord, Rect.low, Rect.high, farAhead, nearAhead,
      stubEnd_north, stubEnd_east, stubEnd_south, stubEnd_west]
    all_goals grind
  · cases port <;> simp only [Port.axis, Axis.other, Point.coord, Rect.low, Rect.high,
      stubEnd_north, stubEnd_east, stubEnd_south, stubEnd_west, max_self, min_self]
    all_goals grind

/-- A run from the end of a stub along its level keeps out of a box that the level does not cut, or
that lies to one side of the run. -/
theorem keepsOut_level_iff {d side : ℚ} : KeepsOut r (stubEnd p port d)
      (port.axis.point ((stubEnd p port d).coord port.axis) side) ↔
    (d ≤ nearAhead p port r ∨ farAhead p port r ≤ d ∨ farAhead p port r ≤ nearAhead p port r) ∨
      max (p.coord port.axis.other) side ≤ r.low port.axis.other ∨
      r.high port.axis.other ≤ min (p.coord port.axis.other) side ∨
      r.high port.axis.other ≤ r.low port.axis.other := by
  rw [keepsOut_iff, Axis.exists_iff port.axis]
  refine or_congr ?_ ?_
  · cases port <;> simp only [Port.axis, Axis.point, Point.coord, Rect.low, Rect.high, farAhead,
      nearAhead, stubEnd_north, stubEnd_east, stubEnd_south, stubEnd_west, max_self, min_self]
    all_goals grind
  · cases port <;> simp only [Port.axis, Axis.other, Axis.point, Point.coord, Rect.low, Rect.high,
      stubEnd_north, stubEnd_east, stubEnd_south, stubEnd_west]

/-! ## The detour -/

/-- Where the run along the outer side is: beyond both boxes, on the side that makes the detour
shorter. -/
def Leg.outerSide (l : Leg ℚ) (pad : ℚ) : ℚ :=
  let across := l.startPort.axis.other
  let left := min (l.source.low across) (l.target.low across) - pad
  let right := max (l.source.high across) (l.target.high across) + pad
  let cost (x : ℚ) := |l.start.coord across - x| + |l.stop.coord across - x|
  if cost right ≤ cost left then right else left

/-- The detour between two opposite ports. -/
def Leg.outerRoute (l : Leg ℚ) (stub pad : ℚ) : List (Point ℚ) :=
  let axis := l.startPort.axis
  let p := stubEnd l.start l.startPort stub
  let q := stubEnd l.stop l.stopPort stub
  let side := l.outerSide pad
  [l.start, p, axis.point (p.coord axis) side, axis.point (q.coord axis) side, q, l.stop]

theorem low_transposed (r : Rect ℚ) (axis : Axis) : r.transposed.low axis = r.low axis.other := by
  cases axis <;> rfl

theorem high_transposed (r : Rect ℚ) (axis : Axis) : r.transposed.high axis = r.high axis.other := by
  cases axis <;> rfl

theorem outerSide_transposed (l : Leg ℚ) (pad : ℚ) : l.transposed.outerSide pad = l.outerSide pad := by
  simp only [Leg.outerSide, Leg.transposed, axis_transposed, low_transposed, high_transposed,
    coord_transposed, Axis.other_other]

theorem point_transposed (axis : Axis) (along across : ℚ) :
    (axis.other.point along across).transposed = axis.point along across := by
  cases axis <;> rfl

theorem outerRoute_transposed (l : Leg ℚ) (stub pad : ℚ) :
    (l.transposed.outerRoute stub pad).map Point.transposed = l.outerRoute stub pad := by
  rw [Leg.outerRoute, outerSide_transposed]
  simp only [Leg.transposed, axis_transposed, stubEnd_transposed, coord_transposed, Axis.other_other,
    List.map_cons, List.map_nil, point_transposed]
  rfl

theorem detourRoute_eq_outerRoute (hvertical : l.startPort.isVertical = true) (stub pad : ℚ) :
    detourRoute l stub pad = l.outerRoute stub pad := by
  have haxis : l.startPort.axis = .vertical := by
    rcases isVertical_cases hvertical with h | h <;> rw [h] <;> rfl
  simp only [detourRoute, Leg.outerRoute, Leg.outerSide, haxis, Scalar.min_eq, Scalar.max_eq]
  rfl

theorem sameAxisRoute_eq_outerRoute (hvertical : l.startPort.isVertical = true)
    (hfacing : l.stopPort = l.startPort.opposite)
    (hroom : aheadOf l.start l.startPort l.stop < stub * 2) (channel pad : ℚ) :
    sameAxisRoute l stub channel pad = l.outerRoute stub pad := by
  have hne : l.startPort ≠ l.stopPort := by
    rw [hfacing]
    rcases isVertical_cases hvertical with h | h <;> rw [h] <;> decide
  rw [sameAxisRoute_eq hvertical, if_neg (fun h => hroom.not_ge h.2), if_neg hne,
    detourRoute_eq_outerRoute hvertical]

/-- Opposite ports without room for two stubs are joined by the detour. -/
theorem orthogonalRoute_eq_outerRoute (hfacing : l.stopPort = l.startPort.opposite)
    (hroom : aheadOf l.start l.startPort l.stop < stub * 2) (channel pad : ℚ) :
    orthogonalRoute l stub channel pad = l.outerRoute stub pad := by
  have hsame : l.stopPort.isVertical = l.startPort.isVertical := by
    rw [hfacing]
    cases l.startPort <;> rfl
  unfold orthogonalRoute
  rw [hsame]
  cases hvertical : l.startPort.isVertical with
  | true => exact sameAxisRoute_eq_outerRoute hvertical hfacing hroom channel pad
  | false =>
    have hturned : l.transposed.startPort.isVertical = true := by
      rw [Leg.transposed, isVertical_transposed, hvertical]
      rfl
    have hopposite : l.transposed.stopPort = l.transposed.startPort.opposite := by
      simp only [Leg.transposed, hfacing]
      cases l.startPort <;> rfl
    have hahead : aheadOf l.transposed.start l.transposed.startPort l.transposed.stop < stub * 2 :=
      (aheadOf_transposed l.start l.startPort l.stop).trans_lt hroom
    dsimp only
    rw [sameAxisRoute_eq_outerRoute hturned hopposite hahead, outerRoute_transposed]

/-! ## What a detour strikes -/

/-- The leg with its two ends exchanged. -/
def Leg.reversed (l : Leg ℚ) : Leg ℚ :=
  ⟨l.stop, l.stopPort, l.start, l.startPort, l.target, l.source⟩

theorem axis_opposite (port : Port) : port.opposite.axis = port.axis := by
  cases port <;> rfl

theorem outerSide_reversed (hfacing : l.stopPort = l.startPort.opposite) (pad : ℚ) :
    l.reversed.outerSide pad = l.outerSide pad := by
  have haxis : l.stopPort.axis = l.startPort.axis := by rw [hfacing, axis_opposite]
  simp only [Leg.outerSide, Leg.reversed, haxis, min_comm, max_comm, add_comm]

/-- The part of a detour at the first port: the stub, and the run from there to the outer side. -/
def Leg.PartKeepsOut (l : Leg ℚ) (stub pad : ℚ) (r : Rect ℚ) : Prop :=
  let p := stubEnd l.start l.startPort stub
  KeepsOut r l.start p ∧
    KeepsOut r p (l.startPort.axis.point (p.coord l.startPort.axis) (l.outerSide pad))

/-- A detour consists of the part at each port and the run along the outer side. -/
theorem isChain_outerRoute_iff (hfacing : l.stopPort = l.startPort.opposite) :
    (l.outerRoute stub pad).IsChain (KeepsOut r) ↔
      l.PartKeepsOut stub pad r ∧
      KeepsOut r
        (l.startPort.axis.point ((stubEnd l.start l.startPort stub).coord l.startPort.axis)
          (l.outerSide pad))
        (l.startPort.axis.point ((stubEnd l.stop l.stopPort stub).coord l.startPort.axis)
          (l.outerSide pad)) ∧
      l.reversed.PartKeepsOut stub pad r := by
  have haxis : l.stopPort.axis = l.startPort.axis := by rw [hfacing, axis_opposite]
  unfold Leg.PartKeepsOut
  rw [outerSide_reversed hfacing]
  simp only [Leg.outerRoute, Leg.reversed, haxis, List.isChain_cons_cons, List.isChain_singleton,
    and_true]
  constructor
  · rintro ⟨hstub, hlevel, houter, hlevel', hstub'⟩
    exact ⟨⟨hstub, hlevel⟩, houter, hstub'.symm, hlevel'.symm⟩
  · rintro ⟨⟨hstub, hlevel⟩, houter, hstub', hlevel'⟩
    exact ⟨hstub, hlevel, houter, hlevel'.symm, hstub'.symm⟩

/-- The outer side lies beyond both boxes, by the distance that is kept from them. -/
theorem outerSide_beyond (l : Leg ℚ) (hpad : 0 ≤ pad) (hr : r = l.source ∨ r = l.target) :
    l.outerSide pad ≤ r.low l.startPort.axis.other ∨
      r.high l.startPort.axis.other ≤ l.outerSide pad := by
  unfold Leg.outerSide
  dsimp only
  split
  · refine .inr (le_trans ?_ (le_add_of_nonneg_right hpad))
    rcases hr with rfl | rfl
    exacts [le_max_left _ _, le_max_right _ _]
  · refine .inl (le_trans (sub_le_self _ hpad) ?_)
    rcases hr with rfl | rfl
    exacts [min_le_left _ _, min_le_right _ _]

/-- The run along the outer side meets neither box. -/
theorem keepsOut_outer (l : Leg ℚ) (hpad : 0 ≤ pad) (hr : r = l.source ∨ r = l.target)
    (along along' : ℚ) : KeepsOut r (l.startPort.axis.point along (l.outerSide pad))
      (l.startPort.axis.point along' (l.outerSide pad)) := by
  refine keepsOut_of_side l.startPort.axis.other ?_
  rw [Axis.coord_other_point, Axis.coord_other_point, max_self, min_self]
  exact outerSide_beyond l hpad hr

/-- The part of a detour at a port does not meet the box of the node that has the port. -/
theorem partKeepsOut_source (hstub : 0 < stub) (hstart : OnSide l.source l.startPort l.start)
    (pad : ℚ) : l.PartKeepsOut stub pad l.source :=
  ⟨(keepsOut_stub_iff hstub).mpr (.inl (.inl hstart.ahead.le)),
    keepsOut_level_iff.mpr (.inl (.inr (.inl (hstart.ahead.trans_le hstub.le))))⟩

/-- The part of a detour at the first port meets the inside of the target's box. The box has an
inside and begins ahead of the port within the stub. Either it ends ahead of the port too and is
level with the anchor, or it reaches beyond the end of the stub and into the way from there to the
outer side. -/
def Leg.Strikes (l : Leg ℚ) (stub pad : ℚ) : Prop :=
  let across := l.startPort.axis.other
  let near := nearAhead l.start l.startPort l.target
  let far := farAhead l.start l.startPort l.target
  let low := l.target.low across
  let high := l.target.high across
  let anchor := l.start.coord across
  near < far ∧ low < high ∧ near < stub ∧
    ((0 < far ∧ low < anchor ∧ anchor < high) ∨
      (stub < far ∧ low < max anchor (l.outerSide pad) ∧ min anchor (l.outerSide pad) < high))

theorem partKeepsOut_target_iff (hstub : 0 < stub) :
    l.PartKeepsOut stub pad l.target ↔ ¬ l.Strikes stub pad := by
  unfold Leg.PartKeepsOut Leg.Strikes
  dsimp only
  rw [keepsOut_stub_iff hstub, keepsOut_level_iff]
  grind

/-- A box that is entirely behind the port is not struck. -/
theorem not_strikes_of_behind (hstub : 0 < stub)
    (hbehind : farAhead l.start l.startPort l.target ≤ 0) : ¬ l.Strikes stub pad := by
  rintro ⟨-, -, -, ⟨hfar, -⟩ | ⟨hfar, -⟩⟩ <;> linarith

/-- **A detour keeps out of both boxes exactly if no end of it strikes the box of the other node.**
Let the ports be opposite without room for two stubs, and each anchor on the side of its box. Then
each part of the detour at a port meets at most the box of the other node, and `Leg.Strikes` says
when it does; in particular, the detour meets no box if each node is entirely behind the port of the
other. -/
theorem orthogonalRoute_keepsOut_iff (l : Leg ℚ) {stub pad : ℚ} (hstub : 0 < stub) (hpad : 0 ≤ pad)
    (hfacing : l.stopPort = l.startPort.opposite)
    (hroom : aheadOf l.start l.startPort l.stop < stub * 2)
    (hstart : OnSide l.source l.startPort l.start) (hstop : OnSide l.target l.stopPort l.stop)
    (channel : ℚ) :
    let route := orthogonalRoute l stub channel pad
    (route.IsChain (KeepsOut l.source) ∧ route.IsChain (KeepsOut l.target) ↔
      ¬ l.Strikes stub pad ∧ ¬ l.reversed.Strikes stub pad) ∧
    (farAhead l.start l.startPort l.target ≤ 0 → farAhead l.stop l.stopPort l.source ≤ 0 →
      route.IsChain (KeepsOut l.source) ∧ route.IsChain (KeepsOut l.target)) := by
  intro route
  have hroute : route = l.outerRoute stub pad := orthogonalRoute_eq_outerRoute hfacing hroom channel pad
  have hiff : route.IsChain (KeepsOut l.source) ∧ route.IsChain (KeepsOut l.target) ↔
      ¬ l.Strikes stub pad ∧ ¬ l.reversed.Strikes stub pad := by
    rw [hroute, isChain_outerRoute_iff hfacing, isChain_outerRoute_iff hfacing,
      ← partKeepsOut_target_iff hstub, ← partKeepsOut_target_iff hstub]
    constructor
    · rintro ⟨⟨-, -, hsource⟩, htarget, -, -⟩
      exact ⟨htarget, hsource⟩
    · rintro ⟨htarget, hsource⟩
      exact ⟨⟨partKeepsOut_source hstub hstart pad, keepsOut_outer l hpad (.inl rfl) _ _, hsource⟩,
        htarget, keepsOut_outer l hpad (.inr rfl) _ _,
        partKeepsOut_source (l := l.reversed) hstub hstop pad⟩
  refine ⟨hiff, fun hbehind hbehind' => hiff.mpr ⟨not_strikes_of_behind hstub hbehind, ?_⟩⟩
  exact not_strikes_of_behind (l := l.reversed) hstub hbehind'

/-- A leg from a node back up to one that stands above it. -/
def upward : Leg ℚ :=
  ⟨⟨50, 40⟩, .south, ⟨50, -200⟩, .north, ⟨0, 0, 100, 40⟩, ⟨0, -200, 100, 40⟩⟩

/-- A leg from a node to a taller one beside it, which reaches below the first node's port. -/
def beside : Leg ℚ :=
  ⟨⟨50, 40⟩, .south, ⟨170, -216⟩, .north, ⟨0, 0, 100, 40⟩, ⟨120, -216, 100, 300⟩⟩

/-- The detour of `upward` clears both boxes, and the one of `beside` does not. -/
theorem orthogonalRoute_keepsOut_iff_upward :
    ((orthogonalRoute upward 14 0 (35 / 2)).IsChain (KeepsOut upward.source) ∧
      (orthogonalRoute upward 14 0 (35 / 2)).IsChain (KeepsOut upward.target)) ∧
    ¬ ((orthogonalRoute beside 14 0 (35 / 2)).IsChain (KeepsOut beside.source) ∧
      (orthogonalRoute beside 14 0 (35 / 2)).IsChain (KeepsOut beside.target)) := by
  have hupward := @orthogonalRoute_keepsOut_iff upward 14 (35 / 2) (by norm_num) (by norm_num)
    rfl (by decide +kernel) ⟨by decide +kernel, by decide +kernel, by decide +kernel⟩
    ⟨by decide +kernel, by decide +kernel, by decide +kernel⟩ 0
  have hbeside := @orthogonalRoute_keepsOut_iff beside 14 (35 / 2) (by norm_num) (by norm_num)
    rfl (by decide +kernel) ⟨by decide +kernel, by decide +kernel, by decide +kernel⟩
    ⟨by decide +kernel, by decide +kernel, by decide +kernel⟩ 0
  refine ⟨hupward.2 (by decide +kernel) (by decide +kernel), fun h => (hbeside.1.mp h).1 ?_⟩
  refine ⟨by decide +kernel, by decide +kernel, by decide +kernel, .inr ⟨by decide +kernel, ?_⟩⟩
  exact ⟨by decide +kernel, by decide +kernel⟩

/-- The boxes of `beside` are disjoint and its anchors are on their sides, but the run along the
first level passes through the box of the target. -/
theorem orthogonalRoute_trespasses :
    beside.stopPort = beside.startPort.opposite ∧
    aheadOf beside.start beside.startPort beside.stop < 14 * 2 ∧
    OnSide beside.source beside.startPort beside.start ∧
    OnSide beside.target beside.stopPort beside.stop ∧
    beside.source.intersects beside.target = false ∧
    orthogonalRoute beside 14 0 (35 / 2) =
      [⟨50, 40⟩, ⟨50, 54⟩, ⟨475 / 2, 54⟩, ⟨475 / 2, -230⟩, ⟨170, -230⟩, ⟨170, -216⟩] ∧
    OnRun ⟨50, 54⟩ ⟨475 / 2, 54⟩ ⟨170, 54⟩ ∧ beside.target.contains ⟨170, 54⟩ = true := by
  refine ⟨rfl, by decide +kernel, ⟨by decide +kernel, by decide +kernel, by decide +kernel⟩,
    ⟨by decide +kernel, by decide +kernel, by decide +kernel⟩, by decide +kernel,
    by decide +kernel, ?_, by decide +kernel⟩
  rintro (_ | _) <;> exact ⟨by decide +kernel, by decide +kernel⟩

end Flowchart
