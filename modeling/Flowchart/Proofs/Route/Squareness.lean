import Flowchart.Proofs.Route.Runs

/-!
# Routes that leave and enter squarely

A route between two ports consists of horizontal and vertical runs. It is `Square` if it leaves the
first port straight outwards and comes to the second one straight inwards, so that no symbol at its
ends is drawn askew.

Each way to join two ports on the y axis is shown to be square on its own; the others follow since
being square does not depend on which axis is which, `Square.transposed`.
-/

namespace Flowchart

variable {l : Leg ℚ} {p q stop : Point ℚ} {port : Port} {route : List (Point ℚ)} {stub : ℚ}

/-! ## Steps out of a port -/

/-- The axis along which connections leave a side. -/
def Port.axis : Port → Axis
  | .north | .south => .vertical
  | .east | .west => .horizontal

/-- The step between two corners leads straight out of a port. -/
def StepsOut (port : Port) (p q : Point ℚ) : Prop := ∃ d, 0 < d ∧ q = stubEnd p port d

/-- The stub of a port on the upper side leads upwards, where coordinates become smaller. -/
@[simp] theorem stubEnd_north (p : Point ℚ) (d : ℚ) : stubEnd p .north d = ⟨p.x, p.y - d⟩ := by
  simp [stubEnd, Port.normal, sub_eq_add_neg]

@[simp] theorem stubEnd_east (p : Point ℚ) (d : ℚ) : stubEnd p .east d = ⟨p.x + d, p.y⟩ := by
  simp [stubEnd, Port.normal]

@[simp] theorem stubEnd_south (p : Point ℚ) (d : ℚ) : stubEnd p .south d = ⟨p.x, p.y + d⟩ := by
  simp [stubEnd, Port.normal]

@[simp] theorem stubEnd_west (p : Point ℚ) (d : ℚ) : stubEnd p .west d = ⟨p.x - d, p.y⟩ := by
  simp [stubEnd, Port.normal, sub_eq_add_neg]

/-- How far a point lies ahead of a port is measured along the outward direction of the port, here
upwards. -/
@[simp] theorem aheadOf_north (p q : Point ℚ) : aheadOf p .north q = p.y - q.y := by
  simp [aheadOf, Port.normal]

@[simp] theorem aheadOf_east (p q : Point ℚ) : aheadOf p .east q = q.x - p.x := by
  simp [aheadOf, Port.normal]

@[simp] theorem aheadOf_south (p q : Point ℚ) : aheadOf p .south q = q.y - p.y := by
  simp [aheadOf, Port.normal]

@[simp] theorem aheadOf_west (p q : Point ℚ) : aheadOf p .west q = p.x - q.x := by
  simp [aheadOf, Port.normal]

/-- A step leads straight out of a port if it ends ahead of it and no further to one side. -/
theorem stepsOut_iff : StepsOut port p q ↔
    0 < aheadOf p port q ∧ q.coord port.axis.other = p.coord port.axis.other := by
  obtain ⟨x, y⟩ := q
  constructor
  · rintro ⟨d, hd, heq⟩
    cases port <;> simp only [stubEnd_north, stubEnd_east, stubEnd_south, stubEnd_west,
      Point.mk.injEq] at heq <;> obtain ⟨rfl, rfl⟩ := heq <;> exact ⟨by simpa using hd, rfl⟩
  · rintro ⟨hahead, hbeside⟩
    refine ⟨_, hahead, ?_⟩
    cases port <;> simp only [Port.axis, Axis.other, Point.coord] at hbeside <;> subst hbeside <;> simp

/-- A stub of some length leads straight out of its port. -/
theorem stepsOut_stubEnd (p : Point ℚ) (port : Port) {d : ℚ} (hd : 0 < d) :
    StepsOut port p (stubEnd p port d) := ⟨d, hd, rfl⟩

/-- A step out of a port is horizontal or vertical. -/
theorem StepsOut.aligned (h : StepsOut port p q) : Aligned p q :=
  ⟨port.axis.other, (stepsOut_iff.mp h).2.symm⟩

theorem Aligned.symm (h : Aligned p q) : Aligned q p := h.imp fun _ => Eq.symm

/-! ## Square routes -/

/-- A route of horizontal and vertical runs that leaves the first port of a leg straight outwards
and ends with a run that comes straight to the second one. -/
structure Square (l : Leg ℚ) (stop : Point ℚ) (route : List (Point ℚ)) : Prop where
  aligned : route.IsChain Aligned
  leaves : ∃ p rest, route = l.start :: p :: rest ∧ StepsOut l.startPort l.start p
  enters : ∃ p rest, route = rest ++ [p, stop] ∧ StepsOut l.stopPort stop p

/-- The last point of a route is the anchor where it enters, or lies beside it: that happens only if
the ports face each other and the anchors are less than half a unit out of line. -/
def EndsAt (l : Leg ℚ) (stop : Point ℚ) : Prop :=
  stop = l.stop ∨ l.stopPort = l.startPort.opposite ∧
    stop.coord l.startPort.axis = l.stop.coord l.startPort.axis ∧
    stop.coord l.startPort.axis.other = l.start.coord l.startPort.axis.other ∧
    |l.start.coord l.startPort.axis.other - l.stop.coord l.startPort.axis.other| < 1 / 2

/-! ## Exchanging the axes -/

/-- With the axes exchanged, a stub leads from the exchanged point out of the exchanged port. -/
theorem stubEnd_transposed (p : Point ℚ) (port : Port) (d : ℚ) :
    stubEnd p.transposed port.transposed d = (stubEnd p port d).transposed := by
  cases port <;> simp [Port.transposed, Point.transposed]

/-- Exchanging the axes does not change how far a point lies ahead of a port. -/
theorem aheadOf_transposed (p : Point ℚ) (port : Port) (q : Point ℚ) :
    aheadOf p.transposed port.transposed q.transposed = aheadOf p port q := by
  cases port <;> simp [Port.transposed, Point.transposed]

/-- So a step still leads straight out of its port after the exchange. -/
theorem StepsOut.transposed (h : StepsOut port p q) :
    StepsOut port.transposed p.transposed q.transposed := by
  obtain ⟨d, hd, rfl⟩ := h
  exact ⟨d, hd, (stubEnd_transposed p port d).symm⟩

theorem Aligned.transposed (h : Aligned p q) : Aligned p.transposed q.transposed := by
  obtain ⟨axis, heq⟩ := h
  refine ⟨axis.other, ?_⟩
  cases axis <;> exact heq

/-- The exchange makes vertical ports horizontal ones, and the other way round. -/
theorem isVertical_transposed (port : Port) : port.transposed.isVertical = !port.isVertical := by
  cases port <;> rfl

/-- Exchanged twice, a leg is as it was, which is what carries a result for vertical ports over to
horizontal ones. -/
theorem Leg.transposed_transposed (l : Leg ℚ) : l.transposed.transposed = l := by
  obtain ⟨⟨x, y⟩, port, ⟨x', y'⟩, port', r, r'⟩ := l
  cases port <;> cases port' <;> rfl

/-- A route is square for a leg if it is square with the axes exchanged. -/
theorem Square.transposed (h : Square l stop route) :
    Square l.transposed stop.transposed (route.map Point.transposed) := by
  obtain ⟨haligned, ⟨p, rest, hleaves, hout⟩, q, front, henters, hin⟩ := h
  refine ⟨(List.isChain_map _).mpr (haligned.imp fun _ _ h => h.transposed), ?_, ?_⟩
  · exact ⟨_, rest.map Point.transposed, by rw [hleaves]; rfl, hout.transposed⟩
  · refine ⟨_, front.map Point.transposed, ?_, hin.transposed⟩
    rw [henters, List.map_append]
    rfl

/-- The coordinate along one axis is found along the other one after the exchange. -/
theorem coord_transposed (p : Point ℚ) (axis : Axis) :
    p.transposed.coord axis = p.coord axis.other := by
  cases axis <;> rfl

theorem axis_transposed (port : Port) : port.transposed.axis = port.axis.other := by
  cases port <;> rfl

/-- A route ends where its leg asks it to, also after the exchange. -/
theorem EndsAt.transposed (h : EndsAt l stop) : EndsAt l.transposed stop.transposed := by
  rcases h with rfl | ⟨hfacing, hahead, hlevel, hnear⟩
  · exact .inl rfl
  · refine .inr ⟨?_, ?_⟩
    · simp only [Leg.transposed, hfacing]
      cases l.startPort <;> rfl
    · simp only [Leg.transposed, axis_transposed, coord_transposed, Axis.other_other]
      exact ⟨hahead, hlevel, hnear⟩

/-! ## The ways to join two ports -/

/-- A route is square if it starts with a step out of the first port, ends with one into the second
port, and has only horizontal and vertical runs in between. -/
theorem Square.of_steps {p q : Point ℚ} (middle : List (Point ℚ))
    (hleaves : StepsOut l.startPort l.start p) (henters : StepsOut l.stopPort stop q)
    (hmiddle : (p :: (middle ++ [q])).IsChain Aligned) :
    Square l stop (l.start :: p :: (middle ++ [q, stop])) := by
  refine ⟨?_, ⟨p, _, rfl, hleaves⟩, q, l.start :: p :: middle, by simp, henters⟩
  have hlast : (p :: (middle ++ q :: [stop])).IsChain Aligned :=
    List.isChain_cons_split.mpr ⟨hmiddle, .cons_cons henters.aligned.symm (.singleton stop)⟩
  exact hlast.cons_cons hleaves.aligned

/-- A vertical port is on the upper or on the lower side. -/
theorem isVertical_cases (h : port.isVertical = true) : port = .north ∨ port = .south := by
  cases port <;> simp_all [Port.isVertical]

/-- A bend that stays half a stub away from both ends lies between them. -/
theorem bend_mem_Ioo {u v : ℚ} (hstub : 0 < stub) (hroom : stub * 2 ≤ max u v - min u v) (c : ℚ) :
    Scalar.clamp c (min (min u v + stub * 0.5) (max u v - stub * 0.5))
      (max (max u v - stub * 0.5) (min u v + stub * 0.5)) ∈ Set.Ioo (min u v) (max u v) := by
  have hle : min u v + stub * 0.5 ≤ max u v - stub * 0.5 := by linarith
  rw [min_eq_left hle, max_eq_left hle]
  obtain ⟨hlow, hhigh⟩ := Scalar.clamp_mem_Icc (x := c) hle
  constructor <;> linarith

/-- A level between two facing ports lies ahead of both. -/
theorem stepsOut_between (hvertical : l.startPort.isVertical = true)
    (hfacing : l.stopPort = l.startPort.opposite) (hroom : 0 ≤ aheadOf l.start l.startPort l.stop)
    {y : ℚ} (hy : y ∈ Set.Ioo (min l.start.y l.stop.y) (max l.start.y l.stop.y)) :
    StepsOut l.startPort l.start ⟨l.start.x, y⟩ ∧ StepsOut l.stopPort l.stop ⟨l.stop.x, y⟩ := by
  obtain ⟨hlow, hhigh⟩ := hy
  simp only [stepsOut_iff]
  rw [hfacing]
  rcases isVertical_cases hvertical with hport | hport <;> rw [hport] at hroom ⊢ <;>
    simp only [Port.opposite, aheadOf_north, aheadOf_south] at hroom ⊢
  · rw [min_eq_right (by linarith)] at hlow
    rw [max_eq_left (by linarith)] at hhigh
    exact ⟨⟨by linarith, rfl⟩, by linarith, rfl⟩
  · rw [min_eq_left (by linarith)] at hlow
    rw [max_eq_right (by linarith)] at hhigh
    exact ⟨⟨by linarith, rfl⟩, by linarith, rfl⟩

/-- One run between two facing ports leads straight out of both. -/
theorem stepsOut_across (hvertical : l.startPort.isVertical = true)
    (hfacing : l.stopPort = l.startPort.opposite) (hroom : 0 < aheadOf l.start l.startPort l.stop) :
    StepsOut l.startPort l.start ⟨l.start.x, l.stop.y⟩ ∧
      StepsOut l.stopPort ⟨l.start.x, l.stop.y⟩ l.start := by
  simp only [stepsOut_iff]
  rw [hfacing]
  rcases isVertical_cases hvertical with hport | hport <;> rw [hport] at hroom ⊢ <;>
    simp only [Port.opposite, aheadOf_north, aheadOf_south] at hroom ⊢ <;>
    exact ⟨⟨hroom, rfl⟩, hroom, rfl⟩

/-- Facing ports are joined by one run, or by a bend that lies ahead of both. -/
theorem facingRoute_square (hstub : 0 < stub) (hvertical : l.startPort.isVertical = true)
    (hfacing : l.stopPort = l.startPort.opposite)
    (hroom : stub * 2 ≤ aheadOf l.start l.startPort l.stop) (channel : ℚ) :
    ∃ stop, EndsAt l stop ∧ Square l stop (facingRoute l stub channel) := by
  unfold facingRoute
  by_cases hnear : Scalar.abs (l.start.x - l.stop.x) < alignTolerance
  · rw [if_pos hnear]
    obtain ⟨hout, hin⟩ := stepsOut_across hvertical hfacing (by linarith)
    refine ⟨⟨l.start.x, l.stop.y⟩, .inr ⟨hfacing, ?_⟩, .cons_cons hout.aligned (.singleton _),
      ⟨_, [], rfl, hout⟩, _, [], rfl, hin⟩
    have hclose : |l.start.x - l.stop.x| < 1 / 2 := hnear.trans_eq (by norm_num [alignTolerance])
    rcases isVertical_cases hvertical with hport | hport <;> rw [hport] <;>
      exact ⟨rfl, rfl, hclose⟩
  · rw [if_neg hnear]
    simp only [Scalar.min_eq, Scalar.max_eq]
    have hlong : stub * 2 ≤ max l.start.y l.stop.y - min l.start.y l.stop.y := by
      rw [max_sub_min_eq_abs']
      rcases isVertical_cases hvertical with hport | hport <;> rw [hport] at hroom <;>
        simp only [aheadOf_north, aheadOf_south] at hroom
      · exact hroom.trans (le_abs_self _)
      · exact hroom.trans ((le_abs_self _).trans_eq (abs_sub_comm _ _))
    obtain ⟨hout, hin⟩ := stepsOut_between hvertical hfacing (by linarith)
      (bend_mem_Ioo hstub hlong ((l.start.y + l.stop.y) / 2.0 + channel))
    exact ⟨l.stop, .inl rfl, .of_steps [] hout hin (.cons_cons ⟨.vertical, rfl⟩ (.singleton _))⟩

/-- Where a turn goes across. -/
def turnLevel (l : Leg ℚ) (stub : ℚ) : ℚ :=
  if l.startPort == .south then max l.start.y l.stop.y + stub else min l.start.y l.stop.y - stub

/-- A route that turns back runs beyond both ports, so that it leaves and enters them at a right
angle. -/
theorem turningRoute_square (hstub : 0 < stub) (hvertical : l.startPort.isVertical = true)
    (hsame : l.stopPort = l.startPort) : Square l l.stop (turningRoute l stub) := by
  have hroute : turningRoute l stub =
      [l.start, ⟨l.start.x, turnLevel l stub⟩, ⟨l.stop.x, turnLevel l stub⟩, l.stop] := by
    simp only [turningRoute, turnLevel, Scalar.min_eq, Scalar.max_eq]
  have hsteps : StepsOut l.startPort l.start ⟨l.start.x, turnLevel l stub⟩ ∧
      StepsOut l.stopPort l.stop ⟨l.stop.x, turnLevel l stub⟩ := by
    simp only [stepsOut_iff, turnLevel]
    rw [hsame]
    rcases isVertical_cases hvertical with hport | hport <;> rw [hport] <;>
      simp only [aheadOf_north, aheadOf_south]
    · have hstart : min l.start.y l.stop.y ≤ l.start.y := min_le_left _ _
      have hstop : min l.start.y l.stop.y ≤ l.stop.y := min_le_right _ _
      rw [if_neg (by decide)]
      exact ⟨⟨by linarith, rfl⟩, by linarith, rfl⟩
    · have hstart : l.start.y ≤ max l.start.y l.stop.y := le_max_left _ _
      have hstop : l.stop.y ≤ max l.start.y l.stop.y := le_max_right _ _
      rw [if_pos (by decide)]
      exact ⟨⟨by linarith, rfl⟩, by linarith, rfl⟩
  rw [hroute]
  exact .of_steps [] hsteps.1 hsteps.2 (.cons_cons ⟨.vertical, rfl⟩ (.singleton _))

/-- A route around both boxes begins and ends with stubs, so that it leaves and enters at a right
angle. -/
theorem detourRoute_square (hstub : 0 < stub) (pad : ℚ) :
    Square l l.stop (detourRoute l stub pad) := by
  unfold detourRoute
  refine .of_steps [_, _] (stepsOut_stubEnd _ _ hstub) (stepsOut_stubEnd _ _ hstub) ?_
  exact .cons_cons ⟨.vertical, rfl⟩ (.cons_cons ⟨.horizontal, rfl⟩
    (.cons_cons ⟨.vertical, rfl⟩ (.singleton _)))

/-- Which way is taken: facing ports need room for two stubs. -/
theorem sameAxisRoute_eq (hstart : l.startPort.isVertical = true) (channel pad : ℚ) :
    sameAxisRoute l stub channel pad =
      if l.startPort ≠ l.stopPort ∧ stub * 2 ≤ aheadOf l.start l.startPort l.stop then
        facingRoute l stub channel
      else if l.startPort = l.stopPort then turningRoute l stub
      else detourRoute l stub pad := by
  have htravel : (l.stop.y - l.start.y) * (l.startPort.normal : Point ℚ).y =
      aheadOf l.start l.startPort l.stop := by
    rcases isVertical_cases hstart with h | h <;> rw [h] <;> simp [Port.normal]
  simp only [sameAxisRoute, htravel, Bool.and_eq_true, bne_iff_ne, decide_eq_true_eq, beq_iff_eq,
    Scalar.lit_two]

/-- Between two vertical ports every route is square: they face each other with room for two stubs,
or the route turns beyond both of them, or it makes a detour. -/
theorem sameAxisRoute_square (hstub : 0 < stub) (hstart : l.startPort.isVertical = true)
    (hstop : l.stopPort.isVertical = true) (channel pad : ℚ) :
    ∃ stop, EndsAt l stop ∧ Square l stop (sameAxisRoute l stub channel pad) := by
  have hports : l.startPort ≠ l.stopPort → l.stopPort = l.startPort.opposite := by
    rcases isVertical_cases hstart with h | h <;> rcases isVertical_cases hstop with h' | h' <;>
      rw [h, h'] <;> decide
  rw [sameAxisRoute_eq hstart]
  split
  case isTrue h => exact facingRoute_square hstub hstart (hports h.1) h.2 channel
  case isFalse =>
    split
    case isTrue h => exact ⟨l.stop, .inl rfl, turningRoute_square hstub hstart h.symm⟩
    case isFalse => exact ⟨l.stop, .inl rfl, detourRoute_square hstub pad⟩

/-- The corner between two ports on different axes. -/
def cornerPoint (l : Leg ℚ) : Point ℚ :=
  if l.startPort.isVertical then ⟨l.start.x, l.stop.y⟩ else ⟨l.stop.x, l.start.y⟩

/-- The corner is level with both anchors, with each of them in the direction in which its port does
not point. -/
theorem coord_cornerPoint (haxes : l.startPort.isVertical ≠ l.stopPort.isVertical) :
    (cornerPoint l).coord l.startPort.axis.other = l.start.coord l.startPort.axis.other ∧
      (cornerPoint l).coord l.stopPort.axis.other = l.stop.coord l.stopPort.axis.other := by
  unfold cornerPoint
  cases hstart : l.startPort <;> cases hstop : l.stopPort <;> rw [hstart, hstop] at haxes <;>
    first
      | exact absurd rfl haxes
      | exact ⟨rfl, rfl⟩

/-- The corner is taken only if it lies ahead of both ports, and otherwise the route begins and ends
with stubs. -/
theorem crossAxisRoute_square (hstub : 0 < stub)
    (haxes : l.startPort.isVertical ≠ l.stopPort.isVertical) :
    Square l l.stop (crossAxisRoute l stub) := by
  have htol : (0 : ℚ) < alignTolerance := by norm_num [alignTolerance]
  have hroute : crossAxisRoute l stub =
      if alignTolerance < aheadOf l.start l.startPort (cornerPoint l) ∧
          alignTolerance < aheadOf l.stop l.stopPort (cornerPoint l) then
        [l.start, cornerPoint l, l.stop]
      else
        let p := stubEnd l.start l.startPort stub
        let q := stubEnd l.stop l.stopPort stub
        [l.start, p, if l.startPort.isVertical then ⟨q.x, p.y⟩ else ⟨p.x, q.y⟩, q, l.stop] := rfl
  rw [hroute]
  split
  case isTrue h =>
    obtain ⟨hout, hin⟩ := coord_cornerPoint haxes
    have hleaves := stepsOut_iff.mpr ⟨htol.trans h.1, hout⟩
    have henters := stepsOut_iff.mpr ⟨htol.trans h.2, hin⟩
    exact ⟨.cons_cons hleaves.aligned (.cons_cons henters.aligned.symm (.singleton _)),
      ⟨_, _, rfl, hleaves⟩, _, [_], rfl, henters⟩
  case isFalse =>
    refine .of_steps [_] (stepsOut_stubEnd _ _ hstub) (stepsOut_stubEnd _ _ hstub) ?_
    split
    · exact .cons_cons ⟨.vertical, rfl⟩ (.cons_cons ⟨.horizontal, rfl⟩ (.singleton _))
    · exact .cons_cons ⟨.horizontal, rfl⟩ (.cons_cons ⟨.vertical, rfl⟩ (.singleton _))

/-! ## All ports -/

/-- **Routes leave and enter squarely.** Whatever the two ports, anchors and boxes, a route between
them with stubs of some length consists of horizontal and vertical runs, leaves the first port
straight outwards and comes to its end straight against the outward direction of the second port. -/
theorem orthogonalRoute_square (l : Leg ℚ) {stub : ℚ} (hstub : 0 < stub) (channel pad : ℚ) :
    ∃ stop, EndsAt l stop ∧ Square l stop (orthogonalRoute l stub channel pad) := by
  unfold orthogonalRoute
  split
  case h_1 hstart hstop => exact sameAxisRoute_square hstub hstart hstop channel pad
  case h_2 hstart hstop =>
    have hstart : l.transposed.startPort.isVertical = true :=
      (isVertical_transposed _).trans (by rw [hstart]; rfl)
    have hstop : l.transposed.stopPort.isVertical = true :=
      (isVertical_transposed _).trans (by rw [hstop]; rfl)
    obtain ⟨stop, hends, hsquare⟩ := sameAxisRoute_square hstub hstart hstop channel pad
    have hends := hends.transposed
    have hsquare := hsquare.transposed
    rw [Leg.transposed_transposed] at hends hsquare
    exact ⟨stop.transposed, hends, hsquare⟩
  case h_3 hboth hneither =>
    refine ⟨l.stop, .inl rfl, crossAxisRoute_square hstub fun h => ?_⟩
    cases hstart : l.startPort.isVertical
    · exact hneither hstart (h ▸ hstart)
    · exact hboth hstart (h ▸ hstart)

/-- A leg whose corner lies behind the second port. -/
def hook : Leg ℚ := ⟨⟨30, 0⟩, .north, ⟨10, -60⟩, .west, ⟨0, 0, 60, 60⟩, ⟨10, -75, 60, 30⟩⟩

/-- A leg between facing ports that are slightly out of line. -/
def offLine : Leg ℚ :=
  ⟨⟨60, 15⟩, .east, ⟨120, 77 / 5⟩, .west, ⟨0, 0, 60, 30⟩, ⟨120, 2 / 5, 60, 30⟩⟩

/-- The first leg takes a bend through both stubs, and the second one ends beside its anchor. -/
theorem orthogonalRoute_square_hook :
    orthogonalRoute hook 10 0 8 = [⟨30, 0⟩, ⟨30, -10⟩, ⟨0, -10⟩, ⟨0, -60⟩, ⟨10, -60⟩] ∧
    (∃ stop, EndsAt hook stop ∧ Square hook stop (orthogonalRoute hook 10 0 8)) ∧
    orthogonalRoute offLine 10 0 8 = [⟨60, 15⟩, ⟨120, 15⟩] ∧
    ∃ stop, EndsAt offLine stop ∧ Square offLine stop (orthogonalRoute offLine 10 0 8) :=
  ⟨by decide +kernel, orthogonalRoute_square hook (by norm_num) 0 8, by decide +kernel,
    orthogonalRoute_square offLine (by norm_num) 0 8⟩

end Flowchart
