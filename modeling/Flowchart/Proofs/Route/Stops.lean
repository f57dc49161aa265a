import Flowchart.Proofs.Route.Anchors
import Flowchart.Proofs.Route.Corners
import Flowchart.Proofs.Route.Detours
import Flowchart.Route.Edges

/-!
# Routes through waypoints

A connection with waypoints stops at its first anchor, at each waypoint and at its second anchor.
Let all stops be apart. The route between them, with its elbows, repeats no corner, so the first
clean-up keeps every waypoint where it is. Detours add corners, and some of them may count as the
same as a waypoint; the second clean-up keeps one of these. Symbols only move the two ends.

So the route passes by all waypoints in order, `routeEdges_passes`.
-/

namespace Flowchart

/-! ## Interior corners -/

/-- The corners of a route other than its two ends. -/
def interior {β : Type} (route : List β) : List β := route.tail.dropLast

/-- What has neither end of a route lies in its interior. -/
theorem sublist_interior {β : Type} {kept route : List β} (h : kept.Sublist route)
    (hhead : ∀ p ∈ route.head?, p ∉ kept) (hlast : ∀ p ∈ route.getLast?, p ∉ kept) :
    kept.Sublist (interior route) := by
  cases route with
  | nil => exact h
  | cons a rest =>
    have hrest : kept.Sublist rest := (List.sublist_cons_iff.mp h).resolve_right
      fun ⟨_, heq, _⟩ => hhead a rfl (heq ▸ List.mem_cons_self)
    obtain rfl | ⟨front, z, rfl⟩ := rest.eq_nil_or_concat'
    · exact hrest
    · rw [interior, List.tail_cons, List.dropLast_concat]
      obtain ⟨before, after, rfl, hbefore, hafter⟩ := List.sublist_append_iff.mp hrest
      obtain rfl | rfl := List.sublist_singleton.mp hafter
      · rwa [List.append_nil]
      · refine absurd (List.mem_append_right before (List.mem_singleton_self z)) (hlast z ?_)
        simp [List.getLast?_cons, List.getLast?_append]

variable {α : Type} [Scalar α]

theorem interior_pullStart (offset : α) (route : List (Point α)) :
    interior (pullStart offset route) = interior route := by
  match route with
  | [] | [_] | _ :: _ :: _ => rfl

theorem interior_reverse {β : Type} (route : List β) :
    interior route.reverse = (interior route).reverse := by
  rw [interior, interior, List.tail_reverse, List.dropLast_reverse, List.tail_dropLast]

/-- Making room for symbols moves no interior corner. -/
theorem interior_pullBack (atStart atEnd : Bool) (offset : α) (route : List (Point α)) :
    interior (pullBack atStart atEnd offset route) = interior route := by
  have hend : interior (pullEnd offset route) = interior route := by
    rw [pullEnd, interior_reverse, interior_pullStart, interior_reverse, List.reverse_reverse]
  unfold pullBack
  split
  · rfl
  · cases atStart <;> cases atEnd <;> simp [interior_pullStart, hend]

/-! ## Elbows -/

theorem elbow_eq_concat (verticalFlow : Bool) (a b : Point α) :
    ∃ front, elbow verticalFlow a b = front ++ [b] := by
  unfold elbow
  split
  · cases verticalFlow
    exacts [⟨[_, _], rfl⟩, ⟨[_, _], rfl⟩]
  · exact ⟨[], rfl⟩

/-- A route through stops has all of them as corners, and ends at the last one. -/
theorem elbowsFrom_sublist (verticalFlow : Bool) (a : Point α) (stops : List (Point α)) :
    stops.Sublist (elbowsFrom verticalFlow a stops) ∧
      (a :: elbowsFrom verticalFlow a stops).getLast? = (a :: stops).getLast? := by
  induction stops generalizing a with
  | nil => exact ⟨.slnil, rfl⟩
  | cons b stops ih =>
    obtain ⟨hsub, hlast⟩ := ih b
    obtain ⟨front, hfront⟩ := elbow_eq_concat verticalFlow a b
    rw [elbowsFrom, hfront, List.append_assoc, List.singleton_append]
    refine ⟨(hsub.cons_cons b).trans (List.sublist_append_right front _), ?_⟩
    rw [List.getLast?_cons_cons, ← hlast]
    simp [List.getLast?_cons, List.getLast?_append]

variable {a b : Point ℝ} {stops : List (Point ℝ)}

theorem near_eq_false_of_abs {p q : Point ℝ} (h : 1 / 4 ≤ |q.x - p.x| ∨ 1 / 4 ≤ |q.y - p.y|) :
    p.near q = false := by
  obtain ⟨hx, hy⟩ := Point.abs_sub_le_distance p q
  by_contra hnear
  rw [Bool.not_eq_false, Point.near_iff] at hnear
  norm_num at hnear
  rcases h with h | h <;> linarith

/-- An elbow between stops that are apart repeats no corner. -/
theorem isChain_elbow (verticalFlow : Bool) (h : 1 ≤ a.distance b) :
    (a :: elbow verticalFlow a b).IsChain fun p q => p.near q = false := by
  unfold elbow
  split
  case isTrue hbend =>
    obtain ⟨hx, hy⟩ : 1 / 2 ≤ |a.x - b.x| ∧ 1 / 2 ≤ |a.y - b.y| := by
      norm_num [alignTolerance] at hbend
      exact hbend
    have hhalf : ∀ u v : ℝ, 1 / 2 ≤ |u - v| →
        1 / 4 ≤ |(u + v) / 2 - u| ∧ 1 / 4 ≤ |v - u| ∧ 1 / 4 ≤ |v - (u + v) / 2| := by
      intro u v huv
      grind
    obtain ⟨hout, hover, hin⟩ := hhalf a.x b.x hx
    obtain ⟨hout', hover', hin'⟩ := hhalf a.y b.y hy
    cases verticalFlow
    case true =>
      refine .cons_cons ?_ (.cons_cons ?_ (.cons_cons ?_ (.singleton b)))
      exacts [near_eq_false_of_abs (.inr (by norm_num; exact hout')),
        near_eq_false_of_abs (.inl hover), near_eq_false_of_abs (.inr (by norm_num; exact hin'))]
    case false =>
      refine .cons_cons ?_ (.cons_cons ?_ (.cons_cons ?_ (.singleton b)))
      exacts [near_eq_false_of_abs (.inl (by norm_num; exact hout)),
        near_eq_false_of_abs (.inr hover'), near_eq_false_of_abs (.inl (by norm_num; exact hin))]
  case isFalse =>
    refine .cons_cons ?_ (.singleton b)
    by_contra hnear
    rw [Bool.not_eq_false, Point.near_iff] at hnear
    norm_num at hnear
    linarith

/-- A route through stops that are apart repeats no corner. -/
theorem isChain_elbowsFrom (verticalFlow : Bool)
    (h : (a :: stops).IsChain fun p q => 1 ≤ p.distance q) :
    (a :: elbowsFrom verticalFlow a stops).IsChain fun p q => p.near q = false := by
  induction stops generalizing a with
  | nil => exact .singleton a
  | cons b stops ih =>
    obtain ⟨hab, hrest⟩ := List.isChain_cons_cons.mp h
    have helbow := isChain_elbow verticalFlow hab
    obtain ⟨front, hfront⟩ := elbow_eq_concat verticalFlow a b
    rw [hfront, ← List.cons_append] at helbow
    rw [elbowsFrom, hfront, List.append_assoc, List.singleton_append, ← List.cons_append]
    exact List.isChain_split.mpr ⟨helbow, ih hrest⟩

/-! ## Ports -/

/-- A connection of two nodes has ports if it is not a loop. -/
theorem assignPorts_getElem? (options : LayoutOptions α) {nodes : List (PlacedNode α)}
    {links : List (FlowEdge α)} {i : Nat} {link : FlowEdge α} {source target : PlacedNode α}
    (hlink : links[i]? = some link) (hsource : placedNode? nodes link.edge.source = some source)
    (htarget : placedNode? nodes link.edge.target = some target) (hloop : link.edge.isLoop = false) :
    ∃ p, (assignPorts options nodes links)[i]? = some (some p) := by
  simp [assignPorts, initialPorts, hlink, hsource, htarget, hloop]

/-! ## The whole route -/

/-- In its interior the route has, for each of the points in order, a corner within a thousandth. -/
def PassesBy (route points : List (Point ℝ)) : Prop :=
  ∃ kept, kept.Sublist (interior route) ∧ List.Forall₂ (fun p k => p.distance k < 1e-3) points kept

theorem exists_near_of_mem {points kept : List (Point ℝ)}
    (h : List.Forall₂ (fun p k => k.near p = true) points kept) {k : Point ℝ} (hk : k ∈ kept) :
    ∃ p ∈ points, k.near p = true := by
  induction h with
  | nil => cases hk
  | cons hnear _ ih =>
    rcases List.mem_cons.mp hk with rfl | hk
    · exact ⟨_, List.mem_cons_self, hnear⟩
    · obtain ⟨p, hp, hnear⟩ := ih hk
      exact ⟨p, List.mem_cons_of_mem _ hp, hnear⟩

/-- A clean-up of a route that has all the waypoints, apart from each other and from both ends,
passes by them. What stands for a waypoint is too far from the ends of the route to be one of
them. -/
theorem passesBy_simplifyKeeping {route waypoints : List (Point ℝ)} {start stop : Point ℝ}
    (hhead : route.head? = some start) (hlast : route.getLast? = some stop)
    (hsub : waypoints.Sublist route) (hapart : (start :: (waypoints ++ [stop])).Pairwise Apart) :
    PassesBy (simplifyKeeping waypoints route) waypoints := by
  obtain ⟨hstart, hrest⟩ := List.pairwise_cons.mp hapart
  obtain ⟨hwaypoints, -, hstop⟩ := List.pairwise_append.mp hrest
  obtain ⟨kept, hkept, hsub⟩ := simplifyKeeping_keeps hsub (fun _ hp => hp) hwaypoints
  obtain ⟨rest, rfl⟩ := List.head?_eq_some_iff.mp hhead
  obtain ⟨last, hlast, hnear⟩ := simplifyKeeping_getLast? waypoints hlast
  refine ⟨kept, sublist_interior hsub ?_ ?_, hkept.imp fun p k h => ?_⟩
  · intro p hp hmem
    obtain rfl := Option.some.inj ((simplifyKeeping_head? waypoints start rest).symm.trans hp)
    obtain ⟨w, hw, hclose⟩ := exists_near_of_mem hkept hmem
    have hout := (hstart w (List.mem_append_left _ hw)).near_eq_false start.near_self
    rw [hclose] at hout
    cases hout
  · intro p hp hmem
    obtain rfl := Option.some.inj (hlast.symm.trans hp)
    obtain ⟨w, hw, hclose⟩ := exists_near_of_mem hkept hmem
    have hout := (hstop w hw stop (List.mem_singleton_self stop)).near_eq_false hclose
    rw [hnear] at hout
    cases hout
  · rw [Point.distance_comm]
    exact Point.near_iff.mp h

/-- The first clean-up keeps all waypoints where they are, and so do the detours. -/
theorem waypoints_sublist (boxes : List (Rect ℝ)) (verticalFlow : Bool) {start stop : Point ℝ}
    {waypoints : List (Point ℝ)}
    (hapart : (start :: (waypoints ++ [stop])).IsChain fun p q => 1 ≤ p.distance q) :
    let route := detourLoop boxes 32
      (simplifyKeeping waypoints (waypointRoute verticalFlow start waypoints stop))
    waypoints.Sublist route ∧ route.head? = some start ∧ route.getLast? = some stop := by
  intro route
  obtain ⟨hstops, hend⟩ := elbowsFrom_sublist verticalFlow start (waypoints ++ [stop])
  obtain ⟨hkept, hlast⟩ :=
    simplifyKeeping_sublist waypoints (isChain_elbowsFrom verticalFlow hapart)
  obtain ⟨hgrown, hhead', hlast'⟩ := detourLoop_sublist boxes 32
    (simplifyKeeping waypoints (waypointRoute verticalFlow start waypoints stop))
  refine ⟨?_, hhead'.trans (simplifyKeeping_head? waypoints start _), hlast'.trans (hlast.trans ?_)⟩
  · have hpinned : (waypoints.filter fun p => waypoints.any p.near) = waypoints :=
      List.filter_eq_self.mpr fun p hp => List.any_eq_true.mpr ⟨p, hp, p.near_self⟩
    have hraw : waypoints.Sublist (waypointRoute verticalFlow start waypoints stop) :=
      ((List.sublist_append_left waypoints [stop]).trans hstops).cons start
    rw [← hpinned]
    exact ((hraw.filter _).trans hkept).trans hgrown
  · rw [hend]
    simp [List.getLast?_cons, List.getLast?_append]

/-- **Long connections keep their waypoints.** A connection of two different nodes has ports and a
route. If its first anchor, its waypoints and its second anchor are apart from each other, then the
route has, for each waypoint in order, an interior corner within a thousandth of it, whatever the
other nodes, the blocks, the other connections and the symbols at its ends. -/
theorem routeEdges_passesBy {ω : Type} [Scalar ω] [Widening ℝ ω] [Trigonometry ω]
    (options : LayoutOptions ℝ) (nodes : List (PlacedNode ℝ)) (blocks : List (PlacedBlock ℝ))
    (links : List (FlowEdge ℝ)) {i : Nat} {link : FlowEdge ℝ} {source target : PlacedNode ℝ}
    (hlink : links[i]? = some link)
    (hsource : placedNode? nodes link.edge.source = some source)
    (htarget : placedNode? nodes link.edge.target = some target)
    (hends : link.edge.source ≠ link.edge.target) :
    ∃ p route, (assignPorts options nodes links)[i]? = some (some p) ∧
      (routeEdges options nodes blocks links)[i]? = some route ∧
      ((anchorPoint source p.start p.startOffset ::
          (link.waypoints ++ [anchorPoint target p.stop p.stopOffset])).Pairwise
            (fun a b => 1 ≤ a.distance b) →
        PassesBy route link.waypoints) := by
  have hloop : link.edge.isLoop = false := by simpa [Edge.isLoop] using hends
  obtain ⟨p, hp⟩ := assignPorts_getElem? options hlink hsource htarget hloop
  refine ⟨p, routeLink options nodes (obstacles options nodes blocks) link (some p), hp, ?_, ?_⟩
  · have hzip : (links.zip (assignPorts options nodes links))[i]? = some (link, some p) :=
      List.getElem?_zip_eq_some.mpr ⟨hlink, hp⟩
    rw [routeEdges, List.getElem?_map, hzip, Option.map_some]
  intro hapart
  simp only [routeLink, hsource, htarget]
  unfold PassesBy
  rw [interior_pullBack]
  cases hwaypoints : link.waypoints with
  | nil => exact ⟨[], List.nil_sublist _, .nil⟩
  | cons w later =>
    rw [hwaypoints] at hapart
    obtain ⟨hsub, hhead, hlast⟩ := waypoints_sublist
      (((obstacles options nodes blocks).filter (·.blocks link.edge)).map Obstacle.box)
      (!link.direction.isHorizontal) hapart.isChain
    have hclose : ∀ a b : Point ℝ, 1 ≤ a.distance b → Apart a b := by
      intro a b hab
      refine le_trans ?_ hab
      norm_num
    simp only [rawRoute, hwaypoints, List.isEmpty_cons]
    exact passesBy_simplifyKeeping hhead hlast hsub (hapart.imp (hclose _ _))

/-- A plain node. -/
noncomputable def shed (id : String) (x y : ℝ) : PlacedNode ℝ :=
  { id := id, box := ⟨x, y, 60, 30⟩, label := ⟨[], 0, 0⟩, shape := .rectangle }

/-- A long connection, past two waypoints on a line with a node between them. -/
noncomputable def longWay : FlowEdge ℝ :=
  ⟨{ source := "a", target := "b" }, [⟨200, 150⟩, ⟨200, 260⟩], .topDown⟩

theorem anchorPoint_shed (id : String) (x y : ℝ) (port : Port) (offset : ℝ) :
    (x ≤ (anchorPoint (shed id x y) port offset).x ∧
      (anchorPoint (shed id x y) port offset).x ≤ x + 60) ∧
    y ≤ (anchorPoint (shed id x y) port offset).y ∧
      (anchorPoint (shed id x y) port offset).y ≤ y + 30 := by
  obtain ⟨s, ⟨⟨hx0, hx1⟩, hy0, hy1⟩, hs⟩ := anchorPoint_within (n := shed id x y) (.inl rfl)
    (by norm_num [shed]) (by norm_num [shed]) port offset
  rw [hs]
  simp only [Rect.at, shed]
  refine ⟨⟨?_, ?_⟩, ?_, ?_⟩ <;> linarith

/-- The route past the node passes by both waypoints. -/
theorem routeEdges_passesBy_longWay : ∃ route,
    (routeEdges .standard [shed "a" 0 0, shed "b" 0 400, shed "c" 170 190] [] [longWay])[0]? =
      some route ∧ PassesBy route [⟨200, 150⟩, ⟨200, 260⟩] := by
  let nodes := [shed "a" 0 0, shed "b" 0 400, shed "c" 170 190]
  have hlink : [longWay][0]? = some longWay := rfl
  have hsource : placedNode? nodes longWay.edge.source = some (shed "a" 0 0) := rfl
  have htarget : placedNode? nodes longWay.edge.target = some (shed "b" 0 400) := rfl
  obtain ⟨p, route, -, hroute, hpasses⟩ := routeEdges_passesBy (ω := ℝ) .standard nodes [] [longWay]
    hlink hsource htarget (by decide)
  refine ⟨route, hroute, hpasses ?_⟩
  obtain ⟨⟨hax0, hax1⟩, hay0, hay1⟩ := anchorPoint_shed "a" 0 0 p.start p.startOffset
  obtain ⟨⟨hbx0, hbx1⟩, hby0, hby1⟩ := anchorPoint_shed "b" 0 400 p.stop p.stopOffset
  have hacross : ∀ p q : Point ℝ, p.x + 1 ≤ q.x ∨ q.x + 1 ≤ p.x → 1 ≤ p.distance q := fun p q h =>
    (le_abs.mpr (h.imp (by intro; linarith) (by intro; linarith))).trans
      (Point.abs_sub_le_distance p q).1
  have hbelow : ∀ p q : Point ℝ, p.y + 1 ≤ q.y → 1 ≤ p.distance q := fun p q h =>
    (le_abs.mpr (.inl (by linarith))).trans (Point.abs_sub_le_distance p q).2
  simp only [longWay, List.cons_append, List.nil_append, List.pairwise_cons, List.forall_mem_cons,
    List.not_mem_nil, false_imp_iff, implies_true, and_true, List.Pairwise.nil]
  refine ⟨⟨hacross _ _ (.inl ?_), hacross _ _ (.inl ?_), hbelow _ _ ?_⟩,
    ⟨hbelow _ _ ?_, hacross _ _ (.inr ?_)⟩, hacross _ _ (.inr ?_)⟩ <;> linarith

end Flowchart
