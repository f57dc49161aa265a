import Mathlib.Algebra.Module.Submodule.Lattice
import Mathlib.Data.List.Permutation
import Flowchart.Proofs.Route.Stops
import Flowchart.Proofs.Scalar.Exact

/-!
# Fans of connections

Connections that share a side of a node fan out along it. All ends at the side, those that leave the
node as well as those that enter it, are listed by the coordinate of what they lead to; equal
coordinates are told apart by the positions of the connections. A connection is no loop, so only one
of its ends is at the side, and the listing is strict. The offset of an end depends on its place in
the listing and nothing else, `map_offsetOf_endsAt`; so it is enough to know the evenly spaced
numbers around zero, `isChain_fromMiddle` and `sum_fromMiddle`. Bends are spread in the same way
among the ends that leave.
-/

namespace Flowchart

/-! ## Evenly spaced numbers -/

section Spaced

variable {i n : Nat} {step : ℚ}

/-- The numbers are counted from the middle of the row, in exact arithmetic. -/
theorem fromMiddle_eq (i n : Nat) (step : ℚ) :
    fromMiddle i n step = (i - (n - 1 : Nat) / 2) * step := by
  rw [fromMiddle, Scalar.lit_two]
  rfl

/-- Each of them is one step larger than the one before. -/
theorem isChain_fromMiddle (n : Nat) (step : ℚ) :
    ((List.range n).map (fromMiddle · n step)).IsChain fun x y => y - x = step := by
  rw [List.isChain_map, List.isChain_iff_getElem]
  intro i hi
  simp only [List.getElem_range, fromMiddle_eq, Nat.cast_add, Nat.cast_one]
  ring

/-- The offsets of a fan balance each other around zero, since they are the steps from the middle to
both sides. -/
theorem sum_fromMiddle (n : Nat) (step : ℚ) :
    ((List.range n).map (fromMiddle · n step)).sum = 0 := by
  have hsum : ∀ (m : Nat) (c : ℚ), ((List.range m).map fun i : Nat => ((i : ℚ) - c) * step).sum =
      m * ((m - 1) / 2 - c) * step := by
    intro m c
    induction m with
    | zero => simp
    | succ m ih =>
      rw [List.range_succ, List.map_append, List.sum_append, ih]
      push_cast [List.map_cons, List.map_nil, List.sum_cons, List.sum_nil]
      ring
  simp only [fromMiddle_eq, hsum]
  cases n with
  | zero => simp
  | succ n => simp

/-- No number is further from the middle than the outermost ones. -/
theorem abs_fromMiddle_le (hi : i < n) (hstep : 0 ≤ step) :
    |fromMiddle i n step| ≤ (n - 1 : Nat) / 2 * step := by
  have hle : (i : ℚ) ≤ (n - 1 : Nat) := by exact_mod_cast Nat.le_sub_one_of_lt hi
  have hpos : (0 : ℚ) ≤ i := i.cast_nonneg
  rw [fromMiddle_eq, abs_mul, abs_of_nonneg hstep]
  refine mul_le_mul_of_nonneg_right (abs_le.mpr ⟨?_, ?_⟩) hstep <;> linarith

end Spaced

/-! ## The chosen sides -/

section Choice

variable {α : Type} [Scalar α] {nodes : List (PlacedNode α)} {links : List (FlowEdge α)} {i : Nat}
  {c : PortedLink α} {e : SideEnd α}

/-- The two sides of a connection. -/
def EdgePorts.sides (p : EdgePorts α) : Port × Port := (p.start, p.stop)

/-- The connections with the sides chosen for them, decisions included, before anything is
spread. -/
def chosenLinks (nodes : List (PlacedNode α)) (links : List (FlowEdge α)) :
    List (Option (PortedLink α)) :=
  let ported := links.zipIdx.map fun (link, i) =>
    (initialPorts nodes link).map fun ports => (⟨i, link, ports⟩ : PortedLink α)
  ported.map fun p? => p?.map (splitBranch nodes (ported.filterMap id))

/-- All ends of connections. -/
def allEnds (nodes : List (PlacedNode α)) (links : List (FlowEdge α)) : List (SideEnd α) :=
  ((chosenLinks nodes links).filterMap id).flatMap (sideEnds nodes)

/-- Ports are given in two steps: sides are chosen for all connections first, and then the ends at
every side are spread. -/
theorem assignPorts_eq (options : LayoutOptions α) (nodes : List (PlacedNode α))
    (links : List (FlowEdge α)) : assignPorts options nodes links =
      (chosenLinks nodes links).map (Option.map (spreadLink options nodes (allEnds nodes links))) :=
  rfl

/-- Spreading leaves the sides as they were chosen. -/
theorem sides_assignPorts (options : LayoutOptions α) (nodes : List (PlacedNode α))
    (links : List (FlowEdge α)) : (assignPorts options nodes links).map (Option.map EdgePorts.sides) =
      (chosenLinks nodes links).map (Option.map fun c => c.ports.sides) := by
  rw [assignPorts_eq, List.map_map]
  refine List.map_congr_left fun c? _ => ?_
  rw [Function.comp_apply, Option.map_map]
  rfl

/-- Choosing another side for a branch changes neither the connection nor its position. -/
theorem splitBranch_spec (nodes : List (PlacedNode α)) (all : List (PortedLink α))
    (c : PortedLink α) : (splitBranch nodes all c).index = c.index ∧
      (splitBranch nodes all c).link = c.link := by
  unfold splitBranch
  dsimp only
  repeat' split
  all_goals exact ⟨rfl, rfl⟩

/-- A connection with sides is no loop, and both its nodes are known. -/
theorem chosenLinks_getElem? (h : (chosenLinks nodes links)[i]? = some (some c)) :
    c.index = i ∧ links[i]? = some c.link ∧ c.link.edge.source ≠ c.link.edge.target ∧
      (∃ n, placedNode? nodes c.link.edge.source = some n) ∧
      ∃ n, placedNode? nodes c.link.edge.target = some n := by
  simp only [chosenLinks, List.map_map, List.getElem?_map, List.getElem?_zipIdx, Option.map_map,
    Option.map_eq_some_iff, Function.comp_apply, Nat.zero_add] at h
  obtain ⟨link, hlink, ports, hports, rfl⟩ := h
  obtain ⟨hindex, hlink'⟩ := splitBranch_spec nodes _ ⟨i, link, ports⟩
  rw [hindex, hlink']
  unfold initialPorts at hports
  split at hports
  · cases hports
  · rename_i hloop
    split at hports
    · rename_i source target hsource htarget
      exact ⟨rfl, hlink, by simpa [Edge.isLoop] using hloop, ⟨source, hsource⟩, target, htarget⟩
    · cases hports

/-- A connection has ports exactly if it has sides, and the ports are what spreading gives to
them. -/
theorem assignPorts_getElem?_iff (options : LayoutOptions α) {p : EdgePorts α} :
    (assignPorts options nodes links)[i]? = some (some p) ↔
      ∃ c, (chosenLinks nodes links)[i]? = some (some c) ∧
        spreadLink options nodes (allEnds nodes links) c = p := by
  simp [assignPorts_eq]

/-! ## All ends -/

/-- The ends of the connections that have ports. -/
inductive Meets (nodes : List (PlacedNode α)) (links : List (FlowEdge α))
    (ports : List (Option (EdgePorts α))) : SideEnd α → Prop
  /-- the first end leads to the first waypoint, or else to the node that the connection enters -/
  | leaving {i : Nat} {link : FlowEdge α} {p : EdgePorts α} {target : PlacedNode α}
      (hlink : links[i]? = some link) (hp : ports[i]? = some (some p))
      (htarget : placedNode? nodes link.edge.target = some target) :
      Meets nodes links ports ⟨link.edge.source, p.start, i, true,
        alongSide p.start (link.waypoints.head?.getD target.center)⟩
  /-- the second end leads to the last waypoint, or else to the node that the connection leaves -/
  | entering {i : Nat} {link : FlowEdge α} {p : EdgePorts α} {source : PlacedNode α}
      (hlink : links[i]? = some link) (hp : ports[i]? = some (some p))
      (hsource : placedNode? nodes link.edge.source = some source) :
      Meets nodes links ports ⟨link.edge.target, p.stop, i, false,
        alongSide p.stop (link.waypoints.getLast?.getD source.center)⟩

/-- The ends of a connection have its position. -/
theorem index_of_mem_sideEnds (he : e ∈ sideEnds nodes c) : e.index = c.index := by
  unfold sideEnds at he
  grind

/-- All ends are those of connections with sides. -/
theorem mem_allEnds : e ∈ allEnds nodes links ↔
    ∃ c, (chosenLinks nodes links)[e.index]? = some (some c) ∧ e ∈ sideEnds nodes c := by
  simp only [allEnds, List.mem_flatMap, List.mem_filterMap, id_eq, exists_eq_right]
  refine ⟨fun ⟨c, hc, he⟩ => ⟨c, ?_, he⟩, fun ⟨c, hc, he⟩ => ⟨c, List.mem_of_getElem? hc, he⟩⟩
  obtain ⟨i, hi⟩ := List.mem_iff_getElem?.mp hc
  rwa [index_of_mem_sideEnds he, (chosenLinks_getElem? hi).1]

/-- The ends can be told from the ports as well, since spreading leaves the sides as they were. -/
theorem mem_allEnds_iff (options : LayoutOptions α) : e ∈ allEnds nodes links ↔
    Meets nodes links (assignPorts options nodes links) e := by
  rw [mem_allEnds]
  constructor
  · rintro ⟨c, hc, he⟩
    obtain ⟨hindex, hlink, -, ⟨source, hsource⟩, target, htarget⟩ := chosenLinks_getElem? hc
    have hp := (assignPorts_getElem?_iff options).mpr ⟨c, hc, rfl⟩
    generalize hspread : spreadLink options nodes (allEnds nodes links) c = p at hp
    obtain ⟨hstart, hstop⟩ : p.start = c.ports.start ∧ p.stop = c.ports.stop := by
      rw [← hspread]
      exact ⟨rfl, rfl⟩
    simp only [sideEnds, hsource, htarget, List.mem_cons, List.not_mem_nil, or_false, ← hstart,
      ← hstop] at he
    rcases he with rfl | rfl
    · exact .leaving hlink hp htarget
    · exact .entering hlink hp hsource
  · rintro (⟨hlink, hp, hnode⟩ | ⟨hlink, hp, hnode⟩)
    all_goals
      obtain ⟨c, hc, rfl⟩ := (assignPorts_getElem?_iff options).mp hp
      obtain ⟨rfl, hlink', -, ⟨source, hsource⟩, target, htarget⟩ := chosenLinks_getElem? hc
      obtain rfl := Option.some.inj (hlink.symm.trans hlink')
      refine ⟨c, hc, ?_⟩
      simp_all [sideEnds, spreadLink]

/-! ## The ends at one side -/

/-- Connections are listed in the order of their positions. -/
theorem pairwise_index_chosenLinks (nodes : List (PlacedNode α)) (links : List (FlowEdge α)) :
    ((chosenLinks nodes links).filterMap id).Pairwise (·.index < ·.index) := by
  rw [List.pairwise_filterMap, List.pairwise_iff_getElem]
  intro i j hi hj hij c hc c' hc'
  have hget := (chosenLinks_getElem? (List.getElem?_eq_some_iff.mpr ⟨hi, hc⟩)).1
  have hget' := (chosenLinks_getElem? (List.getElem?_eq_some_iff.mpr ⟨hj, hc'⟩)).1
  omega

/-- At a side there is no more than one end of a connection: its two ends are at different nodes, as
it is no loop. -/
theorem pairwise_index_endsAt (nodes : List (PlacedNode α)) (links : List (FlowEdge α)) (id : String)
    (port : Port) : (endsAt (allEnds nodes links) id port).Pairwise (·.index ≠ ·.index) := by
  rw [endsAt, (List.mergeSort_perm _ endLe).pairwise_iff Ne.symm, allEnds, List.filter_flatMap,
    List.pairwise_flatMap]
  constructor
  · intro c hc
    obtain ⟨_, hmem, rfl⟩ := List.mem_filterMap.mp hc
    obtain ⟨i, hi⟩ := List.mem_iff_getElem?.mp hmem
    obtain ⟨-, -, hends, ⟨source, hsource⟩, target, htarget⟩ := chosenLinks_getElem? hi
    simp only [sideEnds, hsource, htarget, List.filter_cons, List.filter_nil, beq_iff_eq,
      Bool.and_eq_true]
    split
    · rename_i hfirst
      rw [if_neg fun hsecond => hends (hfirst.1.trans hsecond.1.symm)]
      exact List.pairwise_singleton _ _
    · split
      · exact List.pairwise_singleton _ _
      · exact .nil
  · refine (pairwise_index_chosenLinks nodes links).imp fun hlt x hx y hy => ?_
    rw [index_of_mem_sideEnds (List.mem_of_mem_filter hx),
      index_of_mem_sideEnds (List.mem_of_mem_filter hy)]
    exact hlt.ne

/-- The ends at a side are those with its node and its port. -/
theorem mem_endsAt {ends : List (SideEnd α)} {id : String} {port : Port} :
    e ∈ endsAt ends id port ↔ e ∈ ends ∧ e.node = id ∧ e.port = port := by
  rw [endsAt, List.mem_mergeSort, List.mem_filter, Bool.and_eq_true, beq_iff_eq, beq_iff_eq]

/-! ## What spreading gives to an end -/

/-- The offset of an end. -/
def offsetOf (ports : List (Option (EdgePorts α))) (e : SideEnd α) : α :=
  match ports[e.index]? with
  | some (some p) => if e.leaves then p.startOffset else p.stopOffset
  | _ => 0.0

/-- The displacement of the bend of the connection that an end belongs to. -/
def channelOf (ports : List (Option (EdgePorts α))) (e : SideEnd α) : α :=
  match ports[e.index]? with
  | some (some p) => p.channel
  | _ => 0.0

/-- The offset of an end is what spreading gives at its side and for its position. -/
theorem offsetOf_eq (options : LayoutOptions α) (he : e ∈ allEnds nodes links) :
    offsetOf (assignPorts options nodes links) e =
      (spreadEnd options nodes (allEnds nodes links) e.node e.port e.index).1 := by
  obtain ⟨c, hc, hmem⟩ := mem_allEnds.mp he
  obtain ⟨hindex, -, -, ⟨source, hsource⟩, target, htarget⟩ := chosenLinks_getElem? hc
  rw [offsetOf, (assignPorts_getElem?_iff options).mpr ⟨c, hc, rfl⟩]
  simp only [sideEnds, hsource, htarget, List.mem_cons, List.not_mem_nil, or_false] at hmem
  rcases hmem with rfl | rfl <;> rfl

theorem channelOf_eq (options : LayoutOptions α) (he : e ∈ allEnds nodes links)
    (hleaves : e.leaves = true) : channelOf (assignPorts options nodes links) e =
      (spreadEnd options nodes (allEnds nodes links) e.node e.port e.index).2 := by
  obtain ⟨c, hc, hmem⟩ := mem_allEnds.mp he
  obtain ⟨hindex, -, -, ⟨source, hsource⟩, target, htarget⟩ := chosenLinks_getElem? hc
  rw [channelOf, (assignPorts_getElem?_iff options).mpr ⟨c, hc, rfl⟩]
  simp only [sideEnds, hsource, htarget, List.mem_cons, List.not_mem_nil, or_false] at hmem
  rcases hmem with rfl | rfl
  · rfl
  · cases hleaves

omit [Scalar α] in
/-- Where all positions differ, they are found one after the other. -/
theorem map_findIdx_index {β : Type} {ends : List (SideEnd α)}
    (h : ends.Pairwise (·.index ≠ ·.index)) (f : Nat → β) :
    ends.map (fun e => f (ends.findIdx (·.index == e.index))) = (List.range ends.length).map f := by
  refine List.ext_getElem (by simp) fun i hi hi' => ?_
  rw [List.getElem_map, List.getElem_map, List.getElem_range]
  congr 1
  rw [List.length_map] at hi
  rw [List.findIdx_eq hi]
  refine ⟨beq_self_eq_true _, fun j hj => ?_⟩
  exact beq_eq_false_iff_ne.mpr (List.pairwise_iff_getElem.mp h j i _ hi hj)

section Spread

variable {id : String} {n : PlacedNode α} {port : Port}

/-- The offsets at a side depend on their number only. -/
theorem map_offsetOf_endsAt (options : LayoutOptions α) (hn : placedNode? nodes id = some n)
    (hcount : 2 ≤ (endsAt (allEnds nodes links) id port).length) :
    (endsAt (allEnds nodes links) id port).map (offsetOf (assignPorts options nodes links)) =
      let count := (endsAt (allEnds nodes links) id port).length
      (List.range count).map (fromMiddle · count (endStep options (sideExtent n port) count)) := by
  dsimp only
  rw [← map_findIdx_index (pairwise_index_endsAt nodes links id port)]
  refine List.map_congr_left fun e he => ?_
  obtain ⟨hmem, rfl, rfl⟩ := mem_endsAt.mp he
  rw [offsetOf_eq options hmem, spreadEnd, hn]
  exact congrArg Prod.fst (if_neg hcount.not_gt)

/-- The channels at a side depend on the number of the ends that leave. -/
theorem map_channelOf_endsAt (options : LayoutOptions α) (hn : placedNode? nodes id = some n)
    (hcount : 2 ≤ (endsAt (allEnds nodes links) id port).length) :
    ((endsAt (allEnds nodes links) id port).filter SideEnd.leaves).map
        (channelOf (assignPorts options nodes links)) =
      let count := ((endsAt (allEnds nodes links) id port).filter SideEnd.leaves).length
      (List.range count).map (fromMiddle · count options.edgeSpacing) := by
  dsimp only
  rw [← map_findIdx_index ((pairwise_index_endsAt nodes links id port).filter _)]
  refine List.map_congr_left fun e he => ?_
  obtain ⟨hat, hleaves⟩ := List.mem_filter.mp he
  obtain ⟨hmem, rfl, rfl⟩ := mem_endsAt.mp hat
  rw [channelOf_eq options hmem hleaves, spreadEnd, hn]
  exact congrArg Prod.snd (if_neg hcount.not_gt)

end Spread

end Choice

/-! ## Fans -/

/-- An end comes before another one along a side: by what it leads to, then by position. -/
def SideEnd.Before (a b : SideEnd ℚ) : Prop := a.far < b.far ∨ a.far = b.far ∧ a.index < b.index

/-- Ends are sorted by the coordinate of what they lead to and then by the position of the
connection. -/
theorem endLe_iff {a b : SideEnd ℚ} :
    endLe a b = true ↔ a.far < b.far ∨ a.far = b.far ∧ a.index ≤ b.index := by
  have hle : ∀ x y : ℚ, Scalar.totalLe x y = decide (x ≤ y) := fun _ _ => rfl
  rw [endLe, hle, hle]
  grind

/-- The ends at a side of a node, in their order along it. -/
structure IsFan (nodes : List (PlacedNode ℚ)) (links : List (FlowEdge ℚ))
    (ports : List (Option (EdgePorts ℚ))) (id : String) (port : Port) (fan : List (SideEnd ℚ)) :
    Prop where
  mem_iff : ∀ e, e ∈ fan ↔ Meets nodes links ports e ∧ e.node = id ∧ e.port = port
  /-- the order is strict, so no end is listed twice -/
  sorted : fan.Pairwise SideEnd.Before

/-- The ends at each side are a fan, whichever node and side these are. -/
theorem isFan_endsAt (options : LayoutOptions ℚ) (nodes : List (PlacedNode ℚ))
    (links : List (FlowEdge ℚ)) (id : String) (port : Port) :
    IsFan nodes links (assignPorts options nodes links) id port
      (endsAt (allEnds nodes links) id port) := by
  constructor
  case mem_iff =>
    intro e
    rw [mem_endsAt, mem_allEnds_iff options]
  case sorted =>
    have hsorted : (endsAt (allEnds nodes links) id port).Pairwise fun a b => endLe a b = true :=
      List.pairwise_mergeSort (fun a b c => by simp only [endLe_iff]; grind)
        (fun a b => by rw [Bool.or_eq_true, endLe_iff, endLe_iff]; grind) _
    refine (hsorted.and (pairwise_index_endsAt nodes links id port)).imp fun ⟨hle, hne⟩ => ?_
    exact (endLe_iff.mp hle).imp_right fun h => ⟨h.1, lt_of_le_of_ne h.2 hne⟩

/-- The part of a side that is kept free at each of its ends. -/
def sidePad (options : LayoutOptions ℚ) (side : ℚ) : ℚ :=
  Scalar.clamp (side * options.portPadRatio) options.portPadMin options.portPadMax

/-- Neighbouring ends are set apart by an equal share of the room at the side, or by twice the
spacing if that is less. -/
theorem endStep_eq (options : LayoutOptions ℚ) (side : ℚ) (count : Nat) :
    endStep options side count = min (max (side - sidePad options side * 2) 0 / (count - 1 : Nat))
      (options.edgeSpacing * 2) := by
  rw [endStep, Scalar.min_eq, Scalar.max_eq, Scalar.lit_two, Scalar.lit_zero]
  rfl

/-- How connections lie along a side that they share. -/
structure FannedOut (options : LayoutOptions ℚ) (ports : List (Option (EdgePorts ℚ))) (side : ℚ)
    (fan : List (SideEnd ℚ)) : Prop where
  /-- the offsets rise evenly, and strictly so where there is room -/
  even : ∃ step, 0 ≤ step ∧ (fan.map (offsetOf ports)).IsChain (fun x y => y - x = step) ∧
    (2 * sidePad options side < side → 0 < options.edgeSpacing → 0 < step)
  sum : (fan.map (offsetOf ports)).sum = 0
  /-- no offset leads into the parts kept free; if nothing is left between them, all are zero -/
  within : ∀ e ∈ fan, |offsetOf ports e| ≤ max (side / 2 - sidePad options side) 0
  /-- the bends of the connections that leave are the spacing apart -/
  channels : ((fan.filter SideEnd.leaves).map (channelOf ports)).IsChain fun x y =>
    y - x = options.edgeSpacing
  channelSum : ((fan.filter SideEnd.leaves).map (channelOf ports)).sum = 0

/-- Two or more ends at a side are spread as a fan. Their offsets are the evenly spaced numbers for
as many ends, which are rising and balanced. -/
theorem fannedOut_endsAt {options : LayoutOptions ℚ} {nodes : List (PlacedNode ℚ)}
    {links : List (FlowEdge ℚ)} {id : String} {n : PlacedNode ℚ} {port : Port}
    (hspacing : 0 ≤ options.edgeSpacing) (hn : placedNode? nodes id = some n)
    (hcount : 2 ≤ (endsAt (allEnds nodes links) id port).length) :
    FannedOut options (assignPorts options nodes links) (sideExtent n port)
      (endsAt (allEnds nodes links) id port) := by
  have hoffsets := map_offsetOf_endsAt options hn hcount
  have hchannels := map_channelOf_endsAt options hn hcount
  generalize hfan : endsAt (allEnds nodes links) id port = fan at hoffsets hchannels hcount ⊢
  generalize sideExtent n port = side at hoffsets ⊢
  have hpos : (0 : ℚ) < (fan.length - 1 : Nat) := by exact_mod_cast (by omega : 0 < fan.length - 1)
  have hstep := endStep_eq options side fan.length
  have hnonneg : 0 ≤ endStep options side fan.length := by
    rw [hstep]
    exact le_min (div_nonneg (le_max_right _ _) hpos.le) (by linarith)
  constructor
  case even =>
    refine ⟨_, hnonneg, hoffsets ▸ isChain_fromMiddle _ _, fun hroom hgap => ?_⟩
    rw [hstep]
    exact lt_min (div_pos (lt_max_of_lt_left (by linarith)) hpos) (by linarith)
  case sum => exact hoffsets ▸ sum_fromMiddle _ _
  case within =>
    intro e he
    have hmem := hoffsets ▸ List.mem_map_of_mem he
    obtain ⟨i, hi, heq⟩ := List.mem_map.mp hmem
    have hle := abs_fromMiddle_le (List.mem_range.mp hi) hnonneg
    rw [heq] at hle
    have hroom : (fan.length - 1 : Nat) * endStep options side fan.length ≤
        max (side - sidePad options side * 2) 0 := by
      rw [hstep, mul_comm, ← le_div_iff₀ hpos]
      exact min_le_left _ _
    have hhalf : max (side - sidePad options side * 2) 0 =
        2 * max (side / 2 - sidePad options side) 0 := by
      rw [mul_max_of_nonneg _ _ zero_le_two, mul_zero]
      ring_nf
    linarith
  case channels => exact hchannels ▸ isChain_fromMiddle _ _
  case channelSum => exact hchannels ▸ sum_fromMiddle _ _

/-- A connection of two different nodes has one end that leaves and one that enters. -/
theorem existsUnique_end (options : LayoutOptions ℚ) {nodes : List (PlacedNode ℚ)}
    {links : List (FlowEdge ℚ)} {i : Nat} {link : FlowEdge ℚ} {source target : PlacedNode ℚ}
    (hlink : links[i]? = some link) (hsource : placedNode? nodes link.edge.source = some source)
    (htarget : placedNode? nodes link.edge.target = some target)
    (hends : link.edge.source ≠ link.edge.target) (leaves : Bool) :
    ∃! e, Meets nodes links (assignPorts options nodes links) e ∧ e.index = i ∧
      e.leaves = leaves := by
  obtain ⟨p, hp⟩ := assignPorts_getElem? options hlink hsource htarget
    (by simpa [Edge.isLoop] using hends)
  obtain ⟨c, hc, -⟩ := (assignPorts_getElem?_iff options).mp hp
  obtain ⟨hindex, hlink', -⟩ := chosenLinks_getElem? hc
  obtain rfl := Option.some.inj (hlink.symm.trans hlink')
  have hmem : ∀ e, Meets nodes links (assignPorts options nodes links) e ∧ e.index = i ↔
      e ∈ sideEnds nodes c := by
    intro e
    rw [← mem_allEnds_iff options, mem_allEnds]
    constructor
    · rintro ⟨⟨c', hc', he⟩, rfl⟩
      rw [hc] at hc'
      cases hc'
      exact he
    · intro he
      obtain rfl : e.index = i := (index_of_mem_sideEnds he).trans hindex
      exact ⟨⟨c, hc, he⟩, rfl⟩
  simp only [← and_assoc, hmem]
  simp only [sideEnds, hsource, htarget, List.mem_cons, List.not_mem_nil, or_false]
  cases leaves
  case false =>
    refine ⟨_, ⟨.inr rfl, rfl⟩, ?_⟩
    rintro e ⟨rfl | rfl, hleaves⟩
    · cases hleaves
    · rfl
  case true =>
    refine ⟨_, ⟨.inl rfl, rfl⟩, ?_⟩
    rintro e ⟨rfl | rfl, hleaves⟩
    · rfl
    · cases hleaves

/-- **Connections that share a side fan out along it.** Once the sides are chosen, every connection
of two different nodes has one end at the side it leaves and one at the side it enters. The ends at
a side, in the order of what they lead to and then of the connections, get offsets that rise evenly,
strictly so where the side leaves room for it, that balance each other and that stay out of the
parts kept free at both ends of the side. The bends of those that leave are the spacing apart and
balance each other. -/
theorem assignPorts_fannedOut {options : LayoutOptions ℚ} (hspacing : 0 ≤ options.edgeSpacing)
    (nodes : List (PlacedNode ℚ)) (links : List (FlowEdge ℚ)) :
    let ports := assignPorts options nodes links
    ports.map (Option.map EdgePorts.sides) =
        (chosenLinks nodes links).map (Option.map fun c => c.ports.sides) ∧
      (∀ i link source target, links[i]? = some link →
        placedNode? nodes link.edge.source = some source →
        placedNode? nodes link.edge.target = some target → link.edge.source ≠ link.edge.target →
        ∀ leaves, ∃! e, Meets nodes links ports e ∧ e.index = i ∧ e.leaves = leaves) ∧
      ∀ id n port, placedNode? nodes id = some n →
        ∃ fan, IsFan nodes links ports id port fan ∧
          (2 ≤ fan.length → FannedOut options ports (sideExtent n port) fan) :=
  ⟨sides_assignPorts options nodes links,
    fun _ _ _ _ hlink hsource htarget hends => existsUnique_end options hlink hsource htarget hends,
    fun id _ port hn => ⟨endsAt (allEnds nodes links) id port,
      isFan_endsAt options nodes links id port, fannedOut_endsAt hspacing hn⟩⟩

/-- Three plain nodes of the same size. -/
def junctionNodes : List (PlacedNode ℚ) :=
  [("a", 100, 0), ("b", 0, 100), ("c", 200, 100)].map fun (id, x, y) =>
    { id := id, box := ⟨x, y, 60, 30⟩, label := ⟨[], 0, 0⟩, shape := .rectangle }

/-- Two connections that leave the first node downwards, and one that comes back from below. -/
def junctionLinks : List (FlowEdge ℚ) :=
  [⟨{ source := "a", target := "b" }, [], .topDown⟩,
    ⟨{ source := "c", target := "a" }, [⟨150, 80⟩], .topDown⟩,
    ⟨{ source := "a", target := "c" }, [], .topDown⟩]

/-- The one that comes back enters between the two that leave. -/
theorem assignPorts_fannedOut_junction :
    (0 : ℚ) ≤ (LayoutOptions.standard : LayoutOptions ℚ).edgeSpacing ∧
    assignPorts .standard junctionNodes junctionLinks =
      [some ⟨.south, .north, -18, 0, -5⟩, some ⟨.north, .south, 10, 0, 0⟩,
        some ⟨.south, .north, 18, -10, 5⟩] ∧
    ∃ fan, IsFan junctionNodes junctionLinks (assignPorts .standard junctionNodes junctionLinks) "a"
        .south fan ∧ 2 ≤ fan.length ∧
      FannedOut .standard (assignPorts .standard junctionNodes junctionLinks) 60 fan := by
  have hspacing : (0 : ℚ) ≤ (LayoutOptions.standard : LayoutOptions ℚ).edgeSpacing := by
    norm_num [LayoutOptions.standard]
  have hports : assignPorts .standard junctionNodes junctionLinks =
      [some ⟨.south, .north, -18, 0, -5⟩, some ⟨.north, .south, 10, 0, 0⟩,
        some ⟨.south, .north, 18, -10, 5⟩] := by cbv
  obtain ⟨-, -, hfans⟩ := assignPorts_fannedOut hspacing junctionNodes junctionLinks
  obtain ⟨fan, hfan, hspread⟩ := hfans "a" _ .south rfl
  have hlength : 2 ≤ fan.length := by
    have hout := (hfan.mem_iff _).mpr ⟨.leaving (i := 0) rfl (by rw [hports]; rfl) rfl, rfl, rfl⟩
    have hback := (hfan.mem_iff _).mpr ⟨.entering (i := 1) rfl (by rw [hports]; rfl) rfl, rfl, rfl⟩
    rcases fan with _ | ⟨e, _ | ⟨e', fan⟩⟩
    · cases hout
    · cases (List.mem_singleton.mp hout).trans (List.mem_singleton.mp hback).symm
    · exact Nat.le_add_left 2 _
  exact ⟨hspacing, hports, fan, hfan, hlength, hspread hlength⟩

end Flowchart
