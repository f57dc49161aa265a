import Flowchart.Proofs.LayerGraph.Editing
import Flowchart.Proofs.LayerGraph.ProperLayering
import Flowchart.Proofs.Placement.WorkingGraph

/-!
# The points that connections pass

A connection over several ranks comes back with the centres of its passages. Cycle removal may have
turned its arc, and then the passages were put in from its target to its source; the points are
listed the other way in this case. So they always run from the node that the caller's connection
leaves to the one that it enters, `waypoints_along_link`.

The points are kept under the origin of the arc, which is the index of the connection. Every segment
of the chain has the same origin, but only the arc that was split has a chain.
-/

namespace Flowchart

variable {α : Type}

namespace LayerGraph

variable {g h : LayerGraph α} {c : PassageChain} {arc : Arc α}

theorem Keeps.carried_eq (hk : Keeps Vertex.passage g h) (v : Nat) : h.carried v = g.carried v :=
  carried_congr (hk.getElem? v)

variable [Scalar α]

/-- The chain of an arc is found under it. -/
theorem Spread.find?_chain {done : List Nat} (hs : Spread done g h) (hnodup : done.Nodup)
    (hc : c ∈ h.chains) : h.chains.find? (·.arc == c.arc) = some c := by
  obtain ⟨c', hc'⟩ := Option.isSome_iff_exists.mp
    (List.find?_isSome.mpr ⟨c, hc, beq_iff_eq.mpr rfl⟩ :
      (h.chains.find? (·.arc == c.arc)).isSome)
  have harc := List.find?_some (p := fun x : PassageChain => x.arc == c.arc) hc'
  rw [hc']
  rw [← hs.chain_arcs] at hnodup
  exact congrArg some (List.inj_on_of_nodup_map hnodup (List.mem_of_find?_eq_some hc') hc
    (beq_iff_eq.mp harc))

/-- The rank that lies some steps from one rank toward another one. -/
def stepsToward (s t : Int) (steps : Nat) : Int := if s < t then s + steps else s - steps

/-- Read along the caller's connection, the points of a chain lie one step after the other. -/
theorem Carries.chainPoints_spec (hc : Carries g h c arc)
    (hlong : 1 < g.rank arc.target - g.rank arc.source) {h' : LayerGraph α}
    (hrank : ∀ v, h'.rank v = h.rank v) :
    ((h'.chainPoints c).length : Int) =
      (g.rank arc.restored.source - g.rank arc.restored.target).natAbs - 1 ∧
    ∀ (k : Nat) x, (h'.chainPoints c)[k]? = some x → ∃ v ∈ c.passages, h'.position v = x ∧
      h'.rank v = stepsToward (g.rank arc.restored.source) (g.rank arc.restored.target) (k + 1) := by
  have hlength := hc.length
  rw [between] at hlength
  cases hrev : arc.reversed with
  | false =>
    have hpoints : h'.chainPoints c = c.passages.map h'.position := by
      rw [chainPoints, hc.reversed, hrev]
      rfl
    rw [Arc.restored_of_not_reversed hrev, hpoints]
    refine ⟨by rw [List.length_map]; omega, fun k x hx => ?_⟩
    rw [List.getElem?_map] at hx
    obtain ⟨v, hv, rfl⟩ := Option.map_eq_some_iff.mp hx
    refine ⟨v, List.mem_of_getElem? hv, rfl, ?_⟩
    rw [hrank, hc.rank_passage hv, stepsToward, if_pos (by omega)]
    rfl
  | true =>
    -- the passages were put in from the target to the source of the caller's connection
    have hpoints : h'.chainPoints c = (c.passages.map h'.position).reverse := by
      rw [chainPoints, hc.reversed, hrev]
      rfl
    have hends : arc.restored.source = arc.target ∧ arc.restored.target = arc.source := by
      rw [Arc.restored_of_reversed hrev]
      exact ⟨rfl, rfl⟩
    rw [hends.1, hends.2, hpoints]
    refine ⟨by rw [List.length_reverse, List.length_map]; omega, fun k x hx => ?_⟩
    obtain ⟨hk, -⟩ := List.getElem?_eq_some_iff.mp hx
    rw [List.length_reverse] at hk
    rw [List.getElem?_reverse hk, List.getElem?_map] at hx
    obtain ⟨v, hv, rfl⟩ := Option.map_eq_some_iff.mp hx
    rw [List.length_map] at hk hv
    refine ⟨v, List.mem_of_getElem? hv, rfl, ?_⟩
    rw [hrank, hc.rank_passage hv, stepsToward, if_neg (by omega)]
    omega

/-- A passage is known by its arc and its rank. -/
theorem Carries.passage_unique (hc : Carries g h c arc) {v w : Nat} (hv : v ∈ c.passages)
    (hw : w ∈ c.passages) (hrank : h.rank w = h.rank v) : w = v := by
  obtain ⟨i, hi⟩ := List.getElem?_of_mem hv
  obtain ⟨j, hj⟩ := List.getElem?_of_mem hw
  rw [hc.rank_passage hi, hc.rank_passage hj] at hrank
  obtain rfl : j = i := by omega
  exact Option.some.inj (hj.symm.trans hi)

/-- The points of an arc in a graph with its passages, read along the caller's connection: there is
one for every rank between the ends, and each is the centre of the passage in its rank. Turning the
arc back changes only the sign of the difference of the ranks. -/
theorem Spread.waypoints_spec (hs : Spread g.longArcs g h) (hr : g.Respects) (hsteep : g.Steep)
    (hplain : ∀ (v : Nat) x, g.nodes[v]? = some x → x.passage = none) {h' : LayerGraph α}
    (hchains : h'.chains = h.chains) (hrank : ∀ v, h'.rank v = h.rank v)
    (hcarried : ∀ v, h'.carried v = h.carried v) {a : Nat} (harc : g.arcs[a]? = some arc)
    (hact : arc.active = true) :
    1 ≤ (g.rank arc.restored.source - g.rank arc.restored.target).natAbs ∧
    (h'.waypoints a).length =
      (g.rank arc.restored.source - g.rank arc.restored.target).natAbs - 1 ∧
    ∀ (k : Nat) x, (h'.waypoints a)[k]? = some x → ∃ v, h'.position v = x ∧
      ∀ w, h'.carried w = some a ∧ h'.rank w = stepsToward (g.rank arc.restored.source)
        (g.rank arc.restored.target) (k + 1) ↔ w = v := by
  have hle := hr a arc harc hact
  have hlength := hsteep a arc harc hact
  have hspan : (g.rank arc.restored.source - g.rank arc.restored.target).natAbs =
      g.rank arc.target - g.rank arc.source := by
    cases hrev : arc.reversed with
    | false =>
      rw [Arc.restored_of_not_reversed hrev]
      omega
    | true =>
      rw [Arc.restored_of_reversed hrev]
      have hturned : arc.turned.source = arc.target ∧ arc.turned.target = arc.source := ⟨rfl, rfl⟩
      rw [hturned.1, hturned.2]
      omega
  by_cases hlong : a ∈ g.longArcs
  · obtain ⟨c, hc, rfl, hcar⟩ := hs.exists_chain hlong harc
    have hdiff := hs.long_of_carries hc hcar
    have hpoints : h'.waypoints c.arc = h'.chainPoints c := by
      rw [waypoints, hchains, hs.find?_chain (longArcs_nodup g) hc]
    obtain ⟨hcount, hpoint⟩ := hcar.chainPoints_spec hdiff hrank
    rw [hpoints]
    refine ⟨by omega, by omega, fun k x hx => ?_⟩
    obtain ⟨v, hv, hpos, hvrank⟩ := hpoint k x hx
    have hmem := hs.mem_passages_iff (longArcs_nodup g) hplain hc
    refine ⟨v, hpos, fun w => ⟨fun ⟨hw, hwrank⟩ => ?_, ?_⟩⟩
    · rw [hcarried, ← hmem] at hw
      rw [← hvrank, hrank, hrank] at hwrank
      exact hcar.passage_unique hv hw hwrank
    · rintro rfl
      exact ⟨(hcarried w).trans ((hmem w).mp hv), hvrank⟩
  · have hnone : h'.waypoints a = [] := by
      have hfind : h'.chains.find? (·.arc == a) = none := List.find?_eq_none.mpr fun c hc hca =>
        hlong (hs.chain_arcs ▸ List.mem_map.mpr ⟨c, hchains ▸ hc, beq_iff_eq.mp hca⟩)
      rw [waypoints, hfind]
    have hshort : ¬ 1 < g.rank arc.target - g.rank arc.source := fun hdiff =>
      hlong (mem_longArcs.mpr ⟨arc, harc, hact, hdiff⟩)
    rw [hnone]
    refine ⟨by omega, ?_, fun k x hx => ?_⟩
    · rw [List.length_nil]
      omega
    · cases hx

end LayerGraph

namespace Placement

open LayerGraph

variable [Scalar α]

/-! ## Reading points and places -/

theorem lookup_map {γ β : Type} {l : List γ} {key : γ → Nat} {val : γ → β} {k : Nat}
    {test : γ → Bool} (h : ∀ x ∈ l, (key x == k) = test x) :
    (l.map fun x => (key x, val x)).lookup k = (l.find? test).map val := by
  induction l with
  | nil => rfl
  | cons x l ih =>
    rw [List.map_cons, List.lookup_cons, List.find?_cons, Bool.beq_comm,
      h x List.mem_cons_self, ih fun y hy => h y (List.mem_cons_of_mem x hy)]
    cases test x <;> rfl

omit [Scalar α] in
/-- The place that an id finds is that of the vertex it finds. -/
theorem find?_namedPlaces {g : LayerGraph α} (hg : g.Indexed) {id : String} {v : Nat}
    (h : g.find? id = some v) :
    ∃ place, (namedPlaces g).find? (·.id == id) = some place ∧ place.rank = (g.rank v).toNat := by
  have hnamed := (hg.find?_iff id v).mp h
  have hv : v < g.nodes.size := hnamed.lt
  have htest : ∀ (j : Nat) (hj : j < g.nodes.size),
      (!g.nodes[j].isPassage && g.nodes[j].id == id) = true ↔ g.Named j id := by
    intro j hj
    simp [named_iff, hj, Vertex.isPassage]
  have hfound : g.nodes.toList.find? (fun n => !n.isPassage && n.id == id) = some g.nodes[v] :=
    List.find?_eq_some_iff_getElem.mpr ⟨(htest v hv).mpr hnamed, v, hv, rfl, fun j hj => by
      rw [Array.getElem_toList, Bool.not_eq_true', Bool.eq_false_iff, ne_eq,
        htest j (Nat.lt_trans hj hv)]
      exact fun hj' => Nat.ne_of_lt hj (hg.unique hj' hnamed)⟩
  refine ⟨⟨g.nodes[v].id, ⟨g.nodes[v].x, g.nodes[v].y⟩, g.nodes[v].rank.toNat, g.nodes[v].order⟩,
    ?_, ?_⟩
  · rw [namedPlaces, List.find?_map, List.find?_filter]
    simp only [Function.comp_def, Bool.decide_and, Bool.decide_eq_true]
    rw [hfound]
    rfl
  · rw [LayerGraph.rank, Array.getElem?_eq_getElem hv]
    rfl

/-! ## The run -/

section Run

variable (options : LayoutOptions α) (d : Direction) (nodes : List (SizedNode α))
  (links : List NodeLink)

/-- The ranked graph. -/
def rankedGraph : LayerGraph α :=
  (workingGraph nodes links).ranked options.rankStrategy options.simplexLimit

/-- The graph in which all vertices have their centres, before arcs are turned back. -/
def centredGraph : LayerGraph α :=
  ((rankedGraph options nodes links).splitLong.1.orderRanks options.orderPasses).1.assignCoordinates
    (spacing options) d

theorem waypoints_compute : (compute options d nodes links).waypoints =
    passedPoints (centredGraph options d nodes links) := rfl

/-- The places are those of the graph before its arcs were turned back, since turning them moves no
vertex. -/
theorem places_compute : (compute options d nodes links).nodes =
    namedPlaces (centredGraph options d nodes links) := by
  have hsame := sameVertices_foldl_reverse (centredGraph options d nodes links)
    (centredGraph options d nodes links).reversedArcs
  have hplaces : ∀ {g g' : LayerGraph α}, g.nodes = g'.nodes → namedPlaces g = namedPlaces g' :=
    fun h => by rw [namedPlaces, namedPlaces, h]
  exact (nodes_compute options d nodes links).trans (hplaces hsame.nodes)

/-- Ordering and coordinates leave alone what does not depend on them. -/
theorem keeps_centredGraph {β : Type} {f : Vertex α → β}
    (ho : ∀ (x : Vertex α) (o : Nat), f { x with order := o } = f x)
    (hc : ∀ (x : Vertex α) (a b : α), f { x with x := a, y := b } = f x) :
    Keeps f (rankedGraph options nodes links).splitLong.1 (centredGraph options d nodes links) :=
  (keeps_orderRanks ho _ _).trans (keeps_assignCoordinates hc _ _ d)

/-- What is known of the ranked graph: ranks are not negative, every arc leads at least one rank
upwards, and each arc is one of a connection or turned. -/
theorem rankedGraph_spec : (rankedGraph options nodes links).Consistent ∧
    (rankedGraph options nodes links).chains = [] ∧
    (∀ (v : Nat) x, (rankedGraph options nodes links).nodes[v]? = some x → x.passage = none) ∧
    (rankedGraph options nodes links).Respects ∧ (rankedGraph options nodes links).Steep ∧
    (rankedGraph options nodes links).StartsAtZero ∧
    (∀ a : Nat, (rankedGraph options nodes links).arcs[a]?.map Arc.restored =
      (workingGraph nodes links).arcs[a]?) ∧
    (rankedGraph options nodes links).index = (workingGraph nodes links).index ∧
    (rankedGraph options nodes links).nodes.map Vertex.naming =
      (workingGraph nodes links).nodes.map Vertex.naming := by
  have hfresh := (workingGraph_built nodes links).fresh
  obtain ⟨hcons, hchains, hplain, harcs⟩ := hfresh.ranked options.rankStrategy options.simplexLimit
  have hacyclic : (workingGraph nodes links).makeAcyclic.1.Acyclic :=
    hfresh.consistent.acyclic_foldl_backArcs hfresh.loopless
  have hcons' : (workingGraph nodes links).makeAcyclic.1.Consistent :=
    hfresh.consistent.foldl_reverse _
  have hsame : SameVertices (workingGraph nodes links) (workingGraph nodes links).makeAcyclic.1 :=
    sameVertices_foldl_reverse (workingGraph nodes links) _
  have hkeeps := keeps_assignRanks (f := Vertex.naming) (fun _ _ => rfl)
    (workingGraph nodes links).makeAcyclic.1 options.rankStrategy options.simplexLimit
  refine ⟨hcons, hchains, hplain, assignRanks_respects hcons' hacyclic _ _, ?_,
    assignRanks_startsAtZero hcons' hacyclic hfresh.steep_makeAcyclic _ _, fun a => ?_,
    hkeeps.index.trans hsame.index, ?_⟩
  · unfold Steep
    rw [rankedGraph, LayerGraph.ranked, hkeeps.arcs]
    exact hfresh.steep_makeAcyclic
  · rw [← harcs, Array.getElem?_map]
    rfl
  · exact hkeeps.nodes.trans (congrArg _ hsame.nodes)

/-- The phases neither index a vertex nor rename one that is indexed. -/
theorem indexed_centredGraph : (centredGraph options d nodes links).Indexed := by
  have hsplit := (((workingGraph_built nodes links).edited.tail (.makeAcyclic _)).tail
    (.assignRanks _ options.rankStrategy options.simplexLimit)).tail (.splitLong _)
  exact ((Edited.sound hsplit).keeps (keeps_centredGraph options d nodes links (fun _ _ => rfl)
    (fun _ _ _ => rfl))).indexed

/-- Vertices are found by the same ids all along, and keep the ranks they were given. -/
theorem find?_centredGraph {id : String} {v : Nat}
    (hv : (workingGraph nodes links).find? id = some v) :
    (centredGraph options d nodes links).find? id = some v ∧
      (centredGraph options d nodes links).rank v = (rankedGraph options nodes links).rank v ∧
      0 ≤ (rankedGraph options nodes links).rank v := by
  obtain ⟨hcons, hchains, -, -, -, hzero, -, hindex, hnaming⟩ :=
    rankedGraph_spec options nodes links
  obtain ⟨hspread, -⟩ := splitLong_spread hcons hchains
  have hsize : (rankedGraph options nodes links).size = (workingGraph nodes links).size := by
    simpa [size] using congrArg Array.size hnaming
  have hkeeps := keeps_centredGraph options d nodes links (f := Vertex.naming) (fun _ _ => rfl)
    (fun _ _ _ => rfl)
  have hlt := hsize ▸ (workingGraph_built nodes links).indexed.lt_of_find? hv
  refine ⟨?_, ?_, hzero.nonneg v hlt⟩
  · rw [LayerGraph.find?_congr (hkeeps.index.trans (hspread.index.trans hindex))]
    exact hv
  · rw [(keeps_centredGraph options d nodes links (f := Vertex.rank) (fun _ _ => rfl)
      (fun _ _ _ => rfl)).rank_eq, hspread.rank_eq hlt]

/-- The place of a node shows the rank that its vertex was given. -/
theorem find?_compute {id : String} {v : Nat} (hv : (workingGraph nodes links).find? id = some v) :
    ∃ place, (compute options d nodes links).find? id = some place ∧
      (place.rank : Int) = (rankedGraph options nodes links).rank v := by
  obtain ⟨hfound, hrank, hnonneg⟩ := find?_centredGraph options d nodes links hv
  obtain ⟨place, hplace, hplacerank⟩ :=
    find?_namedPlaces (indexed_centredGraph options d nodes links) hfound
  refine ⟨place, ?_, ?_⟩
  · rw [find?, places_compute]
    exact hplace
  · rw [hplacerank, hrank, Int.toNat_of_nonneg hnonneg]

/-- The points that are kept for a connection are those of its arc. -/
theorem waypointsOf_origin (hindex : (links.map NodeLink.index).Nodup) {a : Nat} {arc : Arc α}
    (harc : (workingGraph nodes links).arcs[a]? = some arc) :
    (compute options d nodes links).waypointsOf arc.origin =
      (centredGraph options d nodes links).waypoints a := by
  obtain ⟨hcons, hchains, -, -, -, -, hrestored, -, -⟩ := rankedGraph_spec options nodes links
  obtain ⟨hspread, -⟩ := splitLong_spread hcons hchains
  have hkeeps := keeps_centredGraph options d nodes links (f := Vertex.rank) (fun _ _ => rfl)
    (fun _ _ _ => rfl)
  have hkey : ∀ c ∈ (centredGraph options d nodes links).chains,
      ((((centredGraph options d nodes links).arcs[c.arc]?.map Arc.origin).getD 0 == arc.origin) =
        (c.arc == a)) := by
    intro c hc
    obtain ⟨arc', hcar⟩ := hspread.carries c (hkeeps.chains ▸ hc)
    have hgiven := hrestored c.arc
    rw [hcar.carried, Option.map_some] at hgiven
    rw [hkeeps.arcs, hspread.old_arcs c.arc (Array.getElem?_eq_some_iff.mp hcar.carried).1,
      hcar.carried]
    have horigin : arc'.restored.origin = arc'.origin := arc'.origin_restored
    rw [Option.map_some, Option.map_some, Option.getD_some, Bool.eq_iff_iff, beq_iff_eq, beq_iff_eq,
      ← horigin]
    constructor
    · exact fun h => origin_inj hindex hgiven.symm harc h
    · rintro rfl
      exact congrArg Arc.origin (Option.some.inj (hgiven.trans harc))
  rw [waypointsOf, waypoints_compute, passedPoints, lookup_map hkey, LayerGraph.waypoints]
  cases hfind : (centredGraph options d nodes links).chains.find? (·.arc == a) with
  | none => rfl
  | some c =>
    have hca : (c.arc == a) = true := List.find?_some (p := fun x : PassageChain => x.arc == a) hfind
    obtain rfl := beq_iff_eq.mp hca
    rw [Option.map_some, Option.getD_some, LayerGraph.waypoints, hfind]

/-- **Points run along the caller's connection.** The ends of a connection between different nodes
lie in different ranks, the connection has one point for each rank between, and the point with index
`k` is the centre of the one passage of its arc that lies `k + 1` ranks from its source toward its
target, whether or not cycle removal turned the arc. -/
theorem waypoints_along_link (hindex : (links.map NodeLink.index).Nodup) {e : NodeLink}
    (he : e ∈ links) (hne : e.source ≠ e.target) (hs : ∃ n ∈ nodes, n.id = e.source)
    (ht : ∃ n ∈ nodes, n.id = e.target) : ∃ (s t : NodePlace α) (a : Nat) (arc : Arc α),
    (compute options d nodes links).find? e.source = some s ∧
    (compute options d nodes links).find? e.target = some t ∧
    1 ≤ ((s.rank : Int) - t.rank).natAbs ∧
    ((compute options d nodes links).waypointsOf e.index).length =
      ((s.rank : Int) - t.rank).natAbs - 1 ∧
    (workingGraph nodes links).arcs[a]? = some arc ∧ arc.origin = e.index ∧
    (workingGraph nodes links).find? e.source = some arc.source ∧
    (workingGraph nodes links).find? e.target = some arc.target ∧
    ∀ (k : Nat) x, ((compute options d nodes links).waypointsOf e.index)[k]? = some x →
      ∃ v, (centredGraph options d nodes links).position v = x ∧
        ∀ w, (centredGraph options d nodes links).carried w = some a ∧
          (centredGraph options d nodes links).rank w = stepsToward s.rank t.rank (k + 1) ↔
            w = v := by
  obtain ⟨hcons, hchains, hplain, hrespects, hsteep, -, hrestored, -, -⟩ :=
    rankedGraph_spec options nodes links
  obtain ⟨hspread, -⟩ := splitLong_spread hcons hchains
  obtain ⟨a, arc, harc, horigin, hsource, htarget⟩ := exists_arc he hne hs ht
  obtain ⟨arc', harc', rfl⟩ := Option.map_eq_some_iff.mp ((hrestored a).trans harc)
  obtain ⟨s, hs, hsrank⟩ := find?_compute options d nodes links hsource
  obtain ⟨t, ht, htrank⟩ := find?_compute options d nodes links htarget
  have hact : arc'.active = true := by
    simpa using ((workingGraph_built nodes links).fresh.arcs a _ harc).1
  have hrank := keeps_centredGraph options d nodes links (f := Vertex.rank) (fun _ _ => rfl)
    (fun _ _ _ => rfl)
  have hpassage := keeps_centredGraph options d nodes links (f := Vertex.passage) (fun _ _ => rfl)
    (fun _ _ _ => rfl)
  have hspec := hspread.waypoints_spec hrespects hsteep hplain hrank.chains hrank.rank_eq
    hpassage.carried_eq harc' hact
  rw [← waypointsOf_origin options d nodes links hindex harc, horigin] at hspec
  rw [← hsrank, ← htrank] at hspec
  exact ⟨s, t, a, _, hs, ht, hspec.1, hspec.2.1, harc, horigin, hsource, htarget, hspec.2.2⟩

end Run

/-- Four nodes in a ring. -/
def ringNodes : List (SizedNode Float32) :=
  ["a", "b", "c", "d"].map fun id => ⟨id, 1.0, 1.0, []⟩

/-- The connections of the ring. The last one is turned and passes two ranks. -/
def ringLinks : List NodeLink := [⟨0, "a", "b"⟩, ⟨1, "b", "c"⟩, ⟨2, "c", "d"⟩, ⟨3, "d", "a"⟩]

/-- The two points of the last connection of the ring run from rank three to rank zero. -/
theorem waypoints_along_link_ring : ∃ (s t : NodePlace Float32) (a : Nat),
    (compute .standard .topDown ringNodes ringLinks).find? "d" = some s ∧ s.rank = 3 ∧
    (compute .standard .topDown ringNodes ringLinks).find? "a" = some t ∧ t.rank = 0 ∧
    ((compute .standard .topDown ringNodes ringLinks).waypointsOf 3).length = 2 ∧
    ∀ (k : Nat) x, ((compute .standard .topDown ringNodes ringLinks).waypointsOf 3)[k]? = some x →
      ∃ v, (centredGraph .standard .topDown ringNodes ringLinks).position v = x ∧
        ∀ w, (centredGraph .standard .topDown ringNodes ringLinks).carried w = some a ∧
          (centredGraph .standard .topDown ringNodes ringLinks).rank w = stepsToward 3 0 (k + 1) ↔
            w = v := by
  obtain ⟨s, t, a, -, hs, ht, -, hcount, -, -, -, -, hpoints⟩ :=
    waypoints_along_link .standard .topDown ringNodes ringLinks (by decide +kernel)
      (e := ⟨3, "d", "a"⟩) (by decide +kernel) (by decide +kernel) (by decide +kernel)
      (by decide +kernel)
  have hrank : ∀ {id : String} {v r : Nat} {place : NodePlace Float32},
      (workingGraph ringNodes ringLinks).find? id = some v →
      (rankedGraph .standard ringNodes ringLinks).rank v = r →
      (compute .standard .topDown ringNodes ringLinks).find? id = some place → place.rank = r := by
    intro id v r place hv hr hplace
    obtain ⟨place', hplace', hrank⟩ := find?_compute .standard .topDown ringNodes ringLinks hv
    obtain rfl := Option.some.inj (hplace'.symm.trans hplace)
    exact Int.ofNat.inj (hrank.trans hr)
  have hsrank : s.rank = 3 :=
    hrank (v := 3) (r := 3) (by decide +kernel) (by decide +kernel) hs
  have htrank : t.rank = 0 :=
    hrank (v := 0) (r := 0) (by decide +kernel) (by decide +kernel) ht
  rw [hsrank, htrank] at hcount hpoints
  exact ⟨s, t, a, hs, hsrank, ht, htrank, hcount, hpoints⟩

end Placement

end Flowchart
