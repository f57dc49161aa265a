import Flowchart.Proofs.Blocks.Laminar
import Flowchart.Proofs.Boxes.Pushing
import Flowchart.Proofs.Boxes.Stacking
import Flowchart.Proofs.Layout.Conservation
import Flowchart.Proofs.Placement.Waypoints

/-!
# Blocks with a direction of their own keep to themselves

A block without inner blocks that runs in another direction than the diagram is placed again, on its
own. Nothing outside of such blocks notices, `replaceDirected_redoes`: every other node and every
connection that is not inside one of them stays what it was. Inside, the members lie to each other
as if they had been placed alone, the middle of their joint box stays where it was, and the
connections among them follow.

The blocks are taken one after the other, each time on what the earlier ones left. They are
childless blocks of a diagram that was read, so no two of them have a member in common, and each one
finds its members and the connections among them as they were at first.
-/

namespace Flowchart

/-! ## One block -/

theorem Rect.center_translate (r : Rect ℚ) (d : Point ℚ) :
    (r.translate d).center = r.center.add d := by
  simp only [center, translate, Point.add, add_right_comm]

namespace FlowState

section Alone

variable {α : Type} [Scalar α]

/-- Both ends of the connection are members. -/
def Joins (members : List String) (e : Edge) : Prop := e.source ∈ members ∧ e.target ∈ members

/-- Some nodes and the connections among them placed on their own. The connections keep their
numbers, and blocks play no part. -/
def placedAlone (options : LayoutOptions α) (own : Direction) (sizes : List (SizedNode α))
    (members : List String) (links : List (FlowEdge α)) : Placement α :=
  Placement.compute options own
    ((sizes.filter fun n => members.contains n.id).map ({ · with cluster := [] }))
    (innerLinks members links)

end Alone

/-- Some nodes and the connections among them are where a placement puts them, all moved by the same
displacement, and the middle of the joint box is the old one. -/
structure MovedAs (p : Placement ℚ) (own : Direction) (members : List String) (s s' : FlowState ℚ)
    (d : Point ℚ) : Prop where
  center : ∃ before after, jointBox? s.nodes members = some before ∧
    jointBox? s'.nodes members = some after ∧ after.center = before.center
  nodes : ∀ id ∈ members, ∃ n place, placedNode? s'.nodes id = some n ∧ p.find? id = some place ∧
    n.center = place.center.add d
  links : ∀ (k : Nat) l, s.links[k]? = some l → Joins members l.edge → s'.links[k]? =
    some { l with waypoints := (p.waypointsOf k).map (·.add d), direction := own }

/-- The blocks of a kind were placed again, each in its direction, and nothing else was. -/
structure Redoes (options : LayoutOptions ℚ) (sizes : List (SizedNode ℚ))
    (kind : Block → Direction → Prop) (s s' : FlowState ℚ) : Prop where
  /-- nodes keep everything but their places: names, sizes, ranks and positions in their ranks -/
  still : s'.nodes.map PlacedNode.still = s.nodes.map PlacedNode.still
  /-- no connection becomes another one -/
  edges : s'.links.map FlowEdge.edge = s.links.map FlowEdge.edge
  /-- a node outside of the blocks stays where it is -/
  nodes_outside : ∀ id, (∀ b own, kind b own → id ∉ b.members) →
    placedNode? s'.nodes id = placedNode? s.nodes id
  /-- a connection that is not inside one of the blocks stays as it is -/
  links_outside : ∀ (k : Nat) l, s.links[k]? = some l →
    (∀ b own, kind b own → ¬ Joins b.members l.edge) → s'.links[k]? = some l
  /-- the inside of every block is moved as a whole from where it lies when placed alone -/
  inside : ∀ b own, kind b own → b.members ≠ [] →
    ∃ d, MovedAs (placedAlone options own sizes b.members s.links) own b.members s s' d

section Nodes

variable {α : Type} {nodes nodes' : List (PlacedNode α)} {members : List String} {id : String}

/-- A change that keeps the ids of nodes is seen where a node is looked up. -/
theorem placedNode?_map {f : PlacedNode α → PlacedNode α} (hf : ∀ n, (f n).id = n.id)
    (nodes : List (PlacedNode α)) (id : String) :
    placedNode? (nodes.map f) id = (placedNode? nodes id).map f := by
  rw [placedNode?, List.find?_map]
  simp only [Function.comp_def, hf]
  rfl

/-- A node whose id is among those of the list is found there. -/
theorem exists_placedNode? (h : id ∈ nodes.map PlacedNode.id) :
    ∃ n, placedNode? nodes id = some n := by
  obtain ⟨n, hn, rfl⟩ := List.mem_map.mp h
  exact Option.isSome_iff_exists.mp (List.find?_isSome.mpr ⟨n, hn, beq_self_eq_true n.id⟩)

variable [Scalar α]

/-- What keeps all but the places of nodes keeps their ids. -/
theorem ids_of_still (h : nodes'.map PlacedNode.still = nodes.map PlacedNode.still) :
    nodes'.map PlacedNode.id = nodes.map PlacedNode.id := by
  have hids := congrArg (List.map PlacedNode.id) h
  rwa [List.map_map, List.map_map] at hids

/-- The joint box of some nodes depends on these nodes only. -/
theorem jointBox?_congr
    (h : ∀ id ∈ members, placedNode? nodes' id = placedNode? nodes id) :
    jointBox? nodes' members = jointBox? nodes members := by
  rw [jointBox?, jointBox?, List.filterMap_congr fun id hid => by rw [h id hid]]

omit [Scalar α] in
/-- Connections are known by their position and their ends, whatever course they take. -/
theorem innerLinks_congr {links links' : List (FlowEdge α)}
    (h : links'.map FlowEdge.edge = links.map FlowEdge.edge) :
    innerLinks members links' = innerLinks members links := by
  have hedges : ∀ links : List (FlowEdge α), innerLinks members links =
      (links.map FlowEdge.edge).zipIdx.filterMap fun p =>
        if members.contains p.1.source && members.contains p.1.target then
          some ⟨p.2, p.1.source, p.1.target⟩
        else none := by
    intro links
    rw [List.zipIdx_map, List.filterMap_map]
    rfl
  rw [hedges, hedges, h]

omit [Scalar α] in
/-- A connection is among those inside a block exactly if both of its ends are. -/
theorem any_innerLinks {links : List (FlowEdge α)} {k : Nat} {l : FlowEdge α}
    (hl : links[k]? = some l) :
    (innerLinks members links).any (·.index == k) = true ↔ Joins members l.edge := by
  rw [List.any_eq_true]
  constructor
  · rintro ⟨e, he, hk⟩
    obtain ⟨⟨l', i⟩, hmem, hsome⟩ := List.mem_filterMap.mp he
    obtain ⟨hinner, hsome⟩ := Option.ite_none_right_eq_some.mp hsome
    obtain rfl := Option.some.inj hsome
    obtain rfl := beq_iff_eq.mp hk
    obtain rfl := Option.some.inj (hl.symm.trans (List.mk_mem_zipIdx_iff_getElem?.mp hmem))
    obtain ⟨hsource, htarget⟩ := Bool.and_eq_true_iff.mp hinner
    exact ⟨List.contains_iff_mem.mp hsource, List.contains_iff_mem.mp htarget⟩
  · rintro ⟨hsource, htarget⟩
    refine ⟨⟨k, l.edge.source, l.edge.target⟩, List.mem_filterMap.mpr
      ⟨(l, k), List.mk_mem_zipIdx_iff_getElem?.mpr hl, ?_⟩, beq_self_eq_true k⟩
    simp [hsource, htarget]

/-- Connections inside the block get the course and the direction they were placed with, moved along
with the block; all others stay as they are. -/
theorem getElem?_redirect (p : Placement α) (inner : List NodeLink) (own : Direction) (d : Point α)
    (links : List (FlowEdge α)) (k : Nat) : (redirect p inner own d links)[k]? =
      links[k]?.map fun l => if inner.any (·.index == k) then
        { l with waypoints := (p.waypointsOf k).map (·.add d), direction := own } else l := by
  rw [redirect, List.getElem?_map, List.getElem?_zipIdx]
  cases links[k]? <;> simp

/-- Members of the block are found at their new place, moved along with the block, and all other
nodes where they were. -/
theorem placedNode?_moveMembers (p : Placement α) (members : List String) (d : Point α)
    (nodes : List (PlacedNode α)) (id : String) : placedNode? (moveMembers p members d nodes) id =
      if id ∈ members then
        (placedNode? nodes id).map fun n => { n with box := (p.put n).box.translate d }
      else placedNode? nodes id := by
  rw [moveMembers, placedNode?_map (fun n => by split <;> rfl)]
  cases hn : placedNode? nodes id with
  | none => simp
  | some n =>
    obtain rfl := (BoxState.mem_of_placedNode? hn).2
    by_cases hid : n.id ∈ members <;> simp [hid]

theorem id_put (p : Placement α) (n : PlacedNode α) : (p.put n).id = n.id := by
  have hid := congrArg PlacedNode.id (face_put p n)
  exact hid

/-- A node that was given a size gets a place. -/
theorem exists_place (options : LayoutOptions α) (own : Direction) {sizes : List (SizedNode α)}
    (links : List (FlowEdge α)) (hid : id ∈ members) (hsized : id ∈ sizes.map SizedNode.id) :
    ∃ place, (placedAlone options own sizes members links).find? id = some place := by
  obtain ⟨n, hn, rfl⟩ := List.mem_map.mp hsized
  have hmem : ({ n with cluster := [] } : SizedNode α) ∈
      (sizes.filter fun n => members.contains n.id).map ({ · with cluster := [] }) :=
    List.mem_map_of_mem (List.mem_filter.mpr ⟨hn, List.contains_iff_mem.mpr hid⟩)
  obtain ⟨v, hv⟩ := Placement.find?_nodeGraph _ hmem
  rw [← LayerGraph.find?_congr (Placement.arcs_workingGraph _ (innerLinks members links)).1] at hv
  obtain ⟨place, hplace, -⟩ := Placement.find?_compute options own _ _ hv
  exact ⟨place, hplace⟩

end Nodes

variable {options : LayoutOptions ℚ} {sizes : List (SizedNode ℚ)} {own : Direction} {b : Block}
  {s s' s'' : FlowState ℚ} {p : Placement ℚ} {members : List String} {d : Point ℚ}

/-- A node that is put at a place has its middle there. -/
theorem center_put {n : PlacedNode ℚ} {place : NodePlace ℚ} (h : p.find? n.id = some place) :
    (p.put n).box.center = place.center := by
  rw [Placement.put, h]
  simp only [Rect.center, Placement.cornerAt, sub_add_cancel]

/-- What is moved is the joint box of the new places. -/
theorem jointBox?_moveMembers (p : Placement ℚ) (members : List String) (d : Point ℚ)
    (nodes : List (PlacedNode ℚ)) : jointBox? (moveMembers p members d nodes) members =
      (jointBox? (nodes.map p.put) members).map (·.translate d) := by
  rw [jointBox?, jointBox?, ← Rect.unionAll_translate, List.map_filterMap]
  refine congrArg _ (List.filterMap_congr fun id hid => ?_)
  rw [placedNode?_moveMembers, if_pos hid, placedNode?_map (id_put p)]
  cases placedNode? nodes id <;> rfl

/-- Some nodes that are known, of which there is at least one, have a joint box. -/
theorem exists_jointBox? {nodes : List (PlacedNode ℚ)} (hne : members ≠ [])
    (hknown : ∀ id ∈ members, id ∈ nodes.map PlacedNode.id) :
    ∃ box, jointBox? nodes members = some box := by
  obtain ⟨id, hid⟩ := List.exists_mem_of_ne_nil _ hne
  obtain ⟨n, hn⟩ := exists_placedNode? (hknown id hid)
  have hmem : n.box ∈ members.filterMap fun id => (placedNode? nodes id).map PlacedNode.box :=
    List.mem_filterMap.mpr ⟨id, hid, by rw [hn]; rfl⟩
  obtain ⟨box, hbox, -⟩ := Rect.exists_unionAll hmem
  exact ⟨box, hbox⟩

/-- A block that lists known nodes, each once, is placed again with all its members. -/
structure Ready (sizes : List (SizedNode ℚ)) (s : FlowState ℚ) (b : Block) : Prop where
  once : b.members.Nodup
  known : ∀ id ∈ b.members, id ∈ s.nodes.map PlacedNode.id
  sized : ∀ id ∈ b.members, id ∈ sizes.map SizedNode.id

/-- Of the members of a block that is ready none is unknown and none occurs twice, so the list is
taken as it is. -/
theorem Ready.members_eq (h : Ready sizes s b) :
    (b.members.filter fun id => (placedNode? s.nodes id).isSome).eraseDups = b.members := by
  have hall : b.members.filter (fun id => (placedNode? s.nodes id).isSome) = b.members :=
    List.filter_eq_self.mpr fun id hid =>
      Option.isSome_iff_exists.mpr (exists_placedNode? (h.known id hid))
  rw [hall]
  exact Table.eraseDups_of_nodup h.once

/-- Placing a block again is to move its members and the course of its inner connections by the way
from its new middle to its old one. -/
theorem Ready.replace_eq (h : Ready sizes s b) {old new : Rect ℚ}
    (hp : placedAlone options own sizes b.members s.links = p)
    (hold : jointBox? s.nodes b.members = some old)
    (hnew : jointBox? (s.nodes.map p.put) b.members = some new) :
    s.replace options sizes own b = ⟨moveMembers p b.members (old.center.sub new.center) s.nodes,
      redirect p (innerLinks b.members s.links) own (old.center.sub new.center) s.links⟩ := by
  subst hp
  unfold placedAlone at hnew ⊢
  rw [FlowState.replace, h.members_eq]
  dsimp only
  rw [hold, hnew]

/-- Putting nodes at their places loses none of them, so a block that is ready has a joint box at
its new place, too. -/
theorem Ready.exists_newBox (h : Ready sizes s b) (hne : b.members ≠ []) (p : Placement ℚ) :
    ∃ new, jointBox? (s.nodes.map p.put) b.members = some new := by
  refine exists_jointBox? hne fun id hid => ?_
  have hids : (s.nodes.map p.put).map PlacedNode.id = s.nodes.map PlacedNode.id := by
    rw [List.map_map]
    exact List.map_congr_left fun n _ => id_put p n
  rw [hids]
  exact h.known id hid

/-- Moved back by the way from its new middle to its old one, a block is placed as on its own, with
its middle where it was. -/
theorem Ready.movedAs (h : Ready sizes s b) {old new : Rect ℚ}
    (hp : placedAlone options own sizes b.members s.links = p)
    (hold : jointBox? s.nodes b.members = some old)
    (hnew : jointBox? (s.nodes.map p.put) b.members = some new) :
    MovedAs p own b.members s ⟨moveMembers p b.members (old.center.sub new.center) s.nodes,
      redirect p (innerLinks b.members s.links) own (old.center.sub new.center) s.links⟩
      (old.center.sub new.center) := by
  constructor
  case center =>
    refine ⟨old, _, hold, by rw [jointBox?_moveMembers, hnew, Option.map_some], ?_⟩
    rw [Rect.center_translate]
    simp only [Point.add, Point.sub, add_sub_cancel]
  case nodes =>
    intro id hid
    obtain ⟨n, hn⟩ := exists_placedNode? (h.known id hid)
    obtain ⟨place, hplace⟩ := exists_place options own s.links hid (h.sized id hid)
    rw [hp] at hplace
    refine ⟨{ n with box := (p.put n).box.translate (old.center.sub new.center) }, place, ?_,
      hplace, ?_⟩
    · rw [placedNode?_moveMembers, if_pos hid, hn, Option.map_some]
    · rw [PlacedNode.center, Rect.center_translate,
        center_put ((congrArg p.find? (BoxState.mem_of_placedNode? hn).2).trans hplace)]
  case links =>
    intro k l hl hjoins
    rw [getElem?_redirect, hl, Option.map_some, if_pos ((any_innerLinks hl).mpr hjoins)]

/-- **Placing one block again** changes its members and the connections among them, and these as
promised. -/
theorem Ready.replace (h : Ready sizes s b) (options : LayoutOptions ℚ) (own : Direction) :
    Redoes options sizes (fun b' own' => b' = b ∧ own' = own) s
      (s.replace options sizes own b) := by
  obtain ⟨p, hp⟩ : ∃ p, placedAlone options own sizes b.members s.links = p := ⟨_, rfl⟩
  by_cases hne : b.members = []
  · have hsame : s.replace options sizes own b = s := by
      rw [FlowState.replace, h.members_eq, hne]
      rfl
    rw [hsame]
    refine ⟨rfl, rfl, fun _ _ => rfl, fun _ _ hl _ => hl, ?_⟩
    rintro _ _ ⟨rfl, rfl⟩ hne'
    exact absurd hne hne'
  obtain ⟨old, hold⟩ := exists_jointBox? hne h.known
  obtain ⟨new, hnew⟩ := h.exists_newBox hne p
  rw [h.replace_eq hp hold hnew]
  constructor
  case still => exact map_still_moveMembers _ _ _ _
  case edges => exact map_edge_redirect _ _ _ _ _
  case nodes_outside =>
    intro id hid
    rw [placedNode?_moveMembers, if_neg (hid b own ⟨rfl, rfl⟩)]
  case links_outside =>
    intro k l hl hout
    rw [getElem?_redirect, hl, Option.map_some,
      if_neg (mt (any_innerLinks hl).mp (hout b own ⟨rfl, rfl⟩))]
  case inside =>
    rintro _ _ ⟨rfl, rfl⟩ -
    rw [hp]
    exact ⟨_, h.movedAs hp hold hnew⟩

/-! ## One block after the other -/

/-- Some nodes and the connections among them are the same in both states. -/
structure SameOn (members : List String) (s s' : FlowState ℚ) : Prop where
  nodes : ∀ id ∈ members, placedNode? s'.nodes id = placedNode? s.nodes id
  links : ∀ (k : Nat) l, s.links[k]? = some l → Joins members l.edge → s'.links[k]? = some l

/-- What moved a block is still to be seen after steps that leave its members and inner connections
alone. -/
theorem MovedAs.of_later (h : MovedAs p own members s s' d) (hsame : SameOn members s' s'') :
    MovedAs p own members s s'' d := by
  constructor
  case center =>
    rw [jointBox?_congr hsame.nodes]
    exact h.center
  case nodes =>
    intro id hid
    rw [hsame.nodes id hid]
    exact h.nodes id hid
  case links => exact fun k l hl hjoins => hsame.links k _ (h.links k l hl hjoins) hjoins

/-- A move is the same if steps that leave the members and inner connections of the block alone came
before it. -/
theorem MovedAs.of_earlier (h : MovedAs p own members s' s'' d) (hsame : SameOn members s s') :
    MovedAs p own members s s'' d := by
  refine ⟨?_, h.nodes, fun k l hl hjoins => h.links k l (hsame.links k l hl hjoins) hjoins⟩
  rw [← jointBox?_congr hsame.nodes]
  exact h.center

/-- Whether a block is ready does not depend on where the nodes are placed. -/
theorem Ready.of_still (h : Ready sizes s b)
    (hstill : s'.nodes.map PlacedNode.still = s.nodes.map PlacedNode.still) : Ready sizes s' b :=
  ⟨h.once, ids_of_still hstill ▸ h.known, h.sized⟩

namespace Redoes

variable {kind kind' : Block → Direction → Prop}

/-- If no block is to be placed again, nothing changes. -/
theorem refl (options : LayoutOptions ℚ) (sizes : List (SizedNode ℚ)) (s : FlowState ℚ) :
    Redoes options sizes (fun _ _ => False) s s :=
  ⟨rfl, rfl, fun _ _ => rfl, fun _ _ hl _ => hl, fun _ _ => False.elim⟩

/-- It only matters which blocks are placed again, not how that is said. -/
theorem congr (h : Redoes options sizes kind s s') (hkind : ∀ b own, kind' b own ↔ kind b own) :
    Redoes options sizes kind' s s' := by
  obtain rfl : kind' = kind := funext fun b => funext fun own => propext (hkind b own)
  exact h

/-- What has no node in common with the blocks stays as it is. -/
theorem sameOn (h : Redoes options sizes kind s s')
    (hapart : ∀ b own, kind b own → members.Disjoint b.members) : SameOn members s s' :=
  ⟨fun id hid => h.nodes_outside id fun b own hb hid' => hapart b own hb hid hid',
    fun k l hl hjoins => h.links_outside k l hl fun b own hb hjoins' =>
      hapart b own hb hjoins.1 hjoins'.1⟩

/-- Blocks of two kinds are placed again one kind after the other, if none of the first kind has a
node in common with one of the second. -/
theorem trans (h : Redoes options sizes kind s s') (h' : Redoes options sizes kind' s' s'')
    (hapart : ∀ b own b' own', kind b own → kind' b' own' → b.members.Disjoint b'.members) :
    Redoes options sizes (fun b own => kind b own ∨ kind' b own) s s'' := by
  constructor
  case still => exact h'.still.trans h.still
  case edges => exact h'.edges.trans h.edges
  case nodes_outside =>
    intro id hout
    exact (h'.nodes_outside id fun b own hb => hout b own (.inr hb)).trans
      (h.nodes_outside id fun b own hb => hout b own (.inl hb))
  case links_outside =>
    intro k l hl hout
    exact h'.links_outside k l (h.links_outside k l hl fun b own hb => hout b own (.inl hb))
      fun b own hb => hout b own (.inr hb)
  case inside =>
    rintro b own (hb | hb) hne
    · obtain ⟨d, hmoved⟩ := h.inside b own hb hne
      exact ⟨d, hmoved.of_later (h'.sameOn fun b' own' => hapart b own b' own' hb)⟩
    · obtain ⟨d, hmoved⟩ := h'.inside b own hb hne
      have hplaced : placedAlone options own sizes b.members s'.links =
          placedAlone options own sizes b.members s.links := by
        rw [placedAlone, placedAlone, innerLinks_congr h.edges]
      rw [hplaced] at hmoved
      exact ⟨d, hmoved.of_earlier (h.sameOn fun b' own' hb' =>
        (hapart b' own' b own hb' hb).symm)⟩

end Redoes

/-- Blocks without common members are placed again one after the other. -/
theorem redoes_foldl (options : LayoutOptions ℚ) {turns : List (Block × Direction)}
    (hapart : turns.Pairwise fun t u => t.1.members.Disjoint u.1.members)
    (hready : ∀ t ∈ turns, Ready sizes s t.1) :
    Redoes options sizes (fun b own => (b, own) ∈ turns) s
      (turns.foldl (fun s t => s.replace options sizes t.2 t.1) s) := by
  induction turns generalizing s with
  | nil => exact (Redoes.refl options sizes s).congr (by simp)
  | cons t turns ih =>
    obtain ⟨ht, hturns⟩ := List.pairwise_cons.mp hapart
    have hfirst := (hready t List.mem_cons_self).replace options t.2
    have hrest := ih hturns fun u hu => (hready u (List.mem_cons_of_mem t hu)).of_still hfirst.still
    refine (hfirst.trans hrest ?_).congr fun b own => ?_
    · rintro b own b' own' ⟨rfl, -⟩ hb'
      exact ht _ hb'
    · rw [List.mem_cons, Prod.ext_iff]

/-! ## All blocks of a diagram -/

/-- The block has no block inside, and a direction of its own that is not the overall one. -/
def RunsOwnWay (overall : Direction) (flat : List FlatBlock) (b : Block) (own : Direction) : Prop :=
  ∃ (i : Nat) (f : FlatBlock), flat[i]? = some f ∧ f.block = b ∧ b.direction = some own ∧
    own ≠ overall ∧ ∀ c ∈ flat, c.parent ≠ some i

/-- The blocks that are placed again, in order. -/
def turns (overall : Direction) (flat : List FlatBlock) : List (Block × Direction) :=
  flat.zipIdx.filterMap fun (f, i) => (ownDirection? overall flat i f).map (f.block, ·)

/-- The blocks to be placed again are found in the listing before any of them is, and are then
placed one after the other. -/
theorem replaceDirected_eq (options : LayoutOptions ℚ) (overall : Direction)
    (flat : List FlatBlock) (sizes : List (SizedNode ℚ)) (s : FlowState ℚ) :
    s.replaceDirected options overall flat sizes =
      (turns overall flat).foldl (fun s t => s.replace options sizes t.2 t.1) s := by
  rw [replaceDirected, turns, List.foldl_filterMap]
  congr 1
  funext s ⟨f, i⟩
  dsimp only
  cases ownDirection? overall flat i f <;> rfl

section Blocks

variable {overall : Direction} {flat : List FlatBlock} {i : Nat} {f : FlatBlock}

/-- A block is placed again if it asks for a direction other than the overall one and has no blocks
inside it. -/
theorem ownDirection?_eq_some_iff : ownDirection? overall flat i f = some own ↔
    f.block.direction = some own ∧ own ≠ overall ∧ ∀ c ∈ flat, c.parent ≠ some i := by
  rw [ownDirection?]
  cases f.block.direction with
  | none => simp
  | some d =>
    simp only [Option.some.injEq, Option.ite_none_left_eq_some, Bool.or_eq_true, beq_iff_eq,
      List.any_eq_true, not_or, not_exists, not_and]
    constructor
    · rintro ⟨⟨hother, hchildless⟩, rfl⟩
      exact ⟨rfl, hother, hchildless⟩
    · rintro ⟨rfl, hother, hchildless⟩
      exact ⟨⟨hother, hchildless⟩, rfl⟩

/-- The blocks that are placed again are those that run their own way. -/
theorem mem_turns : (b, own) ∈ turns overall flat ↔ RunsOwnWay overall flat b own := by
  rw [turns, List.mem_filterMap]
  constructor
  · rintro ⟨⟨f, i⟩, hf, hturn⟩
    obtain ⟨own, hown, hpair⟩ := Option.map_eq_some_iff.mp hturn
    obtain ⟨rfl, rfl⟩ := Prod.mk.inj hpair
    exact ⟨i, f, List.mk_mem_zipIdx_iff_getElem?.mp hf, rfl, ownDirection?_eq_some_iff.mp hown⟩
  · rintro ⟨i, f, hf, rfl, hown⟩
    exact ⟨(f, i), List.mk_mem_zipIdx_iff_getElem?.mpr hf,
      Option.map_eq_some_iff.mpr ⟨own, ownDirection?_eq_some_iff.mpr hown, rfl⟩⟩

/-- A block that is the parent of no other one encloses nothing, since a chain of parents would have
to end in it. -/
theorem not_encloses (h : ∀ c ∈ flat, c.parent ≠ some i) (j : Nat) : ¬ Encloses flat i j := by
  intro henc
  obtain ⟨k, ⟨f, hf, hparent⟩, -⟩ := Relation.TransGen.head'_iff.mp henc
  exact h f (List.mem_of_getElem? hf) hparent

/-- No two of them have a node in common, for neither encloses the other. -/
theorem pairwise_turns {α : Type} {g : Diagram α} (hg : g.Laminar) :
    (turns overall g.flatBlocks).Pairwise fun t u => t.1.members.Disjoint u.1.members := by
  have hpositions : g.flatBlocks.zipIdx.Pairwise fun e e' => e.2 ≠ e'.2 := by
    have hnodup : (g.flatBlocks.zipIdx.map Prod.snd).Nodup := by
      rw [List.zipIdx_map_snd]
      exact List.nodup_range'
    exact List.pairwise_map.mp hnodup
  refine List.pairwise_filterMap.mpr (hpositions.imp_of_mem ?_)
  rintro ⟨f, i⟩ ⟨f', j⟩ hf hf' hne t ht u hu id hid hid'
  obtain ⟨own, hown, rfl⟩ := Option.map_eq_some_iff.mp ht
  obtain ⟨own', hown', rfl⟩ := Option.map_eq_some_iff.mp hu
  exact hg.apart i j id hne (not_encloses (ownDirection?_eq_some_iff.mp hown).2.2 j)
    (not_encloses (ownDirection?_eq_some_iff.mp hown').2.2 i)
    ⟨⟨f, List.mk_mem_zipIdx_iff_getElem?.mp hf, hid⟩,
      ⟨f', List.mk_mem_zipIdx_iff_getElem?.mp hf', hid'⟩⟩

end Blocks

/-- **A direction of its own moves only the block that has it.** Whatever a diagram was read from
and wherever its nodes were placed: the childless blocks with a direction other than the overall one
are placed again, each as a whole and about the middle that it had, and nothing else changes. -/
theorem replaceDirected_redoes {text : String} {doc : Document} (h : parseDocument text = .ok doc)
    (options : LayoutOptions ℚ) (overall : Direction)
    (hnodes : (s.nodes.map PlacedNode.id).Perm (doc.diagram.nodes.map Node.id))
    (hsizes : (sizes.map SizedNode.id).Perm (doc.diagram.nodes.map Node.id)) :
    Redoes options sizes (RunsOwnWay overall doc.diagram.flatBlocks) s
      (s.replaceDirected options overall doc.diagram.flatBlocks sizes) := by
  obtain ⟨builder, hbuilder, hdoc⟩ := Builder.exists_orderly h
  have hlaminar : doc.diagram.Laminar := hdoc ▸ hbuilder.laminar_finish
  rw [replaceDirected_eq]
  refine (redoes_foldl options (pairwise_turns hlaminar) fun t ht => ?_).congr
    fun b own => mem_turns.symm
  obtain ⟨i, f, hf, hblock, -⟩ := mem_turns.mp ht
  have hknown : ∀ id ∈ t.1.members, id ∈ doc.diagram.nodes.map Node.id := by
    intro id hid
    obtain ⟨n, hn, rfl⟩ := Diagram.hasNode_iff.mp (hlaminar.known i id ⟨f, hf, hblock ▸ hid⟩)
    exact List.mem_map_of_mem hn
  exact ⟨hblock ▸ hlaminar.once f (List.mem_of_getElem? hf),
    fun id hid => hnodes.mem_iff.mpr (hknown id hid),
    fun id hid => hsizes.mem_iff.mpr (hknown id hid)⟩

/-- A block from left to right in a diagram from top to bottom, with a connection inside, one that
leaves it and a loop. -/
def sideways : String :=
  "graph TD\nsubgraph s\ndirection LR\na --> b\nend\nb --> c\nb --> b"

/-- The nodes one below the other. -/
def oneBelowTheOther : FlowState ℚ where
  nodes := [("a", 0), ("b", 60), ("c", 120)].map fun (id, y) =>
    { id := id, box := ⟨0, y, 40, 20⟩, label := ⟨[id], 10, 10⟩, shape := .rectangle }
  links := [("a", "b"), ("b", "c"), ("b", "b")].map fun (source, target) =>
    ⟨{ source := source, target := target }, [], .topDown⟩

/-- Their sizes. -/
def threeSizes : List (SizedNode ℚ) := ["a", "b", "c"].map fun id => ⟨id, 40, 20, []⟩

/-- The two members of the block are placed beside each other. -/
theorem replaceDirected_redoes_sideways : ∃ (doc : Document) (b : Block),
    parseDocument sideways = .ok doc ∧ b.members = ["a", "b"] ∧
    RunsOwnWay .topDown doc.diagram.flatBlocks b .leftRight ∧
    Redoes .standard threeSizes (RunsOwnWay .topDown doc.diagram.flatBlocks) oneBelowTheOther
      (oneBelowTheOther.replaceDirected .standard .topDown doc.diagram.flatBlocks threeSizes) := by
  have hread : (parseDocument sideways).toOption.map (fun doc => (doc.diagram.nodes.map Node.id,
      doc.diagram.flatBlocks.map fun f => (f.block.direction, f.block.members, f.parent))) =
      some (["a", "b", "c"], [(some .leftRight, ["a", "b"], none)]) := by decide +kernel
  obtain ⟨doc, h, hseen⟩ := exists_ok_of_map hread
  obtain ⟨hnodes, hblocks⟩ := Prod.mk.inj hseen
  obtain ⟨f, hflat, hf⟩ := List.map_eq_singleton_iff.mp hblocks
  obtain ⟨hdirection, hf⟩ := Prod.mk.inj hf
  obtain ⟨hmembers, hparent⟩ := Prod.mk.inj hf
  have hruns : RunsOwnWay .topDown doc.diagram.flatBlocks f.block .leftRight := by
    refine ⟨0, f, by rw [hflat]; rfl, rfl, hdirection, by decide, fun c hc => ?_⟩
    rw [hflat, List.mem_singleton] at hc
    rw [hc, hparent]
    exact (Option.some_ne_none 0).symm
  refine ⟨doc, f.block, h, hmembers, hruns, replaceDirected_redoes h .standard .topDown ?_ ?_⟩
  · rw [hnodes]
    exact .refl _
  · rw [hnodes]
    exact .refl _

end FlowState

end Flowchart
