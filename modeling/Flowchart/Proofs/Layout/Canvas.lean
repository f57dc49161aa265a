import Mathlib.Computability.Primrec.List
import Flowchart.Proofs.Boxes.Overlap
import Flowchart.Proofs.Layout.Conservation
import Flowchart.Proofs.Scalar.Real

/-!
# The canvas holds the drawing

Four kinds of things take up room on a canvas: boxes of nodes, boxes of blocks, corners of routes
and boxes of labels, `Layout.Occupies`. The joint box of all of them is moved to the origin, and
what is moved is what was joined. So in the end nothing reaches beyond the canvas, and every side of
the canvas is touched, `layered_filled`.

Nothing is asked of the sizes or of how the places came about. So the numbers may be those of any
ordered field, and its square root may be any function.
-/

namespace Flowchart

variable {α : Type} [Field α] [LinearOrder α] [SquareRoot α]

/-! ## Joint boxes -/

namespace Rect

variable {r outer : Rect α} {rs : List (Rect α)}

/-- A number that every joint box takes over from one of the two boxes is in the end that of a box
of the list. -/
theorem exists_side_foldl {side : Rect α → α}
    (hside : ∀ r s : Rect α, side (r.union s) = side r ∨ side (r.union s) = side s)
    (rs : List (Rect α)) (s : Rect α) : ∃ r ∈ s :: rs, side r = side (rs.foldl union s) := by
  induction rs generalizing s with
  | nil => exact ⟨s, List.mem_singleton_self s, rfl⟩
  | cons t rs ih =>
    obtain ⟨r, hr, heq⟩ := ih (s.union t)
    rcases List.mem_cons.mp hr with rfl | hr
    · rcases hside s t with h | h
      · exact ⟨s, by simp, h.symm.trans heq⟩
      · exact ⟨t, by simp, h.symm.trans heq⟩
    · exact ⟨r, by simp [hr], heq⟩

/-- The boxes fill the outer one: none reaches beyond it, and each of its sides is touched. -/
structure Fills (rs : List (Rect α)) (outer : Rect α) : Prop where
  within : ∀ r ∈ rs, r.Within outer
  left : ∃ r ∈ rs, r.x = outer.x
  right : ∃ r ∈ rs, r.right = outer.right
  top : ∃ r ∈ rs, r.y = outer.y
  bottom : ∃ r ∈ rs, r.bottom = outer.bottom

/-- Boxes fill their joint box: it contains them all, and each of its sides is reached by one of
them. -/
theorem fills_unionAll (h : unionAll? rs = some outer) : Fills rs outer := by
  cases rs with
  | nil => cases h
  | cons s rs =>
    obtain rfl := Option.some.inj h
    have hwithin := within_foldl_union rs s
    refine ⟨List.forall_mem_cons.mpr hwithin, exists_side_foldl (fun r s => ?_) rs s,
      exists_side_foldl (fun r s => ?_) rs s, exists_side_foldl (fun r s => ?_) rs s,
      exists_side_foldl (fun r s => ?_) rs s⟩
    · simpa [union, ofBounds] using min_choice r.x s.x
    · simpa [union, ofBounds, Rect.right] using max_choice r.right s.right
    · simpa [union, ofBounds] using min_choice r.y s.y
    · simpa [union, ofBounds, Rect.bottom] using max_choice r.bottom s.bottom

theorem right_translate (r : Rect α) (d : Point α) : (r.translate d).right = r.right + d.x :=
  add_right_comm _ _ _

theorem bottom_translate (r : Rect α) (d : Point α) : (r.translate d).bottom = r.bottom + d.y :=
  add_right_comm _ _ _

variable [IsStrictOrderedRing α]

theorem Within.translate (h : r.Within outer) (d : Point α) :
    (r.translate d).Within (outer.translate d) := by
  refine ⟨add_le_add_left h.left _, ?_, add_le_add_left h.top _, ?_⟩
  · rw [right_translate, right_translate]
    exact add_le_add_left h.right _
  · rw [bottom_translate, bottom_translate]
    exact add_le_add_left h.bottom _

/-- Boxes that are moved alike fill the box that is moved with them. -/
theorem Fills.translate (h : Fills rs outer) (d : Point α) :
    Fills (rs.map (·.translate d)) (outer.translate d) := by
  obtain ⟨hwithin, ⟨l, hl, hleft⟩, ⟨r, hr, hright⟩, ⟨t, ht, htop⟩, b, hb, hbottom⟩ := h
  refine ⟨List.forall_mem_map.mpr fun r hr => (hwithin r hr).translate d,
    ⟨_, List.mem_map_of_mem hl, ?_⟩, ⟨_, List.mem_map_of_mem hr, ?_⟩,
    ⟨_, List.mem_map_of_mem ht, ?_⟩, _, List.mem_map_of_mem hb, ?_⟩
  · exact congrArg (· + d.x) hleft
  · rw [right_translate, right_translate, hright]
  · exact congrArg (· + d.y) htop
  · rw [bottom_translate, bottom_translate, hbottom]

end Rect

/-! ## What takes up room -/

/-- A box that is taken up by a part of the layout. -/
inductive Layout.Occupies (l : Layout α) : Rect α → Prop where
  /-- the box of a node -/
  | node (n : PlacedNode α) (mem : n ∈ l.nodes) : l.Occupies n.box
  /-- the box of a block, if it has an extent -/
  | block (b : PlacedBlock α) (mem : b ∈ l.blocks) (width_pos : 0 < b.box.width)
      (height_pos : 0 < b.box.height) : l.Occupies b.box
  /-- a corner of a route -/
  | corner (e : PlacedEdge α) (mem : e ∈ l.edges) (p : Point α) (mem_points : p ∈ e.points) :
      l.Occupies ⟨p.x, p.y, 0, 0⟩
  /-- the box of a label, which is centred at its place -/
  | label (e : PlacedEdge α) (mem : e ∈ l.edges) (c : Point α) (t : TextBlock α)
      (anchored : e.labelAnchor = some c) (labelled : e.label = some t) :
      l.Occupies ⟨c.x - t.width / 2, c.y - t.height / 2, t.width, t.height⟩

variable [IsStrictOrderedRing α]

theorem PlacedEdge.mem_extents {e : PlacedEdge α} {r : Rect α} :
    r ∈ e.extents ↔ (∃ p ∈ e.points, r = ⟨p.x, p.y, 0, 0⟩) ∨
      ∃ c t, e.labelAnchor = some c ∧ e.label = some t ∧
        r = ⟨c.x - t.width / 2, c.y - t.height / 2, t.width, t.height⟩ := by
  rw [extents, List.mem_append, List.mem_map]
  simp only [Scalar.lit_zero, Scalar.lit_two, eq_comm (b := r)]
  cases e.labelAnchor <;> cases e.label <;> simp

/-- What is joined is what takes up room. -/
theorem Layout.mem_extents {l : Layout α} {r : Rect α} : r ∈ l.extents ↔ l.Occupies r := by
  simp only [extents, List.mem_append, List.mem_map, List.mem_filter, List.mem_flatMap,
    PlacedBlock.hasBox_iff, PlacedEdge.mem_extents]
  constructor
  · rintro ((⟨n, hn, rfl⟩ | ⟨b, ⟨hb, hwidth, hheight⟩, rfl⟩) |
      ⟨e, he, ⟨p, hp, rfl⟩ | ⟨c, t, hc, ht, rfl⟩⟩)
    · exact .node n hn
    · exact .block b hb hwidth hheight
    · exact .corner e he p hp
    · exact .label e he c t hc ht
  · rintro (⟨n, hn⟩ | ⟨b, hb, hwidth, hheight⟩ | ⟨e, he, p, hp⟩ | ⟨e, he, c, t, hc, ht⟩)
    · exact .inl (.inl ⟨n, hn, rfl⟩)
    · exact .inl (.inr ⟨b, ⟨hb, hwidth, hheight⟩, rfl⟩)
    · exact .inr ⟨e, he, .inl ⟨p, hp, rfl⟩⟩
    · exact .inr ⟨e, he, .inr ⟨c, t, hc, ht, rfl⟩⟩

/-! ## Moving -/

/-- What a connection takes up moves along with it. -/
theorem PlacedEdge.extents_translate (e : PlacedEdge α) (d : Point α) :
    (e.translate d).extents = e.extents.map (·.translate d) := by
  rw [extents, extents, List.map_append]
  congr 1
  · rw [translate, List.map_map, List.map_map]
    exact List.map_congr_left fun p _ => rfl
  · rw [translate]
    cases e.labelAnchor <;> cases e.label <;>
      simp [Rect.translate, Point.add, add_sub_right_comm]

/-- The layout with all of its parts moved, on a canvas of a given size. -/
def Layout.moved (l : Layout α) (d : Point α) (width height : α) : Layout α :=
  { l with
    nodes := l.nodes.map (·.translate d)
    blocks := l.blocks.map (·.translate d)
    edges := l.edges.map (·.translate d)
    width := width
    height := height }

/-- What a layout takes up moves along with it. -/
theorem Layout.extents_moved (l : Layout α) (d : Point α) (width height : α) :
    (l.moved d width height).extents = l.extents.map (·.translate d) := by
  have hbox : ∀ b : PlacedBlock α, (b.translate d).hasBox = b.hasBox := by
    intro b
    rw [PlacedBlock.translate]
    split <;> rfl
  have hblocks : ((l.blocks.map (·.translate d)).filter PlacedBlock.hasBox).map PlacedBlock.box =
      ((l.blocks.filter PlacedBlock.hasBox).map PlacedBlock.box).map (·.translate d) := by
    rw [List.filter_map, List.map_map, List.map_map]
    simp only [Function.comp_def, hbox]
    refine List.map_congr_left fun b hb => ?_
    rw [PlacedBlock.translate, if_pos (List.mem_filter.mp hb).2]
  have hnodes : (l.nodes.map (·.translate d)).map PlacedNode.box =
      (l.nodes.map PlacedNode.box).map (·.translate d) := by
    rw [List.map_map, List.map_map]
    rfl
  have hedges : (l.edges.map (·.translate d)).flatMap PlacedEdge.extents =
      (l.edges.flatMap PlacedEdge.extents).map (·.translate d) := by
    rw [List.flatMap_map, List.map_flatMap]
    exact List.flatMap_congr fun e _ => e.extents_translate d
  rw [extents, extents, moved, hnodes, hblocks, hedges, List.map_append, List.map_append]

/-- Nothing reaches beyond the canvas, and each of its sides is touched. -/
structure Layout.Filled (l : Layout α) : Prop where
  within : ∀ r, l.Occupies r → 0 ≤ r.x ∧ r.right ≤ l.width ∧ 0 ≤ r.y ∧ r.bottom ≤ l.height
  left : ∃ r, l.Occupies r ∧ r.x = 0
  right : ∃ r, l.Occupies r ∧ r.right = l.width
  top : ∃ r, l.Occupies r ∧ r.y = 0
  bottom : ∃ r, l.Occupies r ∧ r.bottom = l.height

omit [IsStrictOrderedRing α] in
theorem Layout.normalize_eq {l : Layout α} {outer : Rect α}
    (h : Rect.unionAll? l.extents = some outer) :
    l.normalize = l.moved ⟨-outer.x, -outer.y⟩ outer.width outer.height := by
  rw [normalize, h]
  rfl

omit [IsStrictOrderedRing α] in
/-- A layout has nodes in its normal position only if it had some before. -/
theorem Layout.ne_nil_of_normalize {l : Layout α} (h : l.normalize.nodes ≠ []) : l.nodes ≠ [] := by
  have hfaces := (normalize_faces l).1
  intro hnone
  rw [hnone] at hfaces
  exact h (List.map_eq_nil_iff.mp hfaces)

/-- All parts of a layout with nodes are moved to the origin by one common shift. -/
theorem Layout.exists_moved_of_normalize {l : Layout α} (h : l.normalize.nodes ≠ []) :
    ∃ d, l.normalize = l.moved d l.normalize.width l.normalize.height := by
  obtain ⟨n, hn⟩ := List.exists_mem_of_ne_nil _ (ne_nil_of_normalize h)
  obtain ⟨outer, houter, -⟩ := Rect.exists_unionAll (mem_extents.mpr (.node n hn))
  rw [normalize_eq houter]
  exact ⟨_, rfl⟩

/-- A layout with nodes fills its canvas after it was moved to the origin. -/
theorem Layout.normalize_filled {l : Layout α} (h : l.nodes ≠ []) : l.normalize.Filled := by
  obtain ⟨n, hn⟩ := List.exists_mem_of_ne_nil _ h
  obtain ⟨outer, houter, -⟩ := Rect.exists_unionAll (mem_extents.mpr (.node n hn))
  have hfills := (Rect.fills_unionAll houter).translate ⟨-outer.x, -outer.y⟩
  have hcanvas : outer.translate ⟨-outer.x, -outer.y⟩ = ⟨0, 0, outer.width, outer.height⟩ := by
    simp [Rect.translate]
  have hsize : (⟨0, 0, outer.width, outer.height⟩ : Rect α).right = outer.width ∧
      (⟨0, 0, outer.width, outer.height⟩ : Rect α).bottom = outer.height :=
    ⟨zero_add _, zero_add _⟩
  rw [hcanvas, ← extents_moved l _ outer.width outer.height] at hfills
  rw [normalize_eq houter]
  obtain ⟨hwithin, ⟨a, ha, hleft⟩, ⟨b, hb, hright⟩, ⟨c, hc, htop⟩, e, he, hbottom⟩ := hfills
  refine ⟨fun r hr => ?_, ⟨a, mem_extents.mp ha, hleft⟩, ⟨b, mem_extents.mp hb, ?_⟩,
    ⟨c, mem_extents.mp hc, htop⟩, e, mem_extents.mp he, ?_⟩
  · have hr := hwithin r (mem_extents.mpr hr)
    exact ⟨hr.left, hsize.1 ▸ hr.right, hr.top, hsize.2 ▸ hr.bottom⟩
  · exact hright.trans hsize.1
  · exact hbottom.trans hsize.2

namespace Layout

section

variable {ω : Type} [Scalar ω] [Widening α ω] [Trigonometry ω] {theme : Theme α}
  {options : LayoutOptions α} {m : Measurer α} {g : Diagram α} {l : Layout α}

/-- **The canvas holds the whole drawing and no more.** On the canvas of every layout with a node no
box of a node, box of a block, corner of a route or box of a label reaches beyond any side, and at
each of the four sides one of them touches it. Every part was moved there by one common shift from
where the phases had arranged it. -/
theorem layered_filled (h : layered (ω := ω) theme options m g = .ok l) (hnodes : l.nodes ≠ []) :
    l.Filled ∧ ∃ d, l = (arranged (ω := ω) theme options m g).moved d l.width l.height := by
  have hl := layered_eq h
  generalize arranged (ω := ω) theme options m g = before at hl ⊢
  subst hl
  exact ⟨normalize_filled (ne_nil_of_normalize hnodes), exists_moved_of_normalize hnodes⟩

end

/-! ## A drawing with all four kinds of parts -/

/-- Two nodes, one of them in a block, with a labelled connection and a loop. -/
def pair {α : Type} : Diagram α where
  nodes := ["a", "b"].map fun id => { id := id }
  edges := [{ source := "a", target := "b", label := some "to" }, { source := "b", target := "b" }]
  blocks := [.mk "p" none none ["b"] []]

/-- The pair has a layout with nodes over any scalars, since a layout has the nodes of its diagram. -/
theorem exists_layered_pair {α ω : Type} [Scalar α] [Scalar ω] [Widening α ω] [Trigonometry ω] :
    ∃ l : Layout α, layered (ω := ω) .modern .standard .squareLetters pair = .ok l ∧
      l.nodes ≠ [] := by
  obtain ⟨l, hl⟩ : ∃ l : Layout α,
      layered (ω := ω) .modern .standard .squareLetters pair = .ok l :=
    exists_layered (Nat.le_of_ble_eq_true rfl) (Nat.le_of_ble_eq_true rfl)
  refine ⟨l, hl, fun hnone => ?_⟩
  obtain ⟨hperm, -⟩ := layered_faces hl
  rw [hnone] at hperm
  exact absurd hperm.symm.eq_nil (List.cons_ne_nil _ _)

/-- Exact scalars are as wide as they need to be. -/
instance : Widening ℚ ℚ := ⟨id, id⟩

set_option maxRecDepth 100000 in
/-- Where the parts of the pair are. No outline is round, so no function of angles is asked. -/
theorem layered_pair [Trigonometry ℚ] :
    (layered (ω := ℚ) .modern .standard .squareLetters pair).toOption.map (fun l : Layout ℚ =>
      ((l.width, l.height), l.nodes.map PlacedNode.box, l.blocks.map PlacedBlock.box,
        l.edges.map PlacedEdge.points, l.edges.map PlacedEdge.labelAnchor)) =
    some ((119, 179), [⟨16, 0, 73, 99 / 2⟩, ⟨16, 199 / 2, 73, 99 / 2⟩], [⟨0, 56, 105, 109⟩],
      [[⟨105 / 2, 99 / 2⟩, ⟨105 / 2, 191 / 2⟩],
        [⟨105 / 2, 149⟩, ⟨105 / 2, 179⟩, ⟨119, 179⟩, ⟨119, 497 / 4⟩, ⟨93, 497 / 4⟩]],
      [some ⟨105 / 2, 145 / 2⟩, none]) := by
  cbv

/-- The pair is laid out over the real numbers and over the rational ones, and fills its canvas in
both cases; over the rational numbers all coordinates are known, whatever the functions of angles
are. -/
theorem layered_filled_pair :
    (∃ l : Layout ℝ, layered (ω := ℝ) .modern .standard .squareLetters pair = .ok l ∧
      l.nodes ≠ [] ∧ l.Filled) ∧
    ∀ [Trigonometry ℚ], ∃ l : Layout ℚ,
      layered (ω := ℚ) .modern .standard .squareLetters pair = .ok l ∧ l.nodes ≠ [] ∧ l.Filled ∧
      (l.width, l.height) = (119, 179) ∧
      l.nodes.map PlacedNode.box = [⟨16, 0, 73, 99 / 2⟩, ⟨16, 199 / 2, 73, 99 / 2⟩] ∧
      l.blocks.map PlacedBlock.box = [⟨0, 56, 105, 109⟩] ∧
      l.edges.map PlacedEdge.points = [[⟨105 / 2, 99 / 2⟩, ⟨105 / 2, 191 / 2⟩],
        [⟨105 / 2, 149⟩, ⟨105 / 2, 179⟩, ⟨119, 179⟩, ⟨119, 497 / 4⟩, ⟨93, 497 / 4⟩]] ∧
      l.edges.map PlacedEdge.labelAnchor = [some ⟨105 / 2, 145 / 2⟩, none] := by
  constructor
  · obtain ⟨l, hl, hnodes⟩ := exists_layered_pair (α := ℝ) (ω := ℝ)
    exact ⟨l, hl, hnodes, (layered_filled hl hnodes).1⟩
  · intro _
    obtain ⟨l, hl, hnodes⟩ := exists_layered_pair (α := ℚ) (ω := ℚ)
    have hparts := layered_pair
    rw [hl, Except.toOption, Option.map_some, Option.some_inj] at hparts
    obtain ⟨hsize, hboxes, hblocks, hpoints, hanchors⟩ := by
      simpa only [Prod.mk.injEq] using hparts
    exact ⟨l, hl, hnodes, (layered_filled hl hnodes).1, Prod.mk.injEq _ _ _ _ ▸ hsize, hboxes,
      hblocks, hpoints, hanchors⟩

end Layout

end Flowchart
