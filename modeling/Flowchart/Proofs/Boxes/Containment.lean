import Flowchart.Proofs.Boxes.Overlap
import Flowchart.Proofs.Boxes.Settling

/-!
# Boxes around their contents

A box that fits has all that its block contains inside: the members that are known and the boxes
right inside the block, with the padding around each of them and with room for the title on top. The
boxes inside are those of the same state, since they were computed before, and a block with one of
positive size inside has itself a box of positive size. So nothing gets lost on the way up, however
deep it lies, and blocks without members may lie in between.

No more is needed for this than that every block comes before the blocks inside it: a block may list
any nodes, known or not, and need not list those of the blocks inside.
-/

namespace Flowchart

/-- The outer box leaves some room on all sides of the inner one, and more of it on top for a
title. -/
structure Rect.Padded (padding title : ℚ) (inner outer : Rect ℚ) : Prop where
  left : outer.x + padding ≤ inner.x
  right : inner.right + padding ≤ outer.right
  top : outer.y + title + padding ≤ inner.y
  bottom : inner.bottom + padding ≤ outer.bottom

theorem Rect.Padded.within {padding title : ℚ} {inner outer : Rect ℚ}
    (h : Padded padding title inner outer) (hpadding : 0 ≤ padding) (htitle : 0 ≤ title) :
    inner.Within outer :=
  ⟨by linarith [h.left], by linarith [h.right], by linarith [h.top], by linarith [h.bottom]⟩

namespace BoxState

variable {spacing : BoxSpacing ℚ} {blocks : List (PlacedBlock ℚ)} {s : BoxState ℚ}
  {b c : PlacedBlock ℚ} {r : Rect ℚ} {i j : Nat}

/-- What lies within a content is padded when the content is wrapped. -/
theorem padded_wrap {content : Rect ℚ} (h : r.Within content) (title : ℚ) :
    r.Padded spacing.padding title (wrap spacing title content) := by
  obtain ⟨hleft, hright, htop, hbottom⟩ := h
  simp only [Rect.right, Rect.bottom] at hright hbottom
  constructor <;> simp only [wrap, Rect.right, Rect.bottom, Scalar.lit_two] <;> linarith

theorem titleRoom_nonneg (htitle : 0 ≤ spacing.title) (b : PlacedBlock ℚ) :
    0 ≤ titleRoom spacing b := by
  rw [titleRoom]
  split
  · exact Scalar.lit_zero.ge
  · rw [Scalar.max_eq]
    exact htitle.trans (le_max_left _ _)

theorem mem_childBoxes (hij : i < j) (hc : blocks[j]? = some c) (hparent : c.parent = some i)
    (hbox : c.hasBox = true) : c.box ∈ childBoxes blocks i := by
  refine List.mem_map.mpr ⟨c, List.mem_filter.mpr ⟨?_, by simp [hparent, hbox]⟩, rfl⟩
  refine List.mem_of_getElem? (i := j - (i + 1)) ?_
  rwa [List.getElem?_drop, Nat.add_sub_cancel' hij]

/-- In fitted boxes the box of every node and of every block right inside keeps the padding from the
sides, and the room for the title at the top. -/
theorem Fitted.padded (h : s.Fitted spacing) (hb : s.blocks[i]? = some b)
    (hr : r ∈ memberBoxes s.nodes b ++ childBoxes s.blocks i) :
    r.Padded spacing.padding (titleRoom spacing b) b.box := by
  obtain ⟨content, hcontent, hwithin⟩ := Rect.exists_unionAll hr
  rw [Fits.box_eq h hb hcontent]
  exact padded_wrap hwithin _

/-- The block at position `i` has its contents in its box: the known members, and the blocks right
inside whose boxes have a size. -/
structure Contains (spacing : BoxSpacing ℚ) (s : BoxState ℚ) (i : Nat) (b : PlacedBlock ℚ) :
    Prop where
  members : ∀ id ∈ b.members, ∀ n, placedNode? s.nodes id = some n →
    n.box.Padded spacing.padding (titleRoom spacing b) b.box
  inside : ∀ (j : Nat) c, s.blocks[j]? = some c → c.parent = some i → c.hasBox = true →
    c.box.Padded spacing.padding (titleRoom spacing b) b.box ∧ b.hasBox = true

/-- **Boxes contain their contents.** Let every block come after the one it lies in, and let padding
and room for a title be non-negative. Computing all boxes changes nothing but boxes. Afterwards
every box has the known members of its block and the boxes of positive size right inside the block
in it, with the padding on all sides and room for the title on top; and computing the boxes once
more changes nothing at all. -/
theorem fit_contains (s : BoxState ℚ) (spacing : BoxSpacing ℚ) (hpadding : 0 ≤ spacing.padding)
    (htitle : 0 ≤ spacing.title)
    (horder : ∀ (j : Nat) c i, s.blocks[j]? = some c → c.parent = some i → i < j) :
    (s.fit spacing).nodes = s.nodes ∧ SameFrames s (s.fit spacing) ∧
      (∀ (i : Nat) b, (s.fit spacing).blocks[i]? = some b → (s.fit spacing).Contains spacing i b) ∧
      (s.fit spacing).fit spacing = s.fit spacing := by
  have hfit := fitted_fit s spacing
  have hframes := sameFrames_fit s s.nodes spacing
  refine ⟨rfl, hframes, fun i b hb => ⟨fun id hid n hn => ?_, fun j c hc hparent hbox => ?_⟩,
    hfit.fit_eq⟩
  · refine hfit.padded hb (List.mem_append_left _ (List.mem_filterMap.mpr ⟨id, hid, ?_⟩))
    rw [hn, Option.map_some]
  · obtain ⟨c', hc', hframe⟩ := hframes.exists_block hc
    have hij := horder j c' i hc' ((parent_of_frame hframe).trans hparent)
    have hpadded := hfit.padded hb (List.mem_append_right _ (mem_childBoxes hij hc hparent hbox))
    obtain ⟨hwidth, hheight⟩ := PlacedBlock.hasBox_iff.mp hbox
    exact ⟨hpadded, (hpadded.within hpadding (titleRoom_nonneg htitle b)).hasBox hwidth hheight⟩

/-- A block with a block that lists nothing in it, which in turn has one with a node in it; and one
more block that is empty. -/
def husks : BoxState ℚ where
  blocks := [titledBlock "p" [] none, titledBlock "q" [] (some 0), titledBlock "r" ["a"] (some 1),
    titledBlock "e" [] (some 0)]
  nodes := [boxedNode "a" 0 0 (some "r")]

/-- The boxes around the node lie one in the other, and the empty block gets none. -/
theorem fit_husks :
    ∃ b, (husks.fit usualSpacing).blocks[0]? = some b ∧
      (husks.fit usualSpacing).Contains usualSpacing 0 b ∧
      (husks.fit usualSpacing).blocks.map PlacedBlock.box =
        [⟨-30, -90, 100, 140⟩, ⟨-20, -60, 80, 100⟩, ⟨-10, -30, 60, 60⟩, ⟨0, 0, 0, 0⟩] := by
  have horder : ∀ (j : Nat) c i, husks.blocks[j]? = some c → c.parent = some i → i < j := by
    intro j c i hc hparent
    match j, hc with
    | 0, hc =>
      obtain rfl := Option.some.inj hc
      cases hparent
    | 1, hc | 2, hc | 3, hc =>
      obtain rfl := Option.some.inj hc
      obtain rfl := Option.some.inj hparent
      decide
  obtain ⟨-, -, hcontains, -⟩ :=
    fit_contains husks usualSpacing (by decide) (by decide) horder
  obtain ⟨b, hb⟩ := Option.isSome_iff_exists.mp (show
    ((husks.fit usualSpacing).blocks[0]?).isSome = true by decide +kernel)
  exact ⟨b, hb, hcontains 0 b hb, by decide +kernel⟩

end BoxState

end Flowchart
