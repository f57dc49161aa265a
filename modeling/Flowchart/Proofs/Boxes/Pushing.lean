import Flowchart.Proofs.Boxes.Axes
import Flowchart.Proofs.Boxes.Carrying

/-!
# One push

Two overlapping siblings are pushed apart by moving nodes, and where the boxes come to lie is only
computed afterwards. Nevertheless the box of the block whose members are moved is moved by exactly
the same amount, and the other box stays.

* A block inside the moved one lists moved nodes only. So from the inside out every box that has a
  size moves with them, `Fits.carried`: joint boxes and padding move with their contents. For
  this a block without known members must not have a box, since such a box would not move; a fit
  gives it none.
* The other block lists none of the moved nodes, since siblings share no member.

The amount is chosen on the boxes: it is what sets them apart by the gap along one axis, and about
the smaller one of the two such amounts. So every push separates the two siblings it is made for,
`separating_push`.
-/

namespace Flowchart

namespace Rect

/-- By how much the box with the larger centre has to be moved along an axis to begin a gap behind
the end of the other one. -/
def need (axis : Axis) (gap : ℚ) (r s : Rect ℚ) : ℚ :=
  if r.middle axis ≤ s.middle axis then r.high axis + gap - s.low axis
  else s.high axis + gap - r.low axis

variable {r s : Rect ℚ} {axis : Axis} {gap : ℚ}

theorem need_comm (axis : Axis) (gap : ℚ) (r s : Rect ℚ) : need axis gap r s = need axis gap s r := by
  unfold need
  have hr := r.middle_eq axis
  have hs := s.middle_eq axis
  rcases lt_trichotomy (r.middle axis) (s.middle axis) with hlt | heq | hgt
  · rw [if_pos hlt.le, if_neg hlt.not_ge]
  · rw [if_pos heq.le, if_pos heq.ge]
    linarith
  · rw [if_neg hgt.not_ge, if_pos hgt.le]

/-! ## Moving joint boxes -/

theorem union_translate (r s : Rect ℚ) (p : Point ℚ) :
    (r.translate p).union (s.translate p) = (r.union s).translate p := by
  have hx : r.x + p.x + r.width = r.right + p.x := by simp only [right]; ring
  have hx' : s.x + p.x + s.width = s.right + p.x := by simp only [right]; ring
  have hy : r.y + p.y + r.height = r.bottom + p.y := by simp only [bottom]; ring
  have hy' : s.y + p.y + s.height = s.bottom + p.y := by simp only [bottom]; ring
  simp only [union, ofBounds, translate, right, bottom, Scalar.min_eq, Scalar.max_eq] at *
  simp only [hx, hx', hy, hy', min_add_add_right, max_add_add_right, add_sub_add_right_eq_sub]

theorem eq_nil_of_unionAll {rs : List (Rect ℚ)} (h : unionAll? rs = none) : rs = [] := by
  cases rs with
  | nil => rfl
  | cons r rs => cases h

theorem unionAll_translate (rs : List (Rect ℚ)) (p : Point ℚ) :
    unionAll? (rs.map (·.translate p)) = (unionAll? rs).map (·.translate p) := by
  cases rs with
  | nil => rfl
  | cons r rs =>
    simp only [List.map_cons, unionAll?, Option.map_some, Option.some.injEq]
    induction rs generalizing r with
    | nil => rfl
    | cons s rs ih => rw [List.map_cons, List.foldl_cons, union_translate, ih, List.foldl_cons]

end Rect

namespace BoxState

variable {d : Direction} {spacing : BoxSpacing ℚ} {s t : BoxState ℚ} {nodes : List (PlacedNode ℚ)}
  {blocks : List (PlacedBlock ℚ)} {a b c : PlacedBlock ℚ} {ids : List String} {p : Point ℚ}
  {gap : ℚ} {i j k : Nat}

theorem wrap_translate (title : ℚ) (r : Rect ℚ) (p : Point ℚ) :
    wrap spacing title (r.translate p) = (wrap spacing title r).translate p := by
  simp only [wrap, Rect.translate, Rect.mk.injEq, and_true]
  constructor <;> ring

/-! ## The chosen push -/

/-- The push goes along an axis, moves the block whose centre is further along it by what it needs
there, and the other axis would need no less, up to a thousandth. -/
theorem push_spec (d : Direction) (gap : ℚ) (r s : Rect ℚ) : ∃ axis,
    push d gap r s = ⟨decide (r.middle axis ≤ s.middle axis), axis.point (Rect.need axis gap r s) 0⟩ ∧
      Rect.need axis gap r s ≤ Rect.need axis.other gap r s + 1 / 1000 := by
  obtain ⟨chosen, hchosen⟩ : ∃ chosen, chosen =
      if |Rect.need .horizontal gap r s - Rect.need .vertical gap r s| < 1 / 1000 then
        d.isHorizontal
      else decide (Rect.need .horizontal gap r s < Rect.need .vertical gap r s) := ⟨_, rfl⟩
  have hpush : push d gap r s =
      if chosen then ⟨decide (r.middle .horizontal ≤ s.middle .horizontal),
        Axis.point (Rect.need .horizontal gap r s) 0 .horizontal⟩
      else ⟨decide (r.middle .vertical ≤ s.middle .vertical),
        Axis.point (Rect.need .vertical gap r s) 0 .vertical⟩ := by
    have htie : (1e-3 : ℚ) = 1 / 1000 := by norm_num
    rw [hchosen]
    unfold push Rect.need
    simp only [decide_eq_true_eq, htie, Scalar.lit_zero]
    rfl
  rw [hpush]
  cases chosen with
  | true =>
    refine ⟨.horizontal, rfl, ?_⟩
    rw [Axis.other]
    split at hchosen
    case isTrue htie => linarith [(abs_lt.mp htie).2]
    case isFalse => linarith [of_decide_eq_true hchosen.symm]
  | false =>
    refine ⟨.vertical, rfl, ?_⟩
    rw [Axis.other]
    split at hchosen
    case isTrue htie => linarith [(abs_lt.mp htie).1]
    case isFalse => linarith [not_lt.mp (of_decide_eq_false hchosen.symm)]

/-- What sets overlapping boxes apart is a positive amount. -/
theorem need_pos (hgap : 0 < gap) {r s : Rect ℚ} (h : r.intersects s = true) (axis : Axis) :
    0 < Rect.need axis gap r s := by
  obtain ⟨hrs, hsr⟩ := Rect.low_lt_high_of_intersects h axis
  rw [Rect.need]
  split <;> linarith

/-! ## Blocks without content -/

/-- A block without known members has no box. -/
def Bare (nodes : List (PlacedNode ℚ)) (blocks : List (PlacedBlock ℚ)) : Prop :=
  ∀ b ∈ blocks, (∀ id ∈ b.members, placedNode? nodes id = none) → b.hasBox = false

/-- There is nothing to fit a block without known members to. -/
theorem Bare.content_eq_nil (h : Bare nodes blocks) (hn : Nested blocks) (hb : blocks[i]? = some b)
    (hnone : ∀ id ∈ b.members, placedNode? nodes id = none) :
    memberBoxes nodes b ++ childBoxes blocks i = [] := by
  refine List.append_eq_nil_iff.mpr ⟨List.filterMap_eq_nil_iff.mpr fun id hid => ?_, ?_⟩
  · rw [hnone id hid, Option.map_none]
  · refine List.map_eq_nil_iff.mpr (List.filter_eq_nil_iff.mpr fun c hc => ?_)
    obtain ⟨j, hj⟩ := List.getElem?_of_mem (List.mem_of_mem_drop hc)
    rw [Bool.and_eq_true, beq_iff_eq]
    rintro ⟨hparent, hbox⟩
    obtain ⟨-, b', hb', hsub⟩ := hn.around j c i hj hparent
    obtain rfl := Option.some.inj (hb.symm.trans hb')
    have hbare := h c (List.mem_of_mem_drop hc) fun id hid => hnone id (hsub hid)
    exact Bool.false_ne_true (hbare.symm.trans hbox)

/-- So a block without content has no box. -/
theorem Bare.hasBox_eq_false (h : Bare nodes blocks) (hb : blocks[i]? = some b)
    (hnil : memberBoxes nodes b ++ childBoxes blocks i = []) : b.hasBox = false := by
  refine h b (List.mem_of_getElem? hb) fun id hid => ?_
  have hmembers := (List.append_eq_nil_iff.mp hnil).1
  exact Option.map_eq_none_iff.mp (List.filterMap_eq_nil_iff.mp hmembers id hid)

theorem Bare.fitBlock (h : Bare nodes blocks) (hn : Nested blocks) (k : Nat) :
    Bare nodes (fitBlock spacing nodes blocks k) := by
  intro b' hb' hnone
  obtain ⟨i, hi⟩ := List.getElem?_of_mem hb'
  rw [fitBlock_eq, List.getElem?_modify] at hi
  obtain ⟨b, hb, rfl⟩ := Option.map_eq_some_iff.mp hi
  by_cases hki : k = i
  · subst hki
    simp only [↓reduceIte] at hnone ⊢
    rw [boxFor, h.content_eq_nil hn hb hnone]
    exact h b (List.mem_of_getElem? hb) hnone
  · simp only [hki, ↓reduceIte] at hnone ⊢
    exact h b (List.mem_of_getElem? hb) hnone

/-- A fit gives no box to a block without known members. -/
theorem Bare.fitBlocks (h : Bare nodes blocks) (hn : Nested blocks) :
    Bare nodes (fitBlocks spacing nodes blocks) := by
  refine (List.foldlRecOn (motive := fun bs => bs.map PlacedBlock.frame =
    blocks.map PlacedBlock.frame ∧ Bare nodes bs) _ _ ⟨rfl, h⟩ ?_).2
  rintro bs ⟨hframe, hbare⟩ k -
  have hframes : SameFrames ⟨blocks, nodes⟩ ⟨bs, nodes⟩ := hframe
  have hn' : Nested bs := nested_of_sameFrames hn hframes
  exact ⟨(frame_fitBlock spacing nodes bs k).trans hframe, hbare.fitBlock hn' k⟩

/-! ## Carrying boxes along -/

/-- Moving nodes that are listed once moves each of them once. -/
theorem shiftNodes_eq (hids : ids.Nodup) (p : Point ℚ) (nodes : List (PlacedNode ℚ)) :
    shiftNodes ids p nodes = nodes.map fun n => if n.id ∈ ids then n.translate p else n := by
  induction ids generalizing nodes with
  | nil => simp [shiftNodes]
  | cons id ids ih =>
    obtain ⟨hid, hids⟩ := List.nodup_cons.mp hids
    refine (ih hids (updatePlaced id (·.translate p) nodes)).trans ?_
    rw [updatePlaced, List.map_map]
    refine List.map_congr_left fun n _ => ?_
    by_cases heq : n.id = id
    · have hmoved : (n.translate p).id = id := heq
      simp [heq, hmoved, hid]
    · simp [heq]

theorem Bare.shiftNodes (h : Bare nodes blocks) (hids : ids.Nodup) (p : Point ℚ) :
    Bare (shiftNodes ids p nodes) blocks := by
  intro b hb hnone
  refine h b hb fun id hid => ?_
  have := hnone id hid
  rw [placedNode?_shiftNodes hids] at this
  split at this
  · exact Option.map_eq_none_iff.mp this
  · exact this

theorem memberBoxes_shiftNodes (hids : ids.Nodup) (hsub : c.members ⊆ ids) (p : Point ℚ) :
    memberBoxes (shiftNodes ids p nodes) c = (memberBoxes nodes c).map (·.translate p) := by
  rw [memberBoxes, memberBoxes, List.map_filterMap]
  refine List.filterMap_congr fun id hid => ?_
  rw [placedNode?_shiftNodes hids, if_pos (hsub hid), Option.map_map, Option.map_map]
  rfl

/-- The block is the same, but its box was moved if it has one. -/
structure Carried (p : Point ℚ) (c c' : PlacedBlock ℚ) : Prop where
  frame : c'.frame = c.frame
  hasBox : c'.hasBox = c.hasBox
  box : c.hasBox = true → c'.box = c.box.translate p

/-- The boxes inside a block are moved if the blocks inside it are. -/
theorem childBoxes_carried {blocks' : List (PlacedBlock ℚ)}
    (hframe : blocks'.map PlacedBlock.frame = blocks.map PlacedBlock.frame)
    (h : ∀ (j : Nat) c c', i < j → blocks[j]? = some c → blocks'[j]? = some c' →
      c.parent = some i → Carried p c c') :
    childBoxes blocks' i = (childBoxes blocks i).map (·.translate p) := by
  have hmap : ∀ rs : List (Option (Rect ℚ)), (rs.filterMap id).map (·.translate p) =
      (rs.map (Option.map (·.translate p))).filterMap id := fun rs => by
    rw [List.map_filterMap, List.filterMap_map]
    rfl
  rw [childBoxes_eq, childBoxes_eq, hmap, List.map_map]
  congr 1
  apply List.ext_getElem?
  intro j
  rw [List.getElem?_map, List.getElem?_map, List.getElem?_drop, List.getElem?_drop]
  have hj := congrArg (fun bs : List (PlacedBlock ℚ) => bs[i + 1 + j]?) hframe
  simp only [List.getElem?_map] at hj
  cases hc : blocks[i + 1 + j]? with
  | none =>
    rw [hc, Option.map_none, Option.map_eq_none_iff] at hj
    rw [hj, Option.map_none, Option.map_none]
  | some c =>
    rw [hc, Option.map_some] at hj
    obtain ⟨c', hc', hcc'⟩ := Option.map_eq_some_iff.mp hj
    rw [hc', Option.map_some, Option.map_some, Option.some_inj, Function.comp_apply,
      parent_of_frame hcc']
    by_cases hparent : c.parent = some i
    · have hcarried := h _ c c' (by omega) hc hc' hparent
      rw [hcarried.hasBox]
      cases hbox : c.hasBox with
      | true => simp [hparent, hcarried.box hbox]
      | false => simp
    · simp [hparent]

/-- A box is moved if its content is. -/
theorem Fits.carried_of_content {nodes' : List (PlacedNode ℚ)} {blocks' : List (PlacedBlock ℚ)}
    (hfits : Fits spacing nodes blocks) (hfits' : Fits spacing nodes' blocks')
    (hbare : Bare nodes blocks) (hbare' : Bare nodes' blocks') (hc : blocks[k]? = some c)
    {c' : PlacedBlock ℚ} (hc' : blocks'[k]? = some c') (hframe : c'.frame = c.frame)
    (hcontent : memberBoxes nodes' c' ++ childBoxes blocks' k =
      (memberBoxes nodes c ++ childBoxes blocks k).map (·.translate p)) : Carried p c c' := by
  cases hunion : Rect.unionAll? (memberBoxes nodes c ++ childBoxes blocks k) with
  | none =>
    have hnil := Rect.eq_nil_of_unionAll hunion
    rw [hnil, List.map_nil] at hcontent
    have hbox := hbare.hasBox_eq_false hc hnil
    have hbox' := hbare'.hasBox_eq_false hc' hcontent
    exact ⟨hframe, hbox'.trans hbox.symm, fun h => absurd (hbox.symm.trans h) nofun⟩
  | some content =>
    have hunion' := congrArg Rect.unionAll? hcontent
    rw [Rect.unionAll_translate, hunion, Option.map_some] at hunion'
    have htitle : titleRoom spacing c'.frame = titleRoom spacing c.frame := by rw [hframe]
    have hbox : c'.box = c.box.translate p := by
      rw [hfits'.box_eq hc' hunion', hfits.box_eq hc hunion, ← wrap_translate]
      exact congrArg (wrap spacing · _) htitle
    refine ⟨hframe, ?_, fun _ => hbox⟩
    rw [PlacedBlock.hasBox, hbox]
    rfl

/-- In nested blocks the boxes of a block and of those inside it are moved when the nodes that the
block lists are. The induction goes from the last block to the first one, in the order in which
boxes are computed. -/
theorem Fits.carried (hfits : Fits spacing nodes blocks) (hn : Nested blocks)
    (hbare : Bare nodes blocks) (hids : ids.Nodup) (p : Point ℚ) (hc : blocks[k]? = some c)
    (hsub : c.members ⊆ ids) {c' : PlacedBlock ℚ}
    (hc' : (BoxState.fitBlocks spacing (shiftNodes ids p nodes) blocks)[k]? = some c') :
    Carried p c c' := by
  -- from the last block to the first one, as the boxes are computed
  induction hm : blocks.length - k using Nat.strong_induction_on generalizing k c c' with
  | _ m ih =>
    subst hm
    have hframes := frame_fitBlocks spacing (shiftNodes ids p nodes) blocks
    have hframe : c'.frame = c.frame := by
      have hk := congrArg (fun bs : List (PlacedBlock ℚ) => bs[k]?) hframes
      simpa only [List.getElem?_map, hc, hc', Option.map_some, Option.some_inj] using hk
    refine hfits.carried_of_content (fits_fitBlocks _ _ _) hbare
      ((hbare.shiftNodes hids p).fitBlocks hn) hc hc' hframe ?_
    rw [List.map_append]
    congr 1
    · rw [← memberBoxes_shiftNodes hids hsub, memberBoxes, memberBoxes, members_of_frame hframe]
    · refine childBoxes_carried hframes fun j b b' hkj hb hb' hparent => ?_
      obtain ⟨-, a, ha, hsub'⟩ := hn.around j b k hb hparent
      obtain rfl := Option.some.inj (hc.symm.trans ha)
      have hlt := (List.getElem?_eq_some_iff.mp hb).1
      exact ih _ (by omega) hb (List.Subset.trans hsub' hsub) hb' rfl

/-! ## Pushing two siblings apart -/

/-- The block `loser` at position `l` was moved along an axis until it begins a gap behind the end
of the block `winner` at position `w`. -/
structure SetsApart (gap : ℚ) (axis : Axis) (amount : ℚ) (t t' : BoxState ℚ) (w l : Nat)
    (winner loser : PlacedBlock ℚ) : Prop where
  /-- its centre is further along the axis -/
  behind : winner.box.middle axis ≤ loser.box.middle axis
  /-- it is moved forwards -/
  pos : 0 < amount
  /-- along the other axis hardly less would do -/
  least : amount ≤ Rect.need axis.other gap winner.box loser.box + 1 / 1000
  /-- its members move, and no others -/
  nodes : t'.nodes = t.nodes.map fun n =>
    if n.id ∈ loser.members then n.translate (axis.point amount 0) else n
  /-- its box moves as they do -/
  moved : t'.blocks[l]? = some { loser with box := loser.box.translate (axis.point amount 0) }
  /-- the other block stays -/
  stays : t'.blocks[w]? = some winner
  /-- the gap is between them -/
  apart : (loser.box.translate (axis.point amount 0)).low axis = winner.box.high axis + gap

/-- Moving the members of a block moves its box, and leaves that of a sibling. -/
theorem Fits.shiftNodes_siblings (hfits : Fits spacing nodes blocks) (hn : Nested blocks)
    (hbare : Bare nodes blocks) (hij : i ≠ j) (ha : blocks[i]? = some a) (hb : blocks[j]? = some b)
    (hparent : a.parent = b.parent) (hbox : b.hasBox = true) (p : Point ℚ) :
    (BoxState.fitBlocks spacing (shiftNodes b.members p nodes) blocks)[i]? = some a ∧
      (BoxState.fitBlocks spacing (shiftNodes b.members p nodes) blocks)[j]? =
        some { b with box := b.box.translate p } := by
  have hids := hn.once b (List.mem_of_getElem? hb)
  constructor
  · refine hfits.getElem?_fitBlocks hn ha fun id hid => ?_
    rw [placedNode?_shiftNodes hids, if_neg (hn.not_mem hij ha hb hparent hid)]
  · have hframes := frame_fitBlocks spacing (shiftNodes b.members p nodes) blocks
    have hj := congrArg (fun bs : List (PlacedBlock ℚ) => bs[j]?) hframes
    simp only [List.getElem?_map, hb, Option.map_some] at hj
    obtain ⟨b', hb', hframe⟩ := Option.map_eq_some_iff.mp hj
    have hcarried := hfits.carried hn hbare hids p hb (List.Subset.refl _) hb'
    have heq : { b'.frame with box := b'.box } = { b.frame with box := b.box.translate p } := by
      rw [hframe, hcarried.box hbox]
    exact hb'.trans (congrArg some heq)

theorem Fits.setsApart (hfits : Fits spacing t.nodes t.blocks) (hn : Nested t.blocks)
    (hbare : Bare t.nodes t.blocks) (hgap : 0 < gap) (hij : i ≠ j) (ha : t.blocks[i]? = some a)
    (hb : t.blocks[j]? = some b) (hparent : a.parent = b.parent) (hbox : b.hasBox = true)
    (hover : a.box.intersects b.box = true) {axis : Axis}
    (hbehind : a.box.middle axis ≤ b.box.middle axis)
    (hleast : Rect.need axis gap a.box b.box ≤ Rect.need axis.other gap a.box b.box + 1 / 1000) :
    SetsApart gap axis (Rect.need axis gap a.box b.box) t
      ({ t with nodes := shiftNodes b.members (axis.point (Rect.need axis gap a.box b.box) 0) t.nodes
        }.fit spacing) i j a b := by
  obtain ⟨hstays, hmoved⟩ := hfits.shiftNodes_siblings hn hbare hij ha hb hparent hbox
    (axis.point (Rect.need axis gap a.box b.box) 0)
  refine ⟨hbehind, need_pos hgap hover axis, hleast,
    shiftNodes_eq (hn.once b (List.mem_of_getElem? hb)) _ _, hmoved, hstays, ?_⟩
  rw [Rect.low_translate, Rect.need, if_pos hbehind]
  ring

/-- A push of two overlapping siblings sets them apart. -/
theorem Fits.separate_setsApart (hfits : Fits spacing t.nodes t.blocks) (hn : Nested t.blocks)
    (hbare : Bare t.nodes t.blocks) (hgap : 0 < spacing.gap) (d : Direction) (hij : i ≠ j)
    (ha : t.blocks[i]? = some a) (hb : t.blocks[j]? = some b) (hparent : a.parent = b.parent)
    (hboxa : a.hasBox = true) (hboxb : b.hasBox = true)
    (hover : a.box.intersects b.box = true) : ∃ axis amount,
      SetsApart spacing.gap axis amount t (separate d spacing t i j).1 i j a b ∨
        SetsApart spacing.gap axis amount t (separate d spacing t i j).1 j i b a := by
  obtain ⟨axis, hpush, hleast⟩ := push_spec d spacing.gap a.box b.box
  refine ⟨axis, Rect.need axis spacing.gap a.box b.box, ?_⟩
  simp only [separate, ha, hb, hparent, hboxa, hboxb, hover, hpush, beq_self_eq_true,
    Bool.and_self, ↓reduceIte, decide_eq_true_eq]
  by_cases hbehind : a.box.middle axis ≤ b.box.middle axis
  · rw [if_pos hbehind]
    exact .inl (hfits.setsApart hn hbare hgap hij ha hb hparent hboxb hover hbehind hleast)
  · rw [if_neg hbehind]
    rw [Rect.need_comm axis, Rect.need_comm axis.other] at hleast
    rw [Rect.need_comm axis]
    rw [intersects_comm] at hover
    exact .inr (hfits.setsApart hn hbare hgap hij.symm hb ha hparent.symm hboxa hover
      (not_le.mp hbehind).le hleast)

/-! ## A whole run -/

/-- The states that pushes lead to once all boxes were computed. -/
inductive Separating (d : Direction) (spacing : BoxSpacing ℚ) (s : BoxState ℚ) :
    BoxState ℚ → Prop where
  /-- all boxes were computed -/
  | start : Separating d spacing s (s.fit spacing)
  /-- two blocks were pushed apart if they were siblings that overlapped -/
  | push {t : BoxState ℚ} (h : Separating d spacing s t) (i j : Nat) :
      Separating d spacing s (separate d spacing t i j).1

/-- What pushes preserve: the boxes fit, the blocks stay nested and those without content bare. -/
structure Balanced (spacing : BoxSpacing ℚ) (t : BoxState ℚ) : Prop where
  fits : Fits spacing t.nodes t.blocks
  nested : Nested t.blocks
  bare : Bare t.nodes t.blocks

theorem balanced_fit (hn : Nested blocks) (hbare : Bare nodes blocks) :
    (fit ⟨blocks, nodes⟩ spacing).Balanced spacing :=
  ⟨fits_fitBlocks spacing nodes blocks,
    nested_of_sameFrames hn (sameFrames_fit ⟨blocks, nodes⟩ nodes spacing), hbare.fitBlocks hn⟩

theorem Balanced.separate (h : t.Balanced spacing) (d : Direction) (i j : Nat) :
    (separate d spacing t i j).1.Balanced spacing := by
  obtain heq | ⟨loser, hloser, p, heq⟩ := separate_cases d spacing t i j
  · rwa [heq]
  · rw [heq]
    exact balanced_fit h.nested (h.bare.shiftNodes (h.nested.once loser hloser) p)

theorem Separating.balanced (hn : Nested s.blocks) (hbare : Bare s.nodes s.blocks)
    (h : Separating d spacing s t) : t.Balanced spacing := by
  induction h with
  | start => exact balanced_fit hn hbare
  | push _ i j ih => exact ih.separate d i j

/-- **One push separates one pair.** Let the blocks be nested and let no block without known members
have a box. Whatever siblings were pushed apart before, the push of two siblings whose boxes overlap
moves the members of the one that is further along an axis, and no other nodes, forwards along this
axis, by hardly more than the other axis would need. Its box is moved exactly as its members are,
the other box stays, and the gap is between the two. A separation makes such pushes only; and if it
ends before it has used up its passes, no two siblings overlap. -/
theorem separating_push (s : BoxState ℚ) (hn : Nested s.blocks) (hbare : Bare s.nodes s.blocks)
    (d : Direction) (spacing : BoxSpacing ℚ) (hgap : 0 < spacing.gap) :
    (∀ t, Separating d spacing s t → ∀ (i j : Nat) a b, i ≠ j → t.blocks[i]? = some a →
      t.blocks[j]? = some b → a.parent = b.parent → a.hasBox = true → b.hasBox = true →
      a.box.intersects b.box = true → ∃ axis amount,
        SetsApart spacing.gap axis amount t (separate d spacing t i j).1 i j a b ∨
          SetsApart spacing.gap axis amount t (separate d spacing t i j).1 j i b a) ∧
    Separating d spacing s (s.resolveOverlaps d spacing).1 ∧
    ((s.resolveOverlaps d spacing).2 < roundLimit → (s.resolveOverlaps d spacing).1.Separated) := by
  refine ⟨fun t ht i j a b hij ha hb hparent hboxa hboxb hover => ?_, ?_,
    resolveOverlaps_separated⟩
  · obtain ⟨hfits, hn', hbare'⟩ := ht.balanced hn hbare
    exact hfits.separate_setsApart hn' hbare' hgap d hij ha hb hparent hboxa hboxb hover
  · exact separateLoop_induct (P := Separating d spacing s) _ _ .start fun _ i j h => h.push i j

/-- Two blocks with a block in each, one drawn over the other, and a third one beside them. -/
def shelves : BoxState ℚ where
  blocks := [titledBlock "p" ["a"] none, titledBlock "pa" ["a"] (some 0),
    titledBlock "q" ["b", "c"] none, titledBlock "qb" ["b"] (some 2), titledBlock "r" ["x"] none]
  nodes := [boxedNode "a" 0 0 (some "pa"), boxedNode "b" 30 5 (some "qb"),
    boxedNode "c" 90 5 (some "q"), boxedNode "x" 300 0 (some "r")]

theorem nested_shelves : Nested shelves.blocks := by
  refine ⟨by decide, fun i b p hb hp => ?_, by decide⟩
  match i, hb with
  | 0, hb | 2, hb | 4, hb =>
    obtain rfl := Option.some.inj hb
    cases hp
  | 1, hb | 3, hb =>
    obtain rfl := Option.some.inj hb
    obtain rfl := Option.some.inj hp
    exact ⟨by decide, _, rfl, by decide⟩

/-- Pushing the two blocks sets them apart, and then all siblings are. -/
theorem separating_push_shelves : Nested shelves.blocks ∧ Bare shelves.nodes shelves.blocks ∧
    (shelves.fit usualSpacing).overlapAt 0 2 = true ∧
    (∃ a b axis amount,
      SetsApart 8 axis amount (shelves.fit usualSpacing)
          (separate .topDown usualSpacing (shelves.fit usualSpacing) 0 2).1 0 2 a b ∨
        SetsApart 8 axis amount (shelves.fit usualSpacing)
          (separate .topDown usualSpacing (shelves.fit usualSpacing) 0 2).1 2 0 b a) ∧
    (shelves.resolveOverlaps .topDown usualSpacing).2 = 1 ∧
    (shelves.resolveOverlaps .topDown usualSpacing).1.Separated := by
  have hempty : ∀ b ∈ shelves.blocks, b.hasBox = false := by decide +kernel
  have hbare : Bare shelves.nodes shelves.blocks := fun b hb _ => hempty b hb
  have hpasses : (shelves.resolveOverlaps .topDown usualSpacing).2 = 1 := by decide +kernel
  have hover : (shelves.fit usualSpacing).overlapAt 0 2 = true := by decide +kernel
  obtain ⟨hpush, -, hseparated⟩ :=
    separating_push shelves nested_shelves hbare .topDown usualSpacing (by decide)
  refine ⟨nested_shelves, hbare, hover, ?_, hpasses, hseparated (hpasses ▸ by decide)⟩
  unfold overlapAt at hover
  split at hover
  case h_1 a b ha hb =>
    simp only [Bool.and_eq_true, beq_iff_eq] at hover
    obtain ⟨⟨⟨hparent, hboxa⟩, hboxb⟩, hover⟩ := hover
    exact ⟨a, b, hpush _ .start 0 2 a b (by decide) ha hb hparent hboxa hboxb hover⟩
  case h_2 => cases hover

end BoxState

end Flowchart
