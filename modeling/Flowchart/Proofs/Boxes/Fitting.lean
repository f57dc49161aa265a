import Flowchart.Proofs.Boxes.Nesting

/-!
# Fitted boxes

The boxes of a state are fitted if each is what its members and the boxes right inside it make it,
`boxFor`. A block comes before the blocks inside it, so computing all boxes from the last block to
the first one fits them; and fitted boxes stay what they are when they are computed once more. If
some nodes were moved in between, the boxes of the blocks that list none of them still stay,
`Fits.getElem?_fitBlocks`: in nested blocks, what a box depends on is listed by its block.
-/

namespace Flowchart

variable {α : Type} [Scalar α]

/-- Everything about a block but its box. -/
def PlacedBlock.frame (b : PlacedBlock α) : PlacedBlock α := { b with box := Rect.empty }

/-- Blocks with the same frame list the same nodes. -/
theorem members_of_frame {a b : PlacedBlock α} (h : a.frame = b.frame) : a.members = b.members := by
  have hmembers := congrArg PlacedBlock.members h
  exact hmembers

theorem parent_of_frame {a b : PlacedBlock α} (h : a.frame = b.frame) : a.parent = b.parent := by
  have hparent := congrArg PlacedBlock.parent h
  exact hparent

namespace BoxState

variable {spacing : BoxSpacing α} {nodes nodes' : List (PlacedNode α)}
  {blocks blocks' : List (PlacedBlock α)} {b : PlacedBlock α} {i k : Nat}

/-! ## The box a block should have -/

/-- The box that the content of the block at position `i` asks for; a block without content keeps
the one it has. -/
def boxFor (spacing : BoxSpacing α) (nodes : List (PlacedNode α)) (blocks : List (PlacedBlock α))
    (i : Nat) (b : PlacedBlock α) : Rect α :=
  match Rect.unionAll? (memberBoxes nodes b ++ childBoxes blocks i) with
  | none => b.box
  | some content => wrap spacing (titleRoom spacing b) content

theorem fitBlock_eq (spacing : BoxSpacing α) (nodes : List (PlacedNode α))
    (blocks : List (PlacedBlock α)) (i : Nat) : fitBlock spacing nodes blocks i =
      blocks.modify i fun b => { b with box := boxFor spacing nodes blocks i b } := by
  apply List.ext_getElem?
  intro j
  rw [List.getElem?_modify]
  cases hi : blocks[i]? with
  | none =>
    rw [show fitBlock spacing nodes blocks i = blocks by rw [fitBlock, hi]]
    by_cases hij : i = j
    · rw [← hij, hi]
      rfl
    · simp [hij]
  | some b =>
    have hlt := (List.getElem?_eq_some_iff.mp hi).1
    have hset : fitBlock spacing nodes blocks i =
        blocks.set i { b with box := boxFor spacing nodes blocks i b } := by
      cases hcontent : Rect.unionAll? (memberBoxes nodes b ++ childBoxes blocks i) with
      | none =>
        simp only [fitBlock, hi, boxFor, hcontent]
        obtain ⟨-, rfl⟩ := List.getElem?_eq_some_iff.mp hi
        exact (List.set_getElem_self hlt).symm
      | some content => simp only [fitBlock, hi, boxFor, hcontent]
    rw [hset]
    by_cases hij : i = j
    · subst hij
      rw [List.getElem?_set_self hlt, hi]
      simp
    · simp [hij]

theorem frame_fitBlock (spacing : BoxSpacing α) (nodes : List (PlacedNode α))
    (blocks : List (PlacedBlock α)) (i : Nat) :
    (fitBlock spacing nodes blocks i).map PlacedBlock.frame = blocks.map PlacedBlock.frame := by
  rw [fitBlock_eq]
  apply List.ext_getElem?
  intro j
  rw [List.getElem?_map, List.getElem?_map, List.getElem?_modify]
  by_cases hij : i = j
  · cases blocks[j]? <;> simp [hij, PlacedBlock.frame]
  · simp [hij]

/-- Computing boxes changes nothing else about the blocks. -/
theorem frame_fitBlocks (spacing : BoxSpacing α) (nodes : List (PlacedNode α))
    (blocks : List (PlacedBlock α)) :
    (fitBlocks spacing nodes blocks).map PlacedBlock.frame = blocks.map PlacedBlock.frame :=
  List.foldlRecOn (motive := fun bs => bs.map PlacedBlock.frame = blocks.map PlacedBlock.frame)
    _ _ rfl fun bs hbs i _ => (frame_fitBlock spacing nodes bs i).trans hbs

/-! ## Fitting -/

/-- The blocks from position `k` on have the boxes they should have. -/
def FitsFrom (spacing : BoxSpacing α) (nodes : List (PlacedNode α)) (blocks : List (PlacedBlock α))
    (k : Nat) : Prop :=
  ∀ (i : Nat) b, k ≤ i → blocks[i]? = some b → b.box = boxFor spacing nodes blocks i b

/-- All blocks have the boxes they should have. -/
def Fits (spacing : BoxSpacing α) (nodes : List (PlacedNode α)) (blocks : List (PlacedBlock α)) :
    Prop :=
  FitsFrom spacing nodes blocks 0

/-- What a box depends on lies behind its block. -/
theorem boxFor_congr (h : blocks'.drop (i + 1) = blocks.drop (i + 1)) (b : PlacedBlock α) :
    boxFor spacing nodes blocks' i b = boxFor spacing nodes blocks i b := by
  rw [boxFor, boxFor, childBoxes, childBoxes, h]

/-- Computing the box of a block makes it fit, since the new box depends on everything but the old
one, and the later boxes stay as they were. -/
theorem FitsFrom.fitBlock (h : FitsFrom spacing nodes blocks (k + 1)) :
    FitsFrom spacing nodes (fitBlock spacing nodes blocks k) k := by
  intro i b hki hi
  rw [fitBlock_eq] at hi ⊢
  rw [boxFor_congr (List.drop_modify_of_lt _ _ _ _ (by omega))]
  rw [List.getElem?_modify] at hi
  rcases Nat.eq_or_lt_of_le hki with rfl | hlt
  · obtain ⟨b', hb', rfl⟩ := Option.map_eq_some_iff.mp hi
    simp only [↓reduceIte, boxFor, memberBoxes, titleRoom]
    split <;> rfl
  · exact h i b hlt (by simpa [Nat.ne_of_lt hlt] using hi)

/-- A box that fits is wrapped around the content of its block. -/
theorem Fits.box_eq (h : Fits spacing nodes blocks) (hb : blocks[i]? = some b) {content : Rect α}
    (hcontent : Rect.unionAll? (memberBoxes nodes b ++ childBoxes blocks i) = some content) :
    b.box = wrap spacing (titleRoom spacing b) content := by
  rw [h i b (Nat.zero_le i) hb, boxFor, hcontent]

/-- Computed from the last block to the first one, all boxes fit. -/
theorem fits_fitBlocks (spacing : BoxSpacing α) (nodes : List (PlacedNode α))
    (blocks : List (PlacedBlock α)) : Fits spacing nodes (fitBlocks spacing nodes blocks) := by
  have hfold : ∀ (k : Nat) (blocks : List (PlacedBlock α)), FitsFrom spacing nodes blocks k →
      Fits spacing nodes ((List.range k).reverse.foldl (fitBlock spacing nodes) blocks) := by
    intro k
    induction k with
    | zero => exact fun blocks h => h
    | succ k ih =>
      intro blocks h
      rw [List.range_succ, List.reverse_append]
      exact ih _ h.fitBlock
  refine hfold _ _ fun i b hle hi => ?_
  rw [List.getElem?_eq_none hle] at hi
  cases hi

theorem Fits.fitBlock (h : Fits spacing nodes blocks) (i : Nat) :
    fitBlock spacing nodes blocks i = blocks := by
  rw [fitBlock_eq]
  apply List.ext_getElem?
  intro j
  rw [List.getElem?_modify]
  by_cases hij : i = j
  · subst hij
    cases hi : blocks[i]? with
    | none => rfl
    | some b => simp [← h i b (Nat.zero_le i) hi]
  · simp [hij]

/-- Boxes that fit are not changed by fitting them again, so fitting twice is fitting once. -/
theorem Fits.fitBlocks (h : Fits spacing nodes blocks) : fitBlocks spacing nodes blocks = blocks :=
  List.foldlRecOn (motive := fun bs => bs = blocks) _ _ rfl fun _ hbs i _ =>
    (congrArg (fun bs => BoxState.fitBlock spacing nodes bs i) hbs).trans (h.fitBlock i)

/-! ## Moving other nodes -/

/-- The members of a block are the same in two lists of nodes. -/
def SameMembers (nodes nodes' : List (PlacedNode α)) (b : PlacedBlock α) : Prop :=
  ∀ id ∈ b.members, placedNode? nodes' id = placedNode? nodes id

omit [Scalar α] in
theorem SameMembers.memberBoxes_eq (h : SameMembers nodes nodes' b) :
    memberBoxes nodes' b = memberBoxes nodes b :=
  List.filterMap_congr fun id hid => by rw [h id hid]

theorem childBoxes_eq (blocks : List (PlacedBlock α)) (i : Nat) : childBoxes blocks i =
    ((blocks.drop (i + 1)).map fun c =>
      if c.parent == some i && c.hasBox then some c.box else none).filterMap id := by
  rw [childBoxes]
  induction blocks.drop (i + 1) with
  | nil => rfl
  | cons c rest ih =>
    cases hc : c.parent == some i && c.hasBox <;> simp_all

/-- The boxes inside a block are the same if the blocks inside it are. -/
theorem childBoxes_congr (hframe : blocks'.map PlacedBlock.frame = blocks.map PlacedBlock.frame)
    (hsame : ∀ (j : Nat) c, blocks[j]? = some c → c.parent = some i → blocks'[j]? = some c) :
    childBoxes blocks' i = childBoxes blocks i := by
  rw [childBoxes_eq, childBoxes_eq]
  congr 1
  apply List.ext_getElem?
  intro j
  rw [List.getElem?_map, List.getElem?_map, List.getElem?_drop, List.getElem?_drop]
  have hj := congrArg (fun bs : List (PlacedBlock α) => bs[i + 1 + j]?) hframe
  simp only [List.getElem?_map] at hj
  cases hc : blocks[i + 1 + j]? with
  | none =>
    rw [hc, Option.map_none, Option.map_eq_none_iff] at hj
    rw [hj]
  | some c =>
    rw [hc, Option.map_some] at hj
    obtain ⟨c', hc', hcc'⟩ := Option.map_eq_some_iff.mp hj
    by_cases hparent : c.parent = some i
    · rw [hsame _ c hc hparent]
    · have hparent' : ¬ c'.parent = some i := fun h => hparent (parent_of_frame hcc' ▸ h)
      simp [hc', hparent, hparent']

/-- Boxes that fit stay where they are if other nodes are moved: those of the blocks all of whose
members are the same. The blocks inside such a block list some of its members only, so their members
are the same, too. -/
theorem Fits.getElem?_fitBlocks (h : Fits spacing nodes blocks) (hn : Nested blocks)
    (hb : blocks[i]? = some b) (hm : SameMembers nodes nodes' b) :
    (BoxState.fitBlocks spacing nodes' blocks)[i]? = some b := by
  suffices hfold : (BoxState.fitBlocks spacing nodes' blocks).map PlacedBlock.frame =
      blocks.map PlacedBlock.frame ∧ ∀ (j : Nat) c, blocks[j]? = some c →
        SameMembers nodes nodes' c → (BoxState.fitBlocks spacing nodes' blocks)[j]? = some c from
    hfold.2 i b hb hm
  refine List.foldlRecOn (motive := fun bs => bs.map PlacedBlock.frame =
    blocks.map PlacedBlock.frame ∧ ∀ (j : Nat) c, blocks[j]? = some c →
      SameMembers nodes nodes' c → bs[j]? = some c) _ _ ⟨rfl, fun _ _ hc _ => hc⟩ ?_
  rintro bs ⟨hframe, hsame⟩ k -
  refine ⟨(frame_fitBlock spacing nodes' bs k).trans hframe, fun j c hc hmc => ?_⟩
  rw [fitBlock_eq, List.getElem?_modify, hsame j c hc hmc]
  by_cases hkj : k = j
  · subst hkj
    have hinside : childBoxes bs k = childBoxes blocks k := childBoxes_congr hframe
      fun l c' hc' hparent => by
        obtain ⟨-, a, ha, hsub⟩ := hn.around l c' k hc' hparent
        obtain rfl := Option.some.inj (hc.symm.trans ha)
        exact hsame l c' hc' fun id hid => hmc id (hsub hid)
    have hbox : boxFor spacing nodes' bs k c = c.box := by
      rw [boxFor, hmc.memberBoxes_eq, hinside]
      exact (h k c (Nat.zero_le k) hc).symm
    simp [hbox]
  · simp [hkj]

/-! ## Fitted states -/

variable {s : BoxState α}

/-- The boxes of the state fit. -/
def Fitted (s : BoxState α) (spacing : BoxSpacing α) : Prop := Fits spacing s.nodes s.blocks

theorem fitted_fit (s : BoxState α) (spacing : BoxSpacing α) : (s.fit spacing).Fitted spacing :=
  fits_fitBlocks spacing s.nodes s.blocks

theorem Fitted.fit_eq (h : s.Fitted spacing) : s.fit spacing = s := by
  rw [fit, h.fitBlocks]

end BoxState

end Flowchart
