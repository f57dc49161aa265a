import Flowchart.Proofs.Boxes.Moving
import Flowchart.Proofs.Boxes.Overlap

/-!
# Nodes that move together

A push moves all members of a block alike, so two nodes with the same home are moved by the same
displacement over a whole run, `settle_carries`, unless one of them is put outside of a block on the
way.
-/

namespace Flowchart

namespace BoxState

variable {d : Direction} {spacing : BoxSpacing ℚ} {s s' s'' : BoxState ℚ}
  {outer : List (PlacedBlock ℚ) → PlacedBlock ℚ → Rect ℚ} {nodes : List (PlacedNode ℚ)}
  {n : PlacedNode ℚ} {a b : PlacedBlock ℚ} {i j : Nat} {ids ids' : List String} {id x y : String}

/-! ## Displacements -/

/-- The node was moved by a displacement, if there is such a node. -/
def MovedBy (s s' : BoxState ℚ) (id : String) (p : Point ℚ) : Prop :=
  placedNode? s'.nodes id = (placedNode? s.nodes id).map (·.translate p)

theorem movedBy_zero (h : placedNode? s'.nodes id = placedNode? s.nodes id) :
    MovedBy s s' id ⟨0, 0⟩ := by
  rw [MovedBy, h]
  cases placedNode? s.nodes id with
  | none => rfl
  | some n => simp only [Option.map_some, PlacedNode.translate, Rect.translate_zero]

theorem MovedBy.trans {p q : Point ℚ} (h : MovedBy s s' id p) (h' : MovedBy s' s'' id q) :
    MovedBy s s'' id (p.add q) := by
  rw [MovedBy] at h h' ⊢
  rw [h', h, Option.map_map]
  cases placedNode? s.nodes id with
  | none => rfl
  | some n =>
    simp only [Option.map_some, Function.comp_apply, PlacedNode.translate,
      Rect.translate_translate]

/-- Each listed node is moved once, and the others stay. -/
theorem placedNode?_shiftNodes (hids : ids.Nodup) (p : Point ℚ) (nodes : List (PlacedNode ℚ))
    (id : String) : placedNode? (shiftNodes ids p nodes) id =
      if id ∈ ids then (placedNode? nodes id).map (·.translate p) else placedNode? nodes id := by
  induction ids generalizing nodes with
  | nil => rfl
  | cons id' ids ih =>
    obtain ⟨hid', hids⟩ := List.nodup_cons.mp hids
    have hfirst := placedNode?_updatePlaced (f := fun n : PlacedNode ℚ => n.translate p)
      (fun _ => rfl) id id' nodes
    refine (ih hids (updatePlaced id' (·.translate p) nodes)).trans ?_
    by_cases heq : id = id'
    · subst heq
      rw [if_neg hid', if_pos List.mem_cons_self]
      exact hfirst.trans (if_pos rfl)
    · rw [if_neg heq] at hfirst
      simp only [List.mem_cons, heq, false_or, hfirst]

/-! ## Moving together -/

/-- Nodes with the same home were moved alike, but for some nodes. -/
structure Carries (ids : List String) (s s' : BoxState ℚ) : Prop where
  frames : SameFrames s s'
  together : ∀ x y, SameHome s.blocks x y → x ∉ ids → y ∉ ids →
    ∃ p, MovedBy s s' x p ∧ MovedBy s s' y p

/-- Blocks with the same frames list the same nodes. -/
theorem sameHome_of_frames (h : SameFrames s s') (hxy : SameHome s.blocks x y) :
    SameHome s'.blocks x y := by
  intro b hb
  obtain ⟨i, hi⟩ := List.getElem?_of_mem hb
  obtain ⟨a, ha, hab⟩ := h.exists_block hi
  rw [← members_of_frame hab]
  exact hxy a (List.mem_of_getElem? ha)

namespace Carries

theorem refl (ids : List String) (s : BoxState ℚ) : Carries ids s s :=
  ⟨.refl s, fun _ _ _ _ _ => ⟨⟨0, 0⟩, movedBy_zero rfl, movedBy_zero rfl⟩⟩

theorem trans (h : Carries ids s s') (h' : Carries ids' s' s'') : Carries (ids ++ ids') s s'' := by
  refine ⟨h.frames.trans h'.frames, fun x y hxy hx hy => ?_⟩
  obtain ⟨hx, hx'⟩ := not_or.mp (mt List.mem_append.mpr hx)
  obtain ⟨hy, hy'⟩ := not_or.mp (mt List.mem_append.mpr hy)
  obtain ⟨p, hxp, hyp⟩ := h.together x y hxy hx hy
  obtain ⟨q, hxq, hyq⟩ := h'.together x y (sameHome_of_frames h.frames hxy) hx' hy'
  exact ⟨p.add q, hxp.trans hxq, hyp.trans hyq⟩

end Carries

/-- Nodes that were not put outside of a block stayed. -/
theorem MovedOnly.carries (h : MovedOnly ids s s') : Carries ids s s' :=
  ⟨h.frames, fun x y _ hx hy =>
    ⟨⟨0, 0⟩, movedBy_zero (h.nodes x hx), movedBy_zero (h.nodes y hy)⟩⟩

/-- A push moves the members of a block alike, and two nodes with the same home are both among them,
or neither is. -/
theorem separate_carries (hn : Nested s.blocks) (d : Direction) (spacing : BoxSpacing ℚ)
    (i j : Nat) : Carries [] s (separate d spacing s i j).1 := by
  obtain heq | ⟨loser, hloser, p, heq⟩ := separate_cases d spacing s i j
  · rw [heq]
    exact .refl [] s
  · rw [heq]
    refine ⟨sameFrames_fit s _ spacing, fun x y hxy _ _ => ?_⟩
    have hshift := placedNode?_shiftNodes (hn.once loser hloser) p s.nodes
    by_cases hx : x ∈ loser.members
    · have hy := (hxy loser hloser).mp hx
      exact ⟨p, (hshift x).trans (if_pos hx), (hshift y).trans (if_pos hy)⟩
    · have hy := mt (hxy loser hloser).mpr hx
      exact ⟨⟨0, 0⟩, movedBy_zero ((hshift x).trans (if_neg hx)),
        movedBy_zero ((hshift y).trans (if_neg hy))⟩

theorem resolveOverlaps_carries (hn : Nested s.blocks) (d : Direction) (spacing : BoxSpacing ℚ) :
    Carries [] s (s.resolveOverlaps d spacing).1 :=
  separateLoop_induct (P := Carries [] s) _ _
    ⟨sameFrames_fit s s.nodes spacing,
      fun _ _ _ _ _ => ⟨⟨0, 0⟩, movedBy_zero rfl, movedBy_zero rfl⟩⟩
    fun _ i j h => h.trans (separate_carries (nested_of_sameFrames hn h.frames) d spacing i j)

/-! ## A whole run -/

/-- The nodes that are put outside of blocks before the last separation of a run. -/
def expelledBefore (d : Direction) (spacing : BoxSpacing ℚ) :
    (left : Nat) → BoxState ℚ → List String
  | 0, _ => []
  | left + 1, s =>
    let separated := (s.resolveOverlaps d spacing).1
    let repelled := separated.repelForeign spacing
    if repelled.2 == 0 then []
    else separated.repelledIn spacing roundLimit ++ expelledBefore d spacing left repelled.1

/-- The nodes that settling puts outside of blocks. -/
def expelled (s : BoxState ℚ) (d : Direction) (spacing : BoxSpacing ℚ) : List String :=
  expelledBefore d spacing (roundLimit - 1) s ++ (s.lastSettled d spacing).1.expelledLast spacing

theorem lastSeparation_carries (hn : Nested s.blocks) (left : Nat) :
    Carries (expelledBefore d spacing left s) s (lastSeparation d spacing left s).1 := by
  induction left generalizing s with
  | zero => exact resolveOverlaps_carries hn d spacing
  | succ left ih =>
    have hseparated := resolveOverlaps_carries hn d spacing
    rw [lastSeparation, expelledBefore]
    by_cases hquiet : ((s.resolveOverlaps d spacing).1.repelForeign spacing).2 = 0
    · simpa only [hquiet, beq_iff_eq, ↓reduceIte] using hseparated
    · simp only [hquiet, beq_iff_eq, ↓reduceIte]
      have hsound : (s.resolveOverlaps d spacing).1.Sound spacing := resolveOverlaps_sound hn
      have hrepelled := hsound.repelForeign.1.carries
      have hrun := hseparated.trans hrepelled
      exact hrun.trans (ih (nested_of_sameFrames hn hrun.frames))

/-- Nodes with the same home that are never put outside of a block are moved alike. -/
theorem settle_carries (hn : Nested s.blocks) (d : Direction) (spacing : BoxSpacing ℚ) :
    Carries (s.expelled d spacing) s (s.settle d spacing).1 := by
  have hlast := (lastSettled_sound hn d spacing).1.finishSettling.1
  rw [settle_eq]
  exact (lastSeparation_carries hn (roundLimit - 1)).trans hlast.carries

end BoxState

end Flowchart
