import Flowchart.Proofs.Boxes.Fitting
import Flowchart.Proofs.Scalar.Exact

/-!
# Settling separates siblings

A pass over all pairs that pushes nothing has found every two siblings apart. So the boxes are
separated whenever a separation ends before its passes are used up. What follows the last separation
of a run only puts nodes outside of boxes, and a box stays where it is unless a member of its block
is put outside of another one. So two siblings are apart in the end if the last separation did not
use up its passes and no member of the two was put outside after it, `settle_separates`.

Neither condition can be dropped. A row of blocks in the wrong order can need more passes than there
are, and a node that is put outside of the boxes inside its own block can stretch this block into
the next one.
-/

namespace Flowchart.BoxState

variable {α : Type} [Scalar α] {d : Direction} {spacing : BoxSpacing α} {s s' : BoxState α}
  {outer : List (PlacedBlock α) → PlacedBlock α → Rect α} {nodes : List (PlacedNode α)}
  {b : PlacedBlock α} {i j : Nat} {ids : List String} {id : String}

/-! ## Frames -/

/-- The blocks are the same but for their boxes. -/
def SameFrames (s s' : BoxState α) : Prop :=
  s'.blocks.map PlacedBlock.frame = s.blocks.map PlacedBlock.frame

namespace SameFrames

theorem refl (s : BoxState α) : SameFrames s s := rfl

theorem trans {s'' : BoxState α} (h : SameFrames s s') (h' : SameFrames s' s'') :
    SameFrames s s'' :=
  Eq.trans h' h

theorem symm (h : SameFrames s s') : SameFrames s' s := Eq.symm h

/-- A block of the later state is one of the earlier state with another box. -/
theorem exists_block (h : SameFrames s s') (hi : s'.blocks[i]? = some b) :
    ∃ a, s.blocks[i]? = some a ∧ a.frame = b.frame := by
  have hf := congrArg (fun bs : List (PlacedBlock α) => bs[i]?) h
  simp only [List.getElem?_map, hi, Option.map_some] at hf
  exact Option.map_eq_some_iff.mp hf.symm

end SameFrames

/-- Computing the boxes again changes boxes only, so the blocks keep their members and their
parents. -/
theorem sameFrames_fit (s : BoxState α) (nodes : List (PlacedNode α)) (spacing : BoxSpacing α) :
    SameFrames s ({ s with nodes := nodes }.fit spacing) :=
  frame_fitBlocks spacing nodes s.blocks

/-- Blocks stay nested when only their boxes change, since nesting is a matter of members and
parents. -/
theorem nested_of_sameFrames (hn : Nested s.blocks) (h : SameFrames s s') : Nested s'.blocks := by
  constructor
  case once =>
    intro b hb
    obtain ⟨i, hi⟩ := List.getElem?_of_mem hb
    obtain ⟨a, ha, hab⟩ := h.exists_block hi
    rw [← members_of_frame hab]
    exact hn.once a (List.mem_of_getElem? ha)
  case around =>
    intro i b p hb hp
    obtain ⟨a, ha, hab⟩ := h.exists_block hb
    rw [← parent_of_frame hab] at hp
    obtain ⟨hlt, c, hc, hsub⟩ := hn.around i a p ha hp
    obtain ⟨c', hc', hcc'⟩ := h.symm.exists_block hc
    rw [← members_of_frame hab]
    exact ⟨hlt, c', hc', members_of_frame hcc' ▸ hsub⟩
  case apart =>
    have hframes : (s'.blocks.map PlacedBlock.frame).Pairwise fun a b =>
        a.parent = b.parent → ∀ id ∈ a.members, id ∉ b.members := by
      rw [h]
      exact List.pairwise_map.mpr hn.apart
    exact List.pairwise_map.mp hframes

/-! ## Separation -/

/-- No two siblings that have a box overlap. -/
def Separated (s : BoxState α) : Prop :=
  ∀ (i j : Nat) a b, i ≠ j → s.blocks[i]? = some a → s.blocks[j]? = some b →
    a.parent = b.parent → a.hasBox = true → b.hasBox = true → a.box.intersects b.box = false

/-- No two siblings that have a box overlap, those aside that list one of some nodes. -/
def SeparatedBut (s : BoxState α) (ids : List String) : Prop :=
  ∀ (i j : Nat) a b, i ≠ j → s.blocks[i]? = some a → s.blocks[j]? = some b →
    a.parent = b.parent → a.hasBox = true → b.hasBox = true →
    (∀ id ∈ ids, id ∉ a.members ∧ id ∉ b.members) → a.box.intersects b.box = false

theorem intersects_comm (a b : Rect α) : a.intersects b = b.intersects a := by
  simp only [Rect.intersects]
  cases decide (a.x < b.right) <;> cases decide (b.x < a.right) <;>
    cases decide (a.y < b.bottom) <;> cases decide (b.y < a.bottom) <;> rfl

/-- A pair that is not pushed is apart, and the state stays. -/
theorem separate_quiet (h : (separate d spacing s i j).2 = false) :
    (separate d spacing s i j).1 = s ∧ ∀ a b, s.blocks[i]? = some a → s.blocks[j]? = some b →
      a.parent = b.parent → a.hasBox = true → b.hasBox = true → a.box.intersects b.box = false := by
  unfold separate at h ⊢
  split
  · rename_i a b ha hb
    simp only [ha, hb] at h ⊢
    split
    · rename_i hpush
      rw [if_pos hpush] at h
      cases h
    · rename_i hpush
      refine ⟨rfl, fun a' b' ha' hb' hparent hboxa hboxb => ?_⟩
      obtain rfl := Option.some.inj ha'
      obtain rfl := Option.some.inj hb'
      simpa [hparent, hboxa, hboxb] using hpush
  · rename_i hnone
    exact ⟨rfl, fun a b ha hb => (hnone a b ha hb).elim⟩

/-- A push moves the members of a block alike and computes the boxes again; without one the state
stays. -/
theorem separate_cases (d : Direction) (spacing : BoxSpacing α) (s : BoxState α) (i j : Nat) :
    (separate d spacing s i j).1 = s ∨ ∃ loser ∈ s.blocks, ∃ p : Point α,
      (separate d spacing s i j).1 =
        { s with nodes := shiftNodes loser.members p s.nodes }.fit spacing := by
  unfold separate
  split
  case h_2 => exact .inl rfl
  case h_1 a b ha hb =>
    split
    case isFalse => exact .inl rfl
    case isTrue =>
      refine .inr ⟨_, ?_, _, rfl⟩
      split
      · exact List.mem_of_getElem? hb
      · exact List.mem_of_getElem? ha

/-- Whether a pair is pushed or not, the blocks differ in their boxes only. -/
theorem separate_sameFrames (d : Direction) (spacing : BoxSpacing α) (s : BoxState α) (i j : Nat) :
    SameFrames s (separate d spacing s i j).1 := by
  obtain heq | ⟨loser, -, p, heq⟩ := separate_cases d spacing s i j
  · rw [heq]
    exact .refl s
  · rw [heq]
    exact sameFrames_fit s _ spacing

/-- Boxes that fit do so after a push, since they are computed again at its end. -/
theorem Fitted.separate (h : s.Fitted spacing) : (separate d spacing s i j).1.Fitted spacing := by
  obtain heq | ⟨loser, -, p, heq⟩ := separate_cases d spacing s i j
  · rw [heq]
    exact h
  · rw [heq]
    exact fitted_fit _ spacing

theorem mem_pairsBelow {n : Nat} : (i, j) ∈ pairsBelow n ↔ i < j ∧ j < n := by
  simp only [pairsBelow, List.mem_flatMap, List.mem_map, Prod.mk.injEq, List.range_eq_range',
    List.drop_range', List.mem_range']
  constructor
  · rintro ⟨_, ⟨i', hi', rfl⟩, _, ⟨k, hk, rfl⟩, rfl, rfl⟩
    omega
  · rintro ⟨hij, hj⟩
    exact ⟨i, ⟨i, by omega, by omega⟩, j, ⟨j - (i + 1), by omega, by omega⟩, rfl, rfl⟩

/-- One pair of a pass. -/
def separatePair (d : Direction) (spacing : BoxSpacing α) (t : BoxState α × Bool) (p : Nat × Nat) :
    BoxState α × Bool :=
  ((separate d spacing t.1 p.1 p.2).1, t.2 || (separate d spacing t.1 p.1 p.2).2)

theorem separateAll_eq (d : Direction) (spacing : BoxSpacing α) (s : BoxState α) :
    separateAll d spacing s =
      (pairsBelow s.blocks.length).foldl (separatePair d spacing) (s, false) :=
  rfl

/-- Pairs none of which is pushed leave the state alone, and no push is reported for any of them.
Pushes are only ever added to the report, so a quiet end has a quiet beginning. -/
theorem foldl_separatePair_quiet (pairs : List (Nat × Nat)) (t : BoxState α × Bool)
    (h : (pairs.foldl (separatePair d spacing) t).2 = false) :
    (pairs.foldl (separatePair d spacing) t).1 = t.1 ∧ t.2 = false ∧
      ∀ p ∈ pairs, (separate d spacing t.1 p.1 p.2).2 = false := by
  induction pairs generalizing t with
  | nil => exact ⟨rfl, h, nofun⟩
  | cons p pairs ih =>
    obtain ⟨hsame, hmoved, hrest⟩ := ih _ h
    obtain ⟨hmoved, hnow⟩ := Bool.or_eq_false_iff.mp hmoved
    have hstay : (separatePair d spacing t p).1 = t.1 := (separate_quiet hnow).1
    rw [hstay] at hsame hrest
    exact ⟨hsame, hmoved, List.forall_mem_cons.mpr ⟨hnow, hrest⟩⟩

/-- A pass that pushes no pair has found all siblings apart. -/
theorem separateAll_quiet (h : (separateAll d spacing s).2 = false) :
    (separateAll d spacing s).1 = s ∧ s.Separated := by
  rw [separateAll_eq] at h ⊢
  obtain ⟨hsame, -, hpairs⟩ := foldl_separatePair_quiet _ (s, false) h
  refine ⟨hsame, fun i j a b hij ha hb hparent hboxa hboxb => ?_⟩
  have hi := (List.getElem?_eq_some_iff.mp ha).1
  have hj := (List.getElem?_eq_some_iff.mp hb).1
  rcases Nat.lt_or_gt_of_ne hij with hlt | hgt
  · exact (separate_quiet (hpairs (i, j) (mem_pairsBelow.mpr ⟨hlt, hj⟩))).2 a b ha hb hparent
      hboxa hboxb
  · rw [intersects_comm]
    exact (separate_quiet (hpairs (j, i) (mem_pairsBelow.mpr ⟨hgt, hi⟩))).2 b a hb ha hparent.symm
      hboxb hboxa

/-- What every push of a pass preserves, the pass preserves. -/
theorem separateAll_induct {P : BoxState α → Prop} (h : P s)
    (hstep : ∀ s i j, P s → P (separate d spacing s i j).1) : P (separateAll d spacing s).1 := by
  rw [separateAll_eq]
  exact List.foldlRecOn (motive := fun t : BoxState α × Bool => P t.1) _ _ h
    fun t ht p _ => hstep t.1 p.1 p.2 ht

/-- What every push preserves, a separation preserves, however many passes it makes. -/
theorem separateLoop_induct {P : BoxState α → Prop} (left passes : Nat) (h : P s)
    (hstep : ∀ s i j, P s → P (separate d spacing s i j).1) :
    P (separateLoop d spacing left passes s).1 := by
  induction left generalizing passes s with
  | zero => exact h
  | succ left ih =>
    have hpass : P (separateAll d spacing s).1 := separateAll_induct h hstep
    rw [separateLoop]
    cases hmoved : (separateAll d spacing s).2 with
    | true => simpa only [hmoved, ↓reduceIte] using ih (passes + 1) hpass
    | false => simpa only [hmoved, Bool.false_eq_true, ↓reduceIte] using hpass

/-- A separation that ends before its last pass ends with a pass that pushes nothing, and such a
pass has found all siblings apart. -/
theorem separateLoop_separated (left passes : Nat)
    (h : (separateLoop d spacing left passes s).2 < passes + left) :
    (separateLoop d spacing left passes s).1.Separated := by
  induction left generalizing passes s with
  | zero => exact absurd h (Nat.lt_irrefl _)
  | succ left ih =>
    rw [separateLoop] at h ⊢
    cases hmoved : (separateAll d spacing s).2 with
    | true =>
      simp only [hmoved, ↓reduceIte] at h ⊢
      exact ih _ (by omega)
    | false =>
      simp only [hmoved, Bool.false_eq_true, ↓reduceIte]
      obtain ⟨hsame, hseparated⟩ := separateAll_quiet hmoved
      rwa [hsame]

/-- A separation that does not use up its passes separates. -/
theorem resolveOverlaps_separated (h : (s.resolveOverlaps d spacing).2 < roundLimit) :
    (s.resolveOverlaps d spacing).1.Separated :=
  separateLoop_separated roundLimit 0 (by rwa [Nat.zero_add])

/-- The boxes fit when a separation begins, and after every push. -/
theorem resolveOverlaps_fitted (s : BoxState α) (d : Direction) (spacing : BoxSpacing α) :
    (s.resolveOverlaps d spacing).1.Fitted spacing :=
  separateLoop_induct (P := fun s => s.Fitted spacing) _ _ (fitted_fit s spacing)
    fun _ _ _ h => h.separate

/-- A separation changes the boxes of the blocks only. -/
theorem resolveOverlaps_sameFrames (s : BoxState α) (d : Direction) (spacing : BoxSpacing α) :
    SameFrames s (s.resolveOverlaps d spacing).1 :=
  separateLoop_induct (P := SameFrames s) _ _ (sameFrames_fit s s.nodes spacing)
    fun s' i j h => h.trans (separate_sameFrames d spacing s' i j)

/-! ## Putting nodes outside -/

/-- The nodes that the turn of the block at position `i` puts outside of it. -/
def expelledAt (s : BoxState α) (i : Nat) : List String :=
  match s.blocks[i]? with
  | none => []
  | some b => if b.hasBox then s.intruders b else []

theorem expelledAt_eq (hb : s.blocks[i]? = some b) :
    s.expelledAt i = if b.hasBox then s.intruders b else [] := by
  simp only [expelledAt, hb]

/-- Puts nodes outside a box and computes the boxes again. -/
def putOutside (s : BoxState α) (spacing : BoxSpacing α) (box : Rect α) (ids : List String) :
    BoxState α :=
  { s with nodes := evict spacing.gap box ids s.nodes }.fit spacing

/-- The turn of the block at position `i`, without the count. -/
def expel (spacing : BoxSpacing α) (outer : List (PlacedBlock α) → PlacedBlock α → Rect α)
    (s : BoxState α) (i : Nat) : BoxState α :=
  match s.blocks[i]? with
  | none => s
  | some b =>
    if (s.expelledAt i).isEmpty then s
    else s.putOutside spacing (outer s.blocks b) (s.expelledAt i)

/-- One turn of putting nodes outside is written with what it expels, so that the state and the
count can be followed apart. -/
theorem evictIntruders_eq (spacing : BoxSpacing α)
    (outer : List (PlacedBlock α) → PlacedBlock α → Rect α) (s : BoxState α) (count i : Nat) :
    evictIntruders spacing outer (s, count) i =
      (s.expel spacing outer i, count + (s.expelledAt i).length) := by
  cases hb : s.blocks[i]? with
  | none => simp only [evictIntruders, expel, expelledAt, hb, List.length_nil, Nat.add_zero]
  | some b =>
    cases hbox : b.hasBox with
    | false => simp [evictIntruders, expel, expelledAt, hb, hbox]
    | true =>
      by_cases hids : s.intruders b = [] <;>
        simp [evictIntruders, expel, expelledAt, putOutside, hb, hbox, hids]

/-- A turn that has nothing to expel leaves the state as it is. -/
theorem expel_of_nil (h : s.expelledAt i = []) : s.expel spacing outer i = s := by
  rw [expel, h]
  split <;> rfl

/-- A turn puts nodes outside of a block that has a box, or changes nothing. -/
theorem expel_cases (spacing : BoxSpacing α)
    (outer : List (PlacedBlock α) → PlacedBlock α → Rect α) (s : BoxState α) (i : Nat) :
    s.expelledAt i = [] ∧ s.expel spacing outer i = s ∨
    ∃ b, s.blocks[i]? = some b ∧ b.hasBox = true ∧ s.expelledAt i = s.intruders b ∧
      s.expel spacing outer i = s.putOutside spacing (outer s.blocks b) (s.intruders b) := by
  by_cases hnil : s.expelledAt i = []
  · exact .inl ⟨hnil, expel_of_nil hnil⟩
  · cases hb : s.blocks[i]? with
    | none => exact absurd (by simp only [expelledAt, hb]) hnil
    | some b =>
      rw [expelledAt_eq hb] at hnil
      cases hbox : b.hasBox with
      | false => simp [hbox] at hnil
      | true =>
        rw [if_pos hbox] at hnil
        have hids : s.expelledAt i = s.intruders b := by rw [expelledAt_eq hb, if_pos hbox]
        have hne : ¬ (s.intruders b).isEmpty = true := by simpa using hnil
        refine .inr ⟨b, rfl, hbox, hids, ?_⟩
        simp only [expel, hb, hids, if_neg hne]

/-- The nodes that a run of turns puts outside of blocks. -/
def expelledIn (spacing : BoxSpacing α) (outer : List (PlacedBlock α) → PlacedBlock α → Rect α) :
    List Nat → BoxState α → List String
  | [], _ => []
  | i :: turns, s => s.expelledAt i ++ expelledIn spacing outer turns (s.expel spacing outer i)

/-- Turns put nodes outside one after the other, and the count is the number of all that are put
outside. -/
theorem foldl_evictIntruders (spacing : BoxSpacing α)
    (outer : List (PlacedBlock α) → PlacedBlock α → Rect α) (turns : List Nat) (s : BoxState α)
    (count : Nat) :
    turns.foldl (evictIntruders spacing outer) (s, count) =
      (turns.foldl (expel spacing outer) s,
        count + (expelledIn spacing outer turns s).length) := by
  induction turns generalizing s count with
  | nil => rfl
  | cons i turns ih =>
    rw [List.foldl_cons, evictIntruders_eq, ih, List.foldl_cons, expelledIn, List.length_append,
      Nat.add_assoc]

/-- If nothing is put outside in a row of turns, each of them has found nothing to expel, and the
state is the one before. -/
theorem foldl_expel_of_nil {turns : List Nat} (h : expelledIn spacing outer turns s = []) :
    turns.foldl (expel spacing outer) s = s ∧ ∀ i ∈ turns, s.expelledAt i = [] := by
  induction turns with
  | nil => exact ⟨rfl, nofun⟩
  | cons i turns ih =>
    obtain ⟨hnow, hlater⟩ := List.append_eq_nil_iff.mp h
    rw [expel_of_nil hnow] at hlater
    rw [List.foldl_cons, expel_of_nil hnow]
    obtain ⟨hsame, hall⟩ := ih hlater
    exact ⟨hsame, List.forall_mem_cons.mpr ⟨hnow, hall⟩⟩

/-- The box of a block, as the box to put nodes outside of. -/
def ownBox (_ : List (PlacedBlock α)) (b : PlacedBlock α) : Rect α := b.box

/-- The nodes that rounds of turns put outside of blocks. -/
def repelledIn (spacing : BoxSpacing α) : (left : Nat) → BoxState α → List String
  | 0, _ => []
  | left + 1, s =>
    let turns := List.range s.blocks.length
    s.expelledIn spacing ownBox turns ++
      repelledIn spacing left (turns.foldl (expel spacing ownBox) s)

theorem repelOnce_eq (s : BoxState α) (spacing : BoxSpacing α) : s.repelOnce spacing =
    ((List.range s.blocks.length).foldl (expel spacing ownBox) s,
      (s.expelledIn spacing ownBox (List.range s.blocks.length)).length) := by
  have hfold := foldl_evictIntruders spacing ownBox (List.range s.blocks.length) s 0
  rwa [Nat.zero_add] at hfold

theorem evictPastSiblings_eq (s : BoxState α) (spacing : BoxSpacing α) :
    (s.evictPastSiblings spacing).1 =
      (List.range s.blocks.length).foldl (expel spacing siblingBounds) s := by
  have hfold := foldl_evictIntruders spacing siblingBounds (List.range s.blocks.length) s 0
  exact congrArg Prod.fst hfold

/-- Where nothing is put outside in a round, nothing ever is. -/
theorem repelledIn_of_nil (h : s.expelledIn spacing ownBox (List.range s.blocks.length) = [])
    (left : Nat) : s.repelledIn spacing left = [] := by
  induction left with
  | zero => rfl
  | succ left ih => rw [repelledIn, h, (foldl_expel_of_nil h).1, ih, List.nil_append]

/-- The number that the rounds report is that of the nodes they put outside, which is what the last
round is recognised by. -/
theorem repelLoop_snd (left count : Nat) (s : BoxState α) :
    (repelLoop spacing left count s).2 = count + (s.repelledIn spacing left).length := by
  induction left generalizing count s with
  | zero => rfl
  | succ left ih =>
    rw [repelLoop, repelledIn, repelOnce_eq]
    by_cases hnil : s.expelledIn spacing ownBox (List.range s.blocks.length) = []
    · simp [hnil, (foldl_expel_of_nil hnil).1, repelledIn_of_nil hnil]
    · have hne : (s.expelledIn spacing ownBox (List.range s.blocks.length)).length ≠ 0 := by
        simpa using hnil
      simp only [beq_iff_eq, if_neg hne]
      rw [ih, List.length_append, Nat.add_assoc]

theorem repelForeign_snd (s : BoxState α) (spacing : BoxSpacing α) :
    (s.repelForeign spacing).2 = (s.repelledIn spacing roundLimit).length :=
  (repelLoop_snd roundLimit 0 s).trans (Nat.zero_add _)

/-- What every turn preserves, the rounds preserve, however many of them are made. -/
theorem repelLoop_induct {P : BoxState α → Prop} (left count : Nat) (h : P s)
    (hstep : ∀ s i, P s → P (s.expel spacing ownBox i)) :
    P (repelLoop spacing left count s).1 := by
  induction left generalizing count s with
  | zero => exact h
  | succ left ih =>
    have hround : P ((List.range s.blocks.length).foldl (expel spacing ownBox) s) :=
      List.foldlRecOn _ _ h fun s hs i _ => hstep s i hs
    rw [repelLoop, repelOnce_eq]
    by_cases hnil : (s.expelledIn spacing ownBox (List.range s.blocks.length)).length = 0
    · simpa [hnil] using hround
    · simp only [beq_iff_eq, if_neg hnil]
      exact ih _ hround

/-- Putting nodes outside of a block changes no block but for its box. -/
theorem expel_sameFrames (spacing : BoxSpacing α)
    (outer : List (PlacedBlock α) → PlacedBlock α → Rect α) (s : BoxState α) (i : Nat) :
    SameFrames s (s.expel spacing outer i) := by
  rcases expel_cases spacing outer s i with ⟨-, heq⟩ | ⟨b, -, -, -, heq⟩
  · rw [heq]
    exact .refl s
  · rw [heq]
    exact sameFrames_fit s _ spacing

/-- Rounds of putting nodes outside change the boxes of the blocks only. -/
theorem repelForeign_sameFrames (s : BoxState α) (spacing : BoxSpacing α) :
    SameFrames s (s.repelForeign spacing).1 :=
  repelLoop_induct (P := SameFrames s) roundLimit 0 (.refl s)
    fun s' i h => h.trans (expel_sameFrames spacing ownBox s' i)

/-! ## Moving nodes -/

omit [Scalar α] in
/-- Changing a node is seen where this node is looked up, and nowhere else. -/
theorem placedNode?_updatePlaced {f : PlacedNode α → PlacedNode α} (hf : ∀ n, (f n).id = n.id)
    (id id' : String) (nodes : List (PlacedNode α)) : placedNode? (updatePlaced id' f nodes) id =
      if id = id' then (placedNode? nodes id).map f else placedNode? nodes id := by
  have hid : ((fun n : PlacedNode α => n.id == id) ∘ fun n => if n.id == id' then f n else n) =
      fun n => n.id == id := by
    funext n
    by_cases hn : n.id == id'
    · simp only [Function.comp_apply, if_pos hn, hf]
    · simp only [Function.comp_apply, if_neg hn]
  rw [placedNode?, placedNode?, updatePlaced, List.find?_map, hid]
  cases hfind : nodes.find? fun n => n.id == id with
  | none => simp
  | some n =>
    have hn : n.id = id := by simpa using List.find?_some hfind
    by_cases heq : id = id' <;> simp [hn, heq]

/-- A node that is not among those put outside is found where it was. -/
theorem placedNode?_evict (h : id ∉ ids) (gap : α) (box : Rect α) (nodes : List (PlacedNode α)) :
    placedNode? (evict gap box ids nodes) id = placedNode? nodes id := by
  induction ids generalizing nodes with
  | nil => rfl
  | cons id' ids ih =>
    obtain ⟨hne, hids⟩ := not_or.mp (mt List.mem_cons.mpr h)
    have hstep := placedNode?_updatePlaced
      (f := fun n : PlacedNode α => { n with box := pushOutside gap box n.box })
      (fun _ => rfl) id id' nodes
    exact (ih hids _).trans (hstep.trans (if_neg hne))

/-- Only some nodes were moved: the others are the same, and so are the blocks that list none of
those that were. -/
structure MovedOnly (ids : List String) (s s' : BoxState α) : Prop where
  frames : SameFrames s s'
  nodes : ∀ id, id ∉ ids → placedNode? s'.nodes id = placedNode? s.nodes id
  blocks : ∀ (i : Nat) b, s.blocks[i]? = some b → (∀ id ∈ b.members, id ∉ ids) →
    s'.blocks[i]? = some b

namespace MovedOnly

theorem refl (ids : List String) (s : BoxState α) : MovedOnly ids s s :=
  ⟨.refl s, fun _ _ => rfl, fun _ _ hb _ => hb⟩

theorem trans {s'' : BoxState α} {ids' : List String} (h : MovedOnly ids s s')
    (h' : MovedOnly ids' s' s'') : MovedOnly (ids ++ ids') s s'' := by
  refine ⟨h.frames.trans h'.frames, fun id hid => ?_, fun i b hb hmem => ?_⟩
  · obtain ⟨hid, hid'⟩ := not_or.mp (mt List.mem_append.mpr hid)
    exact (h'.nodes id hid').trans (h.nodes id hid)
  · exact h'.blocks i b (h.blocks i b hb fun id hid hin =>
      hmem id hid (List.mem_append_left _ hin)) fun id hid hin =>
      hmem id hid (List.mem_append_right _ hin)

/-- A block that lists no moved node was the same before. -/
theorem block_eq (h : MovedOnly ids s s') (hb : s'.blocks[i]? = some b)
    (hmem : ∀ id ∈ b.members, id ∉ ids) : s.blocks[i]? = some b := by
  obtain ⟨a, ha, hab⟩ := h.frames.exists_block hb
  have hb' := h.blocks i a ha fun id hid => hmem id (members_of_frame hab ▸ hid)
  rw [ha, Option.some.inj (hb.symm.trans hb')]

end MovedOnly

/-- A state in which boxes can be relied on: they fit, and the blocks are nested. -/
structure Sound (s : BoxState α) (spacing : BoxSpacing α) : Prop where
  fitted : s.Fitted spacing
  nested : Nested s.blocks

namespace Sound

variable (hs : s.Sound spacing)
include hs

/-- Nodes that are put outside of a box are all that moves: the boxes are computed from the nodes,
so a block is touched only if one of its own nodes is. -/
theorem putOutside (ids : List String) (box : Rect α) :
    MovedOnly ids s (s.putOutside spacing box ids) ∧
      (s.putOutside spacing box ids).Sound spacing := by
  have hframes := sameFrames_fit s (evict spacing.gap box ids s.nodes) spacing
  refine ⟨⟨hframes, fun id hid => placedNode?_evict hid _ _ _, fun i b hb hmem => ?_⟩,
    fitted_fit _ spacing, nested_of_sameFrames hs.nested hframes⟩
  exact hs.fitted.getElem?_fitBlocks hs.nested hb fun id hid =>
    placedNode?_evict (hmem id hid) _ _ _

/-- A turn moves no node but those it expels, and leaves a sound state sound. -/
theorem expel (outer : List (PlacedBlock α) → PlacedBlock α → Rect α) (i : Nat) :
    MovedOnly (s.expelledAt i) s (s.expel spacing outer i) ∧
      (s.expel spacing outer i).Sound spacing := by
  rcases expel_cases spacing outer s i with ⟨-, heq⟩ | ⟨b, -, -, hids, heq⟩
  · rw [heq]
    exact ⟨.refl _ s, hs⟩
  · rw [heq, hids]
    exact hs.putOutside _ _

/-- Turns move no node but those that one of them expels, by induction on the turns. -/
theorem foldl_expel (outer : List (PlacedBlock α) → PlacedBlock α → Rect α) (turns : List Nat) :
    MovedOnly (s.expelledIn spacing outer turns) s
        (turns.foldl (BoxState.expel spacing outer) s) ∧
      (turns.foldl (BoxState.expel spacing outer) s).Sound spacing := by
  induction turns generalizing s with
  | nil => exact ⟨.refl _ s, hs⟩
  | cons i turns ih =>
    obtain ⟨hmoved, hs'⟩ := hs.expel outer i
    obtain ⟨hmoved', hs''⟩ := ih hs'
    exact ⟨hmoved.trans hmoved', hs''⟩

/-- Rounds move no node but those that one of them puts outside, by induction on the rounds that are
left. -/
theorem repelLoop (left count : Nat) :
    MovedOnly (s.repelledIn spacing left) s (BoxState.repelLoop spacing left count s).1 ∧
      (BoxState.repelLoop spacing left count s).1.Sound spacing := by
  induction left generalizing count s with
  | zero => exact ⟨.refl _ s, hs⟩
  | succ left ih =>
    obtain ⟨hmoved, hs'⟩ := hs.foldl_expel ownBox (List.range s.blocks.length)
    rw [BoxState.repelLoop, repelOnce_eq, repelledIn]
    by_cases hnil : s.expelledIn spacing ownBox (List.range s.blocks.length) = []
    · simpa [hnil, (foldl_expel_of_nil hnil).1, repelledIn_of_nil hnil] using
        And.intro (MovedOnly.refl [] s) hs
    · have hne : (s.expelledIn spacing ownBox (List.range s.blocks.length)).length ≠ 0 := by
        simpa using hnil
      simp only [beq_iff_eq, if_neg hne]
      obtain ⟨hmoved', hs''⟩ := ih hs'
        (count + (s.expelledIn spacing ownBox (List.range s.blocks.length)).length)
      exact ⟨hmoved.trans hmoved', hs''⟩

theorem repelForeign : MovedOnly (s.repelledIn spacing roundLimit) s (s.repelForeign spacing).1 ∧
    (s.repelForeign spacing).1.Sound spacing :=
  hs.repelLoop roundLimit 0

end Sound

/-! ## Runs -/

/-- The last separation of a run that has `left` more rounds after the next one. -/
def lastSeparation (d : Direction) (spacing : BoxSpacing α) :
    (left : Nat) → BoxState α → BoxState α × Nat
  | 0, s => s.resolveOverlaps d spacing
  | left + 1, s =>
    let separated := s.resolveOverlaps d spacing
    let repelled := separated.1.repelForeign spacing
    if repelled.2 == 0 then separated else lastSeparation d spacing left repelled.1

/-- What follows the last separation of a run. -/
def finishSettling (s : BoxState α) (spacing : BoxSpacing α) : BoxState α :=
  let repelled := s.repelForeign spacing
  if repelled.2 == 0 then repelled.1.fit spacing
  else (repelled.1.evictPastSiblings spacing).1.fit spacing

/-- The nodes that are put outside of blocks after the last separation of a run. -/
def expelledLast (s : BoxState α) (spacing : BoxSpacing α) : List String :=
  let repelled := s.repelForeign spacing
  s.repelledIn spacing roundLimit ++
    if repelled.2 == 0 then []
    else repelled.1.expelledIn spacing siblingBounds (List.range repelled.1.blocks.length)

/-- After the last separation nodes are put outside in rounds, and then once more past the boxes
beside theirs. -/
theorem expelledLast_of_loud (h : (s.repelForeign spacing).2 ≠ 0) : s.expelledLast spacing =
    s.repelledIn spacing roundLimit ++ (s.repelForeign spacing).1.expelledIn spacing siblingBounds
      (List.range (s.repelForeign spacing).1.blocks.length) := by
  simp only [expelledLast, h, beq_iff_eq, ↓reduceIte]

/-- A run is its last separation and what follows it: whatever was separated before only leads to
the state from which the last one begins. -/
theorem settleLoop_eq (left passes : Nat) (s : BoxState α) :
    (settleLoop d spacing (left + 1) passes s).1 =
      (lastSeparation d spacing left s).1.finishSettling spacing := by
  induction left generalizing passes s with
  | zero =>
    by_cases hquiet : ((s.resolveOverlaps d spacing).1.repelForeign spacing).2 = 0 <;>
      simp only [settleLoop, lastSeparation, finishSettling, hquiet, beq_iff_eq, ↓reduceIte]
  | succ left ih =>
    by_cases hquiet : ((s.resolveOverlaps d spacing).1.repelForeign spacing).2 = 0
    · rw [settleLoop, lastSeparation]
      simp only [finishSettling, hquiet, beq_iff_eq, ↓reduceIte]
    · rw [settleLoop, lastSeparation]
      simp only [hquiet, beq_iff_eq, ↓reduceIte]
      exact ih _ _

/-- The state after the last separation of settling, and the passes this took. -/
def lastSettled (s : BoxState α) (d : Direction) (spacing : BoxSpacing α) : BoxState α × Nat :=
  lastSeparation d spacing (roundLimit - 1) s

/-- A run has its last separation and what follows it. -/
theorem settle_eq (s : BoxState α) (d : Direction) (spacing : BoxSpacing α) :
    (s.settle d spacing).1 = (s.lastSettled d spacing).1.finishSettling spacing :=
  settleLoop_eq 9 0 s

/-- The last separation is one of a state with the same blocks. -/
theorem exists_lastSeparation (d : Direction) (spacing : BoxSpacing α) (left : Nat)
    (s : BoxState α) : ∃ s', SameFrames s s' ∧
      lastSeparation d spacing left s = s'.resolveOverlaps d spacing := by
  induction left generalizing s with
  | zero => exact ⟨s, .refl s, rfl⟩
  | succ left ih =>
    by_cases hquiet : ((s.resolveOverlaps d spacing).1.repelForeign spacing).2 = 0
    · refine ⟨s, .refl s, ?_⟩
      rw [lastSeparation]
      simp only [hquiet, beq_iff_eq, ↓reduceIte]
    · obtain ⟨s', hframes, heq⟩ := ih ((s.resolveOverlaps d spacing).1.repelForeign spacing).1
      refine ⟨s', ((resolveOverlaps_sameFrames s d spacing).trans
        (repelForeign_sameFrames _ spacing)).trans hframes, ?_⟩
      rw [lastSeparation]
      simpa only [hquiet, beq_iff_eq, ↓reduceIte] using heq

/-- If the rounds put something outside, what follows the last separation goes on past the
siblings. -/
theorem Sound.finishSettling_of_loud (hs : s.Sound spacing) (h : (s.repelForeign spacing).2 ≠ 0) :
    s.finishSettling spacing = (List.range (s.repelForeign spacing).1.blocks.length).foldl
      (BoxState.expel spacing siblingBounds) (s.repelForeign spacing).1 := by
  have hevicted := (hs.repelForeign.2.foldl_expel siblingBounds
    (List.range (s.repelForeign spacing).1.blocks.length)).2
  simp only [BoxState.finishSettling, h, beq_iff_eq, ↓reduceIte, evictPastSiblings_eq,
    hevicted.fitted.fit_eq]

/-- What follows the last separation moves nothing but the nodes it puts outside. -/
theorem Sound.finishSettling (hs : s.Sound spacing) :
    MovedOnly (s.expelledLast spacing) s (s.finishSettling spacing) ∧
      (s.finishSettling spacing).Sound spacing := by
  obtain ⟨hmoved, hs'⟩ := hs.repelForeign
  by_cases hquiet : (s.repelForeign spacing).2 = 0
  · simp only [BoxState.finishSettling, expelledLast, hquiet, beq_iff_eq, ↓reduceIte,
      hs'.fitted.fit_eq, List.append_nil]
    exact ⟨hmoved, hs'⟩
  · obtain ⟨hmoved', hs''⟩ := hs'.foldl_expel siblingBounds
      (List.range (s.repelForeign spacing).1.blocks.length)
    rw [hs.finishSettling_of_loud hquiet, expelledLast_of_loud hquiet]
    exact ⟨hmoved.trans hmoved', hs''⟩

/-- A separation leaves a state sound: boxes are fitted again after every push, and pushes change no
members. -/
theorem resolveOverlaps_sound (hn : Nested s.blocks) :
    (s.resolveOverlaps d spacing).1.Sound spacing :=
  ⟨resolveOverlaps_fitted s d spacing,
    nested_of_sameFrames hn (resolveOverlaps_sameFrames s d spacing)⟩

/-- The last separation of a run leaves a sound state, with siblings apart if its passes were not
used up. -/
theorem lastSettled_sound (hn : Nested s.blocks) (d : Direction) (spacing : BoxSpacing α) :
    (s.lastSettled d spacing).1.Sound spacing ∧
      ((s.lastSettled d spacing).2 < roundLimit → (s.lastSettled d spacing).1.Separated) := by
  obtain ⟨s', hframes, heq⟩ :=
    exists_lastSeparation d spacing (roundLimit - 1) s
  rw [lastSettled, heq]
  exact ⟨resolveOverlaps_sound (nested_of_sameFrames hn hframes), resolveOverlaps_separated⟩

/-- **Settling separates siblings.** If the last separation did not use up its passes, two blocks of
the same level that have a box do not overlap in the end, unless a node that one of them lists was
put outside of another block after that separation: a block that lists no such node has not been
touched since, and all siblings were apart then. -/
theorem settle_separates (hn : Nested s.blocks)
    (hpasses : (s.lastSettled d spacing).2 < roundLimit) :
    (s.settle d spacing).1.SeparatedBut ((s.lastSettled d spacing).1.expelledLast spacing) := by
  intro i j a b hij ha hb hparent hboxa hboxb hout
  obtain ⟨hsound, hseparated⟩ := lastSettled_sound hn d spacing
  obtain ⟨hmoved, -⟩ := hsound.finishSettling
  -- neither block has been touched since the last separation, and then they were apart
  rw [settle_eq] at ha hb
  have ha' := hmoved.block_eq ha fun id hid hin => (hout id hin).1 hid
  have hb' := hmoved.block_eq hb fun id hid hin => (hout id hin).2 hid
  exact hseparated hpasses i j a b hij ha' hb' hparent hboxa hboxb

/-! ## Small states -/

/-- A node of fixed size at a place, and the block it belongs to. -/
def boxedNode (id : String) (x y : ℚ) (parent : Option String) : PlacedNode ℚ where
  id := id
  box := ⟨x, y, 40, 20⟩
  label := ⟨[id], 0, 12⟩
  shape := .rectangle
  parent := parent

/-- A block that lists some nodes, and has no box yet. -/
def titledBlock (id : String) (members : List String) (parent : Option Nat) : PlacedBlock ℚ where
  id := id
  label := id
  title := ⟨[id], 0, 12⟩
  members := members
  box := Rect.empty
  parent := parent

/-- The usual distances. -/
def usualSpacing : BoxSpacing ℚ := ⟨10, 20, 8⟩

/-- The blocks at two positions are siblings that overlap. -/
def overlapAt (s : BoxState α) (i j : Nat) : Bool :=
  match s.blocks[i]?, s.blocks[j]? with
  | some a, some b => a.parent == b.parent && a.hasBox && b.hasBox && a.box.intersects b.box
  | _, _ => false

/-- Two blocks that are seen to overlap refute a separation. -/
theorem not_separated_of_overlapAt (hij : i ≠ j) (h : s.overlapAt i j = true) : ¬ s.Separated := by
  intro hs
  unfold overlapAt at h
  split at h
  · rename_i a b ha hb
    simp only [Bool.and_eq_true, beq_iff_eq] at h
    have hapart := hs i j a b hij ha hb h.1.1.1 h.1.1.2 h.1.2
    rw [h.2] at hapart
    cases hapart
  · cases h

/-- Every node has an extent. -/
def Solid (s : BoxState ℚ) : Prop := ∀ n ∈ s.nodes, 0 < n.box.width ∧ 0 < n.box.height

omit [Scalar α] in
/-- Blocks all of which lie on the outermost level are nested if they share no member. -/
theorem nested_of_flat {blocks : List (PlacedBlock α)} (hflat : ∀ b ∈ blocks, b.parent = none)
    (hnodup : ∀ b ∈ blocks, b.members.Nodup)
    (hapart : blocks.Pairwise fun a b => ∀ id ∈ a.members, id ∉ b.members) : Nested blocks := by
  have hapart' := hapart.imp (S := fun a b : PlacedBlock α =>
    a.parent = b.parent → ∀ id ∈ a.members, id ∉ b.members) fun h _ => h
  refine ⟨hnodup, fun i b p hb hp => ?_, hapart'⟩
  rw [hflat b (List.mem_of_getElem? hb)] at hp
  cases hp

/-- Three blocks, each drawn over the next one. -/
def pile : BoxState ℚ where
  blocks := ["a", "b", "c"].map fun name => titledBlock name [name ++ "1"] none
  nodes := [boxedNode "a1" 0 0 (some "a"), boxedNode "b1" 30 0 (some "b"),
    boxedNode "c1" 60 0 (some "c")]

/-- One pass sets the three blocks side by side. -/
theorem settle_pile : Nested pile.blocks ∧
    (pile.fit usualSpacing).overlapAt 0 1 = true ∧ (pile.fit usualSpacing).overlapAt 1 2 = true ∧
    (pile.lastSettled .topDown usualSpacing).2 = 1 ∧
    (pile.lastSettled .topDown usualSpacing).1.expelledLast usualSpacing = [] ∧
    (pile.settle .topDown usualSpacing).1.SeparatedBut [] := by
  have hn : Nested pile.blocks := nested_of_flat (by decide) (by decide) (by decide)
  have hpasses : (pile.lastSettled .topDown usualSpacing).2 = 1 := by decide +kernel
  have hout : (pile.lastSettled .topDown usualSpacing).1.expelledLast usualSpacing = [] := by
    decide +kernel
  refine ⟨hn, by decide +kernel, by decide +kernel, hpasses, hout, ?_⟩
  rw [← hout]
  exact settle_separates hn (hpasses ▸ by decide)

/-- A row of twelve blocks with one node each, the first block being the rightmost one. They stand
side by side, but the leftmost one is drawn over the next one. -/
def queue : BoxState ℚ where
  blocks := ["a", "b", "c", "d", "e", "f", "g", "h", "i", "j", "k", "l"].map fun name =>
    titledBlock name [name ++ "1"] none
  nodes := [boxedNode "a1" 660 0 (some "a"), boxedNode "b1" 600 0 (some "b"),
    boxedNode "c1" 540 0 (some "c"), boxedNode "d1" 480 0 (some "d"),
    boxedNode "e1" 420 0 (some "e"), boxedNode "f1" 360 0 (some "f"),
    boxedNode "g1" 300 0 (some "g"), boxedNode "h1" 240 0 (some "h"),
    boxedNode "i1" 180 0 (some "i"), boxedNode "j1" 120 0 (some "j"),
    boxedNode "k1" 60 0 (some "k"), boxedNode "l1" 15 0 (some "l")]

/-- A block with a node of its own between two blocks inside it, and another block beside it. -/
def crowd : BoxState ℚ where
  blocks := [titledBlock "p" ["a", "b", "x"] none, titledBlock "pa" ["a"] (some 0),
    titledBlock "pb" ["b"] (some 0), titledBlock "q" ["y"] none]
  nodes := [boxedNode "a" 0 0 (some "pa"), boxedNode "b" 100 0 (some "pb"),
    boxedNode "x" 40 (-10) (some "p"), boxedNode "y" (-70) 0 (some "q")]

/-- The blocks of the crowd lie inside each other as blocks of a diagram do. -/
theorem nested_crowd : Nested crowd.blocks := by
  refine ⟨by decide, fun i b p hb hp => ?_, by decide⟩
  match i, hb with
  | 0, hb | 3, hb =>
    obtain rfl := Option.some.inj hb
    cases hp
  | 1, hb | 2, hb =>
    obtain rfl := Option.some.inj hb
    obtain rfl := Option.some.inj hp
    exact ⟨by decide, _, rfl, by decide⟩

/-- **Not every run separates siblings.** In the row every pass pushes one block over the next one,
and in the end the passes do not suffice. In the crowd no pass is needed, but the node between the
inner blocks is put outside of both, and its block then reaches into the block beside it. -/
theorem settle_overlapping :
    (Nested queue.blocks ∧ queue.Solid ∧ ¬ (queue.settle .topDown usualSpacing).1.Separated) ∧
    (Nested crowd.blocks ∧ crowd.Solid ∧ ¬ (crowd.settle .topDown usualSpacing).1.Separated) := by
  refine ⟨⟨nested_of_flat (by decide) (by decide) (by decide), by unfold Solid; decide, ?_⟩,
    nested_crowd, by unfold Solid; decide, ?_⟩
  · exact not_separated_of_overlapAt (show 0 ≠ 1 by decide) (by decide +kernel)
  · exact not_separated_of_overlapAt (show 0 ≠ 3 by decide) (by decide +kernel)

end Flowchart.BoxState
