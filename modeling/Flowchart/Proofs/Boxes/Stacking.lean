import Flowchart.Proofs.Boxes.Carrying

/-!
# Settling and nodes over nodes

Nodes that are apart before settling stay apart, but for three kinds of collisions. Two nodes with
the same home are moved alike unless one of them is put outside of a block, and where that puts it
another node may be. Two nodes with different homes are told apart by a block that lists one of
them: the other one is outside of it if the siblings of the block are separated from it and it is
not stretched later on. So they can only collide if the last separation used up its passes and left
two siblings over each other, or if one of them was put outside of a block after it and the blocks
on the level where they part did not stay.
-/

namespace Flowchart.BoxState

variable {d : Direction} {spacing : BoxSpacing ℚ} {s s' : BoxState ℚ}
  {outer : List (PlacedBlock ℚ) → PlacedBlock ℚ → Rect ℚ} {nodes : List (PlacedNode ℚ)}
  {n x y : PlacedNode ℚ} {a b c : PlacedBlock ℚ} {i j k : Nat} {ids ids' : List String}
  {id : String}

/-! ## Blocks with the same frames -/

/-- The home of a node depends on which blocks list it, not on their boxes. -/
theorem home?_of_frames (h : SameFrames s s') (id : String) :
    home? s'.blocks id = home? s.blocks id := by
  have hframes : ∀ blocks : List (PlacedBlock ℚ),
      home? (blocks.map PlacedBlock.frame) id = home? blocks id := by
    intro blocks
    rw [home?, home?, ← List.map_reverse, List.find?_map, Option.map_map]
    rfl
  rw [← hframes, h, hframes]

/-- Blocks with the same parent have the same level. -/
theorem levelOf_of_parent (blocks : List (PlacedBlock ℚ)) (h : a.parent = b.parent) :
    levelOf blocks a = levelOf blocks b := by
  rw [levelOf, levelOf, h]

/-- The level of a block depends on the parents and ids of the blocks only, so it stays when boxes
change. -/
theorem levelOf_of_frames (h : SameFrames s s') (hab : a.frame = b.frame) :
    levelOf s'.blocks b = levelOf s.blocks a := by
  have hparent := parent_of_frame hab
  cases hp : b.parent with
  | none => rw [levelOf, levelOf, hparent, hp, Option.bind_none, Option.bind_none]
  | some p =>
    have hframe := congrArg (fun bs : List (PlacedBlock ℚ) => bs[p]?.map PlacedBlock.id) h
    simp only [List.getElem?_map, Option.map_map] at hframe
    rw [levelOf, levelOf, hparent, hp, Option.bind_some, Option.bind_some]
    exact hframe

/-- A node that belongs to the level around a block still does. -/
theorem homeLevel_of_frames (h : SameFrames s s') (hab : a.frame = b.frame)
    (hhome : home? s.blocks id = levelOf s.blocks a) : home? s'.blocks id = levelOf s'.blocks b := by
  rw [home?_of_frames h, hhome, levelOf_of_frames h hab]

/-- Which block tells two nodes apart depends on parents and members only. -/
theorem Divides.of_frames {x y : String} (h : SameFrames s s') (hdiv : Divides s.blocks i x y) :
    Divides s'.blocks i x y := by
  obtain ⟨a, ha, hx, hy, hside⟩ := hdiv
  obtain ⟨b, hb, hba⟩ := h.symm.exists_block ha
  rw [← members_of_frame hba] at hx hy
  refine ⟨b, hb, hx, hy, hside.imp ?_ fun hhome => ?_⟩
  · rintro ⟨j, c, hji, hc, hparent, hyc⟩
    obtain ⟨c', hc', hcc'⟩ := h.symm.exists_block hc
    refine ⟨j, c', hji, hc', ?_, members_of_frame hcc' ▸ hyc⟩
    rw [parent_of_frame hcc', hparent, parent_of_frame hba]
  · exact homeLevel_of_frames h hba.symm hhome

/-! ## States to settle -/

/-- Nodes and blocks of the kind that a diagram has: every node has an extent and belongs to its
home, and distances are not negative. -/
structure Housed (s : BoxState ℚ) (spacing : BoxSpacing ℚ) : Prop where
  nested : Nested s.blocks
  ids : (s.nodes.map PlacedNode.id).Nodup
  homes : ∀ n ∈ s.nodes, n.parent = home? s.blocks n.id
  solid : s.Solid
  padding : 0 ≤ spacing.padding
  gap : 0 ≤ spacing.gap
  titles : ∀ b ∈ s.blocks, 0 ≤ titleRoom spacing b

/-- Where no two nodes have the same id, every node is found under its own. -/
theorem placedNode?_of_mem (hids : (nodes.map PlacedNode.id).Nodup) (hn : n ∈ nodes) :
    placedNode? nodes n.id = some n := by
  induction nodes with
  | nil => cases hn
  | cons m nodes ih =>
    obtain ⟨hm, hids⟩ := List.nodup_cons.mp hids
    rcases List.mem_cons.mp hn with rfl | hn
    · simp [placedNode?]
    · have hne : m.id ≠ n.id := fun h => hm (h ▸ List.mem_map_of_mem hn)
      rw [placedNode?, List.find?_cons_of_neg (by simpa using hne)]
      exact ih hids hn

theorem mem_of_placedNode? {α : Type} {nodes : List (PlacedNode α)} {n : PlacedNode α}
    (h : placedNode? nodes id = some n) : n ∈ nodes ∧ n.id = id :=
  ⟨List.mem_of_find?_eq_some h, by simpa using List.find?_some h⟩

namespace Housed

/-- What a run does not change keeps a state as it should be. -/
theorem congr (hs : s.Housed spacing) (h : Alike s s') : s'.Housed spacing := by
  refine ⟨nested_of_sameFrames hs.nested h.frames, ?ids, fun n hn => ?homes, fun n hn => ?solid,
    hs.padding, hs.gap, fun b hb => ?titles⟩
  case ids =>
    have hids := congrArg (List.map PlacedNode.id) h.nodes
    simp only [List.map_map] at hids
    have hsame : s'.nodes.map PlacedNode.id = s.nodes.map PlacedNode.id := hids
    rw [hsame]
    exact hs.ids
  case homes =>
    obtain ⟨m, hm, hmn⟩ := h.exists_node hn
    rw [← parent_of_still hmn, ← id_of_still hmn, home?_of_frames h.frames]
    exact hs.homes m hm
  case solid =>
    obtain ⟨m, hm, hmn⟩ := h.exists_node hn
    rw [← width_of_still hmn, ← height_of_still hmn]
    exact hs.solid m hm
  case titles =>
    obtain ⟨i, hi⟩ := List.getElem?_of_mem hb
    obtain ⟨a, ha, hab⟩ := h.frames.exists_block hi
    have htitle := congrArg (titleRoom spacing) hab
    have hsame : titleRoom spacing a = titleRoom spacing b := htitle
    rw [← hsame]
    exact hs.titles a (List.mem_of_getElem? ha)

variable (hs : s.Housed spacing)
include hs

theorem placedNode?_eq (hn : n ∈ s.nodes) : placedNode? s.nodes n.id = some n :=
  placedNode?_of_mem hs.ids hn

/-- A node that was not moved is still there. -/
theorem mem_later (h : MovedOnly ids s s') (hn : n ∈ s.nodes) (hid : n.id ∉ ids) : n ∈ s'.nodes :=
  (mem_of_placedNode? ((h.nodes n.id hid).trans (hs.placedNode?_eq hn))).1

/-- A node that was not moved was there before. -/
theorem mem_earlier (h : MovedOnly ids s' s) (hn : n ∈ s.nodes) (hid : n.id ∉ ids) : n ∈ s'.nodes :=
  (mem_of_placedNode? ((h.nodes n.id hid).symm.trans (hs.placedNode?_eq hn))).1

/-- In fitted boxes every node lies within the blocks that list it. -/
theorem within (hfit : s.Fitted spacing) (hb : s.blocks[i]? = some b) (hn : n ∈ s.nodes)
    (hmem : n.id ∈ b.members) : n.box.Within b.box := by
  have hbox : n.box ∈ memberBoxes s.nodes b ++ childBoxes s.blocks i := by
    refine List.mem_append_left _ (List.mem_filterMap.mpr ⟨n.id, hmem, ?_⟩)
    rw [hs.placedNode?_eq hn, Option.map_some]
  obtain ⟨content, hcontent, hwithin⟩ := Rect.exists_unionAll hbox
  rw [Fits.box_eq hfit hb hcontent]
  exact hwithin.trans (within_wrap hs.padding (hs.titles b (List.mem_of_getElem? hb)) content)

/-- A block that lists a node of some size has a box. -/
theorem hasBox (hfit : s.Fitted spacing) (hb : s.blocks[i]? = some b) (hn : n ∈ s.nodes)
    (hmem : n.id ∈ b.members) : b.hasBox = true := by
  obtain ⟨hwidth, hheight⟩ := hs.solid n hn
  exact (hs.within hfit hb hn hmem).hasBox hwidth hheight

/-- Members of blocks that are apart are apart. -/
theorem apart_of_blocks (hfit : s.Fitted spacing) (ha : s.blocks[i]? = some a)
    (hb : s.blocks[j]? = some b) (hapart : a.box.intersects b.box = false) (hx : x ∈ s.nodes)
    (hxa : x.id ∈ a.members) (hy : y ∈ s.nodes) (hyb : y.id ∈ b.members) :
    x.box.intersects y.box = false :=
  (hs.within hfit ha hx hxa).apart (hs.within hfit hb hy hyb) hapart

/-- A node of the level around a block that overlaps it is put outside of it at its turn. -/
theorem mem_expelledAt (hb : s.blocks[i]? = some b) (hbox : b.hasBox = true) (hn : n ∈ s.nodes)
    (hid : n.id ∉ b.members) (hhome : home? s.blocks n.id = levelOf s.blocks b)
    (hover : n.box.intersects b.box = true) : n.id ∈ s.expelledAt i := by
  rw [expelledAt_eq hb, if_pos hbox]
  refine List.mem_map_of_mem (List.mem_filter.mpr ⟨hn, ?_⟩)
  simp [hs.homes n hn, hhome, hid, hover]

end Housed

/-! ## Nodes that are not put outside any more -/

/-- What is put outside in two rows of turns is what the first row puts outside and then what the
second one does. -/
theorem expelledIn_append (turns turns' : List Nat) (s : BoxState ℚ) :
    s.expelledIn spacing outer (turns ++ turns') = s.expelledIn spacing outer turns ++
      (turns.foldl (expel spacing outer) s).expelledIn spacing outer turns' := by
  induction turns generalizing s with
  | nil => rfl
  | cons i turns ih =>
    rw [List.cons_append, expelledIn, ih, expelledIn, List.foldl_cons, List.append_assoc]

/-- A node of the level around a block does not overlap the members of this block, unless one of the
two is put outside of a block next: at the turn of the block in the first round neither of them has
been moved, so an overlap would put the node outside. -/
theorem apart_of_staying (hs : s.Sound spacing) (hh : s.Housed spacing)
    (hb : s.blocks[i]? = some b) (hx : x ∈ s.nodes) (hxb : x.id ∈ b.members) (hy : y ∈ s.nodes)
    (hyb : y.id ∉ b.members) (hhome : home? s.blocks y.id = levelOf s.blocks b)
    (hxout : x.id ∉ s.expelledLast spacing) (hyout : y.id ∉ s.expelledLast spacing) :
    x.box.intersects y.box = false := by
  -- at the turn of the block in the first round, neither node has been moved
  by_contra hover
  rw [Bool.not_eq_false] at hover
  obtain ⟨before, after, hturns⟩ := List.append_of_mem
    (List.mem_range.mpr (List.getElem?_eq_some_iff.mp hb).1)
  have hround : ∀ id ∈ s.expelledIn spacing ownBox (before ++ i :: after),
      id ∈ s.expelledLast spacing := by
    intro id hid
    rw [← hturns] at hid
    exact List.mem_append_left _ (List.mem_append_left _ hid)
  rw [expelledIn_append, expelledIn] at hround
  obtain ⟨hmoved, hs'⟩ := hs.foldl_expel ownBox before
  have hh' := hh.congr (.foldl_expel spacing ownBox before s)
  generalize before.foldl (expel spacing ownBox) s = s' at hround hmoved hs' hh'
  have hx := hh.mem_later hmoved hx fun hid => hxout (hround _ (List.mem_append_left _ hid))
  have hy := hh.mem_later hmoved hy fun hid => hyout (hround _ (List.mem_append_left _ hid))
  obtain ⟨b', hb', hbb'⟩ := hmoved.frames.symm.exists_block hb
  rw [← members_of_frame hbb'] at hxb hyb
  have hhome' := homeLevel_of_frames hmoved.frames hbb'.symm hhome
  have hin : y.box.intersects b'.box = true := by
    rw [intersects_comm]
    exact (hh'.within hs'.fitted hb' hx hxb).intersects (.refl y.box) hover
  have hnow := hh'.mem_expelledAt hb' (hh'.hasBox hs'.fitted hb' hx hxb) hy hyb hhome' hin
  exact hyout (hround _ (List.mem_append_right _ (List.mem_append_left _ hnow)))

/-! ## Nodes that are put outside at last -/

/-- The blocks on the level of a block are its siblings, and none of them lists one of the nodes. -/
def LevelKept (blocks : List (PlacedBlock ℚ)) (b : PlacedBlock ℚ) (ids : List String) : Prop :=
  ∀ c ∈ blocks, levelOf blocks c = levelOf blocks b →
    c.parent = b.parent ∧ ∀ id ∈ c.members, id ∉ ids

namespace LevelKept

/-- What is said of more nodes holds of fewer. -/
theorem mono (h : LevelKept s.blocks b ids) (hids : ids' ⊆ ids) : LevelKept s.blocks b ids' :=
  fun c hc hlevel => ⟨(h c hc hlevel).1, fun id hid hin => (h c hc hlevel).2 id hid (hids hin)⟩

/-- A level that was kept clear of other nodes is still kept when only boxes change. -/
theorem of_frames (h : LevelKept s.blocks a ids) (hframes : SameFrames s s')
    (hab : a.frame = b.frame) : LevelKept s'.blocks b ids := by
  intro c hc hlevel
  obtain ⟨j, hj⟩ := List.getElem?_of_mem hc
  obtain ⟨c', hc', hcc'⟩ := hframes.exists_block hj
  rw [levelOf_of_frames hframes hcc', levelOf_of_frames hframes hab] at hlevel
  obtain ⟨hparent, hmembers⟩ := h c' (List.mem_of_getElem? hc') hlevel
  rw [← parent_of_frame hcc', ← parent_of_frame hab, ← members_of_frame hcc']
  exact ⟨hparent, hmembers⟩

end LevelKept

/-- The node does not overlap the block. -/
def Clears (s : BoxState ℚ) (id : String) (b : PlacedBlock ℚ) : Prop :=
  ∀ n, placedNode? s.nodes id = some n → n.box.intersects b.box = false

/-- A node put outside of a box is apart from it. -/
theorem evict_apart {gap : ℚ} (hgap : 0 ≤ gap) (box : Rect ℚ) (hid : id ∈ ids)
    (hn : placedNode? (evict gap box ids nodes) id = some n) : n.box.intersects box = false := by
  induction ids generalizing nodes with
  | nil => cases hid
  | cons id' ids ih =>
    by_cases hin : id ∈ ids
    · exact ih hin hn
    · obtain rfl := (List.mem_cons.mp hid).resolve_right hin
      have hlast := (placedNode?_evict hin gap box _).symm.trans hn
      have hstep := placedNode?_updatePlaced
        (f := fun n : PlacedNode ℚ => { n with box := pushOutside gap box n.box })
        (fun _ => rfl) id id nodes
      rw [hlast, if_pos rfl] at hstep
      obtain ⟨m, -, rfl⟩ := Option.map_eq_some_iff.mp hstep.symm
      exact pushOutside_apart hgap box m.box

/-- The box around the siblings of a block has each of them within it. -/
theorem within_siblingBounds {blocks : List (PlacedBlock ℚ)} (hb : b ∈ blocks)
    (hparent : b.parent = c.parent) (hbox : b.hasBox = true) :
    b.box.Within (siblingBounds blocks c) := by
  have hmem : b.box ∈ (blocks.filter fun c' => c'.parent == c.parent && c'.hasBox).map
      PlacedBlock.box := by
    refine List.mem_map_of_mem (List.mem_filter.mpr ⟨hb, ?_⟩)
    simp [hparent, hbox]
  obtain ⟨bounds, hbounds, hwithin⟩ := Rect.exists_unionAll hmem
  rwa [siblingBounds, hbounds, Option.getD_some]

section Late

variable (hb : s.blocks[i]? = some b) (hbox : b.hasBox = true) (hid : id ∉ b.members)
  (hhome : home? s.blocks id = levelOf s.blocks b)
include hb hbox hid hhome

/-- Past all siblings, a node of the level around a block is put outside of it for good: the turn of
the block itself puts it outside, and so does every turn that moves it. The block whose turn it is
then lies on the same level, so that the node is put outside of both. -/
theorem expel_clears (hs : s.Sound spacing) (hh : s.Housed spacing)
    (hkept : LevelKept s.blocks b (s.expelledAt k)) (h : k = i ∨ s.Clears id b) :
    (s.expel spacing siblingBounds k).Clears id b := by
  intro n hn
  by_cases hout : id ∈ s.expelledAt k
  · rcases expel_cases spacing siblingBounds s k with ⟨hnil, -⟩ | ⟨c, hc, -, hids, heq⟩
    case inl =>
      rw [hnil] at hout
      cases hout
    case inr =>
      rw [heq] at hn
      rw [hids] at hout
      have hapart := evict_apart hh.gap (siblingBounds s.blocks c) hout hn
      obtain ⟨m, hm, rfl⟩ := List.mem_map.mp hout
      obtain ⟨hm, hintrudes⟩ := List.mem_filter.mp hm
      have hlevel : m.parent = levelOf s.blocks c := by
        simp only [Bool.and_eq_true, beq_iff_eq] at hintrudes
        exact hintrudes.1.1
      have hparent := (hkept c (List.mem_of_getElem? hc)
        (hlevel.symm.trans ((hh.homes m hm).trans hhome))).1
      have hwithin := within_siblingBounds (List.mem_of_getElem? hb) hparent.symm hbox
      exact (Rect.Within.refl n.box).apart hwithin hapart
  · have hsame := ((hs.expel siblingBounds k).1.nodes id hout).symm.trans hn
    rcases h with rfl | hclears
    · obtain ⟨hmem, hname⟩ := mem_of_placedNode? hsame
      subst hname
      rw [Bool.eq_false_iff]
      exact fun hover => hout (hh.mem_expelledAt hb hbox hmem hid hhome hover)
    · exact hclears n hsame

/-- After a row of turns in which the block has its own, the node is outside of the block, which has
stayed where it was. -/
theorem foldl_expel_clears (hs : s.Sound spacing) (hh : s.Housed spacing) {turns : List Nat}
    (hkept : LevelKept s.blocks b (s.expelledIn spacing siblingBounds turns))
    (h : i ∈ turns ∨ s.Clears id b) :
    (turns.foldl (expel spacing siblingBounds) s).blocks[i]? = some b ∧
      (turns.foldl (expel spacing siblingBounds) s).Clears id b := by
  induction turns generalizing s with
  | nil => exact ⟨hb, h.resolve_left List.not_mem_nil⟩
  | cons k turns ih =>
    obtain ⟨hmoved, hs'⟩ := hs.expel siblingBounds k
    have hnow : LevelKept s.blocks b (s.expelledAt k) := hkept.mono (List.subset_append_left _ _)
    have hlater := (hkept.mono (List.subset_append_right _ _)).of_frames hmoved.frames rfl
    have hb' := hmoved.blocks i b hb (hnow b (List.mem_of_getElem? hb) rfl).2
    have hhome' := homeLevel_of_frames hmoved.frames rfl hhome
    refine ih hb' hhome' hs' (hh.congr (.expel spacing siblingBounds s k)) hlater ?_
    rcases h with hturn | hclears
    · rcases List.mem_cons.mp hturn with rfl | hturn
      · exact .inr (expel_clears hb hbox hid hhome hs hh hnow (.inl rfl))
      · exact .inl hturn
    · exact .inr (expel_clears hb hbox hid hhome hs hh hnow (.inr hclears))

end Late

/-- A node that is put outside of a block after a separation ends up outside of the blocks of its
level, if these stay. -/
theorem finishSettling_clears (hs : s.Sound spacing) (hh : s.Housed spacing)
    (hb : s.blocks[i]? = some b) (hid : id ∉ b.members)
    (hhome : home? s.blocks id = levelOf s.blocks b) (hout : id ∈ s.expelledLast spacing)
    (hkept : LevelKept s.blocks b (s.expelledLast spacing))
    (hx : x ∈ (s.finishSettling spacing).nodes) (hxb : x.id ∈ b.members) :
    (s.finishSettling spacing).Clears id b ∧ x.box.Within b.box := by
  have hloud : (s.repelForeign spacing).2 ≠ 0 := by
    intro hquiet
    have hnil : s.repelledIn spacing roundLimit = [] :=
      List.eq_nil_of_length_eq_zero ((repelForeign_snd s spacing).symm.trans hquiet)
    simp [expelledLast, hquiet, hnil] at hout
  obtain ⟨hmoved, hs'⟩ := hs.repelForeign
  have hh' := hh.congr (.repelForeign s spacing)
  rw [expelledLast_of_loud hloud] at hkept
  rw [hs.finishSettling_of_loud hloud] at hx ⊢
  generalize (s.repelForeign spacing).1 = s' at hmoved hs' hh' hkept hx ⊢
  have hkept' := (hkept.mono (List.subset_append_right _ _)).of_frames hmoved.frames rfl
  have hb' := hmoved.blocks i b hb fun id hid hin =>
    (hkept b (List.mem_of_getElem? hb) rfl).2 id hid (List.mem_append_left _ hin)
  have hhome' := homeLevel_of_frames hmoved.frames rfl hhome
  have hlate := Alike.foldl_expel spacing siblingBounds (List.range s'.blocks.length) s'
  obtain ⟨x', hx', hsame⟩ := hlate.exists_node hx
  have hbox := hh'.hasBox hs'.fitted hb' hx' ((id_of_still hsame).symm ▸ hxb)
  obtain ⟨hb'', hclears⟩ := foldl_expel_clears hb' hbox hid hhome' hs' hh' hkept'
    (.inl (List.mem_range.mpr (List.getElem?_eq_some_iff.mp hb').1))
  exact ⟨hclears, (hh'.congr hlate).within (hs'.foldl_expel siblingBounds _).2.fitted hb'' hx hxb⟩

/-! ## Collisions -/

/-- No two nodes overlap. -/
def Clear (s : BoxState ℚ) : Prop :=
  ∀ m ∈ s.nodes, ∀ n ∈ s.nodes, m.id ≠ n.id → m.box.intersects n.box = false

/-- No two nodes overlap, those aside that may have collided. -/
def ClearBut (s : BoxState ℚ) (collided : String → String → Prop) : Prop :=
  ∀ m ∈ s.nodes, ∀ n ∈ s.nodes, m.id ≠ n.id → ¬ collided m.id n.id →
    m.box.intersects n.box = false

/-- How settling can put two nodes over each other. -/
inductive Collision (s : BoxState ℚ) (d : Direction) (spacing : BoxSpacing ℚ) (x y : String) : Prop
  /-- they have the same home, and one of them is put outside of a block -/
  | expelled (home : SameHome s.blocks x y)
      (out : x ∈ s.expelled d spacing ∨ y ∈ s.expelled d spacing)
  /-- each is listed by one of two siblings that the last separation leaves over each other, as it
  uses up its passes -/
  | unseparated (i j : Nat) (a b : PlacedBlock ℚ) (ne : i ≠ j)
      (first : (s.lastSettled d spacing).1.blocks[i]? = some a)
      (second : (s.lastSettled d spacing).1.blocks[j]? = some b) (level : a.parent = b.parent)
      (listed : x ∈ a.members ∧ y ∈ b.members) (overlap : a.box.intersects b.box = true)
      (passes : roundLimit ≤ (s.lastSettled d spacing).2)
  /-- one of them is put outside of a block after the last separation, and the blocks on the level
  where they part do not stay -/
  | late (i : Nat) (b : PlacedBlock ℚ) (block : s.blocks[i]? = some b)
      (part : Divides s.blocks i x y ∨ Divides s.blocks i y x)
      (out : x ∈ (s.lastSettled d spacing).1.expelledLast spacing ∨
        y ∈ (s.lastSettled d spacing).1.expelledLast spacing)
      (level : ¬ LevelKept s.blocks b ((s.lastSettled d spacing).1.expelledLast spacing))

/-- Two nodes with one home that are both left where the pushes moved them have been moved alike,
and so they are still apart. -/
theorem settle_apart_of_sameHome (hs : s.Housed spacing) (hclear : s.Clear)
    (hx : x ∈ (s.settle d spacing).1.nodes) (hy : y ∈ (s.settle d spacing).1.nodes)
    (hne : x.id ≠ y.id) (hhome : SameHome s.blocks x.id y.id)
    (hxout : x.id ∉ s.expelled d spacing) (hyout : y.id ∉ s.expelled d spacing) :
    x.box.intersects y.box = false := by
  have hh := hs.congr (Alike.settle s d spacing)
  obtain ⟨p, hxp, hyp⟩ := (settle_carries hs.nested d spacing).together _ _ hhome hxout hyout
  rw [MovedBy, hh.placedNode?_eq hx] at hxp
  rw [MovedBy, hh.placedNode?_eq hy] at hyp
  obtain ⟨x', hx', rfl⟩ := Option.map_eq_some_iff.mp hxp.symm
  obtain ⟨y', hy', rfl⟩ := Option.map_eq_some_iff.mp hyp.symm
  obtain ⟨hx', -⟩ := mem_of_placedNode? hx'
  obtain ⟨hy', -⟩ := mem_of_placedNode? hy'
  simp only [PlacedNode.translate, Rect.intersects_translate]
  exact hclear x' hx' y' hy' hne

/-- Collisions do not depend on which of the two nodes is named first. -/
theorem Collision.symm {x y : String} (h : s.Collision d spacing x y) :
    s.Collision d spacing y x := by
  cases h with
  | expelled home out => exact .expelled (fun b hb => (home b hb).symm) out.symm
  | unseparated i j a b ne first second level listed overlap passes =>
    exact .unseparated j i b a ne.symm second first level.symm listed.symm
      ((intersects_comm b.box a.box).trans overlap) passes
  | late i b block part out level => exact .late i b block part.symm out.symm level

/-- Siblings that the last separation leaves over each other make their members collide. -/
theorem lastSettled_apart {x y : String} (hn : Nested s.blocks)
    (hfree : ¬ s.Collision d spacing x y) (hij : i ≠ j)
    (ha : (s.lastSettled d spacing).1.blocks[i]? = some a)
    (hb : (s.lastSettled d spacing).1.blocks[j]? = some b) (hparent : a.parent = b.parent)
    (hboxa : a.hasBox = true) (hboxb : b.hasBox = true) (hx : x ∈ a.members) (hy : y ∈ b.members) :
    a.box.intersects b.box = false := by
  rw [Bool.eq_false_iff]
  intro hover
  refine hfree (.unseparated i j a b hij ha hb hparent ⟨hx, hy⟩ hover (not_lt.mp fun hpasses => ?_))
  have hsep := (lastSettled_sound hn d spacing).2 hpasses
  rw [hsep i j a b hij ha hb hparent hboxa hboxb] at hover
  cases hover

/-- Two nodes that a block tells apart are apart in the end, unless they collide. -/
theorem settle_apart_of_divides (hs : s.Housed spacing)
    (hx : x ∈ (s.settle d spacing).1.nodes) (hy : y ∈ (s.settle d spacing).1.nodes)
    (hdiv : Divides s.blocks i x.id y.id) (hfree : ¬ s.Collision d spacing x.id y.id) :
    x.box.intersects y.box = false := by
  have hsound := (lastSettled_sound hs.nested d spacing).1
  have halike := Alike.lastSettled s d spacing
  have hh := hs.congr halike
  have hh' := hs.congr (Alike.settle s d spacing)
  rw [settle_eq] at hx hy hh'
  obtain ⟨b, hb, hxb, hyb, hside⟩ := hdiv.of_frames halike.frames
  by_cases hout : x.id ∈ (s.lastSettled d spacing).1.expelledLast spacing ∨
      y.id ∈ (s.lastSettled d spacing).1.expelledLast spacing
  case neg =>
    obtain ⟨hxout, hyout⟩ := not_or.mp hout
    have hx := hh'.mem_earlier hsound.finishSettling.1 hx hxout
    have hy := hh'.mem_earlier hsound.finishSettling.1 hy hyout
    rcases hside with ⟨j, c, hji, hc, hparent, hyc⟩ | hhome
    · have hapart := lastSettled_apart hs.nested hfree hji.symm hb hc hparent.symm
        (hh.hasBox hsound.fitted hb hx hxb) (hh.hasBox hsound.fitted hc hy hyc) hxb hyc
      exact hh.apart_of_blocks hsound.fitted hb hc hapart hx hxb hy hyc
    · exact apart_of_staying hsound hh hb hx hxb hy hyb hhome hxout hyout
  case pos =>
    obtain ⟨a, ha, hab⟩ := halike.frames.exists_block hb
    have hkept : LevelKept (s.lastSettled d spacing).1.blocks b
        ((s.lastSettled d spacing).1.expelledLast spacing) := by
      refine LevelKept.of_frames (not_not.mp fun hlevel => ?_) halike.frames hab
      exact hfree (.late i a ha (.inl hdiv) hout hlevel)
    have hyout := hout.resolve_left ((hkept b (List.mem_of_getElem? hb) rfl).2 x.id hxb)
    rcases hside with ⟨j, c, -, hc, hparent, hyc⟩ | hhome
    · have hlevel := levelOf_of_parent (s.lastSettled d spacing).1.blocks hparent
      exact absurd hyout ((hkept c (List.mem_of_getElem? hc) hlevel).2 y.id hyc)
    · obtain ⟨hclears, hwithin⟩ :=
        finishSettling_clears hsound hh hb hyb hhome hyout hkept hx hxb
      have hapart := hclears y (hh'.placedNode?_eq hy)
      rw [intersects_comm] at hapart
      exact hwithin.apart (.refl y.box) hapart

/-- **Settling does not put nodes over each other**, if they are apart before, but for the three
kinds of collisions. -/
theorem settle_clear (hs : s.Housed spacing) (hclear : s.Clear) (d : Direction) :
    (s.settle d spacing).1.ClearBut (s.Collision d spacing) := by
  intro x hx y hy hne hfree
  by_cases hhome : SameHome s.blocks x.id y.id
  · obtain ⟨hxout, hyout⟩ := not_or.mp (mt (Collision.expelled hhome) hfree)
    exact settle_apart_of_sameHome hs hclear hx hy hne hhome hxout hyout
  · obtain ⟨i, hdiv | hdiv⟩ := hs.nested.divides hhome
    · exact settle_apart_of_divides hs hx hy hdiv hfree
    · rw [intersects_comm]
      exact settle_apart_of_divides hs hy hx hdiv (mt Collision.symm hfree)

/-! ## Small states -/

/-- With the usual spacing, a state is as it should be if its blocks nest, each node has its home as
its parent, and no node is without an area. -/
theorem housed_usual (hn : Nested s.blocks) (hnodes : (s.nodes.map PlacedNode.id).Nodup ∧
    ∀ n ∈ s.nodes, n.parent = home? s.blocks n.id) (hsolid : s.Solid)
    (htitles : ∀ b ∈ s.blocks, 0 ≤ titleRoom usualSpacing b) : s.Housed usualSpacing :=
  ⟨hn, hnodes.1, hnodes.2, hsolid, by decide, by decide, htitles⟩

/-- Nodes of some blocks and some without one, far enough apart for a node to be between them. -/
def gate : BoxState ℚ where
  blocks := [titledBlock "s" ["a", "b"] none, titledBlock "q" ["c"] none]
  nodes := [boxedNode "a" 0 0 (some "s"), boxedNode "b" 200 0 (some "s"),
    boxedNode "c" 30 40 (some "q"), boxedNode "x" 110 0 none]

/-- The two blocks are pushed apart, and the node between the members of one of them is put outside
of it. -/
theorem settle_gate : gate.Housed usualSpacing ∧ gate.Clear ∧
    (gate.lastSettled .topDown usualSpacing).2 < roundLimit ∧
    gate.expelled .topDown usualSpacing = ["x"] ∧
    (gate.lastSettled .topDown usualSpacing).1.expelledLast usualSpacing = [] ∧
    (gate.settle .topDown usualSpacing).1.Clear := by
  have hs : gate.Housed usualSpacing :=
    housed_usual (nested_of_flat (by decide) (by decide) (by decide)) (by decide)
      (by unfold Solid; decide) (by decide +kernel)
  have hclear : gate.Clear := by unfold Clear; decide +kernel
  have hpasses : (gate.lastSettled .topDown usualSpacing).2 < roundLimit := by decide +kernel
  have hout : gate.expelled .topDown usualSpacing = ["x"] := by decide +kernel
  have hlast : (gate.lastSettled .topDown usualSpacing).1.expelledLast usualSpacing = [] := by
    decide +kernel
  refine ⟨hs, hclear, hpasses, hout, hlast, ?_⟩
  have hhomes : ∀ m ∈ gate.nodes, ∀ n ∈ gate.nodes, m.id ≠ n.id →
      SameHome gate.blocks m.id n.id → m.id ∉ ["x"] ∧ n.id ∉ ["x"] := by
    unfold SameHome
    decide
  intro x hx y hy hne
  refine settle_clear hs hclear .topDown x hx y hy hne fun hcollision => ?_
  have halike := Alike.settle gate .topDown usualSpacing
  obtain ⟨m, hm, hmx⟩ := halike.exists_node hx
  obtain ⟨n, hn, hny⟩ := halike.exists_node hy
  rw [← id_of_still hmx, ← id_of_still hny] at hcollision hne
  cases hcollision with
  | expelled home out =>
    rw [hout] at out
    obtain ⟨hmout, hnout⟩ := hhomes m hm n hn hne home
    exact out.elim hmout hnout
  | unseparated i j a b ne first second level listed overlap passes =>
    exact absurd passes (not_le.mpr hpasses)
  | late i b block part out level =>
    rw [hlast] at out
    exact out.elim List.not_mem_nil List.not_mem_nil

/-- A block whose members stand far apart, a node between them and one beside the block. -/
def lane : BoxState ℚ where
  blocks := [titledBlock "s" ["a", "b"] none]
  nodes := [boxedNode "a" 0 0 (some "s"), boxedNode "b" 200 0 (some "s"), boxedNode "x" 110 0 none,
    boxedNode "y" 260 0 none]

/-- The nodes at two positions overlap. -/
def stackedAt (s : BoxState ℚ) (i j : Nat) : Bool :=
  match s.nodes[i]?, s.nodes[j]? with
  | some m, some n => m.id != n.id && m.box.intersects n.box
  | _, _ => false

/-- Two nodes that are seen to overlap refute that all of them are apart. -/
theorem not_clear_of_stackedAt (h : s.stackedAt i j = true) : ¬ s.Clear := by
  intro hs
  unfold stackedAt at h
  split at h
  · rename_i m n hm hn
    simp only [Bool.and_eq_true, bne_iff_ne] at h
    have hapart := hs m (List.mem_of_getElem? hm) n (List.mem_of_getElem? hn) h.1
    rw [h.2] at hapart
    cases hapart
  · cases h

/-- **Each kind of collision happens.** In the lane, the node between the members is put outside of
the block, over the node beside it. In the crowd, the node between the inner blocks is put outside
of both and over a member of the block beside it. In the row, the separation stops while two blocks
and their nodes overlap. -/
theorem settle_stacking :
    (lane.Housed usualSpacing ∧ lane.Clear ∧ ¬ (lane.settle .topDown usualSpacing).1.Clear) ∧
    (crowd.Housed usualSpacing ∧ crowd.Clear ∧ ¬ (crowd.settle .topDown usualSpacing).1.Clear) ∧
    (queue.Housed usualSpacing ∧ queue.Clear ∧ ¬ (queue.settle .topDown usualSpacing).1.Clear) := by
  refine ⟨⟨housed_usual ?_ (by decide) (by unfold Solid; decide) (by decide +kernel), ?_, ?_⟩,
    ⟨housed_usual nested_crowd (by decide) (by unfold Solid; decide) (by decide +kernel), ?_, ?_⟩,
    ⟨housed_usual ?_ (by decide) (by unfold Solid; decide) (by decide +kernel), ?_, ?_⟩⟩
  · exact nested_of_flat (by decide) (by decide) (by decide)
  · unfold Clear
    decide +kernel
  · exact not_clear_of_stackedAt (show stackedAt _ 2 3 = true by decide +kernel)
  · unfold Clear
    decide +kernel
  · exact not_clear_of_stackedAt (show stackedAt _ 2 3 = true by decide +kernel)
  · exact nested_of_flat (by decide) (by decide) (by decide)
  · unfold Clear
    decide +kernel
  · exact not_clear_of_stackedAt (show stackedAt _ 0 1 = true by decide +kernel)

end Flowchart.BoxState
