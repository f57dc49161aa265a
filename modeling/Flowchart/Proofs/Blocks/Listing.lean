import Flowchart.Proofs.Blocks.Slots

/-!
# The listing of blocks

Drafts are nested into blocks from the last one to the first: each one takes those of the pending
blocks that name it as their parent. Since drafts nest, these are the first of the pending blocks.
So listing all blocks, each one before those inside it, gives the drafts back in their order, and a
block has as many blocks around it as its draft has ancestors: `listing_nestBlocks`. A listed block
does not show the list of children of its draft, which is left out of the comparison.
-/

namespace Flowchart

variable {drafts : List Draft}

/-- A draft without its list of children. -/
def Draft.bare (d : Draft) : Draft := { d with children := [] }

/-- What a listed block says about its draft. -/
def FlatBlock.draft (f : FlatBlock) : Draft where
  id := f.block.id
  title := f.block.title
  direction := f.block.direction
  members := f.block.members
  parent := f.parent

/-! ## Blocks inside a block -/

theorem Block.mem_listAllFrom (index depth : Nat) (parent : Option Nat) {bs : List Block}
    {c : Block} (hc : c ∈ bs) : ∃ (k : Nat) (f : FlatBlock),
      (Block.listAllFrom index depth parent bs)[k]? = some f ∧ f.block = c ∧ f.parent = parent := by
  induction bs generalizing index with
  | nil => cases hc
  | cons b bs ih =>
    rw [Block.listAllFrom]
    rcases List.mem_cons.mp hc with rfl | hc
    · refine ⟨0, ⟨c, depth, parent⟩, ?_, rfl, rfl⟩
      obtain ⟨i, t, d, m, children⟩ := c
      rfl
    · obtain ⟨k, f, hf, hblock, hparent⟩ := ih (index + (b.listFrom index depth parent).length) hc
      refine ⟨(b.listFrom index depth parent).length + k, f, ?_, hblock, hparent⟩
      rw [List.getElem?_append_right (Nat.le_add_right _ _), Nat.add_sub_cancel_left, hf]

mutual

/-- A block directly inside a listed one is listed, with the position of the outer one. -/
theorem Block.child_listFrom (index depth : Nat) (parent : Option Nat) (b : Block) {k : Nat}
    {f : FlatBlock} (hf : (b.listFrom index depth parent)[k]? = some f) {c : Block}
    (hc : c ∈ f.block.children) : ∃ (k' : Nat) (f' : FlatBlock),
      (b.listFrom index depth parent)[k']? = some f' ∧ f'.block = c ∧
        f'.parent = some (index + k) := by
  obtain ⟨i, t, d, m, children⟩ := b
  rw [Block.listFrom] at hf ⊢
  cases k with
  | zero =>
    obtain rfl := Option.some.inj hf
    obtain ⟨k', f', hf', hblock, hparent⟩ :=
      Block.mem_listAllFrom (index + 1) (depth + 1) (some index) hc
    exact ⟨k' + 1, f', hf', hblock, hparent⟩
  | succ k =>
    obtain ⟨k', f', hf', hblock, hparent⟩ :=
      Block.child_listAllFrom (index + 1) (depth + 1) (some index) children hf hc
    exact ⟨k' + 1, f', hf', hblock, by rw [hparent, Nat.add_right_comm, Nat.add_assoc]⟩

theorem Block.child_listAllFrom (index depth : Nat) (parent : Option Nat) (bs : List Block)
    {k : Nat} {f : FlatBlock} (hf : (Block.listAllFrom index depth parent bs)[k]? = some f)
    {c : Block} (hc : c ∈ f.block.children) : ∃ (k' : Nat) (f' : FlatBlock),
      (Block.listAllFrom index depth parent bs)[k']? = some f' ∧ f'.block = c ∧
        f'.parent = some (index + k) := by
  cases bs with
  | nil => cases hf
  | cons b bs =>
    rw [Block.listAllFrom] at hf ⊢
    by_cases hk : k < (b.listFrom index depth parent).length
    · rw [List.getElem?_append_left hk] at hf
      obtain ⟨k', f', hf', hchild⟩ := Block.child_listFrom index depth parent b hf hc
      refine ⟨k', f', ?_, hchild⟩
      rw [List.getElem?_append_left (List.getElem?_eq_some_iff.mp hf').1, hf']
    · rw [List.getElem?_append_right (Nat.le_of_not_lt hk)] at hf
      obtain ⟨k', f', hf', hblock, hparent⟩ := Block.child_listAllFrom _ depth parent bs hf hc
      refine ⟨(b.listFrom index depth parent).length + k', f', ?_, hblock, ?_⟩
      · rw [List.getElem?_append_right (Nat.le_add_right _ _), Nat.add_sub_cancel_left, hf']
      · rw [hparent, Nat.add_assoc, Nat.add_sub_cancel' (Nat.le_of_not_lt hk)]

end

/-! ## Listing pending blocks -/

/-- What lies before everything else of its kind is a prefix. -/
theorem filter_append_filter_not {β : Type} {q : β → Bool} {l : List β}
    (h : l.Pairwise fun x y => q y = true → q x = true) :
    l.filter q ++ l.filter (!q ·) = l := by
  induction l with
  | nil => rfl
  | cons x l ih =>
    obtain ⟨hx, hl⟩ := List.pairwise_cons.mp h
    cases hq : q x with
    | true => simp [hq, ih hl]
    | false =>
      have hnone : ∀ y ∈ l, q y = false := fun y hy => by
        by_contra hy'
        simp [hx y hy (by simpa using hy')] at hq
      have hmine : l.filter q = [] :=
        List.filter_eq_nil_iff.mpr fun y hy => Bool.not_eq_true _ ▸ hnone y hy
      have hothers : l.filter (!q ·) = l :=
        List.filter_eq_self.mpr fun y hy => by rw [hnone y hy]; rfl
      simp [hq, hmine, hothers]

/-- How many drafts are around one with the given parent. -/
def depthUnder (drafts : List Draft) : Option Nat → Nat
  | none => 0
  | some p => (ancestors drafts p).length + 1

/-- Lists pending blocks one after the other, the first one being at a given position. -/
def listPending (drafts : List Draft) (index : Nat) : List (Option Nat × Block) → List FlatBlock
  | [] => []
  | (parent, b) :: rest =>
    let here := b.listFrom index (depthUnder drafts parent) parent
    here ++ listPending drafts (index + here.length) rest

theorem listPending_append (index : Nat) (l l' : List (Option Nat × Block)) :
    listPending drafts index (l ++ l') = listPending drafts index l ++
      listPending drafts (index + (listPending drafts index l).length) l' := by
  induction l generalizing index with
  | nil => rfl
  | cons p l ih =>
    obtain ⟨parent, b⟩ := p
    simp [listPending, ih, Nat.add_assoc]

/-- Pending blocks under one parent are listed as siblings. -/
theorem listPending_siblings (index : Nat) {parent : Option Nat} {l : List (Option Nat × Block)}
    (h : ∀ p ∈ l, p.1 = parent) : listPending drafts index l =
      Block.listAllFrom index (depthUnder drafts parent) parent (l.map Prod.snd) := by
  induction l generalizing index with
  | nil => rfl
  | cons p l ih =>
    obtain ⟨parent', b⟩ := p
    obtain rfl : parent' = parent := h _ List.mem_cons_self
    simp only [listPending, List.map_cons, Block.listAllFrom]
    rw [ih _ fun p hp => h p (List.mem_cons_of_mem _ hp)]

/-- A draft is listed before the blocks that it takes, and these stay where they were listed. -/
theorem listPending_nestDraft (hn : Nested drafts) {k : Nat} {d : Draft} (hd : drafts[k]? = some d)
    {pending : List (Option Nat × Block)}
    (hfirst : pending.Pairwise fun x y => (y.1 == some k) = true → (x.1 == some k) = true) :
    ∃ children, listPending drafts k (nestDraft d k pending) =
      ⟨.mk d.id d.title d.direction d.members children, (ancestors drafts k).length, d.parent⟩ ::
        listPending drafts (k + 1) pending := by
  have hparent : parentOf drafts k = d.parent := by rw [parentOf, hd, Option.bind_some]
  have hdepth : depthUnder drafts d.parent = (ancestors drafts k).length := by
    cases hp : d.parent with
    | none => rw [Nested.ancestors_of_none (hparent.trans hp), depthUnder, List.length_nil]
    | some p => rw [hn.ancestors_of_some (hparent.trans hp), depthUnder, List.length_cons]
  have hmine : ∀ p ∈ pending.filter fun p => p.1 == some k, p.1 = some k := fun p hp => by
    simpa using (List.mem_filter.mp hp).2
  have hlisted : listPending drafts (k + 1) pending =
      Block.listAllFrom (k + 1) (depthUnder drafts (some k)) (some k)
          ((pending.filter fun p => p.1 == some k).map Prod.snd) ++
        listPending drafts (k + 1 + (Block.listAllFrom (k + 1) (depthUnder drafts (some k)) (some k)
          ((pending.filter fun p => p.1 == some k).map Prod.snd)).length)
          (pending.filter fun p => !(p.1 == some k)) := by
    conv_lhs => rw [← filter_append_filter_not hfirst]
    rw [listPending_append, listPending_siblings (k + 1) hmine]
  refine ⟨(pending.filter fun p => p.1 == some k).map Prod.snd, ?_⟩
  simp only [hlisted, nestDraft, listPending, Block.listFrom, List.cons_append, List.length_cons,
    hdepth]
  rw [Nat.add_right_comm, Nat.add_assoc]
  rfl

/-- Of the parents that come before a position, the draft right before it comes first. This is so
because whatever lies between a draft and one directly inside it lies inside it as well. -/
theorem Nested.pairwise_parents (hn : Nested drafts) {k : Nat} {rest : List Draft}
    (hrest : drafts.drop (k + 1) = rest) :
    ((rest.map Draft.parent).filter fun p => p.all (· < k + 1)).Pairwise fun p q =>
      (q == some k) = true → (p == some k) = true := by
  rw [List.pairwise_filter, List.pairwise_map, List.pairwise_iff_getElem]
  intro a b ha hb hab hpa _ hpb
  have hget : ∀ (c : Nat) (hc : c < rest.length), parentOf drafts (k + 1 + c) = rest[c].parent := by
    intro c hc
    rw [parentOf, ← List.getElem?_drop, hrest, List.getElem?_eq_getElem hc, Option.bind_some]
  -- what lies between the draft and one directly inside it lies inside it as well
  obtain ⟨p, hp, hkp⟩ := hn.between (k := k) (j := k + 1 + a) (i := k + 1 + b) (by omega)
    (by omega) ((hget b hb).trans (by simpa using hpb))
  rw [hget a ha] at hp
  rw [hp] at hpa ⊢
  simp only [Option.all_some, decide_eq_true_eq, beq_iff_eq, Option.some_inj] at hpa ⊢
  omega

/-- **The pending blocks list the drafts they were made of.** Pending are the blocks of those drafts
whose parent comes before all of them. -/
theorem pendingFrom_spec (hn : Nested drafts) (k : Nat) {rest : List Draft}
    (hrest : drafts.drop k = rest) :
    (pendingFrom k rest).map Prod.fst =
      (rest.map Draft.parent).filter (fun p => p.all (· < k)) ∧
    (listPending drafts k (pendingFrom k rest)).map (fun f => (f.draft, f.depth)) =
      (rest.zipIdx k).map fun p => (p.1.bare, (ancestors drafts p.2).length) := by
  induction rest generalizing k with
  | nil => exact ⟨rfl, rfl⟩
  | cons d rest ih =>
    have hd : drafts[k]? = some d := by
      rw [← Nat.add_zero k, ← List.getElem?_drop, hrest]
      rfl
    have hrest' : drafts.drop (k + 1) = rest := by
      rw [← List.drop_drop, hrest]
      rfl
    have hparent : parentOf drafts k = d.parent := by rw [parentOf, hd, Option.bind_some]
    obtain ⟨hparents, hlisted⟩ := ih (k + 1) hrest'
    have hstep : pendingFrom k (d :: rest) = nestDraft d k (pendingFrom (k + 1) rest) := rfl
    have hfirst := List.pairwise_map.mp (hparents ▸ hn.pairwise_parents hrest')
    constructor
    · have hlt : d.parent.all (· < k) = true := by
        cases hp : d.parent with
        | none => rfl
        | some p => simpa using hn.parent_lt (hparent.trans hp)
      rw [hstep, nestDraft, List.map_cons, List.map_cons, List.filter_cons_of_pos hlt]
      congr 1
      have hothers : ((pendingFrom (k + 1) rest).filter fun p => !(p.1 == some k)).map Prod.fst =
          ((pendingFrom (k + 1) rest).map Prod.fst).filter fun p => !(p == some k) := by
        rw [List.filter_map]
        rfl
      rw [hothers, hparents, List.filter_filter]
      refine List.filter_congr fun p _ => ?_
      cases p with
      | none => rfl
      | some p =>
        rw [Bool.eq_iff_iff]
        simp only [Option.all_some, Bool.and_eq_true, Bool.not_eq_true', beq_eq_false_iff_ne, ne_eq,
          Option.some_inj, decide_eq_true_eq]
        omega
    · obtain ⟨children, hlist⟩ := listPending_nestDraft hn hd hfirst
      rw [hstep, hlist, List.map_cons, hlisted, List.zipIdx_cons, List.map_cons]
      rfl

/-- At the end only outermost blocks are pending. -/
theorem parent_pendingFrom_zero (hn : Nested drafts) :
    ∀ p ∈ pendingFrom 0 drafts, p.1 = none := by
  intro p hp
  have hmem := List.mem_map_of_mem (f := Prod.fst) hp
  rw [(pendingFrom_spec hn 0 List.drop_zero).1] at hmem
  cases hp' : p.1 with
  | none => rfl
  | some q => simp [hp'] at hmem

/-- **Nested drafts are the blocks that stay pending**: the blocks taken out of the slots of
outermost drafts are all that are left there. -/
theorem nestBlocks_eq (hl : Linked drafts) (hn : Nested drafts) :
    Builder.nestBlocks drafts = (pendingFrom 0 drafts).map Prod.snd := by
  have hpending := (nestedFrom_zero hl hn).pending
  rw [Nat.sub_zero, ← List.range_eq_range', List.drop_zero] at hpending
  have hroots : (pendingFrom 0 drafts).filter (fun p => p.1.isNone) = pendingFrom 0 drafts :=
    List.filter_eq_self.mpr fun p hp => by rw [parent_pendingFrom_zero hn p hp]; rfl
  rw [← hroots, ← hpending, filter_inSlots drafts _ _ Option.isNone, map_snd_inSlots]
  exact (takeBlocks_spec (List.nodup_range.filter _) _).1

/-- **The listing of nested drafts** is the drafts in their order, each with the number of drafts
around it. -/
theorem listing_nestBlocks (hl : Linked drafts) (hn : Nested drafts) :
    (Block.listAllFrom 0 0 none (Builder.nestBlocks drafts)).map (fun f => (f.draft, f.depth)) =
      drafts.zipIdx.map fun p => (p.1.bare, (ancestors drafts p.2).length) := by
  rw [nestBlocks_eq hl hn, ← (pendingFrom_spec hn 0 List.drop_zero).2,
    listPending_siblings 0 (parent_pendingFrom_zero hn)]
  rfl

/-- What stands at a position of the listing. -/
theorem getElem?_listing (hl : Linked drafts) (hn : Nested drafts) {i : Nat} {f : FlatBlock} :
    (Block.listAllFrom 0 0 none (Builder.nestBlocks drafts))[i]? = some f →
      drafts[i]?.map Draft.bare = some f.draft ∧ f.depth = (ancestors drafts i).length := by
  intro hf
  have hmap := congrArg (fun l : List (Draft × Nat) => l[i]?) (listing_nestBlocks hl hn)
  simp only [List.getElem?_map, hf, Option.map_some, List.getElem?_zipIdx] at hmap
  cases hd : drafts[i]? with
  | none => simp [hd] at hmap
  | some d =>
    simp only [hd, Option.map_some, Nat.zero_add, Option.some_inj, Prod.mk.injEq] at hmap
    exact ⟨congrArg some hmap.1.symm, hmap.2⟩

theorem length_listing (hl : Linked drafts) (hn : Nested drafts) :
    (Block.listAllFrom 0 0 none (Builder.nestBlocks drafts)).length = drafts.length := by
  simpa using congrArg List.length (listing_nestBlocks hl hn)

end Flowchart
