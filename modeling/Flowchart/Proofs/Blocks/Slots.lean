import Flowchart.Proofs.Blocks.Nesting
import Mathlib.Data.List.Basic
import Mathlib.Data.List.Nodup

/-!
# Children of drafts, and the slots of blocks

A draft knows the one around it, and that one lists it among its children; both are written when the
draft is opened, and `Linked` says that they agree. At the end every draft has a slot with its
block. From the last draft to the first, the blocks of the children are taken out of their slots and
put into the block of the draft. What is left then are the outermost blocks.

`nestedFrom_zero` says what this comes to: each draft takes those of the pending blocks that name it
as their parent, so that no block is lost, taken twice or put out of order. What follows from it is
about pending blocks and has no slots in it.
-/

namespace Flowchart

variable {drafts drafts' : List Draft} {i j k : Nat}

/-! ## Children -/

/-- The children of a draft. -/
def childrenOf (drafts : List Draft) (i : Nat) : List Nat :=
  (drafts[i]?.map Draft.children).getD []

/-- The children of each draft are the drafts with this parent, in the order in which they were
opened. -/
def Linked (drafts : List Draft) : Prop :=
  ∀ i, childrenOf drafts i =
    (List.range drafts.length).filter fun j => parentOf drafts j == some i

theorem childrenOf_congr (h : drafts'.map Draft.children = drafts.map Draft.children) :
    childrenOf drafts' = childrenOf drafts := by
  funext i
  rw [childrenOf, childrenOf, ← List.getElem?_map, h, List.getElem?_map]

theorem Linked.congr (hl : Linked drafts) (hp : drafts'.map Draft.parent = drafts.map Draft.parent)
    (hc : drafts'.map Draft.children = drafts.map Draft.children) : Linked drafts' := by
  have hlength : drafts'.length = drafts.length := by simpa using congrArg List.length hp
  intro i
  rw [childrenOf_congr hc, parentOf_congr hp, hlength]
  exact hl i

theorem linked_nil : Linked [] := fun _ => rfl

/-- Noting a draft in the one around it changes nothing but the children there. -/
theorem map_pushDraft {γ : Type} {f : Draft → γ}
    (hf : ∀ (d : Draft) (children : List Nat), f { d with children := children } = f d)
    (drafts : List Draft) (opened : List Nat) (d : Draft) :
    (Builder.pushDraft drafts opened d).map f = drafts.map f ++ [f d] := by
  have hpush : (drafts ++ [d]).map f = drafts.map f ++ [f d] := List.map_append
  unfold Builder.pushDraft
  cases opened with
  | nil => exact hpush
  | cons p rest =>
    rw [← hpush]
    refine List.ext_getElem? fun i => ?_
    rw [List.getElem?_map, List.getElem?_map, List.getElem?_modify]
    split <;> cases (drafts ++ [d])[i]? <;> simp [hf]

theorem childrenOf_pushDraft {opened : List Nat} (hopen : ∀ p ∈ opened.head?, p < drafts.length)
    {d : Draft} (hd : d.children = []) (i : Nat) :
    childrenOf (Builder.pushDraft drafts opened d) i =
      childrenOf drafts i ++ if opened.head? = some i then [drafts.length] else [] := by
  have hconcat : childrenOf (drafts ++ [d]) i = childrenOf drafts i := by
    rw [childrenOf, childrenOf, List.getElem?_append]
    split
    next => rfl
    next h =>
      rw [List.getElem?_eq_none (Nat.le_of_not_lt h), List.getElem?_singleton]
      split <;> simp [hd]
  unfold Builder.pushDraft
  cases opened with
  | nil => simpa using hconcat
  | cons p rest =>
    have hp : p < (drafts ++ [d]).length := by
      rw [List.length_append]
      exact Nat.lt_add_right 1 (hopen p rfl)
    rw [← hconcat, childrenOf, childrenOf, List.getElem?_modify, List.head?_cons]
    by_cases hpi : p = i
    · subst hpi
      simp [List.getElem?_eq_getElem hp]
    · simp [hpi]

/-- A draft that is opened inside the innermost open one is noted there and nowhere else. -/
theorem Linked.pushDraft (hl : Linked drafts) (hn : Nested drafts) {opened : List Nat}
    (ho : OpenIn drafts opened) {d : Draft} (hd : d.parent = opened.head?)
    (hchildren : d.children = []) : Linked (Builder.pushDraft drafts opened d) := by
  have hparents : (Builder.pushDraft drafts opened d).map Draft.parent =
      (drafts ++ [d]).map Draft.parent := by
    rw [map_pushDraft fun _ _ => rfl, List.map_append, List.map_singleton]
  have hlength : (Builder.pushDraft drafts opened d).length = drafts.length + 1 := by
    simpa using congrArg List.length hparents
  have hopen : ∀ p ∈ opened.head?, p < drafts.length := fun p hp =>
    ho.lt_length hn (List.mem_of_mem_head? hp)
  intro i
  rw [childrenOf_pushDraft hopen hchildren, hl i, parentOf_congr hparents, hlength,
    List.range_succ, List.filter_append]
  have hold : (List.range drafts.length).filter (fun j => parentOf (drafts ++ [d]) j == some i) =
      (List.range drafts.length).filter fun j => parentOf drafts j == some i :=
    List.filter_congr fun j hj => by
      rw [parentOf_concat, if_neg (Nat.ne_of_lt (List.mem_range.mp hj))]
  rw [hold, List.filter_singleton, parentOf_concat, if_pos rfl, hd]
  simp

/-! ## Slots -/

/-- The block in a slot. -/
def slotAt (slots : List (Option Block)) (j : Nat) : Option Block := slots[j]?.join

section Slots

variable {slots : List (Option Block)}

theorem slotAt_set_none (slots : List (Option Block)) (i j : Nat) :
    slotAt (slots.set i none) j = if j = i then none else slotAt slots j := by
  rw [slotAt, slotAt, List.getElem?_set]
  by_cases h : i = j
  · subst h
    by_cases hi : i < slots.length <;> simp [hi]
  · simp [h, Ne.symm h]

theorem slotAt_modify (slots : List (Option Block)) (f : Block → Block) (i j : Nat) :
    slotAt (slots.modify i (Option.map f)) j =
      if j = i then (slotAt slots j).map f else slotAt slots j := by
  rw [slotAt, slotAt, List.getElem?_modify]
  by_cases h : i = j
  · subst h
    rcases slots[i]? with _ | _ | b <;> simp
  · simp [h, Ne.symm h]

/-- Taking blocks out of different slots: all that are there come out, in the order of the slots,
and these slots are empty after that. -/
theorem takeBlocks_spec {l : List Nat} (hl : l.Nodup) (slots : List (Option Block)) :
    (Builder.takeBlocks slots l).1 = l.filterMap (slotAt slots) ∧
      ∀ j, slotAt (Builder.takeBlocks slots l).2 j = if j ∈ l then none else slotAt slots j := by
  induction l generalizing slots with
  | nil => exact ⟨rfl, fun j => by simp [Builder.takeBlocks]⟩
  | cons i l ih =>
    obtain ⟨hi, hl⟩ := List.nodup_cons.mp hl
    obtain ⟨htaken, hleft⟩ := ih hl (slots.set i none)
    constructor
    · have hother : l.filterMap (slotAt (slots.set i none)) = l.filterMap (slotAt slots) :=
        List.filterMap_congr fun j hj => by
          rw [slotAt_set_none]
          refine if_neg fun h => ?_
          exact hi (h ▸ hj)
      change (slotAt slots i).toList ++ (Builder.takeBlocks (slots.set i none) l).1 = _
      rw [htaken, hother, List.filterMap_cons]
      cases slotAt slots i <;> rfl
    · intro j
      change slotAt (Builder.takeBlocks (slots.set i none) l).2 j = _
      rw [hleft, slotAt_set_none]
      by_cases hji : j = i <;> simp [hji]

end Slots

/-! ## Pending blocks -/

/-- One step of nesting: a draft takes its blocks out of the pending ones. -/
def nestDraft (d : Draft) (i : Nat) (pending : List (Option Nat × Block)) :
    List (Option Nat × Block) :=
  (d.parent, .mk d.id d.title d.direction d.members
      ((pending.filter fun p => p.1 == some i).map Prod.snd))
    :: pending.filter fun p => !(p.1 == some i)

/-- The blocks that are pending once the drafts from a position on were nested. -/
def pendingFrom (k : Nat) (rest : List Draft) : List (Option Nat × Block) :=
  (rest.zipIdx k).foldr (fun p pending => nestDraft p.1 p.2 pending) []

/-- The blocks in some slots, each with the parent of its draft. -/
def inSlots (drafts : List Draft) (slots : List (Option Block)) (l : List Nat) :
    List (Option Nat × Block) :=
  l.filterMap fun j => (slotAt slots j).map fun b => (parentOf drafts j, b)

theorem map_snd_inSlots (drafts : List Draft) (slots : List (Option Block)) (l : List Nat) :
    (inSlots drafts slots l).map Prod.snd = l.filterMap (slotAt slots) := by
  rw [inSlots, List.map_filterMap]
  refine List.filterMap_congr fun j _ => ?_
  cases slotAt slots j <;> rfl

/-- Blocks may be chosen by their parents before or after they are looked up. -/
theorem filter_inSlots (drafts : List Draft) (slots : List (Option Block)) (l : List Nat)
    (q : Option Nat → Bool) : (inSlots drafts slots l).filter (fun p => q p.1) =
      inSlots drafts slots (l.filter fun j => q (parentOf drafts j)) := by
  rw [inSlots, inSlots, List.filter_filterMap, List.filterMap_filter]
  refine List.filterMap_congr fun j _ => ?_
  cases slotAt slots j <;> simp [Option.filter]

/-- The slots once the drafts from a position on were nested: earlier drafts still have their bare
blocks, and the blocks in later slots are the pending ones. -/
structure NestedFrom (drafts : List Draft) (k : Nat) (slots : List (Option Block)) : Prop where
  bare : ∀ j < k, slotAt slots j =
    drafts[j]?.map fun d => .mk d.id d.title d.direction d.members []
  pending : inSlots drafts slots (List.range' k (drafts.length - k)) =
    pendingFrom k (drafts.drop k)

section Step

variable (hl : Linked drafts) (hn : Nested drafts)
include hl hn

/-- A draft comes before those directly inside it, so its children are found among the later
drafts. -/
theorem childrenOf_eq_later (hk : k < drafts.length) : childrenOf drafts k =
    (List.range' (k + 1) (drafts.length - (k + 1))).filter
      fun j => parentOf drafts j == some k := by
  have hsplit : List.range drafts.length =
      List.range (k + 1) ++ List.range' (k + 1) (drafts.length - (k + 1)) := by
    rw [List.range_eq_range', List.range_eq_range', ← Nat.add_sub_cancel' hk,
      ← List.range'_append_1, Nat.zero_add, Nat.add_sub_cancel_left]
  have hnone : (List.range (k + 1)).filter (fun j => parentOf drafts j == some k) = [] :=
    List.filter_eq_nil_iff.mpr fun j hj hp => by
      have hlt := hn.parent_lt (beq_iff_eq.mp hp)
      have hle := List.mem_range.mp hj
      omega
  rw [hl k, hsplit, List.filter_append, hnone, List.nil_append]

theorem nodup_childrenOf (hk : k < drafts.length) : (childrenOf drafts k).Nodup := by
  rw [childrenOf_eq_later hl hn hk]
  exact List.Nodup.filter _ List.nodup_range'

theorem lt_of_mem_childrenOf (hk : k < drafts.length) (hj : j ∈ childrenOf drafts k) : k < j := by
  rw [childrenOf_eq_later hl hn hk] at hj
  exact (List.mem_range'_1.mp (List.mem_filter.mp hj).1).1

/-- Nesting one draft gives its block the children, empties their slots, and leaves every other slot
alone. -/
theorem slotAt_nestChildren (hk : k < drafts.length) (slots : List (Option Block)) (j : Nat) :
    slotAt (Builder.nestChildren drafts slots k) j =
      if j = k then (slotAt slots k).map
        (·.withChildren ((childrenOf drafts k).filterMap (slotAt slots)))
      else if j ∈ childrenOf drafts k then none else slotAt slots j := by
  obtain ⟨htaken, hleft⟩ := takeBlocks_spec (nodup_childrenOf hl hn hk) slots
  have hnest : Builder.nestChildren drafts slots k =
      (Builder.takeBlocks slots (childrenOf drafts k)).2.modify k
        (Option.map (·.withChildren (Builder.takeBlocks slots (childrenOf drafts k)).1)) := rfl
  rw [hnest, slotAt_modify, hleft, htaken]
  by_cases hj : j = k
  · subst hj
    rw [if_pos rfl, if_pos rfl,
      if_neg fun hmem => Nat.lt_irrefl _ (lt_of_mem_childrenOf hl hn hk hmem)]
  · rw [if_neg hj, if_neg hj]

/-- Of the later blocks those stay in their slots that are not inside the draft. -/
theorem inSlots_nestChildren (hk : k < drafts.length) (slots : List (Option Block)) :
    inSlots drafts (Builder.nestChildren drafts slots k)
        (List.range' (k + 1) (drafts.length - (k + 1))) =
      inSlots drafts slots ((List.range' (k + 1) (drafts.length - (k + 1))).filter
        fun j => !(parentOf drafts j == some k)) := by
  rw [inSlots, inSlots, List.filterMap_filter]
  refine List.filterMap_congr fun j hj => ?_
  have hne : j ≠ k := Nat.ne_of_gt (List.mem_range'_1.mp hj).1
  rw [slotAt_nestChildren hl hn hk, if_neg hne, childrenOf_eq_later hl hn hk]
  cases hp : parentOf drafts j == some k <;> simp [hj, hp]

/-- **One draft is nested**: its children come after it, so their blocks are all pending. -/
theorem NestedFrom.step {slots : List (Option Block)} (hk : k < drafts.length)
    (hs : NestedFrom drafts (k + 1) slots) :
    NestedFrom drafts k (Builder.nestChildren drafts slots k) := by
  obtain ⟨d, hd⟩ : ∃ d, drafts[k]? = some d := ⟨_, List.getElem?_eq_getElem hk⟩
  constructor
  case bare =>
    intro j hj
    rw [slotAt_nestChildren hl hn hk, if_neg (Nat.ne_of_lt hj),
      if_neg fun hmem => Nat.lt_asymm hj (lt_of_mem_childrenOf hl hn hk hmem)]
    exact hs.bare j (Nat.lt_succ_of_lt hj)
  case pending =>
    have hrange : List.range' k (drafts.length - k) =
        k :: List.range' (k + 1) (drafts.length - (k + 1)) := by
      rw [← Nat.sub_add_cancel (Nat.sub_pos_of_lt hk), List.range'_succ]
      rfl
    have hparent : parentOf drafts k = d.parent := by rw [parentOf, hd, Option.bind_some]
    have hdrop : drafts.drop k = d :: drafts.drop (k + 1) := by
      rw [List.drop_eq_getElem_cons hk, (List.getElem?_eq_some_iff.mp hd).2]
    have hmine : (childrenOf drafts k).filterMap (slotAt slots) =
        ((inSlots drafts slots (List.range' (k + 1) (drafts.length - (k + 1)))).filter
          fun p => p.1 == some k).map Prod.snd := by
      rw [filter_inSlots drafts slots _ (· == some k), map_snd_inSlots,
        childrenOf_eq_later hl hn hk]
    have hstep : pendingFrom k (d :: drafts.drop (k + 1)) =
        nestDraft d k (inSlots drafts slots (List.range' (k + 1) (drafts.length - (k + 1)))) := by
      rw [hs.pending]
      rfl
    rw [hdrop, hstep, hrange, inSlots, List.filterMap_cons, ← inSlots,
      inSlots_nestChildren hl hn hk, slotAt_nestChildren hl hn hk, if_pos rfl,
      hs.bare k (Nat.lt_succ_self k), hd, hparent, hmine, nestDraft,
      filter_inSlots drafts slots _ fun p => !(p == some k)]
    rfl

end Step

/-- **All drafts are nested** from the last one to the first, by induction on how many were nested
so far. -/
theorem nestedFrom_zero (hl : Linked drafts) (hn : Nested drafts) :
    NestedFrom drafts 0 ((List.range drafts.length).reverse.foldl (Builder.nestChildren drafts)
      (drafts.map fun d => some (.mk d.id d.title d.direction d.members []))) := by
  let slots := drafts.map fun d => some (Block.mk d.id d.title d.direction d.members [])
  -- by how many drafts were nested so far
  have hrun : ∀ m ≤ drafts.length, NestedFrom drafts (drafts.length - m)
      ((List.range' (drafts.length - m) m).reverse.foldl (Builder.nestChildren drafts) slots) := by
    intro m
    induction m with
    | zero =>
      intro _
      refine ⟨fun j _ => ?_, ?_⟩
      · change slotAt slots j = _
        rw [slotAt, List.getElem?_map]
        cases drafts[j]? <;> rfl
      · rw [Nat.sub_zero, Nat.sub_self, List.drop_length]
        rfl
    | succ m ih =>
      intro hm
      obtain ⟨k, hk⟩ : ∃ k, drafts.length = k + (m + 1) := ⟨drafts.length - (m + 1), by omega⟩
      have hafter := ih (Nat.le_of_succ_le hm)
      rw [show drafts.length - m = k + 1 by omega] at hafter
      rw [show drafts.length - (m + 1) = k by omega, List.range'_succ, List.reverse_cons,
        List.foldl_append]
      exact hafter.step hl hn (by omega)
  have hall := hrun drafts.length (Nat.le_refl _)
  rwa [Nat.sub_self, ← List.range_eq_range'] at hall

end Flowchart
