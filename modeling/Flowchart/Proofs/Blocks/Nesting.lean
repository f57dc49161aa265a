import Flowchart.Grammar.Builder
import Mathlib.Data.List.Pairwise
import Mathlib.Order.Nat

/-!
# Drafts nest

A draft is opened inside the innermost open one, and only the innermost open one is closed. So the
draft around another one was opened before it, and once a draft is closed nothing more is put
inside: between a draft and one directly inside it there are only drafts inside the first. `Nested`
states both of the parents, and `OpenIn` says which drafts may be open.
-/

namespace Flowchart

variable {drafts drafts' : List Draft} {i j k : Nat}

/-- The drafts are nested as blocks of a text are. -/
structure Nested (drafts : List Draft) : Prop where
  /-- the draft around another one was opened before it -/
  parent_lt : ∀ {i p : Nat}, parentOf drafts i = some p → p < i
  /-- what was opened between a draft and one directly inside it lies inside the first -/
  between : ∀ {k j i : Nat}, k < j → j < i → parentOf drafts i = some k →
    ∃ p, parentOf drafts j = some p ∧ k ≤ p

/-- The open drafts are one draft with all around it, and nothing was opened outside of them
since. -/
structure OpenIn (drafts : List Draft) (opened : List Nat) : Prop where
  chain : ∀ {k : Nat} {rest : List Nat}, opened = k :: rest →
    k < drafts.length ∧ rest = ancestors drafts k
  inside : ∀ {k j : Nat}, k ∈ opened → k < j → j < drafts.length →
    ∃ p, parentOf drafts j = some p ∧ k ≤ p

/-! ## Parents -/

/-- Only drafts that exist have parents, so a position with a parent lies in the list. -/
theorem lt_length_of_parentOf {p : Nat} (h : parentOf drafts i = some p) : i < drafts.length := by
  obtain ⟨d, hd, -⟩ := Option.bind_eq_some_iff.mp h
  exact (List.getElem?_eq_some_iff.mp hd).1

theorem parentOf_congr (h : drafts'.map Draft.parent = drafts.map Draft.parent) :
    parentOf drafts' = parentOf drafts := by
  have hjoin : ∀ x : Option Draft, x.bind Draft.parent = (x.map Draft.parent).join := by
    rintro (_ | _) <;> rfl
  funext i
  rw [parentOf, parentOf, hjoin, hjoin, ← List.getElem?_map, h, List.getElem?_map]

theorem ancestors_congr (h : drafts'.map Draft.parent = drafts.map Draft.parent) :
    ancestors drafts' = ancestors drafts := by
  have hwith : ∀ (fuel i : Nat), ancestorsWith drafts' fuel i = ancestorsWith drafts fuel i := by
    intro fuel
    induction fuel with
    | zero => exact fun i => rfl
    | succ fuel ih =>
      intro i
      simp only [ancestorsWith, parentOf_congr h, ih]
  have hlength : drafts'.length = drafts.length := by simpa using congrArg List.length h
  funext i
  rw [ancestors, ancestors, hlength, hwith]

/-- A new draft comes with a parent of its own and leaves those of the others alone. -/
theorem parentOf_concat (d : Draft) : parentOf (drafts ++ [d]) i =
    if i = drafts.length then d.parent else parentOf drafts i := by
  rw [parentOf, parentOf]
  split
  next h => simp [h]
  next h =>
    rcases Nat.lt_or_gt_of_ne h with hlt | hgt
    · rw [List.getElem?_append_left hlt]
    · rw [List.getElem?_eq_none (by simp; omega), List.getElem?_eq_none hgt.le]

/-! ## Ancestors -/

namespace Nested

/-- A draft with no parent has no ancestors. -/
theorem ancestors_of_none (hi : parentOf drafts i = none) : ancestors drafts i = [] := by
  unfold ancestors
  cases drafts.length with
  | zero => rfl
  | succ fuel => rw [ancestorsWith, hi]

/-- The fuel suffices: there are at most as many drafts around one as were opened before it. -/
theorem ancestorsWith_succ (hn : Nested drafts) {fuel : Nat} (hi : i ≤ fuel) :
    ancestorsWith drafts (fuel + 1) i = ancestorsWith drafts fuel i := by
  induction fuel generalizing i with
  | zero =>
    obtain rfl := Nat.le_zero.mp hi
    cases hp : parentOf drafts 0 with
    | none => rw [ancestorsWith, ancestorsWith, hp]
    | some p => exact absurd (hn.parent_lt hp) (Nat.not_lt_zero p)
  | succ fuel ih =>
    rw [ancestorsWith, ancestorsWith.eq_2]
    cases hp : parentOf drafts i with
    | none => rfl
    | some p =>
      have hlt := hn.parent_lt hp
      exact congrArg (p :: ·) (ih (by omega))

/-- The ancestors of a draft are its parent and the ancestors of that. -/
theorem ancestors_of_some (hn : Nested drafts) {p : Nat} (hp : parentOf drafts i = some p) :
    ancestors drafts i = p :: ancestors drafts p := by
  obtain ⟨fuel, hfuel⟩ := Nat.exists_eq_add_one.mpr (Nat.zero_lt_of_lt (lt_length_of_parentOf hp))
  have hlt := hn.parent_lt hp
  have hi := lt_length_of_parentOf hp
  rw [ancestors, ancestors, hfuel, hn.ancestorsWith_succ (by omega : p ≤ fuel), ancestorsWith, hp]

/-- The ancestors of a draft were opened before it, by induction along the chain of parents. -/
theorem lt_of_mem_ancestors (hn : Nested drafts) (h : k ∈ ancestors drafts i) : k < i := by
  induction i using Nat.strongRecOn with
  | ind i ih =>
    cases hp : parentOf drafts i with
    | none => simp [ancestors_of_none hp] at h
    | some p =>
      have hlt := hn.parent_lt hp
      rw [hn.ancestors_of_some hp] at h
      rcases List.mem_cons.mp h with rfl | h
      · exact hlt
      · exact (ih p hlt h).trans hlt

/-- The ancestors of an ancestor are ancestors, since the chain of the upper draft is a part of that
of the lower one. -/
theorem mem_ancestors_trans (hn : Nested drafts) (hk : k ∈ ancestors drafts j)
    (hj : j ∈ ancestors drafts i) : k ∈ ancestors drafts i := by
  induction i using Nat.strongRecOn with
  | ind i ih =>
    cases hp : parentOf drafts i with
    | none => simp [ancestors_of_none hp] at hj
    | some p =>
      rw [hn.ancestors_of_some hp] at hj ⊢
      rcases List.mem_cons.mp hj with rfl | hj
      · exact List.mem_cons_of_mem _ hk
      · exact List.mem_cons_of_mem _ (ih p (hn.parent_lt hp) hj)

/-- Of the drafts around one, each lies inside all later ones. -/
theorem pairwise_ancestors (hn : Nested drafts) (i : Nat) :
    (i :: ancestors drafts i).Pairwise fun a b => b ∈ ancestors drafts a := by
  induction i using Nat.strongRecOn with
  | ind i ih =>
    refine List.pairwise_cons.mpr ⟨fun b hb => hb, ?_⟩
    cases hp : parentOf drafts i with
    | none => simp [ancestors_of_none hp]
    | some p =>
      rw [hn.ancestors_of_some hp]
      exact ih p (hn.parent_lt hp)

/-- Drafts that are around one and the same draft are nested in each other. -/
theorem comparable (hn : Nested drafts) {o : Nat} (hi : i ∈ o :: ancestors drafts o)
    (hj : j ∈ o :: ancestors drafts o) :
    i = j ∨ i ∈ ancestors drafts j ∨ j ∈ ancestors drafts i := by
  have hpairs := (hn.pairwise_ancestors o).imp (S := fun a b =>
    a = b ∨ a ∈ ancestors drafts b ∨ b ∈ ancestors drafts a) fun h => .inr (.inr h)
  exact hpairs.forall_of_forall_of_flip (fun x _ => .inl rfl)
    (hpairs.imp fun h => h.imp Eq.symm Or.symm) hi hj

/-- Ancestors depend on the parents of earlier drafts only. -/
theorem ancestors_eq (hn : Nested drafts) (hn' : Nested drafts')
    (h : ∀ k ≤ i, parentOf drafts' k = parentOf drafts k) :
    ancestors drafts' i = ancestors drafts i := by
  induction i using Nat.strongRecOn with
  | ind i ih =>
    have hi := h i le_rfl
    cases hp : parentOf drafts i with
    | none => rw [ancestors_of_none hp, ancestors_of_none (hi.trans hp)]
    | some p =>
      have hlt := hn.parent_lt hp
      rw [hn.ancestors_of_some hp, hn'.ancestors_of_some (hi.trans hp),
        ih p hlt fun k hk => h k (hk.trans hlt.le)]

end Nested

/-! ## Opening and closing -/

/-- Whether drafts nest depends on their parents only. -/
theorem Nested.congr (hn : Nested drafts)
    (h : drafts'.map Draft.parent = drafts.map Draft.parent) : Nested drafts' where
  parent_lt := fun hp => hn.parent_lt (parentOf_congr h ▸ hp)
  between := fun hkj hji hp => by
    rw [parentOf_congr h] at hp ⊢
    exact hn.between hkj hji hp

theorem nested_nil : Nested [] where
  parent_lt := by simp [parentOf]
  between := by simp [parentOf]

theorem openIn_nil (drafts : List Draft) : OpenIn drafts [] where
  chain := by simp
  inside := by simp

namespace OpenIn

variable {opened : List Nat}

theorem congr (ho : OpenIn drafts opened)
    (h : drafts'.map Draft.parent = drafts.map Draft.parent) : OpenIn drafts' opened where
  chain := fun hk => by
    have hlength : drafts'.length = drafts.length := by simpa using congrArg List.length h
    rw [ancestors_congr h, hlength]
    exact ho.chain hk
  inside := fun hk hkj hj => by
    have hlength : drafts'.length = drafts.length := by simpa using congrArg List.length h
    rw [parentOf_congr h]
    exact ho.inside hk hkj (hlength ▸ hj)

/-- The draft around an open one is open. -/
theorem parent_mem (ho : OpenIn drafts opened) (hn : Nested drafts) (hk : k ∈ opened) {p : Nat}
    (hp : parentOf drafts k = some p) : p ∈ opened := by
  cases opened with
  | nil => cases hk
  | cons o rest =>
    obtain ⟨-, rfl⟩ := ho.chain rfl
    have hmem : p ∈ ancestors drafts k := hn.ancestors_of_some hp ▸ List.mem_cons_self
    refine List.mem_cons_of_mem o ?_
    rcases List.mem_cons.mp hk with rfl | hk
    · exact hmem
    · exact hn.mem_ancestors_trans hmem hk

/-- Open drafts exist: each of them was added to the list when it was opened. -/
theorem lt_length (ho : OpenIn drafts opened) (hn : Nested drafts) (hk : k ∈ opened) :
    k < drafts.length := by
  cases opened with
  | nil => cases hk
  | cons o rest =>
    obtain ⟨hlt, rfl⟩ := ho.chain rfl
    rcases List.mem_cons.mp hk with rfl | hk
    · exact hlt
    · exact (hn.lt_of_mem_ancestors hk).trans hlt

/-- The innermost open draft was opened last, because the open drafts are its ancestors. -/
theorem le_head (hn : Nested drafts) {o : Nat} {rest : List Nat}
    (ho : OpenIn drafts (o :: rest)) (hk : k ∈ o :: rest) : k ≤ o := by
  obtain ⟨-, rfl⟩ := ho.chain rfl
  rcases List.mem_cons.mp hk with rfl | hk
  · exact le_rfl
  · exact (hn.lt_of_mem_ancestors hk).le

/-- A draft opened inside the innermost open one keeps the drafts nested. -/
theorem nested_concat (ho : OpenIn drafts opened) (hn : Nested drafts) {d : Draft}
    (hd : d.parent = opened.head?) : Nested (drafts ++ [d]) where
  parent_lt := by
    intro i p hp
    rw [parentOf_concat] at hp
    split at hp
    next h =>
      rw [hd] at hp
      exact h ▸ ho.lt_length hn (List.mem_of_mem_head? hp)
    next => exact hn.parent_lt hp
  between := by
    intro k j i hkj hji hp
    have hi : i < drafts.length + 1 := by simpa using lt_length_of_parentOf hp
    rw [parentOf_concat] at hp
    rw [parentOf_concat, if_neg (by omega)]
    split at hp
    next h =>
      rw [hd] at hp
      exact ho.inside (List.mem_of_mem_head? hp) hkj (h ▸ hji)
    next => exact hn.between hkj hji hp

/-- A draft that is opened becomes the innermost open one. It lies inside the one that was so
before, which had been opened after all others. -/
theorem concat (ho : OpenIn drafts opened) (hn : Nested drafts) {d : Draft}
    (hd : d.parent = opened.head?) : OpenIn (drafts ++ [d]) (drafts.length :: opened) where
  chain := by
    intro k rest h
    obtain ⟨rfl, rfl⟩ := List.cons.inj h
    have hn' := ho.nested_concat hn hd
    refine ⟨by simp, ?_⟩
    have hp : parentOf (drafts ++ [d]) drafts.length = opened.head? := by
      rw [parentOf_concat, if_pos rfl, hd]
    cases opened with
    | nil => rw [Nested.ancestors_of_none hp]
    | cons o rest =>
      obtain ⟨hlt, rfl⟩ := ho.chain rfl
      rw [hn'.ancestors_of_some hp, hn.ancestors_eq hn' fun k hk => by
        rw [parentOf_concat, if_neg (by omega)]]
  inside := by
    intro k j hk hkj hj
    rw [parentOf_concat]
    have hj : j < drafts.length + 1 := by simpa using hj
    rcases List.mem_cons.mp hk with rfl | hk
    · omega
    · split
      next h =>
        -- the new draft lies inside the innermost open one, which was opened after all others
        cases opened with
        | nil => cases hk
        | cons o rest => exact ⟨o, hd, le_head hn ho hk⟩
      next h => exact ho.inside hk hkj (by omega)

/-- Closing the innermost open draft leaves the drafts around it open, and these are its
ancestors. -/
theorem tail (ho : OpenIn drafts opened) (hn : Nested drafts) : OpenIn drafts opened.tail where
  chain := by
    intro k rest h
    cases opened with
    | nil => cases h
    | cons o rest' =>
      obtain ⟨hlt, rfl⟩ := ho.chain rfl
      rw [List.tail_cons] at h
      cases hp : parentOf drafts o with
      | none => simp [Nested.ancestors_of_none hp] at h
      | some p =>
        rw [hn.ancestors_of_some hp] at h
        obtain ⟨rfl, rfl⟩ := List.cons.inj h
        exact ⟨(hn.parent_lt hp).trans hlt, rfl⟩
  inside := fun hk => ho.inside (List.mem_of_mem_tail hk)

end OpenIn

end Flowchart
