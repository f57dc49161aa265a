import Mathlib.Data.Finset.Card
import Mathlib.Data.List.Induction

/-!
# Tables: arrays read with a default

Marks, ranks, tree places and cut values are arrays that are read with a default outside their range
and written only inside it. These are the laws of such tables: what a read sees after a write, after
a run of writes, and in a table that was just made.
-/

namespace Flowchart.Table

variable {β : Type}

/-- A read after a write gives what was written at that place, if the place exists, and the old
entry elsewhere. -/
theorem getD_set (t : Array β) (i j : Nat) (x d : β) :
    (t.setIfInBounds i x).getD j d = if j = i ∧ i < t.size then x else t.getD j d := by
  simp only [Array.getD_eq_getD_getElem?]
  by_cases h : j = i
  · subst h
    by_cases hj : j < t.size <;> simp [hj]
  · rw [Array.getElem?_setIfInBounds_ne (Ne.symm h)]
    simp [h]

theorem getD_set_ne (t : Array β) {i j : Nat} (x d : β) (h : j ≠ i) :
    (t.setIfInBounds i x).getD j d = t.getD j d := by
  rw [getD_set, if_neg fun hi => h hi.1]

theorem getD_set_self (t : Array β) {i : Nat} (x d : β) (h : i < t.size) :
    (t.setIfInBounds i x).getD i d = x := by
  rw [getD_set, if_pos ⟨rfl, h⟩]

/-- A read after one entry was changed gives the changed entry at that place, if it exists, and the
old entry elsewhere. -/
theorem getD_modify (t : Array β) (i j : Nat) (f : β → β) (d : β) :
    (t.modify i f).getD j d = if j = i ∧ i < t.size then f (t.getD j d) else t.getD j d := by
  simp only [Array.getD_eq_getD_getElem?, Array.getElem?_modify]
  by_cases h : j = i
  · subst h
    by_cases hj : j < t.size <;> simp [hj]
  · simp [h, Ne.symm h]

/-- A change that leaves the default alone can be read off without looking at the range. -/
theorem getD_modify_of_fixed (t : Array β) (i j : Nat) {f : β → β} {d : β} (hd : f d = d) :
    (t.modify i f).getD j d = if j = i then f (t.getD j d) else t.getD j d := by
  rw [getD_modify]
  by_cases h : j = i
  · subst h
    by_cases hj : j < t.size
    · simp [hj]
    · simp [hj, hd]
  · simp [h]

/-- A read in a table that holds one value everywhere. -/
theorem getD_replicate (n : Nat) (x d : β) (i : Nat) :
    (Array.replicate n x).getD i d = if i < n then x else d := by
  by_cases h : i < n <;> simp [Array.getD_eq_getD_getElem?, h]

/-- A read in a table to which entries were appended. -/
theorem getElem?_of_toList_append {t t' : Array β} {l : List β} (h : t'.toList = t.toList ++ l)
    (i : Nat) : t'[i]? = if i < t.size then t[i]? else l[i - t.size]? := by
  rw [← Array.getElem?_toList, h, List.getElem?_append, Array.length_toList, Array.getElem?_toList]

theorem getD_of_le (t : Array β) (d : β) {i : Nat} (h : t.size ≤ i) : t.getD i d = d := by
  simp [Array.getD_eq_getD_getElem?, h]

/-- Inside the range of a table the default does not matter. -/
theorem getD_default {t : Array β} {i : Nat} (h : i < t.size) (d d' : β) :
    t.getD i d = t.getD i d' := by
  simp [Array.getD, h]

/-! ## Filling a table in order -/

section Fill

variable {γ : Type} {d : β}

theorem size_foldl_set (l : List γ) (key : γ → Nat) (val : Array β → γ → β) (t : Array β) :
    (l.foldl (fun t x => t.setIfInBounds (key x) (val t x)) t).size = t.size := by
  induction l generalizing t with
  | nil => rfl
  | cons x l ih => exact (ih _).trans Array.size_setIfInBounds

/-- A run of writes leaves alone what is not among its keys. -/
theorem getD_foldl_set_of_not_mem {l : List γ} (key : γ → Nat) (val : Array β → γ → β)
    (t : Array β) {i : Nat} (hi : i ∉ l.map key) :
    (l.foldl (fun t x => t.setIfInBounds (key x) (val t x)) t).getD i d = t.getD i d := by
  induction l generalizing t with
  | nil => rfl
  | cons x l ih =>
    obtain ⟨hx, hl⟩ := not_or.mp (mt List.mem_cons.mpr hi)
    exact (ih _ hl).trans (getD_set_ne _ _ _ hx)

/-- A run of writes to different keys leaves at every key what was written there. -/
theorem getD_foldl_set {l : List γ} (key : γ → Nat) (val : γ → β) (hnodup : (l.map key).Nodup)
    (t : Array β) {x : γ} (hx : x ∈ l) (hlt : key x < t.size) :
    (l.foldl (fun t x => t.setIfInBounds (key x) (val x)) t).getD (key x) d = val x := by
  induction l generalizing t with
  | nil => cases hx
  | cons y l ih =>
    obtain ⟨hy, hl⟩ := List.nodup_cons.mp hnodup
    rw [List.foldl_cons]
    by_cases he : key x = key y
    · have hxy : x = y := by
        rcases List.mem_cons.mp hx with h | h
        · exact h
        · exact absurd (he ▸ List.mem_map_of_mem h) hy
      subst hxy
      rw [getD_foldl_set_of_not_mem key (fun _ => val) _ hy, getD_set_self _ _ _ hlt]
    · have hx' : x ∈ l := (List.mem_cons.mp hx).resolve_left fun h => he (congrArg key h)
      exact ih hl _ hx' (by rwa [Array.size_setIfInBounds])

/-- **A table filled in order solves its equations.** Every entry is computed from entries that come
earlier in the order or are not written at all, so in the end each one is what it would be computed
to from the final table. The induction is on the order from its end: the last entry is read by none
of the others. -/
theorem foldl_fill (fill : Array β → Nat → β) (reads : Nat → List Nat)
    (hfill : ∀ (t t' : Array β) (v : Nat),
      (∀ u ∈ reads v, t.getD u d = t'.getD u d) → fill t v = fill t' v)
    {order : List Nat} (hnodup : order.Nodup)
    (hbefore : ∀ v ∈ order, ∀ u ∈ reads v, u ∈ order → order.idxOf u < order.idxOf v)
    (t : Array β) (hlt : ∀ v ∈ order, v < t.size) :
    ∀ v ∈ order, (order.foldl (fun t v => t.setIfInBounds v (fill t v)) t).getD v d =
      fill (order.foldl (fun t v => t.setIfInBounds v (fill t v)) t) v := by
  -- on the order from its end, so that the last entry written is the last of the order
  induction order using List.reverseRecOn with
  | nil => exact nofun
  | append_singleton order last ih =>
    obtain ⟨hnodup', -, hlast⟩ := List.nodup_append.mp hnodup
    have hlast : last ∉ order := fun h => hlast last h last List.mem_cons_self rfl
    have hidx : ∀ v ∈ order, (order ++ [last]).idxOf v = order.idxOf v := fun v hv => by
      rw [List.idxOf_append, if_pos hv]
    have hunread : ∀ v ∈ order ++ [last], ∀ u ∈ reads v, u ≠ last := by
      rintro v hv u hu rfl
      have hlt := hbefore v hv u hu (List.mem_append_right _ List.mem_cons_self)
      have hle := List.idxOf_lt_length_of_mem hv
      rw [List.idxOf_append, if_neg hlast, List.idxOf_cons_self] at hlt
      simp only [List.length_append, List.length_singleton] at hle
      omega
    have hbefore' : ∀ v ∈ order, ∀ u ∈ reads v, u ∈ order → order.idxOf u < order.idxOf v := by
      intro v hv u hu huo
      have := hbefore v (List.mem_append_left _ hv) u hu (List.mem_append_left _ huo)
      rwa [hidx v hv, hidx u huo] at this
    have ih := ih hnodup' hbefore' fun v hv => hlt v (List.mem_append_left _ hv)
    have hlast_lt := hlt last (List.mem_append_right _ List.mem_cons_self)
    rw [← size_foldl_set order (fun v => v) fill t] at hlast_lt
    rw [List.foldl_append, List.foldl_cons, List.foldl_nil]
    generalize order.foldl (fun t v => t.setIfInBounds v (fill t v)) t = filled at ih hlast_lt
    have hkeep : ∀ v ∈ order ++ [last],
        fill (filled.setIfInBounds last (fill filled last)) v = fill filled v := by
      intro v hv
      exact hfill _ _ v fun u hu => getD_set_ne _ _ _ (hunread v hv u hu)
    intro v hv
    rw [hkeep v hv]
    by_cases he : v = last
    · rw [he, getD_set_self _ _ _ hlast_lt]
    · have hv' : v ∈ order :=
        (List.mem_append.mp hv).resolve_right fun h => he (List.mem_singleton.mp h)
      rw [getD_set_ne _ _ _ he, ih v hv']

end Fill

/-! ## Tables of marks -/

section Marks

variable {t : Array Bool}

/-- The positions that are marked. -/
def memberSet (t : Array Bool) : Finset Nat := (Finset.range t.size).filter (t.getD · false)

theorem lt_of_member {v : Nat} (h : t.getD v false = true) : v < t.size := by
  by_contra hv
  rw [getD_of_le _ _ (Nat.le_of_not_lt hv)] at h
  cases h

@[simp] theorem mem_memberSet {v : Nat} : v ∈ memberSet t ↔ t.getD v false = true := by
  simp only [memberSet, Finset.mem_filter, Finset.mem_range, and_iff_right_iff_imp]
  exact lt_of_member

/-- Only positions of the table can be unmarked where others count as marked. -/
theorem getD_true_eq_false {v : Nat} :
    t.getD v true = false ↔ v < t.size ∧ t.getD v false = false := by
  by_cases hv : v < t.size
  · simp [hv, getD_default hv true false]
  · simp [hv, getD_of_le t true (Nat.le_of_not_lt hv)]

theorem card_memberSet_le (t : Array Bool) : (memberSet t).card ≤ t.size :=
  (Finset.card_filter_le _ _).trans (Finset.card_range _).le

theorem memberSet_set {u : Nat} (hu : u < t.size) :
    memberSet (t.setIfInBounds u true) = insert u (memberSet t) := by
  ext v
  rw [mem_memberSet, Finset.mem_insert, mem_memberSet, getD_set]
  by_cases hv : v = u <;> simp [hv, hu]

/-- A read after several positions were marked finds a mark at these positions, as far as they
exist, and the old marks elsewhere. -/
theorem getD_foldl_mark (l : List Nat) (t : Array Bool) (v : Nat) :
    (l.foldl (·.setIfInBounds · true) t).getD v false = true ↔
      (v ∈ l ∧ v < t.size) ∨ t.getD v false = true := by
  induction l generalizing t with
  | nil => simp
  | cons u l ih =>
    rw [List.foldl_cons, ih, Array.size_setIfInBounds, getD_set]
    by_cases hv : v = u
    · by_cases hu : u < t.size <;> simp [hv, hu]
    · simp [hv]

theorem size_foldl_mark (l : List Nat) (t : Array Bool) :
    (l.foldl (·.setIfInBounds · true) t).size = t.size :=
  size_foldl_set l (fun v => v) (fun _ _ => true) t

theorem nodup_eraseDups {γ : Type} [BEq γ] [LawfulBEq γ] (l : List γ) : l.eraseDups.Nodup := by
  have hstrong : ∀ n (l : List γ), l.length ≤ n → l.eraseDups.Nodup := by
    intro n
    induction n with
    | zero =>
      intro l hl
      rw [List.length_eq_zero_iff.mp (Nat.le_zero.mp hl)]
      exact List.nodup_nil
    | succ n ih =>
      intro l hl
      cases l with
      | nil => exact List.nodup_nil
      | cons a l =>
        rw [List.eraseDups_cons]
        refine List.nodup_cons.mpr ⟨by simp [List.mem_eraseDups], ih _ ?_⟩
        exact (List.length_filter_le _ l).trans (Nat.le_of_succ_le_succ hl)
  exact hstrong _ l (Nat.le_refl _)

/-- An element behind a list is new to it or a repetition. -/
theorem eraseDups_of_nodup {γ : Type} [BEq γ] [LawfulBEq γ] {l : List γ} (h : l.Nodup) :
    l.eraseDups = l := by
  induction l with
  | nil => rfl
  | cons a l ih =>
    obtain ⟨ha, hl⟩ := List.nodup_cons.mp h
    have hfilter : (l.filter fun b => !b == a) = l :=
      List.filter_eq_self.mpr fun b hb => by simpa using ne_of_mem_of_not_mem hb ha
    rw [List.eraseDups_cons, hfilter, ih hl]

theorem eraseDups_concat {γ : Type} [BEq γ] [LawfulBEq γ] (l : List γ) (a : γ) :
    (l ++ [a]).eraseDups = if a ∈ l then l.eraseDups else l.eraseDups ++ [a] := by
  rw [List.eraseDups_append]
  by_cases ha : a ∈ l <;> simp [List.removeAll, List.eraseDups_cons, ha]

theorem card_foldl_mark {l : List Nat} (hl : l.Nodup) {t : Array Bool}
    (hnew : ∀ v ∈ l, v < t.size ∧ t.getD v false = false) :
    (memberSet (l.foldl (·.setIfInBounds · true) t)).card = l.length + (memberSet t).card := by
  have hset : memberSet (l.foldl (·.setIfInBounds · true) t) = l.toFinset ∪ memberSet t := by
    ext v
    rw [mem_memberSet, getD_foldl_mark, Finset.mem_union, List.mem_toFinset, mem_memberSet]
    exact or_congr_left (and_iff_left_of_imp fun hv => (hnew v hv).1)
  have hdisjoint : Disjoint l.toFinset (memberSet t) := by
    refine Finset.disjoint_left.mpr fun v hv ht => ?_
    rw [mem_memberSet, (hnew v (List.mem_toFinset.mp hv)).2] at ht
    cases ht
  rw [hset, Finset.card_union_of_disjoint hdisjoint, List.toFinset_card_of_nodup hl]

end Marks

end Flowchart.Table
