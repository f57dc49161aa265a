import Mathlib.Computability.Primrec.List
import Flowchart.Proofs.LayerGraph.Sweeps

/-!
# Blocks stay together in every rank

After every sort a rank is sorted again by keys with one entry for each block around a vertex, so
that vertices in one block have keys that begin alike. Keys are compared entry by entry. What lies
between two keys that begin alike begins like them too, up to scalars that the order does not tell
apart; and an entry names its block, so what lies between two members of a block is a member,
`prefix_of_between`. How the means come out, whether some of them coincide or agree with the
position of a vertex that is in no block, does not matter.

The sort leaves the members of every block side by side, `groupClusters_together`, and as this holds
of all ranks after the first arrangement and after each sweep, it holds of the arrangement that is
kept, `orderRanks_together`.

Nothing is asked of the arithmetic of the scalars, only that their order can be used for sorting.
-/

namespace Flowchart

/-! ## Scalars to sort by -/

/-- The total order of the scalars is transitive and leaves no two of them uncompared. -/
class Scalar.Sortable (α : Type) [Scalar α] : Prop where
  trans : ∀ a b c : α, totalLe a b = true → totalLe b c = true → totalLe a c = true
  total : ∀ a b : α, (totalLe a b || totalLe b a) = true

/-- An order by keys that are compared as usual. -/
theorem Scalar.Sortable.of_key {α κ : Type} [Scalar α] [LinearOrder κ] (key : α → κ)
    (h : ∀ a b : α, totalLe a b = true ↔ key a ≤ key b) : Scalar.Sortable α where
  trans a b c hab hbc := (h a c).mpr (((h a b).mp hab).trans ((h b c).mp hbc))
  total a b := by
    rw [Bool.or_eq_true, h, h]
    exact le_total _ _

instance : Scalar.Sortable Float32 := .of_key totalKey32 fun _ _ => decide_eq_true_iff

instance : Scalar.Sortable ℚ := .of_key id fun _ _ => decide_eq_true_iff

namespace LayerGraph

variable {α : Type} [Scalar α]

/-! ## Sort keys -/

/-- One entry of a key does not come after another one: the scalars decide, and the numbers where
the scalars are alike. -/
def EntryLe (e e' : α × Nat) : Prop :=
  Scalar.totalLe e.1 e'.1 = true ∧ (Scalar.totalLe e'.1 e.1 = true → e.2 ≤ e'.2)

/-- Keys are compared by their first entries, and by the rest where these are alike. -/
theorem keyLe_cons {e e' : α × Nat} {key key' : List (α × Nat)} :
    keyLe (e :: key) (e' :: key') = true ↔
      EntryLe e e' ∧ (EntryLe e' e → keyLe key key' = true) := by
  obtain ⟨x, m⟩ := e
  obtain ⟨y, n⟩ := e'
  simp only [keyLe, EntryLe]
  cases hxy : Scalar.totalLe x y <;> cases hyx : Scalar.totalLe y x <;> simp
  rcases Nat.lt_trichotomy m n with h | h | h
  · simp [h, h.le, h.ne, Nat.not_le.mpr h]
  · simp [h]
  · simp [h.ne', Nat.not_le.mpr h, h.not_gt]

section Order

variable [Scalar.Sortable α]

theorem EntryLe.trans {e₁ e₂ e₃ : α × Nat} (h : EntryLe e₁ e₂) (h' : EntryLe e₂ e₃) :
    EntryLe e₁ e₃ := by
  refine ⟨Scalar.Sortable.trans _ _ _ h.1 h'.1, fun hback => ?_⟩
  have hback₁ := h.2 (Scalar.Sortable.trans _ _ _ h'.1 hback)
  have hback₂ := h'.2 (Scalar.Sortable.trans _ _ _ hback h.1)
  exact hback₁.trans hback₂

theorem entryLe_total (e e' : α × Nat) : EntryLe e e' ∨ EntryLe e' e := by
  have htotal := Scalar.Sortable.total e.1 e'.1
  unfold EntryLe
  cases h : Scalar.totalLe e.1 e'.1 <;> cases h' : Scalar.totalLe e'.1 e.1
  · simp [h, h'] at htotal
  · simp
  · simp
  · simpa using le_total e.2 e'.2

theorem keyLe_trans (a b c : List (α × Nat)) (hab : keyLe a b = true) (hbc : keyLe b c = true) :
    keyLe a c = true := by
  induction a generalizing b c with
  | nil => rfl
  | cons e₁ a ih =>
    cases b with
    | nil => cases hab
    | cons e₂ b =>
      cases c with
      | nil => cases hbc
      | cons e₃ c =>
        obtain ⟨h₁₂, hab⟩ := keyLe_cons.mp hab
        obtain ⟨h₂₃, hbc⟩ := keyLe_cons.mp hbc
        exact keyLe_cons.mpr ⟨h₁₂.trans h₂₃, fun h₃₁ =>
          ih b c (hab (h₂₃.trans h₃₁)) (hbc (h₃₁.trans h₁₂))⟩

theorem keyLe_total (a b : List (α × Nat)) : (keyLe a b || keyLe b a) = true := by
  rw [Bool.or_eq_true]
  induction a generalizing b with
  | nil => exact .inl rfl
  | cons e a ih =>
    cases b with
    | nil => exact .inr rfl
    | cons e' b =>
      rw [keyLe_cons, keyLe_cons]
      have htotal := entryLe_total e e'
      have hrest := ih b
      tauto

end Order

/-! ## The keys of vertices -/

/-- The key of a vertex by the blocks around it, from the outermost to the innermost. -/
def keyAlong (mean : List Nat → α) : List Nat → Nat → List (α × Nat)
  | [], pos => [(Scalar.ofNat pos, 0)]
  | b :: path, pos => (mean [b], b + 1) :: keyAlong (fun p => mean (b :: p)) path pos

theorem ne_nil_of_mem_leadingPaths {path p : List Nat} (hp : p ∈ leadingPaths path) : p ≠ [] := by
  cases path with
  | nil => cases hp
  | cons b path =>
    rcases List.mem_cons.mp hp with rfl | hp
    · exact List.cons_ne_nil _ _
    · obtain ⟨q, -, rfl⟩ := List.mem_map.mp hp
      exact List.cons_ne_nil _ _

theorem map_leadingPaths (mean : List Nat → α) (path : List Nat) (pos : Nat) :
    (leadingPaths path).map (fun p => (mean p, (p.getLast?.getD 0) + 1)) ++
      [(Scalar.ofNat pos, 0)] = keyAlong mean path pos := by
  induction path generalizing mean with
  | nil => rfl
  | cons b path ih =>
    rw [leadingPaths, keyAlong, ← ih, List.map_cons, List.map_map, List.cons_append]
    congr 2
    refine List.map_congr_left fun p hp => ?_
    obtain ⟨c, q, rfl⟩ := List.exists_cons_of_ne_nil (ne_nil_of_mem_leadingPaths hp)
    simp

theorem groupKey_eq (means : List (List Nat × α)) (path : List Nat) (pos : Nat) :
    groupKey means path pos = keyAlong (fun p => (means.lookup p).getD 0.0) path pos :=
  map_leadingPaths _ path pos

/-- **What is sorted between two members of a block is a member of it.** -/
theorem prefix_of_between {mean : List Nat → α} {path a b c : List Nat} {i j k : Nat}
    (hab : keyLe (keyAlong mean (path ++ a) i) (keyAlong mean b j) = true)
    (hbc : keyLe (keyAlong mean b j) (keyAlong mean (path ++ c) k) = true) : path <+: b := by
  induction path generalizing mean b with
  | nil => exact List.nil_prefix
  | cons n path ih =>
    cases b with
    | nil =>
      obtain ⟨hle, -⟩ := keyLe_cons.mp hab
      obtain ⟨hge, -⟩ := keyLe_cons.mp hbc
      exact absurd (hle.2 hge.1) (Nat.not_succ_le_zero n)
    | cons m b =>
      obtain ⟨hle, hab⟩ := keyLe_cons.mp hab
      obtain ⟨hge, hbc⟩ := keyLe_cons.mp hbc
      obtain rfl : n = m := Nat.le_antisymm (Nat.le_of_succ_le_succ (hle.2 hge.1))
        (Nat.le_of_succ_le_succ (hge.2 hle.1))
      exact List.cons_prefix_cons.mpr ⟨rfl, ih (hab hge) (hbc hle)⟩

/-! ## Side by side -/

/-- In a sorted list the members with a property stand side by side if everything between two of
them has it. -/
theorem exists_split_of_pairwise {β : Type} {r : β → β → Prop} {p : β → Prop} {l : List β}
    (hsorted : l.Pairwise r)
    (hconvex : ∀ a ∈ l, ∀ b ∈ l, ∀ c ∈ l, r a b → r b c → p a → p c → p b) :
    ∃ before together after, l = before ++ together ++ after ∧ (∀ v ∈ together, p v) ∧
      ∀ v ∈ before ++ after, ¬p v := by
  induction l with
  | nil => exact ⟨[], [], [], rfl, nofun, nofun⟩
  | cons a l ih =>
    obtain ⟨hfirst, hsorted⟩ := List.pairwise_cons.mp hsorted
    obtain ⟨before, together, after, rfl, htogether, hothers⟩ := ih hsorted fun a ha b hb c hc =>
      hconvex a (List.mem_cons_of_mem _ ha) b (List.mem_cons_of_mem _ hb) c
        (List.mem_cons_of_mem _ hc)
    by_cases ha : p a
    · cases together with
      | nil =>
        refine ⟨[], [a], before ++ after, by simp, fun v hv => ?_, by simpa using hothers⟩
        exact List.mem_singleton.mp hv ▸ ha
      | cons t together =>
        -- nothing can stand between the new member and those found before
        have hnone : before = [] := by
          refine List.eq_nil_iff_forall_not_mem.mpr fun b hb => ?_
          have hpb : p b := hconvex a List.mem_cons_self b (by simp [hb]) t (by simp)
            (hfirst b (by simp [hb]))
            ((List.pairwise_append.mp (List.pairwise_append.mp hsorted).1).2.2 b hb t
              List.mem_cons_self)
            ha (htogether t List.mem_cons_self)
          exact hothers b (List.mem_append_left _ hb) hpb
        subst hnone
        refine ⟨[], a :: t :: together, after, by simp, fun v hv => ?_, hothers⟩
        rcases List.mem_cons.mp hv with rfl | hv
        · exact ha
        · exact htogether v hv
    · refine ⟨a :: before, together, after, by simp, htogether, fun v hv => ?_⟩
      rcases List.mem_cons.mp hv with rfl | hv
      · exact ha
      · exact hothers v hv

/-- The members of the block at the end of a cluster path stand side by side in a list. -/
def SideBySide (g : LayerGraph α) (path members : List Nat) : Prop :=
  ∃ before together after, members = before ++ together ++ after ∧
    (∀ v ∈ together, path <+: g.cluster v) ∧ ∀ v ∈ before ++ after, ¬path <+: g.cluster v

variable [Scalar.Sortable α] {path : List Nat}

/-- **Sorting by keys puts the members of every block side by side.** -/
theorem groupClusters_together (g : LayerGraph α) (members : List Nat) (hpath : path ≠ []) :
    g.SideBySide path (g.groupClusters members) := by
  unfold groupClusters
  split
  next hfree =>
    refine ⟨members, [], [], by simp, nofun, fun v hv hprefix => hpath ?_⟩
    have hnil : g.cluster v = [] := by simpa using List.all_eq_true.mp hfree v (by simpa using hv)
    exact List.prefix_nil.mp (hnil ▸ hprefix)
  next =>
    dsimp only
    generalize g.groupMeans members = means
    generalize hkeyed : List.map _ members.zipIdx = keyed
    have hsorted : (keyed.mergeSort fun a b => keyLe a.1 b.1).Pairwise
        fun a b => keyLe a.1 b.1 = true :=
      List.pairwise_mergeSort (fun a b c => keyLe_trans a.1 b.1 c.1)
        (fun a b => keyLe_total a.1 b.1) keyed
    have hkey : ∀ k ∈ keyed.mergeSort fun a b => keyLe a.1 b.1,
        ∃ pos, k.1 = keyAlong (fun p => (means.lookup p).getD 0.0) (g.cluster k.2) pos := by
      intro k hk
      rw [List.mem_mergeSort, ← hkeyed] at hk
      obtain ⟨⟨v, pos⟩, -, rfl⟩ := List.mem_map.mp hk
      exact ⟨pos, groupKey_eq means _ pos⟩
    obtain ⟨before, together, after, hsplit, htogether, hothers⟩ :=
      exists_split_of_pairwise (p := fun k => path <+: g.cluster k.2) hsorted <| by
        rintro a ha b hb c hc hab hbc ⟨ra, hra⟩ ⟨rc, hrc⟩
        obtain ⟨i, hi⟩ := hkey a ha
        obtain ⟨j, hj⟩ := hkey b hb
        obtain ⟨k, hk⟩ := hkey c hc
        rw [hi, hj, ← hra] at hab
        rw [hj, hk, ← hrc] at hbc
        exact prefix_of_between hab hbc
    refine ⟨before.map Prod.snd, together.map Prod.snd, after.map Prod.snd, ?_, ?_, ?_⟩
    · rw [hsplit, List.map_append, List.map_append]
    · exact List.forall_mem_map.mpr htogether
    · rw [← List.map_append]
      exact List.forall_mem_map.mpr hothers

/-! ## All arrangements -/

/-- In every rank the members of every block stand side by side. -/
def Grouped (g : LayerGraph α) : Prop :=
  ∀ r path, path ≠ [] → g.SideBySide path (g.ranks.getD r [])

theorem initialOrder_grouped (g : LayerGraph α) : g.initialOrder.Grouped := by
  intro r path hpath
  have hkeeps : Keeps Vertex.cluster g g.initialOrder := keeps_initialOrder (fun _ _ => rfl) g
  obtain ⟨members, hmembers⟩ : ∃ members,
      g.initialOrder.ranks.getD r [] = g.groupClusters members := by
    rw [initialOrder, ranks_syncOrders]
    simp only [Array.getD_eq_getD_getElem?, List.getElem?_toArray, List.getElem?_map]
    cases (List.range _)[r]? with
    | none => exact ⟨[], rfl⟩
    | some r => exact ⟨_, rfl⟩
  rw [hmembers, SideBySide, hkeeps.cluster_eq]
  exact groupClusters_together g members hpath

theorem Grouped.sweepRank {g : LayerGraph α} (hg : g.Grouped) (downward : Bool) (r : Nat) :
    (sweepRank downward g r).Grouped := by
  intro i path hpath
  have hkeeps : Keeps Vertex.cluster g (LayerGraph.sweepRank downward g r) :=
    keeps_sweepRank (fun _ _ => rfl) downward g r
  rw [SideBySide, hkeeps.cluster_eq]
  obtain ⟨members, -, hsweep⟩ := exists_sweepRank_eq downward g r
  rw [hsweep, ranks_syncRank, Table.getD_set]
  split
  · exact groupClusters_together g members hpath
  · exact hg i path hpath

/-- **Every sweep keeps the members of blocks together.** -/
theorem swept_grouped (g : LayerGraph α) (k : Nat) : (g.swept k).Grouped := by
  induction k with
  | zero => exact initialOrder_grouped g
  | succ k ih =>
    exact List.foldlRecOn (motive := Grouped) _ _ ih fun _ hg r _ => hg.sweepRank _ r

/-- **Ordering keeps the members of every block together in every rank.** In a graph whose ranks are
not negative, those vertices of a rank whose cluster paths begin with a given one stand at positions
that follow one another without a gap, whichever arrangement is kept. -/
theorem orderRanks_together (g : LayerGraph α) (limit : Nat) (hrank : ∀ v < g.size, 0 ≤ g.rank v)
    (r : Nat) (hpath : path ≠ []) : ∃ before together after : List Nat,
      (g.orderRanks limit).1.ranks.getD r [] = before ++ together ++ after ∧
      (∀ v, v ∈ together ↔ v < g.size ∧ g.rank v = r ∧ path <+: g.cluster v) ∧
      ∀ i v, together[i]? = some v → (g.orderRanks limit).1.order v = before.length + i := by
  have hkeeps : Keeps Vertex.rank g (g.orderRanks limit).1 := keeps_orderRanks (fun _ _ => rfl) g _
  obtain ⟨harranged, k, -, hranks, -⟩ := exists_swept_orderRanks g limit
  obtain ⟨before, together, after, hsplit, htogether, hothers⟩ := swept_grouped g k r path hpath
  rw [(keeps_swept (fun _ _ => rfl) g k : Keeps Vertex.cluster g (g.swept k)).cluster_eq]
    at htogether hothers
  rw [← hranks] at hsplit
  have hlisted : ∀ v, v ∈ before ++ together ++ after ↔ v < g.size ∧ g.rank v = r := by
    intro v
    rw [← hsplit, harranged.lists.mem_iff, hkeeps.size_eq, hkeeps.rank_eq]
    refine and_congr_right fun hv => ?_
    have hnonneg := hrank v hv
    omega
  refine ⟨before, together, after, hsplit, fun v => ⟨fun hv => ?_, fun ⟨hv, hr, hprefix⟩ => ?_⟩,
    fun i v hi => ?_⟩
  · obtain ⟨hlt, hr⟩ := (hlisted v).mp (by simp [hv])
    exact ⟨hlt, hr, htogether v hv⟩
  · by_contra hnot
    have hmem := (hlisted v).mpr ⟨hv, hr⟩
    exact hothers v (by simpa [hnot] using hmem) hprefix
  · refine harranged.order r _ v ?_
    obtain ⟨hlt, -⟩ := List.getElem?_eq_some_iff.mp hi
    rw [hsplit, List.append_assoc, List.getElem?_append_right (Nat.le_add_right _ _),
      Nat.add_sub_cancel_left, List.getElem?_append_left hlt, hi]

/-- A rank of five vertices: one is in no block, two are in a block and two in a block inside that
one. The mean position of the inner block is the position of a vertex beside it. -/
def mixed : LayerGraph ℚ where
  nodes := #[⟨"r", 1, 1, 0, 0, 0, 0, none, []⟩, ⟨"a", 1, 1, 1, 0, 0, 0, none, [0]⟩,
    ⟨"b", 1, 1, 1, 0, 0, 0, none, []⟩, ⟨"c", 1, 1, 1, 0, 0, 0, none, [0, 1]⟩,
    ⟨"d", 1, 1, 1, 0, 0, 0, none, [0]⟩, ⟨"e", 1, 1, 1, 0, 0, 0, none, [0, 1]⟩]
  arcs := #[⟨0, 1, 1, 1, false, true, 0⟩, ⟨0, 2, 1, 1, false, true, 1⟩,
    ⟨0, 3, 1, 1, false, true, 2⟩, ⟨0, 4, 1, 1, false, true, 3⟩, ⟨0, 5, 1, 1, false, true, 4⟩]
  outgoing := #[[0, 1, 2, 3, 4], [], [], [], [], []]
  incoming := #[[], [0], [1], [2], [3], [4]]

/-- In a rank with members of two blocks, one inside the other, the members of each of them stand
side by side. -/
theorem orderRanks_together_mixed : (∀ v < mixed.size, 0 ≤ mixed.rank v) ∧ [0, 1] ≠ [] ∧
    (∃ before together after : List Nat,
      (mixed.orderRanks 4).1.ranks.getD 1 [] = before ++ together ++ after ∧
      (∀ v, v ∈ together ↔ v < mixed.size ∧ mixed.rank v = (1 : Nat) ∧ [0, 1] <+: mixed.cluster v) ∧
      ∀ i v, together[i]? = some v → (mixed.orderRanks 4).1.order v = before.length + i) ∧
    (mixed.orderRanks 4).1.ranks = #[[0], [2, 1, 4, 3, 5]] := by
  have hrank : ∀ v < mixed.size, 0 ≤ mixed.rank v := by decide
  have hpath : [0, 1] ≠ [] := by decide
  exact ⟨hrank, hpath, orderRanks_together mixed 4 hrank 1 hpath, by cbv⟩

end LayerGraph

end Flowchart
