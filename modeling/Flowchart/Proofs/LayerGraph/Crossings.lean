import Mathlib.Algebra.BigOperators.Group.Finset.Piecewise
import Mathlib.Algebra.BigOperators.Group.Finset.Sigma
import Mathlib.Algebra.Group.Action.Defs
import Mathlib.Algebra.GroupWithZero.Nat
import Mathlib.Data.Finset.Powerset
import Flowchart.Layered.Crossings
import Flowchart.Proofs.LayerGraph.Building
import Flowchart.Proofs.LayerGraph.Frame

/-!
# What is counted as a crossing

Two arcs that leave the same rank list cross if the one whose source comes first has the target that
comes last. Crossings are counted as the inversions of a sorted list of targets; here the number
that comes out is shown to be the number of pairs of arcs that cross, `countCrossings_eq_card`.

* A merge sort counts the pairs of places out of order, `inversions_eq`.
* In a list of arc ends sorted by source and then by target, a pair is out of order exactly if it
  crosses: ends that share the source stand in the order of their targets. For such a list it does
  not matter any more in which order it is, `pairsBefore_eq_sum`, so the sort disappears.
* The lists of leaving arcs name every active arc below a rank once, and arcs below different rank
  lists are never compared.
-/

namespace Flowchart

variable {β γ : Type}

/-! ## Pairs of places -/

/-- The number of pairs of places of a list whose members are related, the earlier one to the
later one. -/
def pairsBefore (R : β → β → Bool) : List β → Nat
  | [] => 0
  | x :: xs => xs.countP (R x) + pairsBefore R xs

/-- Pairs of places in two lists are those within each of them and those between the two. -/
theorem pairsBefore_append (R : β → β → Bool) (xs ys : List β) : pairsBefore R (xs ++ ys) =
    pairsBefore R xs + pairsBefore R ys + (xs.map fun x => ys.countP (R x)).sum := by
  induction xs with
  | nil => simp [pairsBefore]
  | cons x xs ih =>
    rw [List.cons_append, pairsBefore, ih, List.countP_append, pairsBefore, List.map_cons,
      List.sum_cons]
    omega

/-- Pairs of images are pairs of what they are images of. -/
theorem pairsBefore_map (R : β → β → Bool) (f : γ → β) (xs : List γ) :
    pairsBefore R (xs.map f) = pairsBefore (fun x y => R (f x) (f y)) xs := by
  induction xs with
  | nil => rfl
  | cons x xs ih =>
    rw [List.map_cons, pairsBefore, ih, List.countP_map, pairsBefore]
    rfl

/-- Only how a member is related to later ones counts. -/
theorem pairsBefore_congr {R S : β → β → Bool} {xs : List β}
    (h : xs.Pairwise fun x y => R x y = S x y) : pairsBefore R xs = pairsBefore S xs := by
  induction h with
  | nil => rfl
  | cons hx _ ih =>
    rw [pairsBefore, pairsBefore, ih, List.countP_congr fun y hy => by rw [hx y hy]]

/-- If nothing is related to itself or to an earlier member, all pairs may be counted. -/
theorem pairsBefore_eq_sum {R : β → β → Bool} {xs : List β} (hself : ∀ x, R x x = false)
    (h : xs.Pairwise fun x y => R y x = false) :
    pairsBefore R xs = (xs.map fun x => xs.countP (R x)).sum := by
  induction h with
  | nil => rfl
  | @cons x xs hx _ ih =>
    have hrest : (xs.map fun y => (x :: xs).countP (R y)) = xs.map fun y => xs.countP (R y) :=
      List.map_congr_left fun y hy => List.countP_cons_of_neg (by simp [hx y hy])
    rw [pairsBefore, ih, List.map_cons, List.sum_cons, hrest,
      List.countP_cons_of_neg (by simp [hself x])]

/-- A count over all pairs does not depend on the order of the list. -/
theorem sum_countP_perm (R : β → β → Bool) {xs xs' ys ys' : List β} (hx : xs.Perm xs')
    (hy : ys.Perm ys') : (xs.map fun x => ys.countP (R x)).sum =
      (xs'.map fun x => ys'.countP (R x)).sum := by
  have hcount : (fun x => ys.countP (R x)) = fun x => ys'.countP (R x) :=
    funext fun x => hy.countP_eq (R x)
  rw [hcount]
  exact (hx.map _).sum_eq

/-! ## Inversions -/

/-- The pair is out of order. -/
def outOfOrder (x y : Nat) : Bool := decide (y < x)

/-- Merging keeps the members of both lists, and what is counted on the way does not change that. -/
theorem mergeCounting_perm (xs ys : List Nat) : (mergeCounting xs ys).1.Perm (xs ++ ys) := by
  fun_induction mergeCounting xs ys with
  | case1 ys => exact .refl _
  | case2 xs => exact .of_eq (List.append_nil xs).symm
  | case3 x xs y ys hxy rest n heq ih =>
    rw [heq] at ih
    exact ih.cons x
  | case4 x xs y ys hxy rest n heq ih =>
    rw [heq] at ih
    exact (ih.cons y).trans List.perm_middle.symm

/-- The head of a sorted list is its least member. -/
theorem head_le_of_sorted {x y : Nat} {xs : List Nat} (h : (x :: xs).Pairwise (· ≤ ·))
    (hy : y ∈ x :: xs) : x ≤ y := by
  rcases List.mem_cons.mp hy with rfl | hy
  · exact le_rfl
  · exact List.rel_of_pairwise_cons h hy

/-- Merging two sorted lists gives a sorted list, by induction on both of them together. -/
theorem mergeCounting_sorted (xs ys : List Nat) (hx : xs.Pairwise (· ≤ ·))
    (hy : ys.Pairwise (· ≤ ·)) : (mergeCounting xs ys).1.Pairwise (· ≤ ·) := by
  fun_induction mergeCounting xs ys with
  | case1 ys => exact hy
  | case2 xs => exact hx
  | case3 x xs y ys hxy rest n heq ih =>
    have hperm := mergeCounting_perm xs (y :: ys)
    rw [heq] at ih hperm
    refine List.pairwise_cons.mpr ⟨fun z hz => ?_, ih hx.of_cons hy⟩
    rcases List.mem_append.mp (hperm.mem_iff.mp hz) with hz | hz
    · exact List.rel_of_pairwise_cons hx hz
    · exact hxy.trans (head_le_of_sorted hy hz)
  | case4 x xs y ys hxy rest n heq ih =>
    have hperm := mergeCounting_perm (x :: xs) ys
    rw [heq] at ih hperm
    refine List.pairwise_cons.mpr ⟨fun z hz => ?_, ih hx hy.of_cons⟩
    rcases List.mem_append.mp (hperm.mem_iff.mp hz) with hz | hz
    · exact (Nat.le_of_not_le hxy).trans (head_le_of_sorted hx hz)
    · exact List.rel_of_pairwise_cons hy hz

/-- Merging sorted lists counts the pairs out of order between them. When the head of the first list
is taken, nothing in the second one is smaller; when that of the second list is taken, all of the
first one is larger, and is counted. -/
theorem mergeCounting_count (xs ys : List Nat) (hx : xs.Pairwise (· ≤ ·))
    (hy : ys.Pairwise (· ≤ ·)) :
    (mergeCounting xs ys).2 = (xs.map fun x => ys.countP (outOfOrder x)).sum := by
  fun_induction mergeCounting xs ys with
  | case1 ys => rfl
  | case2 xs => simp
  | case3 x xs y ys hxy rest n heq ih =>
    rw [heq] at ih
    have hnone : (y :: ys).countP (outOfOrder x) = 0 := by
      refine List.countP_eq_zero.mpr fun z hz => ?_
      simpa [outOfOrder] using hxy.trans (head_le_of_sorted hy hz)
    rw [List.map_cons, List.sum_cons, hnone, Nat.zero_add]
    exact ih hx.of_cons hy
  | case4 x xs y ys hxy rest n heq ih =>
    rw [heq] at ih
    have hall : ∀ z ∈ x :: xs, (y :: ys).countP (outOfOrder z) = ys.countP (outOfOrder z) + 1 := by
      intro z hz
      have hyz : y < z := (Nat.lt_of_not_le hxy).trans_le (head_le_of_sorted hx hz)
      exact List.countP_cons_of_pos (by simpa [outOfOrder] using hyz)
    rw [List.map_congr_left hall, List.sum_map_add, ← ih hx hy.of_cons, List.map_const',
      List.sum_replicate, smul_eq_mul, mul_one, List.length_cons]

/-- Halving and merging sorts a list and counts its inversions, if there is fuel for its length. -/
theorem sortCountingWith_spec (fuel : Nat) (xs : List Nat) (hfuel : xs.length ≤ fuel) :
    (sortCountingWith fuel xs).1.Perm xs ∧ (sortCountingWith fuel xs).1.Pairwise (· ≤ ·) ∧
      (sortCountingWith fuel xs).2 = pairsBefore outOfOrder xs := by
  induction fuel generalizing xs with
  | zero =>
    obtain rfl := List.length_eq_zero_iff.mp (Nat.le_zero.mp hfuel)
    exact ⟨.refl _, .nil, rfl⟩
  | succ fuel ih =>
    rw [sortCountingWith]
    split
    next hshort =>
      obtain rfl | ⟨x, rfl⟩ : xs = [] ∨ ∃ x, xs = [x] := by
        match xs, hshort with
        | [], _ => exact .inl rfl
        | [x], _ => exact .inr ⟨x, rfl⟩
      · exact ⟨.refl _, .nil, rfl⟩
      · exact ⟨.refl _, List.pairwise_singleton _ _, rfl⟩
    next hlong =>
      obtain ⟨hlperm, hlsorted, hlcount⟩ := ih (xs.take (xs.length / 2)) (by simp; omega)
      obtain ⟨hrperm, hrsorted, hrcount⟩ := ih (xs.drop (xs.length / 2)) (by simp; omega)
      generalize sortCountingWith fuel (xs.take (xs.length / 2)) = left at *
      generalize sortCountingWith fuel (xs.drop (xs.length / 2)) = right at *
      refine ⟨?_, mergeCounting_sorted _ _ hlsorted hrsorted, ?_⟩
      · have hperm := (mergeCounting_perm left.1 right.1).trans (hlperm.append hrperm)
        rwa [List.take_append_drop] at hperm
      · have happend := pairsBefore_append outOfOrder (xs.take (xs.length / 2))
          (xs.drop (xs.length / 2))
        rw [List.take_append_drop] at happend
        rw [happend, ← hlcount, ← hrcount, ← sum_countP_perm _ hlperm hrperm,
          ← mergeCounting_count _ _ hlsorted hrsorted]

/-- **The merge sort counts the pairs of places out of order.** -/
theorem inversions_eq (xs : List Nat) : inversions xs = pairsBefore outOfOrder xs :=
  (sortCountingWith_spec xs.length xs le_rfl).2.2

/-! ## Pairs of ends -/

/-- The ends of two arcs lie in opposite orders, the first arc being the one with the first
source. -/
def endsCross (p q : Nat × Nat) : Bool := decide (p.1 < q.1 ∧ q.2 < p.2)

/-- Ends are sorted by the source and then by the target. -/
theorem pairLe_iff {p q : Nat × Nat} :
    pairLe p q = true ↔ p.1 < q.1 ∨ p.1 = q.1 ∧ p.2 ≤ q.2 := by
  simp [pairLe]

/-- In a sorted list, the ends of an earlier arc are never crossed by those of a later one, and
cross them exactly if the targets are out of order. -/
theorem endsCross_of_pairLe {p q : Nat × Nat} (h : pairLe p q = true) :
    endsCross q p = false ∧ outOfOrder p.2 q.2 = endsCross p q := by
  have hle := pairLe_iff.mp h
  simp only [endsCross, outOfOrder, decide_eq_false_iff_not, decide_eq_decide]
  omega

/-- The sorted list of ends is in this order, which is total. -/
theorem pairwise_sort_pairLe (ends : List (Nat × Nat)) :
    (ends.mergeSort pairLe).Pairwise fun p q => pairLe p q = true := by
  refine List.pairwise_mergeSort (fun p q r hpq hqr => ?_) (fun p q => ?_) ends
  · rw [pairLe_iff] at *
    omega
  · rw [Bool.or_eq_true, pairLe_iff, pairLe_iff]
    omega

/-- The inversions of the sorted list are the pairs of ends that cross, in whatever order they were
given. -/
theorem inversions_sorted (ends : List (Nat × Nat)) :
    inversions ((ends.mergeSort pairLe).map Prod.snd) =
      (ends.map fun p => ends.countP (endsCross p)).sum := by
  have hsorted := pairwise_sort_pairLe ends
  have hperm : (ends.mergeSort pairLe).Perm ends := List.mergeSort_perm ends pairLe
  calc inversions ((ends.mergeSort pairLe).map Prod.snd)
      = pairsBefore (fun p q => outOfOrder p.2 q.2) (ends.mergeSort pairLe) := by
        rw [inversions_eq, pairsBefore_map]
    _ = pairsBefore endsCross (ends.mergeSort pairLe) :=
        pairsBefore_congr (hsorted.imp fun h => (endsCross_of_pairLe h).2)
    _ = ((ends.mergeSort pairLe).map fun p => (ends.mergeSort pairLe).countP (endsCross p)).sum :=
        pairsBefore_eq_sum (fun p => by simp [endsCross])
          (hsorted.imp fun h => (endsCross_of_pairLe h).1)
    _ = _ := sum_countP_perm _ hperm hperm

namespace LayerGraph

variable {α : Type} {g : LayerGraph α} {members : List Nat} {a b : Nat}

/-! ## Pairs of arcs -/

/-- The active arcs. -/
def activeSet (g : LayerGraph α) : Finset Nat :=
  (Finset.range g.arcs.size).filter fun a => (g.arcs[a]?).any Arc.active

/-- Both arcs leave members of a rank list, the first one from a smaller and to a larger position
than the second one. -/
def Crosses (g : LayerGraph α) (members : List Nat) (a b : Nat) : Prop :=
  (g.source a ∈ members ∧ g.source b ∈ members) ∧
    g.order (g.source a) < g.order (g.source b) ∧ g.order (g.target b) < g.order (g.target a)

instance (g : LayerGraph α) (members : List Nat) (a b : Nat) : Decidable (g.Crosses members a b) :=
  inferInstanceAs (Decidable (_ ∧ _))

/-- The pairs of active arcs that leave the same rank list, which is not the last one, and cross. -/
def crossingPairs (g : LayerGraph α) : Finset (Finset Nat) :=
  (g.activeSet.powersetCard 2).filter fun pair =>
    ∃ members ∈ g.ranks.toList.dropLast, ∃ a ∈ pair, ∃ b ∈ pair, g.Crosses members a b

@[simp] theorem mem_activeSet :
    a ∈ g.activeSet ↔ ∃ arc, g.arcs[a]? = some arc ∧ arc.active = true := by
  rw [activeSet, Finset.mem_filter, Finset.mem_range, Option.any_eq_true]
  refine ⟨fun h => h.2, fun h => ⟨?_, h⟩⟩
  obtain ⟨arc, ha, -⟩ := h
  exact (Array.getElem?_eq_some_iff.mp ha).1

/-- The arcs that leave the members of a rank list. -/
def arcsBelow (g : LayerGraph α) (members : List Nat) : List Nat := members.flatMap g.outArcs

/-- The arcs below a list are the active ones that leave one of its members. -/
theorem Consistent.mem_arcsBelow (h : g.Consistent) :
    a ∈ g.arcsBelow members ↔ a ∈ g.activeSet ∧ g.source a ∈ members := by
  rw [arcsBelow, List.mem_flatMap, mem_activeSet]
  constructor
  · rintro ⟨v, hv, ha⟩
    obtain ⟨arc, harc, hact, rfl⟩ := (h.mem_outArcs v a).mp ha
    exact ⟨⟨arc, harc, hact⟩, source_eq harc ▸ hv⟩
  · rintro ⟨⟨arc, harc, hact⟩, hmem⟩
    exact ⟨g.source a, hmem, (h.mem_outArcs _ a).mpr ⟨arc, harc, hact, (source_eq harc).symm⟩⟩

/-- No arc is listed twice there, being listed only where it leaves. -/
theorem Consistent.nodup_arcsBelow (h : g.Consistent) (hm : members.Nodup) :
    (g.arcsBelow members).Nodup := by
  refine List.nodup_flatMap.mpr ⟨fun v _ => h.outArcs_nodup v, hm.imp fun {u v} huv a hu hv => ?_⟩
  exact huv ((h.source_of_mem_outArcs hu).symm.trans (h.source_of_mem_outArcs hv))

/-- The positions of both ends of an arc. -/
def ends (g : LayerGraph α) (a : Nat) : Nat × Nat :=
  (g.order (g.source a), g.order (g.target a))

/-- The pairs of positions that are sorted are the ends of these arcs. -/
theorem Consistent.arcEnds_eq (h : g.Consistent) (members : List Nat) :
    g.arcEnds members = (g.arcsBelow members).map g.ends := by
  rw [arcEnds, arcsBelow, List.map_flatMap]
  refine List.flatMap_congr fun v _ => ?_
  rw [successors, List.map_map]
  refine List.map_congr_left fun a ha => ?_
  rw [Function.comp_apply, ends, h.source_of_mem_outArcs ha]

/-- In a list without repetitions, related places are related members. -/
theorem sum_countP_eq_card {l : List Nat} (hl : l.Nodup) (R : Nat → Nat → Bool) :
    (l.map fun a => l.countP (R a)).sum =
      ((l.toFinset ×ˢ l.toFinset).filter fun p => R p.1 p.2 = true).card := by
  have hcount : ∀ a, l.countP (R a) = ∑ b ∈ l.toFinset, if R a b = true then 1 else 0 := by
    intro a
    rw [← Finset.card_filter, ← List.toFinset_filter, List.toFinset_card_of_nodup (hl.filter _),
      List.countP_eq_length_filter]
  rw [Finset.card_filter, Finset.sum_product, ← List.sum_toFinset _ hl]
  exact Finset.sum_congr rfl fun a _ => hcount a

/-- The pairs of active arcs that cross below a rank list, the one with the first source first. -/
def orderedPairs (g : LayerGraph α) (members : List Nat) : Finset (Nat × Nat) :=
  (g.activeSet ×ˢ g.activeSet).filter fun p => g.Crosses members p.1 p.2

/-- The ordered pairs of a list are the pairs of active arcs that cross below it. -/
theorem mem_orderedPairs : (a, b) ∈ g.orderedPairs members ↔
    (a ∈ g.activeSet ∧ b ∈ g.activeSet) ∧ g.Crosses members a b := by
  rw [orderedPairs, Finset.mem_filter, Finset.mem_product]

/-- **Below one rank list, the crossings are the pairs of arcs that cross.** -/
theorem Consistent.crossingsBelow_eq (h : g.Consistent) (hm : members.Nodup) :
    g.crossingsBelow members = (g.orderedPairs members).card := by
  rw [crossingsBelow, inversions_sorted, h.arcEnds_eq, List.map_map]
  simp only [Function.comp_def, List.countP_map]
  rw [sum_countP_eq_card (h.nodup_arcsBelow hm) fun a b => endsCross (g.ends a) (g.ends b)]
  congr 1
  ext ⟨a, b⟩
  rw [Finset.mem_filter, mem_orderedPairs, Finset.mem_product, List.mem_toFinset,
    List.mem_toFinset, h.mem_arcsBelow, h.mem_arcsBelow, Crosses, endsCross, decide_eq_true_eq,
    ends, ends]
  tauto

/-! ## All rank lists -/

/-- The pairs below several rank lists are counted list by list. -/
theorem sum_card_orderedPairs {lists : List (List Nat)} (h : lists.Pairwise List.Disjoint) :
    (lists.map fun members => (g.orderedPairs members).card).sum =
      ((g.activeSet ×ˢ g.activeSet).filter fun p =>
        ∃ members ∈ lists, g.Crosses members p.1 p.2).card := by
  induction h with
  | nil => simp
  | @cons members lists hm _ ih =>
    rw [List.map_cons, List.sum_cons, ih, orderedPairs, ← Finset.card_union_of_disjoint]
    · congr 1
      ext p
      simp only [Finset.mem_union, Finset.mem_filter, List.exists_mem_cons_iff]
      tauto
    · refine Finset.disjoint_left.mpr fun p hp hp' => ?_
      obtain ⟨l, hl, hcross⟩ := (Finset.mem_filter.mp hp').2
      exact hm l hl (Finset.mem_filter.mp hp).2.1.1 hcross.1.1

/-- Two arcs do not cross in both orders, since the first source of the one order would be the last
of the other. -/
theorem Crosses.asymm {l l' : List Nat} (h : g.Crosses l a b) : ¬ g.Crosses l' b a :=
  fun h' => Nat.lt_asymm h.2.1 h'.2.1

/-- A crossing pair has one arc whose source comes first, so it is counted as one ordered pair: the
same pair the other way round would cross both ways. -/
theorem card_crossingPairs (g : LayerGraph α) :
    g.crossingPairs.card = ((g.activeSet ×ˢ g.activeSet).filter fun p =>
      ∃ members ∈ g.ranks.toList.dropLast, g.Crosses members p.1 p.2).card := by
  symm
  refine Finset.card_bij (fun p _ => {p.1, p.2}) ?_ ?_ ?_
  · rintro ⟨a, b⟩ hp
    obtain ⟨hmem, members, hm, hcross⟩ := Finset.mem_filter.mp hp
    obtain ⟨ha, hb⟩ := Finset.mem_product.mp hmem
    have hne : a ≠ b := fun he => absurd (he ▸ hcross) (he ▸ hcross).asymm
    refine Finset.mem_filter.mpr ⟨Finset.mem_powersetCard.mpr ⟨?_, Finset.card_pair hne⟩,
      members, hm, a, by simp, b, by simp, hcross⟩
    exact Finset.insert_subset ha (Finset.singleton_subset_iff.mpr hb)
  · rintro ⟨a, b⟩ hp ⟨a', b'⟩ hp' heq
    obtain ⟨-, members, -, hcross⟩ := Finset.mem_filter.mp hp
    obtain ⟨-, members', -, hcross'⟩ := Finset.mem_filter.mp hp'
    have hpair : ({a, b} : Set Nat) = {a', b'} := by
      rw [← Finset.coe_pair, ← Finset.coe_pair, heq]
    -- the same pair the other way around would cross both ways
    rcases Set.pair_eq_pair_iff.mp hpair with ⟨rfl, rfl⟩ | ⟨rfl, rfl⟩
    · rfl
    · exact absurd hcross' hcross.asymm
  · intro pair hpair
    obtain ⟨hmem, members, hm, a, ha, b, hb, hcross⟩ := Finset.mem_filter.mp hpair
    obtain ⟨hsub, hcard⟩ := Finset.mem_powersetCard.mp hmem
    refine ⟨(a, b), Finset.mem_filter.mpr
      ⟨Finset.mem_product.mpr ⟨hsub ha, hsub hb⟩, members, hm, hcross⟩, ?_⟩
    have hne : a ≠ b := fun he => absurd (he ▸ hcross) (he ▸ hcross).asymm
    refine Finset.eq_of_subset_of_card_le ?_ ?_
    · exact Finset.insert_subset ha (Finset.singleton_subset_iff.mpr hb)
    · rw [hcard, Finset.card_pair hne]

/-- **The crossings that are counted are the crossing pairs**, whatever the positions of the
vertices are, if no vertex is listed twice: pairs of active arcs that leave the same rank list,
which is not the last one, and whose ends lie in opposite orders. -/
theorem countCrossings_eq_card (h : g.Consistent) (hlisted : g.ranks.toList.flatten.Nodup) :
    g.countCrossings = g.crossingPairs.card := by
  obtain ⟨hnodup, hdisj⟩ := List.nodup_flatten.mp hlisted
  have hbelow : ∀ members ∈ g.ranks.toList.dropLast,
      g.crossingsBelow members = (g.orderedPairs members).card := fun members hm =>
    h.crossingsBelow_eq (hnodup members (List.dropLast_subset _ hm))
  rw [countCrossings, ← List.sum_eq_foldl, List.map_congr_left hbelow,
    sum_card_orderedPairs (hdisj.sublist (List.dropLast_sublist _)), card_crossingPairs]

/-- Three vertices over two, with parallel arcs. -/
def warp : LayerGraph Float32 :=
  let vertices : LayerGraph Float32 :=
    ["a", "b", "c", "d", "e"].foldl (fun g id => g.addNode id 1.0 1.0 []) {}
  [(0, 4), (0, 4), (1, 3), (2, 3), (1, 4), (0, 3)].zipIdx.foldl
    (fun g (arc, origin) => g.addArc arc.1 arc.2 1.0 origin) vertices

/-- The three vertices are listed over the two, in some order, and the second and the third one
share their position. -/
def weave : LayerGraph Float32 :=
  let placed := [(1, 1), (2, 1), (4, 1)].foldl (fun g (v, order) => g.setOrder v order) warp
  { placed with ranks := #[[2, 0, 1], [3, 4]] }

/-- The lists of the woven graph say what its arcs say. -/
theorem weave_consistent : weave.Consistent := by
  have hbuilt : Built warp :=
    (Built.empty.addNodes 1.0 1.0 ["a", "b", "c", "d", "e"]).addArcs 1.0 _ (by decide +kernel)
  have hplace : ∀ (g : LayerGraph Float32) (x : Nat × Nat),
      Keeps Vertex.rank g (g.setOrder x.1 x.2) := fun g x =>
    Keeps.updateNode (u := ({ · with order := x.2 })) (fun _ => rfl) g x.1
  have hkeeps : Keeps Vertex.rank warp weave :=
    (Keeps.foldl hplace _ warp).trans (.withRankLists _ _ _)
  exact hkeeps.consistent hbuilt.fresh.consistent

/-- Both of the parallel arcs cross both of the arcs that lead from `b` and `c` to `d`. -/
theorem countCrossings_weave : weave.Consistent ∧ weave.ranks.toList.flatten.Nodup ∧
    weave.countCrossings = weave.crossingPairs.card ∧
    weave.crossingPairs = {{0, 2}, {0, 3}, {1, 2}, {1, 3}} := by
  have hlisted : weave.ranks.toList.flatten.Nodup := by decide +kernel
  exact ⟨weave_consistent, hlisted, countCrossings_eq_card weave_consistent hlisted,
    by decide +kernel⟩

end LayerGraph

end Flowchart
