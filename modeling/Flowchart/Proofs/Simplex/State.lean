import Flowchart.Layered.Simplex
import Flowchart.Proofs.Table
import Mathlib.Algebra.Order.BigOperators.Group.Finset
import Mathlib.Data.List.Nodup
import Mathlib.Logic.Relation

/-!
# States of the network simplex

What is asked of a state of the simplex on one component.

* `Wired`: the tables have the right sizes, every link joins two different vertices, no two links
  join the same ones, and each vertex lists exactly its links.
* `Feasible`: no link is shorter than it has to be. `Tight`: the links of the tree are no longer.
* `Spanning`: the tree links connect all vertices, and there are no more of them than that takes.

The links never change after the start, so `SameLinks` carries `Wired` from state to state.
-/

namespace Flowchart.Simplex

variable {α : Type} {s s' : Simplex α}

/-! ## Links -/

/-- The ends of a link, in either order. -/
def Joins (s : Simplex α) (l u v : Nat) : Prop :=
  s.tail l = u ∧ s.head l = v ∨ s.tail l = v ∧ s.head l = u

/-- A link joins its two ends in either order. -/
theorem Joins.symm {l u v : Nat} (h : s.Joins l u v) : s.Joins l v u := Or.symm h

/-- The tables fit together. -/
structure Wired (s : Simplex α) : Prop where
  incident_size : s.incident.size = s.size
  places_size : s.places.size = s.size
  cut_size : s.cut.size = s.size
  inTree_size : s.inTree.size = s.links.size
  /-- links join vertices -/
  ends_lt : ∀ l < s.links.size, s.tail l < s.size ∧ s.head l < s.size
  /-- no link is a loop -/
  ends_ne : ∀ l < s.links.size, s.tail l ≠ s.head l
  /-- no two links join the same vertices -/
  apart : ∀ k < s.links.size, ∀ l < s.links.size, ∀ u v, s.Joins k u v → s.Joins l u v → k = l
  /-- a vertex lists the links at it -/
  mem_linksAt : ∀ v l, l ∈ s.linksAt v ↔ l < s.links.size ∧ (s.tail l = v ∨ s.head l = v)
  /-- and lists them once -/
  linksAt_nodup : ∀ v, (s.linksAt v).Nodup

/-- The same links over the same vertices. -/
structure SameLinks (s s' : Simplex α) : Prop where
  links : s'.links = s.links
  incident : s'.incident = s.incident
  size : s'.size = s.size
  places_size : s'.places.size = s.places.size
  cut_size : s'.cut.size = s.cut.size
  inTree_size : s'.inTree.size = s.inTree.size

namespace SameLinks

theorem refl (s : Simplex α) : SameLinks s s := ⟨rfl, rfl, rfl, rfl, rfl, rfl⟩

/-- Links that stay through two steps stay through both of them. -/
theorem trans {s'' : Simplex α} (h : SameLinks s s') (h' : SameLinks s' s'') : SameLinks s s'' :=
  ⟨h'.links.trans h.links, h'.incident.trans h.incident, h'.size.trans h.size,
    h'.places_size.trans h.places_size, h'.cut_size.trans h.cut_size,
    h'.inTree_size.trans h.inTree_size⟩

theorem tail_eq (h : SameLinks s s') : s'.tail = s.tail := by
  funext l
  rw [tail, h.links, tail]

theorem head_eq (h : SameLinks s s') : s'.head = s.head := by
  funext l
  rw [head, h.links, head]

theorem minLength_eq (h : SameLinks s s') : s'.minLength = s.minLength := by
  funext l
  rw [minLength, h.links, minLength]

theorem weight_eq [Scalar α] (h : SameLinks s s') : s'.weight = s.weight := by
  funext l
  rw [weight, h.links, weight]

theorem linksAt_eq (h : SameLinks s s') : s'.linksAt = s.linksAt := by
  funext v
  rw [linksAt, h.incident, linksAt]

theorem other_eq (h : SameLinks s s') : s'.other = s.other := by
  funext l v
  rw [other, h.tail_eq, h.head_eq, other]

theorem joins_eq (h : SameLinks s s') : s'.Joins = s.Joins := by
  funext l u v
  rw [Joins, h.tail_eq, h.head_eq, Joins]

/-- Wiring speaks of the links and their lists only, and these are the same. -/
theorem wired (h : SameLinks s s') (hw : s.Wired) : s'.Wired where
  incident_size := by rw [h.incident, h.size, hw.incident_size]
  places_size := by rw [h.places_size, h.size, hw.places_size]
  cut_size := by rw [h.cut_size, h.size, hw.cut_size]
  inTree_size := by rw [h.inTree_size, h.links, hw.inTree_size]
  ends_lt := by
    rw [h.links, h.tail_eq, h.head_eq, h.size]
    exact hw.ends_lt
  ends_ne := by
    rw [h.links, h.tail_eq, h.head_eq]
    exact hw.ends_ne
  apart := by
    rw [h.links, h.joins_eq]
    exact hw.apart
  mem_linksAt := by
    rw [h.links, h.linksAt_eq, h.tail_eq, h.head_eq]
    exact hw.mem_linksAt
  linksAt_nodup := by
    rw [h.linksAt_eq]
    exact hw.linksAt_nodup

end SameLinks

namespace Wired

variable {l u v : Nat}

/-- A link joins the end it is seen from with the other one. -/
theorem joins_other (hl : s.tail l = v ∨ s.head l = v) : s.Joins l v (s.other l v) := by
  unfold other
  by_cases ht : s.tail l = v
  · simp [ht, Joins]
  · simp [ht, Joins, hl.resolve_left ht]

/-- Seen from one of two ends that it joins, a link leads to the other: it has no more than two
ends. -/
theorem other_eq (h : s.Wired) (hl : l < s.links.size) (hj : s.Joins l v u) : s.other l v = u := by
  have hne := h.ends_ne l hl
  unfold other
  rcases hj with ⟨ht, hh⟩ | ⟨ht, hh⟩
  · simp [ht, hh]
  · have : s.tail l ≠ v := fun he => hne (he.trans hh.symm)
    simpa [this] using ht

/-- A vertex lists exactly the links that join it with some vertex. -/
theorem mem_linksAt_iff (h : s.Wired) :
    l ∈ s.linksAt v ↔ l < s.links.size ∧ s.Joins l v (s.other l v) := by
  rw [h.mem_linksAt]
  refine and_congr_right fun _ => ⟨joins_other, fun hj => ?_⟩
  exact hj.imp And.left And.right

/-- The ends of a link are vertices of the component. -/
theorem lt_of_joins (h : s.Wired) (hl : l < s.links.size) (hj : s.Joins l u v) :
    u < s.size ∧ v < s.size := by
  have := h.ends_lt l hl
  rcases hj with ⟨rfl, rfl⟩ | ⟨rfl, rfl⟩
  · exact this
  · exact this.symm

/-- No link joins a vertex with itself, since loops are not handed to the simplex. -/
theorem ne_of_joins (h : s.Wired) (hl : l < s.links.size) (hj : s.Joins l u v) : u ≠ v := by
  have := h.ends_ne l hl
  rcases hj with ⟨rfl, rfl⟩ | ⟨rfl, rfl⟩
  · exact this
  · exact this.symm

end Wired

/-! ## The state before a tree was found -/

section Initial

variable {links : Array (SimplexLink α)} {rank : Array Int}

/-- The lists of the links among the first `k` ones at each of `n` vertices. -/
def incidence (links : Array (SimplexLink α)) (n k : Nat) : Array (List Nat) :=
  (List.range k).foldl (fun inc l =>
    match links[l]? with
    | some link => (inc.modify link.tail (· ++ [l])).modify link.head (· ++ [l])
    | none => inc) (Array.replicate n [])

/-- The lists of the first links arise by adding one link at both of its ends. -/
theorem incidence_succ {n k : Nat} (hk : k < links.size) :
    incidence links n (k + 1) = ((incidence links n k).modify links[k].tail (· ++ [k])).modify
      links[k].head (· ++ [k]) := by
  have hlink : links[k]? = some links[k] := Array.getElem?_eq_getElem hk
  rw [incidence, List.range_succ, List.foldl_append, List.foldl_cons, List.foldl_nil, hlink]
  rfl

/-- However many links have been listed, there is one list for each vertex. -/
theorem size_incidence (links : Array (SimplexLink α)) (n : Nat) {k : Nat} (hk : k ≤ links.size) :
    (incidence links n k).size = n := by
  induction k with
  | zero => simp [incidence]
  | succ k ih => rw [incidence_succ hk, Array.size_modify, Array.size_modify, ih (by omega)]

variable [Scalar α]

/-- The tables of the initial state give the ends of the links as they were handed over. -/
theorem tail_initial (rank : Array Int) {l : Nat} (hl : l < links.size) :
    (initial links rank).tail l = links[l].tail := by
  simp [tail, initial, hl]

theorem head_initial (rank : Array Int) {l : Nat} (hl : l < links.size) :
    (initial links rank).head l = links[l].head := by
  simp [head, initial, hl]

variable (hends : ∀ (l : Nat) (hl : l < links.size),
  links[l].tail < rank.size ∧ links[l].head < rank.size ∧ links[l].tail ≠ links[l].head)
include hends

/-- In the initial state a vertex lists the links of which it is an end, in order. This is shown for
the lists of the first links, by induction on their number: the next link is listed at its ends, and
nowhere else. -/
theorem linksAt_initial (v : Nat) :
    (initial links rank).linksAt v = (List.range links.size).filter fun l =>
      (initial links rank).tail l == v || (initial links rank).head l == v := by
  have hprefix : ∀ k ≤ links.size, (incidence links rank.size k).getD v [] =
      (List.range k).filter fun l =>
        (initial links rank).tail l == v || (initial links rank).head l == v := by
    intro k
    induction k with
    | zero =>
      intro _
      simp [incidence, Array.getD]
    | succ k ih =>
      intro hk
      obtain ⟨ht, hh, hne⟩ := hends k hk
      have hsize := size_incidence links rank.size (show k ≤ links.size by omega)
      rw [incidence_succ hk, Table.getD_modify, Table.getD_modify, ih (by omega), Array.size_modify,
        hsize, List.range_succ, List.filter_append, ← tail_initial rank hk,
        ← head_initial rank hk]
      rw [← tail_initial rank hk, ← head_initial rank hk] at hne
      rw [← tail_initial rank hk] at ht
      rw [← head_initial rank hk] at hh
      by_cases h1 : (initial links rank).tail k = v
      · have h2 : v ≠ (initial links rank).head k := fun h => hne (h1.trans h)
        simp [h1, h2, h1 ▸ ht]
      · by_cases h2 : (initial links rank).head k = v
        · simp [h2, Ne.symm h1, h2 ▸ hh]
        · simp [h1, h2, Ne.symm h1, Ne.symm h2]
  exact hprefix links.size (Nat.le_refl _)

/-- Links between different vertices, of which no two join the same ones, give a wired state. -/
theorem initial_wired (hapart : ∀ k < links.size, ∀ l < links.size, ∀ u v,
      (initial links rank).Joins k u v → (initial links rank).Joins l u v → k = l) :
    (initial links rank).Wired := by
  refine ⟨size_incidence _ _ (Nat.le_refl _), by simp [initial, size], by simp [initial, size],
    by simp [initial], fun l (hl : l < links.size) => ?_, fun l (hl : l < links.size) => ?_, hapart,
    fun v l => ?_, fun v => ?_⟩
  · rw [tail_initial rank hl, head_initial rank hl]
    exact ⟨(hends l hl).1, (hends l hl).2.1⟩
  · rw [tail_initial rank hl, head_initial rank hl]
    exact (hends l hl).2.2
  · rw [linksAt_initial hends]
    simp [initial]
  · rw [linksAt_initial hends]
    exact List.nodup_range.filter _

end Initial

/-! ## Rankings and trees -/

/-- No link is shorter than it has to be. -/
def Feasible (s : Simplex α) : Prop := ∀ l < s.links.size, 0 ≤ s.slack l

/-- The links of the tree are as short as they may be. -/
def Tight (s : Simplex α) : Prop := ∀ l, s.isTree l = true → s.slack l = 0

/-- A link of the tree joins two vertices. -/
def TreeLinked (s : Simplex α) (u v : Nat) : Prop := ∃ l, s.isTree l = true ∧ s.Joins l u v

/-- The links of the tree. -/
def treeLinks (s : Simplex α) : Finset Nat := (Finset.range s.links.size).filter (s.isTree ·)

/-- The tree links connect all vertices, and there is one less of them. -/
structure Spanning (s : Simplex α) : Prop where
  connected : ∀ v < s.size, Relation.ReflTransGen s.TreeLinked 0 v
  count : s.treeLinks.card + 1 = s.size

/-- Being joined by a link of the tree does not depend on the order of the two vertices. -/
theorem TreeLinked.symm {u v : Nat} (h : s.TreeLinked u v) : s.TreeLinked v u := by
  obtain ⟨l, hl, hj⟩ := h
  exact ⟨l, hl, hj.symm⟩

instance : Std.Symm s.TreeLinked := ⟨fun _ _ => TreeLinked.symm⟩

/-- Only links that exist belong to the tree, since the table of marks has no more entries than
there are links. -/
theorem Wired.lt_of_isTree (h : s.Wired) {l : Nat} (hl : s.isTree l = true) : l < s.links.size := by
  rw [← h.inTree_size]
  by_contra hlt
  rw [isTree, Table.getD_of_le _ _ (Nat.le_of_not_lt hlt)] at hl
  cases hl

/-- The set of tree links has the links that are marked as such. -/
theorem Wired.mem_treeLinks (h : s.Wired) {l : Nat} : l ∈ s.treeLinks ↔ s.isTree l = true := by
  simp only [treeLinks, Finset.mem_filter, Finset.mem_range, and_iff_right_iff_imp]
  exact h.lt_of_isTree

/-- The tree arcs at a vertex are the tree links that join it with another one, each beside that
vertex. -/
theorem Wired.mem_treeArcs (h : s.Wired) {v l u : Nat} :
    (l, u) ∈ s.treeArcs v ↔ s.isTree l = true ∧ s.Joins l v u := by
  simp only [treeArcs, List.mem_map, List.mem_filter, Prod.mk.injEq]
  constructor
  · rintro ⟨k, ⟨hk, htree⟩, rfl, rfl⟩
    exact ⟨htree, (h.mem_linksAt_iff.mp hk).2⟩
  · rintro ⟨htree, hj⟩
    have hlt := h.lt_of_isTree htree
    refine ⟨l, ⟨h.mem_linksAt_iff.mpr ⟨hlt, ?_⟩, htree⟩, rfl, h.other_eq hlt hj⟩
    rwa [h.other_eq hlt hj]

/-! ## Least slack -/

/-- The link found with the least slack is one of those given, and none of them has less. -/
theorem leastSlack?_spec {ls : List Nat} {l : Nat} (h : s.leastSlack? ls = some l) :
    l ∈ ls ∧ ∀ k ∈ ls, s.slack l ≤ s.slack k := by
  cases ls with
  | nil => cases h
  | cons a ls =>
    obtain rfl := Option.some.inj h
    clear h
    induction ls generalizing a with
    | nil => simp
    | cons b ls ih =>
      obtain ⟨hmem, hle⟩ := ih (if s.slack b < s.slack a then b else a)
      rw [List.foldl_cons]
      have hfirst := hle _ List.mem_cons_self
      have hmin : s.slack (if s.slack b < s.slack a then b else a) ≤ s.slack a ∧
          s.slack (if s.slack b < s.slack a then b else a) ≤ s.slack b := by
        split <;> omega
      constructor
      · rcases List.mem_cons.mp hmem with h | h
        · rw [h]
          split <;> simp
        · exact List.mem_cons_of_mem _ (List.mem_cons_of_mem _ h)
      · intro k hk
        rcases List.mem_cons.mp hk with rfl | hk
        · exact hfirst.trans hmin.1
        · rcases List.mem_cons.mp hk with rfl | hk
          · exact hfirst.trans hmin.2
          · exact hle k (List.mem_cons_of_mem _ hk)

/-- Among links, of which there is at least one, one with the least slack is found. -/
theorem exists_leastSlack? {ls : List Nat} (h : ls ≠ []) : ∃ l, s.leastSlack? ls = some l := by
  cases ls with
  | nil => exact absurd rfl h
  | cons a ls => exact ⟨_, rfl⟩

end Flowchart.Simplex
