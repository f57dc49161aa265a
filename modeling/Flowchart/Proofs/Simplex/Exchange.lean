import Flowchart.Proofs.Simplex.Growing
import Flowchart.Proofs.Simplex.Numbering

/-!
# Exchanging links

Taking the link above a vertex out of the tree leaves the vertices below it apart from the others.
The link that enters crosses this split the other way and has the least slack of all that do; so
moving one side by that slack makes it tight and leaves no link too short. The ranks computed from
the new tree are the ones moved this way, because tight tree links leave no other choice.

* `Hanging.crosses_iff` says which tree link crosses the split below a vertex.
* `Sound` holds of the first tree, and `Sound.exchange` keeps it.
-/

namespace Flowchart.Simplex

variable {α : Type} {s s' : Simplex α}

/-! ## What lies below a vertex -/

namespace Hanging

variable {c l p v : Nat}

/-- The parent of a vertex is a vertex. -/
theorem parent_lt (h : s.Hanging) (hw : s.Wired) (hv : v < s.size)
    (hp : (s.place v).parent = some (l, p)) : p < s.size := by
  obtain ⟨htree, hj, -⟩ := h.link v hv l p hp
  exact (hw.lt_of_joins (hw.lt_of_isTree htree) hj).2

/-- Induction from the root down the tree: what holds of the root and passes from every vertex to
those hung on it holds of all vertices. -/
theorem induct {P : Nat → Prop} (h : s.Hanging) (hw : s.Wired) (hroot : P 0)
    (hstep : ∀ v < s.size, ∀ l p, (s.place v).parent = some (l, p) → p < s.size → P p → P v) :
    ∀ v < s.size, P v := by
  have hstrong : ∀ d v, v < s.size → s.size - (s.place v).lim ≤ d → P v := by
    intro d
    induction d with
    | zero =>
      intro v hv hd
      by_cases hz : v = 0
      · exact hz ▸ hroot
      · obtain ⟨l, p, hp⟩ := h.parent v hv hz
        have hplt := h.parent_lt hw hv hp
        have := (h.link v hv l p hp).2.2
        have := h.lim_le p hplt
        omega
    | succ d ih =>
      intro v hv hd
      by_cases hz : v = 0
      · exact hz ▸ hroot
      · obtain ⟨l, p, hp⟩ := h.parent v hv hz
        have hplt := h.parent_lt hw hv hp
        have := (h.link v hv l p hp).2.2
        have := h.lim_le p hplt
        exact hstep v hv l p hp hplt (ih p hplt (by omega))
  exact fun v hv => hstrong _ v hv (Nat.le_refl _)

/-- A vertex that hangs on another one is not the root, for the root has nothing above it. -/
theorem ne_root (h : s.Hanging) (hp : (s.place v).parent = some (l, p)) : v ≠ 0 := by
  rintro rfl
  rw [h.root] at hp
  cases hp

/-- Every vertex lies below itself, since its own interval of numbers holds its number. -/
theorem below_self (h : s.Hanging) (hv : v < s.size) : s.isBelow v v = true := by
  by_cases hz : v = 0
  · subst hz
    exact (h.below_root 0 hv).mpr rfl
  · obtain ⟨l, p, hp⟩ := h.parent v hv hz
    exact (h.below_iff v hv l p hp v hv).mpr (.inl rfl)

/-- The root lies below no vertex that has a parent. -/
theorem root_not_below (h : s.Hanging) (hc : c < s.size) (hp : (s.place c).parent = some (l, p)) :
    s.isBelow 0 c = false := by
  rw [Bool.eq_false_iff]
  exact fun hb => h.ne_root hp ((h.below_root c hc).mp hb).symm

/-- No parent lies below its child, for the numbers of the tree fall towards the root. -/
theorem parent_not_below (h : s.Hanging) (hv : v < s.size)
    (hp : (s.place v).parent = some (l, p)) : s.isBelow p v = false := by
  have hlt := (h.link v hv l p hp).2.2
  rw [isBelow, Bool.and_eq_false_iff]
  exact .inr (decide_eq_false (Nat.not_le.mpr hlt))

/-- A vertex other than `c` lies below `c` if its parent does. -/
theorem below_parent (h : s.Hanging) (hv : v < s.size) (hp : (s.place v).parent = some (l, p))
    (hc : c < s.size) (hne : v ≠ c) : s.isBelow v c = s.isBelow p c := by
  rw [Bool.eq_iff_iff, h.below_iff v hv l p hp c hc]
  exact or_iff_right hne

/-- Different vertices have different links above them, because a link has one lower end. -/
theorem link_inj (h : s.Hanging) (hw : s.Wired) {u q : Nat} (hu : u < s.size) (hv : v < s.size)
    (hup : (s.place u).parent = some (l, q)) (hvp : (s.place v).parent = some (l, p)) : u = v :=
  parent_link_inj hw h.link hu hv hup hvp

/-- **The link above a vertex is the only tree link that leads out of what lies below.** -/
theorem crosses_iff (h : s.Hanging) (hw : s.Wired) (hc : c < s.size)
    (hp : (s.place c).parent = some (l, p)) {k u w : Nat} (hk : s.isTree k = true)
    (hj : s.Joins k u w) : s.isBelow u c ≠ s.isBelow w c ↔ k = l := by
  obtain ⟨x, hx, q, hxq⟩ := h.above k hk
  obtain ⟨-, hjx, -⟩ := h.link x hx k q hxq
  have hends : s.isBelow u c ≠ s.isBelow w c ↔ s.isBelow x c ≠ s.isBelow q c := by
    rcases hj with ⟨rfl, rfl⟩ | ⟨rfl, rfl⟩ <;> rcases hjx with ⟨rfl, rfl⟩ | ⟨rfl, rfl⟩
    · exact Iff.rfl
    · exact ne_comm
    · exact ne_comm
    · exact Iff.rfl
  rw [hends]
  by_cases hxc : x = c
  · subst hxc
    obtain ⟨rfl, rfl⟩ : k = l ∧ q = p := by
      have := Option.some.inj (hxq.symm.trans hp)
      simpa using this
    simp [h.below_self hc, h.parent_not_below hc hp]
  · rw [h.below_parent hx hxq hc hxc]
    simp only [ne_eq, not_true_eq_false, false_iff]
    rintro rfl
    exact hxc (h.link_inj hw hx hc hxq hp)

/-- The walk from the root lists the root first. -/
theorem preorder_eq (h : s.Hanging) : s.preorder = 0 :: s.preorder.drop 1 := by
  have hhead := h.preorder_head
  cases hpre : s.preorder with
  | nil =>
    rw [hpre] at hhead
    cases hhead
  | cons x rest =>
    rw [hpre] at hhead
    cases hhead
    rfl

/-- The root and all vertices after it occur once each. -/
theorem preorder_tail_nodup (h : s.Hanging) : 0 ∉ s.preorder.drop 1 ∧ (s.preorder.drop 1).Nodup :=
  List.nodup_cons.mp (h.preorder_eq ▸ h.preorder_nodup)

/-- After the root all other vertices are listed. -/
theorem mem_preorder_tail (h : s.Hanging) : v ∈ s.preorder.drop 1 ↔ v < s.size ∧ v ≠ 0 := by
  have h0 := h.preorder_tail_nodup.1
  rw [← h.mem_preorder, h.preorder_eq]
  by_cases hv : v = 0
  · subst hv
    simpa using h0
  · simp [hv]

/-- Tight links of the tree leave one choice of ranks, once the rank of the root is fixed. -/
theorem rank_unique (h : s.Hanging) (hw : s.Wired) {r r' : Nat → Int} (h0 : r 0 = r' 0)
    (hr : ∀ k, s.isTree k = true → r (s.head k) - r (s.tail k) = s.minLength k)
    (hr' : ∀ k, s.isTree k = true → r' (s.head k) - r' (s.tail k) = s.minLength k) :
    ∀ v < s.size, r v = r' v := by
  refine h.induct hw h0 fun v hv l p hp _ ih => ?_
  obtain ⟨htree, hj, -⟩ := h.link v hv l p hp
  have h1 := hr l htree
  have h2 := hr' l htree
  rcases hj with ⟨rfl, rfl⟩ | ⟨rfl, rfl⟩ <;> omega

end Hanging

/-! ## Ranks from the tree -/

theorem sameTree_settleRank (s : Simplex α) (v : Nat) : SameTree s (s.settleRank v) := by
  unfold settleRank
  split
  · exact .refl s
  · exact ⟨⟨rfl, rfl, Array.size_setIfInBounds, rfl, rfl, rfl⟩, rfl, rfl, rfl, rfl⟩

/-- Settling ranks changes no link and no place in the tree. -/
theorem sameTree_settleRanks (s : Simplex α) : SameTree s s.settleRanks :=
  SameTree.foldl sameTree_settleRank _ s

/-- The rank that makes the link above a vertex tight; of the root it is the one it has. -/
def settled (s : Simplex α) (ranks : Array Int) (v : Nat) : Int :=
  match (s.place v).parent with
  | none => s.rankOf v
  | some (l, p) =>
    if s.tail l == v then ranks.getD p 0 - s.minLength l else ranks.getD p 0 + s.minLength l

/-- All vertices but the root get the rank that their parents ask for. -/
theorem settleRanks_eq (h : s.Hanging) : s.settleRanks = { s with
    rank := (s.preorder.drop 1).foldl (fun t v => t.setIfInBounds v (s.settled t v)) s.rank } := by
  have hparent : ∀ v ∈ s.preorder.drop 1, ∃ l p, (s.place v).parent = some (l, p) := fun v hv =>
    have ⟨hlt, hne⟩ := h.mem_preorder_tail.mp hv
    h.parent v hlt hne
  have hfold : ∀ (order : List Nat) (t : Array Int),
      (∀ v ∈ order, ∃ l p, (s.place v).parent = some (l, p)) →
      order.foldl settleRank { s with rank := t } =
        { s with rank := order.foldl (fun t v => t.setIfInBounds v (s.settled t v)) t } := by
    intro order
    induction order with
    | nil => exact fun t _ => rfl
    | cons v order ih =>
      intro t horder
      obtain ⟨l, p, hp⟩ := horder v List.mem_cons_self
      rw [List.foldl_cons, List.foldl_cons, ← ih _ fun u hu => horder u (List.mem_cons_of_mem _ hu)]
      congr 1
      have hp' : (({ s with rank := t } : Simplex α).place v).parent = some (l, p) := hp
      simp only [settleRank, hp', settled, hp]
      rfl
  exact hfold _ s.rank hparent

/-- Ranks are settled from the root, whose rank stays, and all links of the tree become tight. -/
theorem settleRanks_tight (h : s.Hanging) (hw : s.Wired) :
    s.settleRanks.rankOf 0 = s.rankOf 0 ∧ s.settleRanks.Tight := by
  have hsame := (sameTree_settleRanks s).same
  obtain ⟨h0, hnodup⟩ := h.preorder_tail_nodup
  have heq := settleRanks_eq h
  generalize hT : (s.preorder.drop 1).foldl (fun t v => t.setIfInBounds v (s.settled t v)) s.rank =
    ranks at heq
  have hroot : ranks.getD 0 0 = s.rankOf 0 := by
    rw [← hT]
    exact Table.getD_foldl_set_of_not_mem (fun v => v) s.settled s.rank (by simpa using h0)
  have hsettled : ∀ v ∈ s.preorder.drop 1, ranks.getD v 0 = s.settled ranks v := by
    rw [← hT]
    refine Table.foldl_fill s.settled (fun v => ((s.place v).parent.map Prod.snd).toList)
      (fun t t' v ht => ?_) hnodup (fun v hv u hu huo => ?_) s.rank fun v hv =>
        (h.mem_preorder_tail.mp hv).1
    · cases hp : (s.place v).parent with
      | none => simp only [settled, hp]
      | some lp => simp only [settled, hp, ht lp.2 (by simp [hp])]
    · obtain ⟨hvlt, hv0⟩ := h.mem_preorder_tail.mp hv
      obtain ⟨l, p, hp⟩ := h.parent v hvlt hv0
      obtain rfl : u = p := by simpa [hp] using hu
      have hlt := h.preorder_lt v hvlt l _ hp
      rw [h.preorder_eq, List.idxOf_cons_ne _ (ne_of_mem_of_not_mem huo h0).symm,
        List.idxOf_cons_ne _ hv0.symm] at hlt
      omega
  refine ⟨?_, fun k hk => ?_⟩
  · rw [heq]
    exact hroot
  · have hk' : s.isTree k = true := by
      rw [heq] at hk
      exact hk
    obtain ⟨x, hx, q, hxq⟩ := h.above k hk'
    obtain ⟨-, hj, -⟩ := h.link x hx k q hxq
    have hne := hw.ends_ne k (hw.lt_of_isTree hk')
    have hr := hsettled x (h.mem_preorder_tail.mpr ⟨hx, h.ne_root hxq⟩)
    simp only [settled, hxq] at hr
    rw [slack, hsame.tail_eq, hsame.head_eq, hsame.minLength_eq, heq]
    change ranks.getD (s.head k) 0 - ranks.getD (s.tail k) 0 - s.minLength k = 0
    rcases hj with ⟨rfl, rfl⟩ | ⟨rfl, rfl⟩
    · rw [if_pos (beq_self_eq_true _)] at hr
      omega
    · rw [if_neg (by simpa using hne)] at hr
      omega

/-! ## The link that enters -/

/-- A link outside the tree crosses the split below `c` in the other direction than the tree link
`l` above `c`. -/
structure Enters (s : Simplex α) (c l k : Nat) : Prop where
  lt : k < s.links.size
  not_tree : s.isTree k = false
  tail : s.isBelow (s.tail k) c = !(s.tail l == c)
  head : s.isBelow (s.head k) c = (s.tail l == c)

section Entering

variable {c l p : Nat} (h : s.Hanging) (hw : s.Wired) (hc : c < s.size)
  (hp : (s.place c).parent = some (l, p))
include h hw hc hp

/-- The lower end of the link above a vertex is found by comparing the numbers of its ends. -/
theorem entering?_eq : s.entering? l = s.leastSlack? ((List.range s.links.size).filter fun k =>
    !s.isTree k && (!(s.tail l == c)) == s.isBelow (s.tail k) c &&
      (!(s.tail l == c)) != s.isBelow (s.head k) c) := by
  obtain ⟨htree, hj, hlim⟩ := h.link c hc l p hp
  have hne := hw.ends_ne l (hw.lt_of_isTree htree)
  unfold entering?
  rcases hj with ⟨rfl, rfl⟩ | ⟨rfl, rfl⟩
  · have hflip : ¬ (s.place (s.head l)).lim < (s.place (s.tail l)).lim := by omega
    simp [hflip]
  · have htail : (s.tail l == s.head l) = false := by simpa using hne
    simp [hlim, htail]

/-- The link that is found crosses the split the other way and has the least slack of all that
do. -/
theorem entering?_spec {e : Nat} (he : s.entering? l = some e) :
    s.Enters c l e ∧ ∀ k, s.Enters c l k → s.slack e ≤ s.slack k := by
  rw [entering?_eq h hw hc hp] at he
  obtain ⟨hmem, hleast⟩ := leastSlack?_spec he
  have hiff : ∀ k, k ∈ (List.range s.links.size).filter (fun k =>
      !s.isTree k && (!(s.tail l == c)) == s.isBelow (s.tail k) c &&
        (!(s.tail l == c)) != s.isBelow (s.head k) c) ↔ s.Enters c l k := by
    intro k
    simp only [List.mem_filter, List.mem_range, Bool.and_eq_true, beq_iff_eq, bne_iff_ne,
      Bool.not_eq_eq_eq_not]
    constructor
    · rintro ⟨hlt, ⟨hnot, htail⟩, hhead⟩
      refine ⟨hlt, hnot, ?_, ?_⟩
      · cases htl : s.tail l == c <;> simp_all
      · cases htl : s.tail l == c <;> simp_all
    · rintro ⟨hlt, hnot, htail, hhead⟩
      refine ⟨hlt, ⟨hnot, ?_⟩, ?_⟩
      · cases htl : s.tail l == c <;> simp_all
      · cases htl : s.tail l == c <;> simp_all
  exact ⟨(hiff e).mp hmem, fun k hk => hleast k ((hiff k).mpr hk)⟩

/-- A link is found if there is one that crosses the split the other way. -/
theorem exists_entering? {k : Nat} (hk : s.Enters c l k) : ∃ e, s.entering? l = some e := by
  rw [entering?_eq h hw hc hp]
  refine exists_leastSlack? (List.ne_nil_of_mem (a := k) ?_)
  obtain ⟨hlt, hnot, htail, hhead⟩ := hk
  simp only [List.mem_filter, List.mem_range, hlt, hnot, htail, hhead, true_and]
  cases htl : s.tail l == c <;> rfl

end Entering

/-! ## The exchanged tree -/

/-- The state in which one link of the tree was exchanged for another. -/
def swapTree (s : Simplex α) (l e : Nat) : Simplex α :=
  { s with inTree := (s.inTree.setIfInBounds l false).setIfInBounds e true }

theorem sameLinks_swapTree (s : Simplex α) (l e : Nat) : SameLinks s (s.swapTree l e) :=
  ⟨rfl, rfl, rfl, rfl, rfl, by simp [swapTree]⟩

/-- After the exchange the tree has the link that enters in place of the one that leaves. -/
theorem isTree_swapTree {l e : Nat} (he : e < s.inTree.size) (k : Nat) :
    (s.swapTree l e).isTree k = true ↔ k = e ∨ (k ≠ l ∧ s.isTree k = true) := by
  have hsize : (s.inTree.setIfInBounds l false).size = s.inTree.size := Array.size_setIfInBounds
  simp only [isTree, swapTree, Table.getD_set, hsize]
  by_cases hke : k = e
  · simp [hke, he]
  · by_cases hkl : k = l
    · subst hkl
      by_cases hk : k < s.inTree.size
      · simp [hke, hk]
      · simp [hke, hk, Table.getD_of_le _ _ (Nat.le_of_not_lt hk)]
    · simp [hke, hkl]

section SwapTree

variable (h : s.Hanging) (hw : s.Wired) {c l p e : Nat} (hc : c < s.size)
  (hp : (s.place c).parent = some (l, p)) (he : s.Enters c l e)
include h hw hc hp he

/-- What is not below `c` is still reached from the root, and what is below from `c`. -/
theorem reaches_swapTree : ∀ v < s.size, Relation.ReflTransGen (s.swapTree l e).TreeLinked
    (if s.isBelow v c then c else 0) v := by
  have htree := isTree_swapTree (s := s) (l := l) (hw.inTree_size.symm ▸ he.lt)
  refine h.induct hw ?_ fun v hv k q hq _ ih => ?_
  · rw [h.root_not_below hc hp]
    exact .refl
  · by_cases hvc : v = c
    · subst hvc
      rw [h.below_self hv]
      exact .refl
    · have hkl : k ≠ l := fun hkl => hvc (h.link_inj hw hv hc (hkl ▸ hq) hp)
      obtain ⟨hk, hj, -⟩ := h.link v hv k q hq
      rw [h.below_parent hv hq hc hvc]
      exact ih.tail ⟨k, (htree k).mpr (.inr ⟨hkl, hk⟩),
        (sameLinks_swapTree s l e).joins_eq ▸ hj.symm⟩

/-- The link that enters leads from one part into the other, so `c` is reached from the root. -/
theorem reaches_lower_swapTree :
    Relation.ReflTransGen (s.swapTree l e).TreeLinked 0 c := by
  obtain ⟨ht, hh⟩ := hw.ends_lt e he.lt
  have htree := isTree_swapTree (s := s) (l := l) (hw.inTree_size.symm ▸ he.lt)
  have hjoin : (s.swapTree l e).TreeLinked (s.tail e) (s.head e) :=
    ⟨e, (htree e).mpr (.inl rfl), (sameLinks_swapTree s l e).joins_eq ▸ .inl ⟨rfl, rfl⟩⟩
  have hsymm : ∀ u v, Relation.ReflTransGen (s.swapTree l e).TreeLinked u v →
      Relation.ReflTransGen (s.swapTree l e).TreeLinked v u := fun u v => Std.Symm.symm u v
  have hcross : s.isBelow (s.head e) c = !s.isBelow (s.tail e) c := by
    rw [he.tail, he.head]
    simp
  have hfromTail := reaches_swapTree h hw hc hp he _ ht
  have hfromHead := reaches_swapTree h hw hc hp he _ hh
  rw [hcross] at hfromHead
  cases hb : s.isBelow (s.tail e) c with
  | true =>
    rw [hb] at hfromTail hfromHead
    exact (hfromHead.tail hjoin.symm).trans (hsymm _ _ hfromTail)
  | false =>
    rw [hb] at hfromTail hfromHead
    exact (hfromTail.tail hjoin).trans (hsymm _ _ hfromHead)

/-- One link leaves the tree and another one enters it, so it has as many as before. -/
theorem card_treeLinks_swapTree : (s.swapTree l e).treeLinks.card = s.treeLinks.card := by
  have hsame := sameLinks_swapTree s l e
  have hl := hw.mem_treeLinks.mpr (h.link c hc l p hp).1
  have hlinks : (s.swapTree l e).treeLinks = insert e (s.treeLinks.erase l) := by
    ext k
    rw [(hsame.wired hw).mem_treeLinks, isTree_swapTree (hw.inTree_size.symm ▸ he.lt),
      Finset.mem_insert, Finset.mem_erase, hw.mem_treeLinks]
  have hnot : e ∉ s.treeLinks.erase l := by
    rw [Finset.mem_erase, hw.mem_treeLinks, he.not_tree]
    simp
  have hpos : 0 < s.treeLinks.card := Finset.card_pos.mpr ⟨l, hl⟩
  rw [hlinks, Finset.card_insert_of_notMem hnot, Finset.card_erase_of_mem hl,
    Nat.sub_add_cancel hpos]

/-- **Exchanging the link above `c` for one that crosses the split leaves a spanning tree.** What is
not below `c` is reached from the root as before and what is below from `c`, and the new link joins
the two parts. -/
theorem Spanning.swapTree (hs : s.Spanning) : (s.swapTree l e).Spanning := by
  have hsame := sameLinks_swapTree s l e
  refine ⟨fun v hv => ?_, ?_⟩
  · have hv' := reaches_swapTree h hw hc hp he v (hsame.size ▸ hv)
    split at hv'
    · exact (reaches_lower_swapTree h hw hc hp he).trans hv'
    · exact hv'
  · rw [card_treeLinks_swapTree h hw hc hp he, hsame.size]
    exact hs.count

end SwapTree

/-! ## The exchanged ranking -/

/-- By how much the vertices below `c` are moved when `e` replaces the link `l` above `c`. -/
def moveBy (s : Simplex α) (c l e : Nat) : Int := if s.tail l == c then -s.slack e else s.slack e

/-- The ranks after the vertices below `c` were moved. -/
def movedRank (s : Simplex α) (c : Nat) (amount : Int) (v : Nat) : Int :=
  s.rankOf v + if s.isBelow v c then amount else 0

/-- What holds of a state between two exchanges. -/
structure Sound (s : Simplex α) : Prop where
  wired : s.Wired
  spanning : s.Spanning
  numbered : s.Numbered
  feasible : s.Feasible
  tight : s.Tight

/-- In a sound state the places of the vertices say how they hang from the root. -/
theorem Sound.hanging (h : s.Sound) : s.Hanging := h.numbered.hanging h.wired h.spanning

/-- Soundness is a matter of the tree and the ranks. -/
theorem Sound.congr (h : s.Sound) (ht : SameTree s s') (hr : s'.rank = s.rank) : s'.Sound := by
  have hslack : ∀ k, s'.slack k = s.slack k := fun k => by
    rw [slack, ht.same.tail_eq, ht.same.head_eq, ht.same.minLength_eq, rankOf, rankOf, hr]
    rfl
  refine ⟨ht.same.wired h.wired, ht.spanning h.spanning, ht.numbered h.numbered,
    fun k hk => ?_, fun k hk => ?_⟩
  · rw [hslack]
    exact h.feasible k (ht.same.links ▸ hk)
  · rw [hslack]
    exact h.tight k (ht.isTree_eq ▸ hk)

/-- Numbering a tight spanning tree gives a sound state. -/
theorem numberTree_sound (hw : s.Wired) (hs : s.Spanning) (hf : s.Feasible) (ht : s.Tight) :
    s.numberTree.Sound := by
  have hsame := sameLinks_numberTree s
  have hslack : ∀ l, s.numberTree.slack l = s.slack l := fun l => by
    rw [slack, hsame.tail_eq, hsame.head_eq, hsame.minLength_eq]
    rfl
  exact ⟨hsame.wired hw, hs.congr hsame rfl, numberTree_numbered hw hs.pos,
    fun l hl => hslack l ▸ hf l hl, fun l hl => hslack l ▸ ht l hl⟩

section Moved

variable {c l p e : Nat} (h : s.Sound) (hc : c < s.size) (hp : (s.place c).parent = some (l, p))
  (he : s.Enters c l e)
include h hc hp he

/-- The moved ranks make the links of the exchanged tree tight. -/
theorem Sound.movedRank_tight : ∀ k, (s.swapTree l e).isTree k = true →
    s.movedRank c (s.moveBy c l e) (s.head k) - s.movedRank c (s.moveBy c l e) (s.tail k) =
      s.minLength k := by
  intro k hk
  rcases (isTree_swapTree (h.wired.inTree_size.symm ▸ he.lt) k).mp hk with rfl | ⟨hkl, hk⟩
  · rw [movedRank, movedRank, he.head, he.tail, moveBy, slack]
    cases s.tail l == c <;> simp <;> omega
  · have htight := h.tight k hk
    have hcross := h.hanging.crosses_iff h.wired hc hp hk (.inl ⟨rfl, rfl⟩)
    have hsame : s.isBelow (s.tail k) c = s.isBelow (s.head k) c := by
      by_contra hne
      exact hkl (hcross.mp hne)
    rw [slack] at htight
    rw [movedRank, movedRank, hsame]
    split <;> omega

/-- The moved ranks leave no link too short. A tree link that crosses the split is the one above
`c`, which gets longer; a link that crosses it the way `e` does has at least the slack of `e`; and
one that crosses it the other way only gets longer. -/
theorem Sound.movedRank_feasible (hleast : ∀ k, s.Enters c l k → s.slack e ≤ s.slack k) :
    ∀ k < s.links.size, s.minLength k ≤
      s.movedRank c (s.moveBy c l e) (s.head k) - s.movedRank c (s.moveBy c l e) (s.tail k) := by
  intro k hk
  have hpos := h.feasible k hk
  have hpose := h.feasible e he.lt
  -- a tree link that crosses the split is the one above `c`, which gets longer
  have htree : s.isTree k = true → s.isBelow (s.tail k) c ≠ s.isBelow (s.head k) c →
      s.isBelow (s.tail k) c = (s.tail l == c) := by
    intro hkt hne
    obtain rfl := (h.hanging.crosses_iff h.wired hc hp hkt (.inl ⟨rfl, rfl⟩)).mp hne
    obtain ⟨-, hj, -⟩ := h.hanging.link c hc k p hp
    have hends := h.wired.ends_ne k hk
    rcases hj with ⟨rfl, rfl⟩ | ⟨rfl, rfl⟩
    · rw [h.hanging.below_self hc, beq_self_eq_true]
    · rw [h.hanging.parent_not_below hc hp]
      simpa using hends
  have hway : s.isBelow (s.tail k) c = (!(s.tail l == c)) →
      s.isBelow (s.head k) c = (s.tail l == c) → s.slack e ≤ s.slack k := by
    intro htail hhead
    refine hleast k ⟨hk, ?_, htail, hhead⟩
    rw [Bool.eq_false_iff]
    intro hkt
    have := htree hkt (by rw [htail, hhead]; simp)
    rw [htail] at this
    simp at this
  have hslack : s.slack k = s.rankOf (s.head k) - s.rankOf (s.tail k) - s.minLength k := rfl
  rw [movedRank, movedRank, moveBy]
  cases hb : s.tail l == c <;> cases ht : s.isBelow (s.tail k) c <;>
    cases hh : s.isBelow (s.head k) c <;> simp only [hb, ht, hh, Bool.not_false, Bool.not_true,
      Bool.false_eq_true, Bool.true_eq_false, if_true, if_false, forall_const,
      false_implies] at hway ⊢ <;>
    omega

end Moved

/-- The state with the exchanged tree, its numbers and its ranks. -/
def retree (s : Simplex α) (l e : Nat) : Simplex α := (s.swapTree l e).numberTree.settleRanks

/-- **The exchanged tree gives a sound state.** Its ranks are those moved by the slack of the
entering link, since both rankings are tight on the new tree and agree at the root. -/
theorem Sound.retree (h : s.Sound) {c l p e : Nat} (hc : c < s.size)
    (hp : (s.place c).parent = some (l, p)) (he : s.entering? l = some e) :
    (s.retree l e).Sound ∧ SameLinks s (s.retree l e) ∧
      ∀ v < s.size, (s.retree l e).rankOf v = s.movedRank c (s.moveBy c l e) v := by
  obtain ⟨henters, hleast⟩ := entering?_spec h.hanging h.wired hc hp he
  have hswap := sameLinks_swapTree s l e
  have hnumber := hswap.trans (sameLinks_numberTree (s.swapTree l e))
  have hwired := hnumber.wired h.wired
  have hspanning : (s.swapTree l e).numberTree.Spanning :=
    (h.spanning.swapTree h.hanging h.wired hc hp henters).congr (sameLinks_numberTree _) rfl
  have hnumbered : (s.swapTree l e).numberTree.Numbered :=
    numberTree_numbered (hswap.wired h.wired) (hswap.size.symm ▸ h.spanning.pos)
  have hhanging := hnumbered.hanging hwired hspanning
  obtain ⟨hroot, htight⟩ := settleRanks_tight hhanging hwired
  have htree := sameTree_settleRanks (s.swapTree l e).numberTree
  have hsame := hnumber.trans htree.same
  -- both rankings are tight on the new tree and agree at the root
  have hranks : ∀ v < s.size, (s.retree l e).rankOf v = s.movedRank c (s.moveBy c l e) v := by
    refine fun v hv => hhanging.rank_unique hwired ?_ (fun k hk => ?_) (fun k hk => ?_) v
      (hnumber.size.symm ▸ hv)
    · rw [Simplex.retree, hroot, movedRank, h.hanging.root_not_below hc hp]
      exact (Int.add_zero _).symm
    · have := htight k (htree.isTree_eq ▸ hk)
      rw [slack, hsame.tail_eq, hsame.head_eq, hsame.minLength_eq] at this
      rw [Simplex.retree, hnumber.tail_eq, hnumber.head_eq, hnumber.minLength_eq]
      omega
    · rw [hnumber.tail_eq, hnumber.head_eq, hnumber.minLength_eq]
      exact h.movedRank_tight hc hp henters k hk
  have hfeasible : (s.retree l e).Feasible := by
    intro k hk
    rw [Simplex.retree, hsame.links] at hk
    obtain ⟨ht, hh⟩ := h.wired.ends_lt k hk
    have := h.movedRank_feasible hc hp henters hleast k hk
    rw [slack, Simplex.retree, hsame.tail_eq, hsame.head_eq, hsame.minLength_eq]
    rw [← Simplex.retree, hranks _ ht, hranks _ hh]
    omega
  exact ⟨⟨htree.same.wired hwired, htree.spanning hspanning, htree.numbered hnumbered, hfeasible,
    htight⟩, hsame, hranks⟩

section Exchange

variable [Scalar α]

theorem sameTree_setCut (s : Simplex α) (v : Nat) :
    SameTree s (s.setCut v) ∧ (s.setCut v).rank = s.rank := by
  unfold setCut
  split
  · exact ⟨.refl s, rfl⟩
  · exact ⟨⟨⟨rfl, rfl, rfl, rfl, Array.size_setIfInBounds, rfl⟩, rfl, rfl, rfl, rfl⟩, rfl⟩

/-- Computing cut values changes nothing else: the tree, its numbers and the ranking stay. -/
theorem sameTree_computeCuts (s : Simplex α) :
    SameTree s s.computeCuts ∧ s.computeCuts.rank = s.rank := by
  refine ⟨SameTree.foldl (fun s v => (sameTree_setCut s v).1) _ s, ?_⟩
  rw [computeCuts]
  induction s.postorder generalizing s with
  | nil => rfl
  | cons v order ih => exact (ih _).trans (sameTree_setCut s v).2

/-- Cut values are written beside the tree, so they do not touch the soundness of a state. -/
theorem Sound.computeCuts (h : s.Sound) : s.computeCuts.Sound :=
  h.congr (sameTree_computeCuts s).1 (sameTree_computeCuts s).2

/-- **An exchange keeps a sound state.** The links stay as they are, and the vertices below the link
that leaves move by the slack of the one that enters. -/
theorem Sound.exchange (h : s.Sound) {c l p e : Nat} (hc : c < s.size)
    (hp : (s.place c).parent = some (l, p)) (he : s.entering? l = some e) :
    (s.exchange l e).Sound ∧ SameLinks s (s.exchange l e) ∧
      ∀ v < s.size, (s.exchange l e).rankOf v = s.movedRank c (s.moveBy c l e) v := by
  obtain ⟨hsound, hsame, hranks⟩ := h.retree hc hp he
  obtain ⟨hcuts, hrank⟩ := sameTree_computeCuts (s.retree l e)
  refine ⟨hsound.computeCuts, hsame.trans hcuts.same, fun v hv => ?_⟩
  rw [← hranks v hv, rankOf, rankOf]
  exact congrArg (·.getD v 0) hrank

end Exchange

end Flowchart.Simplex
