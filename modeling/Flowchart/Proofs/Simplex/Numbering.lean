import Flowchart.Proofs.DepthFirst.Tree
import Flowchart.Proofs.Simplex.State

/-!
# The numbers of the tree

A spanning tree is numbered by a walk from the first vertex. `Hanging` says what the numbers are
good for, without mentioning the walk: every vertex but the root has a parent through a tree link,
every tree link is the one above some vertex, a vertex lies below another one if it is that one or
its parent lies below it, and the two orders list parents before and after their children.

That every tree link is above some vertex is a matter of counting: there are as many tree links as
vertices other than the root, and different vertices have different links above them.
-/

namespace Flowchart.Simplex

variable {α : Type} {s s' : Simplex α}

/-- The walk that numbers the tree. -/
def walk (s : Simplex α) : Walk := Walk.from_ s.size s.treeArcs 0

/-- The walk over the tree ends with an empty stack, keeps its record of starts, and has followed
every tree arc from what it finished. -/
theorem walk_spec (hpos : 0 < s.size) :
    Walk.Coherent s.size s.treeArcs s.walk ∧ Walk.Charted s.treeArcs s.walk ∧
      s.walk.stack = [] ∧ Walk.Rooted 0 s.walk ∧
      ∀ v ∈ s.walk.finished.toList, ∀ e ∈ s.treeArcs v, e.2 < s.size →
        e.2 ∈ s.walk.finished.toList :=
  Walk.from_charted s.treeArcs hpos

/-- The places are those of the walk of the tree. -/
structure Numbered (s : Simplex α) : Prop where
  place : ∀ st ∈ s.walk.starts.toList,
    s.place st.vertex = ⟨st.via, st.finishedBefore + 1, s.walk.time st.vertex + 1⟩
  postorder : s.postorder = s.walk.finished.toList
  preorder : s.preorder = s.walk.started

/-- Numbering the tree writes places only, so links, weights and ranks stay. -/
theorem sameLinks_numberTree (s : Simplex α) : SameLinks s s.numberTree := by
  refine ⟨rfl, rfl, rfl, ?_, rfl, rfl⟩
  exact (Table.size_foldl_set _ Start.vertex (fun _ st => _) _).trans Array.size_map

/-- A vertex that was finished has its position as finishing number. -/
theorem finishing_getD {l : List Nat} (hnodup : l.Nodup) (lims : Array Nat)
    (hlt : ∀ v ∈ l, v < lims.size) {v : Nat} (hv : v ∈ l) :
    (l.zipIdx.foldl (fun (lim : Array Nat) (v, i) => lim.setIfInBounds v (i + 1)) lims).getD v 0 =
      l.idxOf v + 1 := by
  have hmem : (v, l.idxOf v) ∈ l.zipIdx :=
    List.mk_mem_zipIdx_iff_getElem?.mpr (List.getElem?_idxOf hv)
  have hkeys : (l.zipIdx.map Prod.fst).Nodup := by
    rw [List.zipIdx_map_fst]
    exact hnodup
  exact Table.getD_foldl_set (d := 0) Prod.fst (fun x => x.2 + 1) hkeys lims hmem (hlt v hv)

/-- Numbering the tree gives it the numbers of the walk. -/
theorem numberTree_numbered (hw : s.Wired) (hpos : 0 < s.size) : s.numberTree.Numbered := by
  obtain ⟨hc, hcharted, he, -, -⟩ := walk_spec hpos
  have hfin : ∀ v ∈ s.walk.started, v ∈ s.walk.finished.toList := fun v hv =>
    ((hcharted.mem_iff v).mp hv).resolve_left (by simp [Walk.onStack, he])
  have hlt : ∀ v ∈ s.walk.finished.toList, v < s.places.size := fun v hv =>
    hw.places_size ▸ hc.finished_lt v hv
  refine ⟨fun st hst => ?_, rfl, rfl⟩
  have hv := hfin _ (Walk.mem_started hst)
  have hfinishing := finishing_getD hc.finished_nodup (s.places.map TreePlace.lim)
    (fun v hv => by simpa using hlt v hv) hv
  refine (Table.getD_foldl_set Start.vertex (fun st => _) hcharted.nodup _ hst
    (by simpa using hlt _ hv)).trans ?_
  exact congrArg (TreePlace.mk st.via (st.finishedBefore + 1)) hfinishing

/-! ## A numbered spanning tree -/

/-- The tree hangs from the first vertex, and the numbers tell what lies below what. -/
structure Hanging (s : Simplex α) : Prop where
  root : (s.place 0).parent = none
  /-- every other vertex has a parent -/
  parent : ∀ v < s.size, v ≠ 0 → ∃ l p, (s.place v).parent = some (l, p)
  /-- through a link of the tree, and the parent is finished later -/
  link : ∀ v < s.size, ∀ l p, (s.place v).parent = some (l, p) →
    s.isTree l = true ∧ s.Joins l v p ∧ (s.place v).lim < (s.place p).lim
  lim_le : ∀ v < s.size, (s.place v).lim ≤ s.size
  below_root : ∀ c < s.size, s.isBelow 0 c = true ↔ 0 = c
  below_iff : ∀ v < s.size, ∀ l p, (s.place v).parent = some (l, p) → ∀ c < s.size,
    (s.isBelow v c = true ↔ v = c ∨ s.isBelow p c = true)
  /-- every tree link is the one above some vertex -/
  above : ∀ l, s.isTree l = true → ∃ v < s.size, ∃ p, (s.place v).parent = some (l, p)
  preorder_head : s.preorder.head? = some 0
  preorder_nodup : s.preorder.Nodup
  mem_preorder : ∀ v, v ∈ s.preorder ↔ v < s.size
  preorder_lt : ∀ v < s.size, ∀ l p, (s.place v).parent = some (l, p) →
    s.preorder.idxOf p < s.preorder.idxOf v
  postorder_nodup : s.postorder.Nodup
  mem_postorder : ∀ v, v ∈ s.postorder ↔ v < s.size
  postorder_lt : ∀ v < s.size, ∀ l p, (s.place v).parent = some (l, p) →
    s.postorder.idxOf v < s.postorder.idxOf p

/-- The same tree with the same numbers over the same links. -/
structure SameTree (s s' : Simplex α) : Prop where
  same : SameLinks s s'
  inTree : s'.inTree = s.inTree
  places : s'.places = s.places
  preorder : s'.preorder = s.preorder
  postorder : s'.postorder = s.postorder

/-- Whether the tree spans depends on the links and on which of them belong to it. -/
theorem Spanning.congr (h : s.Spanning) (hs : SameLinks s s') (ht : s'.inTree = s.inTree) :
    s'.Spanning := by
  have htree : s'.isTree = s.isTree := by
    funext l
    rw [isTree, ht, isTree]
  have hlinked : s'.TreeLinked = s.TreeLinked := by
    funext u v
    rw [TreeLinked, htree, hs.joins_eq, TreeLinked]
  refine ⟨?_, ?_⟩
  · rw [hs.size, hlinked]
    exact h.connected
  · rw [treeLinks, hs.links, htree, hs.size]
    exact h.count

namespace SameTree

theorem refl (s : Simplex α) : SameTree s s := ⟨.refl s, rfl, rfl, rfl, rfl⟩

/-- Two steps that keep the tree keep it together. -/
theorem trans {s'' : Simplex α} (h : SameTree s s') (h' : SameTree s' s'') : SameTree s s'' :=
  ⟨h.same.trans h'.same, h'.inTree.trans h.inTree, h'.places.trans h.places,
    h'.preorder.trans h.preorder, h'.postorder.trans h.postorder⟩

/-- Steps that keep the tree keep it when they are repeated. -/
theorem foldl {γ : Type} {step : Simplex α → γ → Simplex α} (h : ∀ s x, SameTree s (step s x))
    (l : List γ) (s : Simplex α) : SameTree s (l.foldl step s) := by
  induction l generalizing s with
  | nil => exact refl s
  | cons x l ih => exact (h s x).trans (ih _)

theorem isTree_eq (h : SameTree s s') : s'.isTree = s.isTree := by
  funext l
  rw [isTree, h.inTree, isTree]

theorem place_eq (h : SameTree s s') : s'.place = s.place := by
  funext v
  rw [place, h.places, place]

theorem spanning (h : SameTree s s') (hs : s.Spanning) : s'.Spanning := hs.congr h.same h.inTree

/-- The numbers of the tree are part of it. -/
theorem numbered (h : SameTree s s') (hs : s.Numbered) : s'.Numbered := by
  have harcs : s'.treeArcs = s.treeArcs := by
    funext v
    rw [treeArcs, h.same.linksAt_eq, h.isTree_eq, h.same.other_eq, treeArcs]
  have hwalk : s'.walk = s.walk := by rw [walk, h.same.size, harcs, walk]
  refine ⟨?_, ?_, ?_⟩
  · rw [hwalk, h.place_eq]
    exact hs.place
  · rw [h.postorder, hwalk]
    exact hs.postorder
  · rw [h.preorder, hwalk]
    exact hs.preorder

end SameTree

/-- A spanning tree has a root, so the graph has a vertex. -/
theorem Spanning.pos (h : s.Spanning) : 0 < s.size := by
  have := h.count
  omega

/-- The walk of a spanning tree finishes every vertex. -/
theorem Spanning.mem_finished (h : s.Spanning) (hw : s.Wired) {v : Nat} (hv : v < s.size) :
    v ∈ s.walk.finished.toList := by
  obtain ⟨-, hcharted, he, ⟨rest, hroot, -⟩, hclosed⟩ := walk_spec h.pos
  have hreach : ∀ u, Relation.ReflTransGen s.TreeLinked 0 u → u ∈ s.walk.finished.toList := by
    intro u hu
    induction hu with
    | refl =>
      have h0 : 0 ∈ s.walk.started := by
        rw [Walk.started, hroot]
        exact List.mem_cons_self
      exact ((hcharted.mem_iff 0).mp h0).resolve_left (by simp [Walk.onStack, he])
    | tail _ hlink ih =>
      obtain ⟨l, hl, hj⟩ := hlink
      exact hclosed _ ih (l, _) (hw.mem_treeArcs.mpr ⟨hl, hj⟩)
        (hw.lt_of_joins (hw.lt_of_isTree hl) hj).2
  exact hreach v (h.connected v hv)

/-- Different vertices have different links above them, since otherwise each of the two would be the
parent of the other. -/
theorem parent_link_inj (hw : s.Wired) (hlink : ∀ v < s.size, ∀ l p,
      (s.place v).parent = some (l, p) →
        s.isTree l = true ∧ s.Joins l v p ∧ (s.place v).lim < (s.place p).lim)
    {u v l p q : Nat} (hu : u < s.size) (hv : v < s.size) (hup : (s.place u).parent = some (l, p))
    (hvq : (s.place v).parent = some (l, q)) : u = v := by
  obtain ⟨htree, hju, hltu⟩ := hlink u hu l p hup
  obtain ⟨-, hjv, hltv⟩ := hlink v hv l q hvq
  have hlt := hw.lt_of_isTree htree
  by_contra hne
  have hpv : p = v := by
    rcases hju with ⟨rfl, rfl⟩ | ⟨rfl, rfl⟩ <;> rcases hjv with ⟨h1, h2⟩ | ⟨h1, h2⟩ <;> simp_all
  have hqu : q = u := by
    rcases hju with ⟨rfl, rfl⟩ | ⟨rfl, rfl⟩ <;> rcases hjv with ⟨h1, h2⟩ | ⟨h1, h2⟩ <;> simp_all
  rw [hpv] at hltu
  rw [hqu] at hltv
  omega

/-- There are as many links above vertices as there are tree links, so every tree link is one of
them. -/
theorem exists_above (hw : s.Wired) (hs : s.Spanning)
    (hparent : ∀ v < s.size, v ≠ 0 → ∃ l p, (s.place v).parent = some (l, p))
    (hlink : ∀ v < s.size, ∀ l p, (s.place v).parent = some (l, p) →
      s.isTree l = true ∧ s.Joins l v p ∧ (s.place v).lim < (s.place p).lim)
    {l : Nat} (hl : s.isTree l = true) : ∃ v < s.size, ∃ p, (s.place v).parent = some (l, p) := by
  let linkAbove (v : Nat) : Nat := ((s.place v).parent.map Prod.fst).getD 0
  have hmem : ∀ v ∈ (Finset.range s.size).erase 0, ∃ k p, (s.place v).parent = some (k, p) ∧
      linkAbove v = k ∧ v < s.size := by
    intro v hv
    obtain ⟨hne, hv⟩ := Finset.mem_erase.mp hv
    rw [Finset.mem_range] at hv
    obtain ⟨k, p, hp⟩ := hparent v hv hne
    exact ⟨k, p, hp, by simp [linkAbove, hp], hv⟩
  have hinj : Set.InjOn linkAbove ((Finset.range s.size).erase 0) := by
    intro u hu v hv heq
    obtain ⟨k, p, hup, hku, hult⟩ := hmem u (Finset.mem_coe.mp hu)
    obtain ⟨k', q, hvq, hkv, hvlt⟩ := hmem v (Finset.mem_coe.mp hv)
    obtain rfl : k = k' := hku.symm.trans (heq.trans hkv)
    exact parent_link_inj hw hlink hult hvlt hup hvq
  have hsubset : ((Finset.range s.size).erase 0).image linkAbove ⊆ s.treeLinks := by
    intro k hk
    obtain ⟨v, hv, rfl⟩ := Finset.mem_image.mp hk
    obtain ⟨k, p, hp, hkv, hvlt⟩ := hmem v hv
    rw [hkv, hw.mem_treeLinks]
    exact (hlink v hvlt k p hp).1
  have himage : ((Finset.range s.size).erase 0).image linkAbove = s.treeLinks := by
    refine Finset.eq_of_subset_of_card_le hsubset ?_
    rw [Finset.card_image_of_injOn hinj, Finset.card_erase_of_mem (Finset.mem_range.mpr hs.pos),
      Finset.card_range]
    have := hs.count
    omega
  obtain ⟨v, hv, hvl⟩ := Finset.mem_image.mp (himage ▸ hw.mem_treeLinks.mpr hl)
  obtain ⟨k, p, hp, hkv, hvlt⟩ := hmem v hv
  obtain rfl : k = l := hkv.symm.trans hvl
  exact ⟨v, hvlt, p, hp⟩

section Hanging

variable (h : s.Numbered) (hw : s.Wired) (hs : s.Spanning) {v : Nat}

include hw hs

/-- The walk finishes exactly the vertices of the component. -/
theorem Spanning.finished_iff : v ∈ s.walk.finished.toList ↔ v < s.size :=
  ⟨(walk_spec hs.pos).1.finished_lt v, hs.mem_finished hw⟩

/-- The walk over a spanning tree has started exactly the vertices of the graph. -/
theorem Spanning.started_iff : v ∈ s.walk.started ↔ v < s.size := by
  obtain ⟨-, hcharted, he, -, -⟩ := walk_spec hs.pos
  rw [hcharted.mem_iff, ← hs.finished_iff hw]
  simp [Walk.onStack, he]

include h

/-- The place of a vertex says through which link the walk came to it, how many vertices had been
finished then, and when it was finished itself. -/
theorem Numbered.exists_start (hv : v < s.size) :
    ∃ st ∈ s.walk.starts.toList, st.vertex = v ∧
      s.place v = ⟨st.via, st.finishedBefore + 1, s.walk.time v + 1⟩ := by
  obtain ⟨st, hst, rfl⟩ := Walk.Charted.exists_start ((hs.started_iff hw).mpr hv)
  exact ⟨st, hst, rfl, h.place st hst⟩

/-- The numbers compare as the interval of the walk does. -/
theorem Numbered.isBelow_iff (hv : v < s.size) {c : Start} (hc : c ∈ s.walk.starts.toList) :
    s.isBelow v c.vertex = true ↔ s.walk.Within v c := by
  obtain ⟨st, -, -, hplace⟩ := h.exists_start hw hs hv
  rw [isBelow, h.place c hc, hplace]
  simp [Walk.Within]

/-- Every vertex but the first was started through an arc. -/
theorem Numbered.exists_parent (hv : v < s.size) (hne : v ≠ 0) :
    ∃ l p, (s.place v).parent = some (l, p) := by
  obtain ⟨-, -, -, ⟨rest, hroot, hvia⟩, -⟩ := walk_spec hs.pos
  obtain ⟨st, hst, rfl, hplace⟩ := h.exists_start hw hs hv
  rw [hroot] at hst
  rcases List.mem_cons.mp hst with rfl | hst
  · exact absurd rfl hne
  · obtain ⟨⟨l, p⟩, hlp⟩ := Option.isSome_iff_exists.mp (hvia st hst)
    exact ⟨l, p, by rw [hplace, hlp]⟩

/-- The parent of a vertex is a vertex that was entered before and finished after it. -/
theorem Numbered.parent (hv : v < s.size) {l p : Nat} (hp : (s.place v).parent = some (l, p)) :
    (s.isTree l = true ∧ s.Joins l v p) ∧ p < s.size ∧ s.walk.turn p < s.walk.turn v ∧
      s.walk.time v < s.walk.time p := by
  obtain ⟨-, hcharted, he, -, -⟩ := walk_spec hs.pos
  obtain ⟨st, hst, rfl, hplace⟩ := h.exists_start hw hs hv
  rw [hplace] at hp
  have hentered := hcharted.entered st hst l p hp
  obtain ⟨htree, hj⟩ := hw.mem_treeArcs.mp hentered.arc
  obtain ⟨t, ht, rfl⟩ := Walk.Charted.exists_start hentered.mem
  exact ⟨⟨htree, hj.symm⟩, (hs.started_iff hw).mp hentered.mem, hentered.turn_lt,
    (hcharted.parent he hst ht hp).2⟩

/-- The link above a vertex is a tree link to its parent, and the numbers grow along it. -/
theorem Numbered.link (hv : v < s.size) {l p : Nat} (hp : (s.place v).parent = some (l, p)) :
    s.isTree l = true ∧ s.Joins l v p ∧ (s.place v).lim < (s.place p).lim := by
  obtain ⟨⟨htree, hj⟩, hplt, -, htime⟩ := h.parent hw hs hv hp
  obtain ⟨_, -, -, hv'⟩ := h.exists_start hw hs hv
  obtain ⟨_, -, -, hp'⟩ := h.exists_start hw hs hplt
  refine ⟨htree, hj, ?_⟩
  rw [hv', hp']
  exact Nat.succ_lt_succ htime

/-- No number is larger than there are vertices. -/
theorem Numbered.lim_le (hv : v < s.size) : (s.place v).lim ≤ s.size := by
  obtain ⟨hc, -, -, -, -⟩ := walk_spec hs.pos
  obtain ⟨_, -, -, hplace⟩ := h.exists_start hw hs hv
  have hsub := hc.finished_nodup.subperm fun u hu => List.mem_range.mpr (hc.finished_lt u hu)
  have hlen : s.walk.finished.toList.length ≤ s.size := by simpa using hsub.length_le
  have htime := Walk.time_lt_iff.mpr ((hs.finished_iff hw).mpr hv)
  rw [hplace]
  exact Nat.succ_le_of_lt (htime.trans_le hlen)

/-- Below a vertex lies what is that vertex or has its parent below it. -/
theorem Numbered.below_iff (hv : v < s.size) {l p : Nat} (hp : (s.place v).parent = some (l, p))
    {c : Nat} (hc : c < s.size) : s.isBelow v c = true ↔ v = c ∨ s.isBelow p c = true := by
  obtain ⟨-, hcharted, he, -, -⟩ := walk_spec hs.pos
  obtain ⟨st, hst, rfl, hplace⟩ := h.exists_start hw hs hv
  obtain ⟨sc, hsc, rfl, -⟩ := h.exists_start hw hs hc
  have hplt := (h.parent hw hs hv hp).2.1
  rw [hplace] at hp
  rw [h.isBelow_iff hw hs hv hsc, h.isBelow_iff hw hs hplt hsc]
  exact hcharted.within_iff he hst hp hsc

/-- Only the root lies below no other vertex. The root was started first, so the interval of another
vertex starts later and does not take it in. -/
theorem Numbered.below_root {c : Nat} (hc : c < s.size) : s.isBelow 0 c = true ↔ 0 = c := by
  obtain ⟨-, hcharted, he, ⟨rest, hroot, -⟩, -⟩ := walk_spec hs.pos
  obtain ⟨st, hst, rfl, -⟩ := h.exists_start hw hs hc
  have hst0 : (⟨0, none, 0⟩ : Start) ∈ s.walk.starts.toList := hroot ▸ List.mem_cons_self
  have hturn0 : s.walk.turn 0 = 0 := by
    rw [Walk.turn, Walk.started, hroot, List.map_cons, List.idxOf_cons_self]
  rw [h.isBelow_iff hw hs hs.pos hst]
  constructor
  · rintro ⟨hbefore, hle⟩
    by_contra hne
    have hlt : s.walk.turn 0 < s.walk.turn st.vertex := by
      rw [hturn0]
      refine Nat.pos_of_ne_zero fun hz => hne ?_
      exact Walk.turn_inj (Walk.mem_started hst0) (hturn0.trans hz.symm)
    -- the root was started first, so the other interval starts later, or lies in that of the root
    rcases (hcharted.nested _ hst0 st hst hlt).2 with hends | hin
    · exact absurd hends (Nat.not_lt.mpr hbefore)
    · exact hne (hcharted.time_injective he (Walk.mem_started hst0) (hle.antisymm hin))
  · intro heq
    obtain rfl := hcharted.start_unique hst0 hst heq
    exact ⟨Nat.zero_le _, Nat.le_refl _⟩

/-- **A numbered spanning tree hangs from the first vertex.** -/
theorem Numbered.hanging : s.Hanging := by
  obtain ⟨hc, hcharted, he, ⟨rest, hroot, -⟩, -⟩ := walk_spec hs.pos
  have hparent : ∀ v < s.size, v ≠ 0 → ∃ l p, (s.place v).parent = some (l, p) :=
    fun v hv hne => h.exists_parent hw hs hv hne
  have hlink : ∀ v < s.size, ∀ l p, (s.place v).parent = some (l, p) →
      s.isTree l = true ∧ s.Joins l v p ∧ (s.place v).lim < (s.place p).lim :=
    fun v hv l p hp => h.link hw hs hv hp
  refine ⟨?_, hparent, hlink, fun v hv => h.lim_le hw hs hv, fun c hc => h.below_root hw hs hc,
    fun v hv l p hp c hc => h.below_iff hw hs hv hp hc,
    fun l hl => exists_above hw hs hparent hlink hl, ?_, ?_, fun v => ?_, fun v hv l p hp => ?_,
    ?_, fun v => ?_, fun v hv l p hp => ?_⟩
  · rw [h.place ⟨0, none, 0⟩ (hroot ▸ List.mem_cons_self)]
  · rw [h.preorder, Walk.started, hroot, List.map_cons, List.head?_cons]
  · exact h.preorder ▸ hcharted.nodup
  · rw [h.preorder, hs.started_iff hw]
  · rw [h.preorder]
    exact (h.parent hw hs hv hp).2.2.1
  · exact h.postorder ▸ hc.finished_nodup
  · rw [h.postorder, hs.finished_iff hw]
  · rw [h.postorder]
    exact (h.parent hw hs hv hp).2.2.2

end Hanging

end Flowchart.Simplex
