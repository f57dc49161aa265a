import Flowchart.Proofs.Simplex.State

/-!
# The first tree

The first tree grows from one vertex. As long as tight links lead out of it their far ends are
taken in; when none does, the ranks of all its members are shifted by the least slack of a link
that leaves it, which makes this link tight and no link too short. Every round takes in one more
vertex, so when the rounds are used up the tree spans the component.

`Growing` is what holds of a tree on part of the vertices; `feasibleTree_spanning` is the outcome.
-/

namespace Flowchart.Simplex

open Table

variable {α : Type} {s s' : Simplex α} {members members' : Array Bool}

/-! ## A tree on part of the vertices -/

/-- A tree of tight links on the members of a vertex set. -/
structure Growing (s : Simplex α) (members : Array Bool) : Prop where
  wired : s.Wired
  size : members.size = s.size
  root : members.getD 0 false = true
  feasible : s.Feasible
  tight : s.Tight
  /-- tree links join members -/
  inside : ∀ l, s.isTree l = true →
    members.getD (s.tail l) false = true ∧ members.getD (s.head l) false = true
  /-- tree links reach all members -/
  reached : ∀ v, members.getD v false = true → Relation.ReflTransGen s.TreeLinked 0 v
  count : s.treeLinks.card + 1 = (memberSet members).card

/-- The state with one more link in the tree. -/
def addLink (s : Simplex α) (l : Nat) : Simplex α :=
  { s with inTree := s.inTree.setIfInBounds l true }

theorem sameLinks_addLink (s : Simplex α) (l : Nat) : SameLinks s (s.addLink l) :=
  ⟨rfl, rfl, rfl, rfl, rfl, Array.size_setIfInBounds⟩

theorem isTree_addLink {l : Nat} (hl : l < s.inTree.size) (k : Nat) :
    (s.addLink l).isTree k = true ↔ k = l ∨ s.isTree k = true := by
  simp only [isTree, addLink, Table.getD_set, hl, and_true]
  by_cases hk : k = l <;> simp [hk]

/-- The far end of a tight link may be taken in. The link is new to the tree, because its far end
is. -/
theorem Growing.addLink (h : Growing s members) {l u v : Nat} (hl : l < s.links.size)
    (hj : s.Joins l v u) (hv : members.getD v false = true) (hu : members.getD u false = false)
    (hslack : s.slack l = 0) : Growing (s.addLink l) (members.setIfInBounds u true) := by
  have hsame := sameLinks_addLink s l
  have hwired := hsame.wired h.wired
  have hult : u < members.size := h.size ▸ (h.wired.lt_of_joins hl hj).2
  have htree := isTree_addLink (s := s) (h.wired.inTree_size ▸ hl)
  have hmem : ∀ x, (members.setIfInBounds u true).getD x false = true ↔
      x = u ∨ members.getD x false = true := by
    intro x
    rw [Table.getD_set]
    by_cases hx : x = u <;> simp [hx, hult]
  have hlinked : ∀ x y, s.TreeLinked x y → (s.addLink l).TreeLinked x y := fun x y ⟨k, hk, hkj⟩ =>
    ⟨k, (htree k).mpr (.inr hk), hsame.joins_eq ▸ hkj⟩
  have hnot : s.isTree l ≠ true := by
    intro htl
    obtain ⟨hta, hhe⟩ := h.inside l htl
    rcases hj with ⟨-, rfl⟩ | ⟨rfl, -⟩
    · rw [hu] at hhe
      cases hhe
    · rw [hu] at hta
      cases hta
  refine ⟨hwired, by rw [Array.size_setIfInBounds]; exact h.size, (hmem 0).mpr (.inr h.root),
    h.feasible, fun k hk => ?_, fun k hk => ?_, fun x hx => ?_, ?_⟩
  · rcases (htree k).mp hk with rfl | hk
    · exact hslack
    · exact h.tight k hk
  · rw [hsame.tail_eq, hsame.head_eq, hmem, hmem]
    rcases (htree k).mp hk with rfl | hk
    · rcases hj with ⟨rfl, rfl⟩ | ⟨rfl, rfl⟩
      · exact ⟨.inr hv, .inl rfl⟩
      · exact ⟨.inl rfl, .inr hv⟩
    · exact ⟨.inr (h.inside k hk).1, .inr (h.inside k hk).2⟩
  · rcases (hmem x).mp hx with rfl | hx
    · exact (Relation.ReflTransGen.mono hlinked _ _ (h.reached v hv)).tail
        ⟨l, (htree l).mpr (.inl rfl), hsame.joins_eq ▸ hj⟩
    · exact Relation.ReflTransGen.mono hlinked _ _ (h.reached x hx)
  · have hlinks : (s.addLink l).treeLinks = insert l s.treeLinks := by
      ext k
      rw [hwired.mem_treeLinks, Finset.mem_insert, h.wired.mem_treeLinks, htree]
    rw [hlinks, memberSet_set hult, Finset.card_insert_of_notMem (by rwa [h.wired.mem_treeLinks]),
      Finset.card_insert_of_notMem (by rw [mem_memberSet, hu]; exact Bool.false_ne_true), h.count]

/-! ## Growing along tight links -/

/-- The tree has grown, by the vertices listed as new. -/
structure Grown (s : Simplex α) (members : Array Bool) (s' : Simplex α) (members' : Array Bool)
    (new : List Nat) : Prop where
  growing : Growing s' members'
  same : SameLinks s s'
  rank : s'.rank = s.rank
  mem_iff : ∀ v, members'.getD v false = true ↔ v ∈ new ∨ members.getD v false = true
  card : (memberSet members').card = new.length + (memberSet members).card

theorem Grown.refl (h : Growing s members) : Grown s members s members [] :=
  ⟨h, .refl s, rfl, fun v => by simp, by simp⟩

theorem Grown.trans {s'' : Simplex α} {members'' : Array Bool} {new new' : List Nat}
    (h : Grown s members s' members' new) (h' : Grown s' members' s'' members'' new') :
    Grown s members s'' members'' (new' ++ new) := by
  refine ⟨h'.growing, h.same.trans h'.same, h'.rank.trans h.rank, fun v => ?_, ?_⟩
  · rw [h'.mem_iff, h.mem_iff, List.mem_append, or_assoc]
  · rw [h'.card, h.card, List.length_append, Nat.add_assoc]

theorem Grown.slack_eq {new : List Nat} (h : Grown s members s' members' new) (l : Nat) :
    s'.slack l = s.slack l := by
  rw [slack, h.same.tail_eq, h.same.head_eq, h.same.minLength_eq, rankOf, rankOf, h.rank]
  rfl

theorem absorb_cons {v l : Nat} {ls stack : List Nat} (hlt : s.other l v < members.size) :
    absorb v (l :: ls) (s, members, stack) =
      if members.getD (s.other l v) false = false ∧ s.slack l = 0 then
        absorb v ls (s.addLink l, members.setIfInBounds (s.other l v) true, s.other l v :: stack)
      else absorb v ls (s, members, stack) := by
  have hdefault : members.getD (s.other l v) true = members.getD (s.other l v) false := by
    simp [Array.getD, hlt]
  rw [absorb]
  simp only [hdefault, Bool.and_eq_true, Bool.not_eq_true', beq_iff_eq]
  rfl

/-- Looking at the links of a member takes in the far ends of all tight ones. -/
theorem absorb_grown (v : Nat) (ls : List Nat) (h : Growing s members)
    (hv : members.getD v false = true) (hls : ∀ l ∈ ls, l ∈ s.linksAt v) (stack : List Nat) :
    ∃ new, Grown s members (absorb v ls (s, members, stack)).1
        (absorb v ls (s, members, stack)).2.1 new ∧
      (absorb v ls (s, members, stack)).2.2 = new ++ stack ∧
      ∀ l ∈ ls, s.slack l = 0 →
        (absorb v ls (s, members, stack)).2.1.getD (s.other l v) false = true := by
  induction ls generalizing s members stack with
  | nil => exact ⟨[], .refl h, rfl, nofun⟩
  | cons l ls ih =>
    obtain ⟨hl, hj⟩ := h.wired.mem_linksAt_iff.mp (hls l List.mem_cons_self)
    have hlt : s.other l v < members.size := h.size ▸ (h.wired.lt_of_joins hl hj).2
    rw [absorb_cons hlt]
    by_cases hcond : members.getD (s.other l v) false = false ∧ s.slack l = 0
    · rw [if_pos hcond]
      obtain ⟨hu, hslack⟩ := hcond
      have hstep : Grown s members (s.addLink l) (members.setIfInBounds (s.other l v) true)
          [s.other l v] := by
        refine ⟨h.addLink hl hj hv hu hslack, sameLinks_addLink s l, rfl, fun x => ?_, ?_⟩
        · rw [Table.getD_set, List.mem_singleton]
          by_cases hx : x = s.other l v <;> simp [hx, hlt]
        · rw [memberSet_set hlt, Finset.card_insert_of_notMem
            (by rw [mem_memberSet, hu]; exact Bool.false_ne_true)]
          simp [Nat.add_comm]
      have hv' := (hstep.mem_iff v).mpr (.inr hv)
      obtain ⟨new, hgrown, hstack, htaken⟩ := ih hstep.growing hv'
        (fun k hk => hls k (List.mem_cons_of_mem _ hk)) (s.other l v :: stack)
      refine ⟨new ++ [s.other l v], hstep.trans hgrown, ?_, fun k hk hsk => ?_⟩
      · rw [hstack, List.append_assoc]
        rfl
      · rcases List.mem_cons.mp hk with rfl | hk
        · exact (hgrown.mem_iff _).mpr
            (.inr ((hstep.mem_iff _).mpr (.inl (List.mem_singleton_self _))))
        · exact htaken k hk hsk
    · rw [if_neg hcond]
      obtain ⟨new, hgrown, hstack, htaken⟩ := ih h hv
        (fun k hk => hls k (List.mem_cons_of_mem _ hk)) stack
      refine ⟨new, hgrown, hstack, fun k hk hsk => ?_⟩
      rcases List.mem_cons.mp hk with rfl | hk
      · refine (hgrown.mem_iff _).mpr (.inr ?_)
        simpa only [hsk, and_true, Bool.not_eq_false] using hcond
      · exact htaken k hk hsk

/-- The vertices on the stack are looked at one after the other, however long that takes, and with
them the vertices that this takes in. -/
inductive LookedAt : Simplex α × Array Bool × List Nat → Simplex α × Array Bool → Prop
  /-- nothing is left to look at -/
  | done (s : Simplex α) (members : Array Bool) : LookedAt (s, members, []) (s, members)
  /-- the next vertex is looked at -/
  | next {s : Simplex α} {members : Array Bool} {v : Nat} {stack : List Nat}
      {result : Simplex α × Array Bool}
      (h : LookedAt (absorb v (s.linksAt v) (s, members, stack)) result) :
      LookedAt (s, members, v :: stack) result

/-- Tight links of members that are not on the stack lead to members. -/
def Closed (s : Simplex α) (members : Array Bool) (stack : List Nat) : Prop :=
  ∀ v, members.getD v false = true → v ∉ stack → ∀ l ∈ s.linksAt v, s.slack l = 0 →
    members.getD (s.other l v) false = true

/-- With enough fuel the whole stack is looked at, and everything is taken in that tight links
connect with it. A member that is not on the stack any more has nothing left to take in. -/
theorem growTight_grown (fuel : Nat) (stack : List Nat) (h : Growing s members)
    (hstack : ∀ v ∈ stack, members.getD v false = true) (hclosed : Closed s members stack)
    (hfuel : stack.length + s.size < fuel + (memberSet members).card) :
    ∃ new, Grown s members (growTight fuel (s, members, stack)).1
        (growTight fuel (s, members, stack)).2 new ∧
      Closed (growTight fuel (s, members, stack)).1 (growTight fuel (s, members, stack)).2 [] ∧
      LookedAt (s, members, stack) (growTight fuel (s, members, stack)) := by
  induction fuel generalizing s members stack with
  | zero =>
    have := card_memberSet_le members
    rw [h.size] at this
    omega
  | succ fuel ih =>
    cases stack with
    | nil => exact ⟨[], .refl h, hclosed, .done s members⟩
    | cons v stack =>
      obtain ⟨new, hgrown, hnew, htaken⟩ := absorb_grown v (s.linksAt v) h
        (hstack v List.mem_cons_self) (fun _ hl => hl) stack
      rw [growTight]
      obtain ⟨⟨s', members', stack'⟩, hres⟩ :
          ∃ res, absorb v (s.linksAt v) (s, members, stack) = res := ⟨_, rfl⟩
      rw [hres] at hgrown hnew htaken ⊢
      subst hnew
      have hcard := hgrown.card
      have hmem := hgrown.mem_iff
      have hstack' : ∀ x ∈ new ++ stack, members'.getD x false = true := by
        intro x hx
        rcases List.mem_append.mp hx with hx | hx
        · exact (hmem x).mpr (.inl hx)
        · exact (hmem x).mpr (.inr (hstack x (List.mem_cons_of_mem _ hx)))
      -- a member that is not on the stack any more has nothing left to take in
      have hclosed' : Closed s' members' (new ++ stack) := by
        intro x hx hnot l hl hslack
        rw [hgrown.same.linksAt_eq] at hl
        rw [hgrown.slack_eq] at hslack
        rw [hgrown.same.other_eq]
        rw [List.mem_append, not_or] at hnot
        by_cases hxv : x = v
        · subst hxv
          exact htaken l hl hslack
        · have hold := ((hmem x).mp hx).resolve_left hnot.1
          exact (hmem _).mpr (.inr (hclosed x hold (by simp [hxv, hnot.2]) l hl hslack))
      have hfuel' : (new ++ stack).length + s'.size < fuel + (memberSet members').card := by
        rw [hgrown.same.size, hcard]
        simp only [List.length_cons, List.length_append] at hfuel ⊢
        omega
      obtain ⟨new', hgrown', hend, hlooked⟩ :=
        ih (new ++ stack) hgrown.growing hstack' hclosed' hfuel'
      exact ⟨new' ++ new, hgrown.trans hgrown', hend, .next (hres ▸ hlooked)⟩

/-! ## Shifting the tree -/

theorem sameLinks_shift (s : Simplex α) (members : Array Bool) (amount : Int) :
    SameLinks s (s.shift members amount) :=
  ⟨rfl, rfl, Array.size_mapIdx, rfl, rfl, rfl⟩

theorem rankOf_shift (hsize : members.size = s.size) (amount : Int) (v : Nat) :
    (s.shift members amount).rankOf v =
      if members.getD v false = true then s.rankOf v + amount else s.rankOf v := by
  by_cases hv : v < s.rank.size
  · have hget : (s.shift members amount).rank[v]? = some
        (if members.getD v false then s.rank[v] + amount else s.rank[v]) := by
      simp [shift, hv]
    simp [rankOf, Array.getD_eq_getD_getElem?, hget, hv]
  · have hnot : members.getD v false = false :=
      Table.getD_of_le _ _ (hsize ▸ Nat.le_of_not_lt hv)
    simp [rankOf, shift, Array.getD_eq_getD_getElem?, hv, hnot]

theorem mem_crossing {l : Nat} : l ∈ s.crossing members ↔ l < s.links.size ∧
    members.getD (s.tail l) false ≠ members.getD (s.head l) false := by
  simp only [crossing, List.mem_filter, List.mem_range, bne_iff_ne]

/-- By how much the tree has to be shifted to make a link tight that crosses its border. -/
def shiftBy (s : Simplex α) (members : Array Bool) (l : Nat) : Int :=
  if members.getD (s.tail l) false then s.slack l else -s.slack l

/-- Shifting the tree by the least slack at its border keeps it, since every link across the border
has at least that slack, and makes the link with it tight. -/
theorem Growing.shift (h : Growing s members) {l : Nat}
    (hl : s.leastSlack? (s.crossing members) = some l) :
    Growing (s.shift members (s.shiftBy members l)) members ∧
      (s.shift members (s.shiftBy members l)).slack l = 0 := by
  have hsame := sameLinks_shift s members (s.shiftBy members l)
  obtain ⟨hmem, hleast⟩ := leastSlack?_spec hl
  obtain ⟨hlt, hcross⟩ := mem_crossing.mp hmem
  have hpos := h.feasible l hlt
  have hrank := rankOf_shift h.size (s.shiftBy members l)
  have hslack : ∀ k, (s.shift members (s.shiftBy members l)).slack k = s.slack k +
      (if members.getD (s.head k) false = true then s.shiftBy members l else 0) -
      (if members.getD (s.tail k) false = true then s.shiftBy members l else 0) := by
    intro k
    rw [slack, slack, hsame.tail_eq, hsame.head_eq, hsame.minLength_eq, hrank, hrank]
    split <;> split <;> omega
  have hborder : ∀ k < s.links.size,
      members.getD (s.tail k) false ≠ members.getD (s.head k) false → s.slack l ≤ s.slack k :=
    fun k hk hne => hleast k (mem_crossing.mpr ⟨hk, hne⟩)
  have hfeasible : (s.shift members (s.shiftBy members l)).Feasible := by
    intro k (hk : k < s.links.size)
    have hposk := h.feasible k hk
    have hbk := hborder k hk
    rw [hslack, shiftBy]
    cases ht : members.getD (s.tail k) false <;> cases hh : members.getD (s.head k) false <;>
      cases htl : members.getD (s.tail l) false <;> simp_all <;> omega
  refine ⟨⟨hsame.wired h.wired, h.size.trans hsame.size.symm, h.root, hfeasible, fun k hk => ?_,
    h.inside, h.reached, h.count⟩, ?_⟩
  · obtain ⟨ht, hh⟩ := h.inside k hk
    rw [hslack, ht, hh, if_pos rfl, h.tight k hk]
    omega
  · rw [hslack, shiftBy]
    cases ht : members.getD (s.tail l) false <;> cases hh : members.getD (s.head l) false
    · exact absurd (ht.trans hh.symm) hcross
    · simp
    · simp
    · exact absurd (ht.trans hh.symm) hcross

/-! ## The whole tree -/

/-- A link joins two vertices. -/
def Linked (s : Simplex α) (u v : Nat) : Prop := ∃ l < s.links.size, s.Joins l u v

/-- Links connect all vertices. -/
def Connected (s : Simplex α) : Prop := ∀ v < s.size, Relation.ReflTransGen s.Linked 0 v

theorem SameLinks.connected (h : SameLinks s s') (hs : s.Connected) : s'.Connected := by
  have hlinked : s'.Linked = s.Linked := by
    funext u v
    rw [Linked, h.links, h.joins_eq, Linked]
  unfold Connected
  rw [h.size, hlinked]
  exact hs

/-- A tree without links across its border has all vertices as members. -/
theorem Growing.full (h : Growing s members) (hs : s.Connected)
    (hcross : ∀ l < s.links.size,
      members.getD (s.tail l) false = members.getD (s.head l) false) :
    ∀ v < s.size, members.getD v false = true := by
  intro v hv
  have hreach : ∀ u, Relation.ReflTransGen s.Linked 0 u → members.getD u false = true := by
    intro u hu
    induction hu with
    | refl => exact h.root
    | tail _ hlink ih =>
      obtain ⟨l, hl, hj⟩ := hlink
      rcases hj with ⟨rfl, rfl⟩ | ⟨rfl, rfl⟩
      · exact (hcross l hl).symm.trans ih
      · exact (hcross l hl).trans ih
  exact hreach v (hs v hv)

theorem Growing.spanning (h : Growing s members)
    (hfull : ∀ v < s.size, members.getD v false = true) : s.Spanning := by
  refine ⟨fun v hv => h.reached v (hfull v hv), h.count.trans ?_⟩
  have hall : memberSet members = Finset.range s.size := by
    ext v
    rw [mem_memberSet, Finset.mem_range]
    exact ⟨fun hv => h.size ▸ lt_of_member hv, hfull v⟩
  rw [hall, Finset.card_range]

/-- Some tight link crosses the border of the tree. -/
def Stretchable (s : Simplex α) (members : Array Bool) : Prop :=
  ∃ l ∈ s.crossing members, s.slack l = 0

/-- If the tight links of all members lead to members, no tight link crosses the border, so the tree
is not stretchable. -/
theorem Closed.not_stretchable (hw : s.Wired) (h : Closed s members []) :
    ¬ Stretchable s members := by
  rintro ⟨l, hl, hslack⟩
  obtain ⟨hlt, hcross⟩ := mem_crossing.mp hl
  have htail : l ∈ s.linksAt (s.tail l) := (hw.mem_linksAt _ l).mpr ⟨hlt, .inl rfl⟩
  have hhead : l ∈ s.linksAt (s.head l) := (hw.mem_linksAt _ l).mpr ⟨hlt, .inr rfl⟩
  have hto := hw.other_eq hlt (.inl ⟨rfl, rfl⟩ : s.Joins l (s.tail l) (s.head l))
  have hho := hw.other_eq hlt (.inr ⟨rfl, rfl⟩ : s.Joins l (s.head l) (s.tail l))
  cases ht : members.getD (s.tail l) false <;> cases hh : members.getD (s.head l) false
  · exact hcross (ht.trans hh.symm)
  · have := h _ hh List.not_mem_nil l hhead hslack
    rw [hho, ht] at this
    cases this
  · have := h _ ht List.not_mem_nil l htail hslack
    rw [hto, hh] at this
    cases this
  · exact hcross (ht.trans hh.symm)

theorem mem_membersDown {v : Nat} : v ∈ membersDown members ↔ members.getD v false = true := by
  simp only [membersDown, List.mem_reverse, List.mem_filter, List.mem_range, and_iff_right_iff_imp]
  exact lt_of_member

theorem length_membersDown : (membersDown members).length = (memberSet members).card := by
  have hset : memberSet members = (membersDown members).toFinset := by
    ext v
    rw [mem_memberSet, List.mem_toFinset, mem_membersDown]
  rw [hset, List.toFinset_card_of_nodup]
  exact List.nodup_reverse.mpr (List.nodup_range.filter _)

/-- The outcome of growing: a feasible ranking with a spanning tree of tight links over the links
that were given. -/
structure Grounded (s s' : Simplex α) : Prop where
  same : SameLinks s s'
  feasible : s'.Feasible
  tight : s'.Tight
  spanning : s'.Spanning

theorem Grounded.of_grown {new : List Nat} (h : Grown s members s' members' new)
    (hfull : ∀ v < s'.size, members'.getD v false = true) : Grounded s s' :=
  ⟨h.same, h.growing.feasible, h.growing.tight, h.growing.spanning hfull⟩

/-- A tree with as many members as there are vertices has no border. -/
theorem Growing.not_stretchable (h : Growing s members)
    (hcard : s.size ≤ (memberSet members).card) : ¬ Stretchable s members := by
  have hall : memberSet members = Finset.range members.size :=
    Finset.eq_of_subset_of_card_le (Finset.filter_subset _ _)
      (by rw [Finset.card_range, h.size]; exact hcard)
  have hfull : ∀ v < s.size, members.getD v false = true := fun v hv => by
    rw [← mem_memberSet, hall, Finset.mem_range, h.size]
    exact hv
  rintro ⟨l, hl, -⟩
  obtain ⟨hlt, hcross⟩ := mem_crossing.mp hl
  obtain ⟨ht, hh⟩ := h.wired.ends_lt l hlt
  exact hcross ((hfull _ ht).trans (hfull _ hh).symm)

/-- A tree that some tight link leaves grows until it is closed. -/
theorem Grown.stretched {new : List Nat} (h : Grown s members s' members' new)
    (hclosed : Closed s' members' []) (hs : Stretchable s members) : new ≠ [] := by
  rintro rfl
  have hsame : ∀ v, members'.getD v false = members.getD v false := fun v =>
    Bool.eq_iff_iff.mpr ((h.mem_iff v).trans (by simp))
  obtain ⟨l, hl, hslack⟩ := hs
  obtain ⟨hlt, hcross⟩ := mem_crossing.mp hl
  refine hclosed.not_stretchable h.growing.wired ⟨l, mem_crossing.mpr ⟨?_, ?_⟩, ?_⟩
  · rw [h.same.links]
    exact hlt
  · rw [h.same.tail_eq, h.same.head_eq, hsame, hsame]
    exact hcross
  · rw [h.slack_eq, hslack]

/-- The rounds in which a tree grows, however many there are. A round looks at everything that tight
links connect with the tree. It is the last one if that takes in all vertices, or if no link leaves
the tree; otherwise the tree is shifted. -/
inductive Rounds : Nat → Simplex α → Array Bool → Simplex α → Prop
  /-- all vertices are members -/
  | full {s s' : Simplex α} {members members' : Array Bool}
      (h : LookedAt (s, members, membersDown members) (s', members'))
      (hfull : members'.all id = true) : Rounds 1 s members s'
  /-- no link leaves the tree -/
  | cutOff {s s' : Simplex α} {members members' : Array Bool}
      (h : LookedAt (s, members, membersDown members) (s', members'))
      (hfull : members'.all id ≠ true)
      (hl : s'.leastSlack? (s'.crossing members') = none) : Rounds 1 s members s'
  /-- another round follows -/
  | shifted {s s' s'' : Simplex α} {members members' : Array Bool} {l n : Nat}
      (h : LookedAt (s, members, membersDown members) (s', members'))
      (hfull : members'.all id ≠ true)
      (hl : s'.leastSlack? (s'.crossing members') = some l)
      (hrest : Rounds n (s'.shift members' (s'.shiftBy members' l)) members' s'') :
      Rounds (n + 1) s members s''

/-- A tree that has taken in all vertices is spanning. -/
theorem Grounded.of_all {new : List Nat} (h : Grown s members s' members' new)
    (hall : members'.all id = true) : Grounded s s' :=
  .of_grown h fun v hv => by
    have hv' : v < members'.size := h.growing.size ▸ hv
    simpa [Array.getD, hv'] using Array.all_eq_true.mp hall v hv'

/-- If no link leaves the tree, it has all vertices, for otherwise there would be a link with the
least slack at its border. -/
theorem Grounded.of_cutOff {new : List Nat} (h : Grown s members s' members' new)
    (hs : s.Connected) (hl : s'.leastSlack? (s'.crossing members') = none) : Grounded s s' :=
  .of_grown h <| h.growing.full (h.same.connected hs) fun k hk => by
    by_contra hne
    have hmem : k ∈ s'.crossing members' := mem_crossing.mpr ⟨hk, hne⟩
    obtain ⟨l, hl'⟩ := exists_leastSlack? (List.ne_nil_of_mem hmem)
    rw [hl] at hl'
    cases hl'

/-- A round that only shifts uses up one unit of fuel, and so does one that takes in a vertex: after a
shift the next round takes in one. -/
theorem Grown.fuel_le {new : List Nat} {fuel : Nat} (h : Grown s members s' members' new)
    (hclosed : Closed s' members' [])
    (hfuel : s.size < fuel + 1 + (memberSet members).card ∨
      (s.size ≤ fuel + 1 + (memberSet members).card ∧ Stretchable s members)) :
    s.size ≤ fuel + (memberSet members').card := by
  have hcard := h.card
  rcases hfuel with hlt | ⟨hle, hstretch⟩
  · omega
  · have hnew := List.length_pos_iff.mpr (h.stretched hclosed hstretch)
    omega

/-- **Every round takes in a vertex** or makes a link tight by which the next one does, so there are
enough rounds. -/
theorem growTree_grounded (fuel : Nat) (h : Growing s members) (hs : s.Connected)
    (hfuel : s.size < fuel + (memberSet members).card ∨
      (s.size ≤ fuel + (memberSet members).card ∧ Stretchable s members)) :
    Grounded s (growTree fuel s members) ∧
      ∃ n ≤ fuel, Rounds n s members (growTree fuel s members) := by
  -- on the fuel: a round that only shifts makes a link tight, and the next one takes in a vertex
  induction fuel generalizing s members with
  | zero =>
    have hle := h.size ▸ card_memberSet_le members
    rcases hfuel with hlt | ⟨hcard, hstretch⟩
    · omega
    · exact absurd hstretch (h.not_stretchable (by omega))
  | succ fuel ih =>
    obtain ⟨new, hgrown, hclosed, hlooked⟩ := growTight_grown (s.size + 1) (membersDown members) h
      (fun v hv => mem_membersDown.mp hv)
      (fun v hv hnot => absurd (mem_membersDown.mpr hv) hnot)
      (by rw [length_membersDown]; omega)
    rw [growTree]
    obtain ⟨⟨s', members'⟩, hres⟩ :
        ∃ res, growTight (s.size + 1) (s, members, membersDown members) = res := ⟨_, rfl⟩
    rw [hres] at hgrown hclosed hlooked
    simp only [hres]
    by_cases hall : members'.all id = true
    · rw [if_pos hall]
      exact ⟨.of_all hgrown hall, 1, by omega, .full hlooked hall⟩
    · rw [if_neg hall]
      cases hl : s'.leastSlack? (s'.crossing members') with
      | none => exact ⟨.of_cutOff hgrown hs hl, 1, by omega, .cutOff hlooked hall hl⟩
      | some l =>
        obtain ⟨hshift, htight⟩ := hgrown.growing.shift hl
        have hsame := hgrown.same.trans (sameLinks_shift s' members' (s'.shiftBy members' l))
        have hstretch : Stretchable (s'.shift members' (s'.shiftBy members' l)) members' :=
          ⟨l, (leastSlack?_spec hl).1, htight⟩
        obtain ⟨hground, n, hn, hrounds⟩ := ih hshift (hsame.connected hs)
          (.inr ⟨hsame.size ▸ hgrown.fuel_le hclosed hfuel, hstretch⟩)
        exact ⟨⟨hsame.trans hground.same, hground.feasible, hground.tight, hground.spanning⟩,
          n + 1, by omega, .shifted hlooked hall hl hrounds⟩

/-- The vertex from which the first tree grows. -/
def firstMember (s : Simplex α) : Array Bool :=
  (Array.replicate s.size false).setIfInBounds 0 true

/-- **A first tree is always found**: on a connected component with a feasible ranking growing
ends, after at most one round for each vertex, with a feasible ranking and a spanning tree of tight
links. -/
theorem feasibleTree_grounded (hw : s.Wired) (hpos : 0 < s.size) (hs : s.Connected)
    (hf : s.Feasible) (hno : ∀ l, s.isTree l = false) : Grounded s s.feasibleTree ∧
      ∃ n ≤ s.size, Rounds n s s.firstMember s.feasibleTree := by
  have hmem : ∀ v, s.firstMember.getD v false = true ↔ v = 0 := by
    intro v
    rw [firstMember, Table.getD_set, Table.getD_replicate, Array.size_replicate]
    by_cases hv : v = 0 <;> simp [hv, hpos]
  have hset : memberSet s.firstMember = {0} := by
    ext v
    rw [mem_memberSet, hmem, Finset.mem_singleton]
  have htree : s.treeLinks = ∅ := by simp [treeLinks, hno]
  have hstart : Growing s s.firstMember := by
    refine ⟨hw, by simp [firstMember], (hmem 0).mpr rfl, hf, fun l hl => ?_, fun l hl => ?_,
      fun v hv => ?_, ?_⟩
    · simp [hno] at hl
    · simp [hno] at hl
    · exact (hmem v).mp hv ▸ .refl
    · rw [htree, hset]
      rfl
  have hfuel : s.size < s.size + (memberSet s.firstMember).card := by
    rw [hset]
    simp
  exact growTree_grounded s.size hstart hs (.inl hfuel)

end Flowchart.Simplex
