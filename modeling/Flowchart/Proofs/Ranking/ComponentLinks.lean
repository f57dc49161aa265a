import Flowchart.Proofs.Ranking.Components
import Flowchart.Proofs.Ranking.Layering
import Flowchart.Proofs.Simplex.Growing

/-!
# The links of a component

The simplex sees a component through its links: one for all parallel arcs between two members,
with the sum of their weights and the largest of their least lengths. Members are called by their
positions.

`Merged` says how links and arcs correspond. From it follows what the simplex asks of its start:
in an acyclic graph no two links join the same members, the links connect the members, and a
ranking that respects the arcs is feasible for the links.
-/

namespace Flowchart.LayerGraph

variable {α : Type} {g : LayerGraph α} {members : List Nat}

/-! ## Merging arcs -/

/-- The positions of the ends of an active arc among the members, if both are members. -/
def endsIn (members : List Nat) (arc : Arc α) : Option (Nat × Nat) :=
  if arc.active then
    match members.idxOf? arc.source, members.idxOf? arc.target with
    | some t, some h => some (t, h)
    | _, _ => none
  else none

/-- The arcs of a list whose ends have given positions. -/
def parallel (members : List Nat) (arcs : List (Arc α)) (t h : Nat) : List (Arc α) :=
  arcs.filter fun arc => endsIn members arc == some (t, h)

theorem mem_parallel {arcs : List (Arc α)} {arc : Arc α} {t h : Nat} :
    arc ∈ parallel members arcs t h ↔ arc ∈ arcs ∧ endsIn members arc = some (t, h) := by
  rw [parallel, List.mem_filter, beq_iff_eq]

theorem parallel_append (arcs : List (Arc α)) (arc : Arc α) (t h : Nat) :
    parallel members (arcs ++ [arc]) t h = if endsIn members arc = some (t, h) then
      parallel members arcs t h ++ [arc] else parallel members arcs t h := by
  rw [parallel, List.filter_append]
  by_cases he : endsIn members arc = some (t, h) <;> simp [he, parallel]

section Merging

variable [Scalar α]

/-- The link with one more arc merged into it. -/
def mergeArc (link : SimplexLink α) (arc : Arc α) : SimplexLink α :=
  { link with weight := link.weight + arc.weight, minLength := max link.minLength arc.minLength }

/-- The links with one more arc. -/
def addArcLink (members : List Nat) (links : Array (SimplexLink α)) (arc : Arc α) :
    Array (SimplexLink α) :=
  match endsIn members arc with
  | some (t, h) => mergeLink links ⟨t, h, arc.weight, arc.minLength⟩
  | none => links

theorem componentLinks_eq (g : LayerGraph α) (members : List Nat) :
    g.componentLinks members = g.arcs.toList.foldl (addArcLink members) #[] := by
  have hstep : ∀ (links : Array (SimplexLink α)) (arc : Arc α), (if arc.active then
      match members.idxOf? arc.source, members.idxOf? arc.target with
      | some t, some h => mergeLink links ⟨t, h, arc.weight, arc.minLength⟩
      | _, _ => links
    else links) = addArcLink members links arc := by
    intro links arc
    unfold addArcLink endsIn
    cases arc.active
    · rfl
    · cases members.idxOf? arc.source <;> cases members.idxOf? arc.target <;> rfl
  rw [componentLinks]
  congr 1
  funext links arc
  exact hstep links arc

/-- An arc either changes the link with its ends or adds one. -/
theorem getElem?_mergeLink (links : Array (SimplexLink α)) (link : SimplexLink α) :
    (∃ (i : Nat) (x : SimplexLink α), links[i]? = some x ∧ x.tail = link.tail ∧ x.head = link.head ∧
      ∀ l : Nat, (mergeLink links link)[l]? = if l = i then some { x with
        weight := x.weight + link.weight, minLength := max x.minLength link.minLength }
        else links[l]?) ∨
    ((∀ (l : Nat) x, links[l]? = some x → ¬ (x.tail = link.tail ∧ x.head = link.head)) ∧
      ∀ l : Nat, (mergeLink links link)[l]? = if l = links.size then some link else links[l]?) := by
  unfold mergeLink
  cases hfind : links.findIdx? fun l => l.tail == link.tail && l.head == link.head with
  | none =>
    refine .inr ⟨fun l x hx => ?_, fun l => Array.getElem?_push⟩
    simpa using Array.findIdx?_eq_none_iff.mp hfind x (Array.mem_of_getElem? hx)
  | some i =>
    obtain ⟨hi, hends, -⟩ := Array.findIdx?_eq_some_iff_getElem.mp hfind
    simp only [Bool.and_eq_true, beq_iff_eq] at hends
    refine .inl ⟨i, links[i], Array.getElem?_eq_getElem hi, hends.1, hends.2, fun l => ?_⟩
    rw [Array.getElem?_modify]
    by_cases hl : l = i
    · subst hl
      simp [hi]
    · simp [hl, Ne.symm hl]

/-- There is one link for all parallel arcs of a list. -/
structure Merged (members : List Nat) (arcs : List (Arc α)) (links : Array (SimplexLink α)) :
    Prop where
  distinct : ∀ (k l : Nat) x y, links[k]? = some x → links[l]? = some y → x.tail = y.tail →
    x.head = y.head → k = l
  link : ∀ (l : Nat) x, links[l]? = some x → ∃ arc rest,
    parallel members arcs x.tail x.head = arc :: rest ∧
      x = rest.foldl mergeArc ⟨x.tail, x.head, arc.weight, arc.minLength⟩
  complete : ∀ arc ∈ arcs, ∀ t h, endsIn members arc = some (t, h) →
    ∃ (l : Nat) (x : SimplexLink α), links[l]? = some x ∧ x.tail = t ∧ x.head = h

section Add

variable {arcs : List (Arc α)} {links links' : Array (SimplexLink α)}
  (h : Merged members arcs links)
  {arc : Arc α} {t hd : Nat} (he : endsIn members arc = some (t, hd))
include h he

section AddTo

variable {i : Nat} {y : SimplexLink α} (hi : links[i]? = some y) (ht : y.tail = t)
  (hh : y.head = hd)
  (hget : ∀ l : Nat, links'[l]? = if l = i then some (mergeArc y arc) else links[l]?)
include hi hget

omit h he in
/-- The link at every place keeps its ends when an arc is merged into one of them. -/
theorem mergeArc_ends_old {l : Nat} {x : SimplexLink α} (hx : links'[l]? = some x) :
    ∃ x', links[l]? = some x' ∧ x'.tail = x.tail ∧ x'.head = x.head := by
  rw [hget] at hx
  split at hx
  next hl =>
    obtain rfl := Option.some.inj hx
    exact ⟨y, hl ▸ hi, rfl, rfl⟩
  next => exact ⟨x, hx, rfl, rfl⟩

omit h he in
/-- No link is lost when an arc is merged into one of them. -/
theorem mergeArc_ends_new {l : Nat} {x : SimplexLink α} (hx : links[l]? = some x) :
    ∃ x', links'[l]? = some x' ∧ x'.tail = x.tail ∧ x'.head = x.head := by
  rw [hget]
  by_cases hl : l = i
  · obtain rfl := Option.some.inj (hi.symm.trans (hl ▸ hx))
    exact ⟨mergeArc y arc, if_pos hl, rfl, rfl⟩
  · exact ⟨x, (if_neg hl).trans hx, rfl, rfl⟩

include ht hh

/-- The changed link is put together from one more arc, and every other link has other ends, so its
parallel arcs are the same as before. -/
theorem Merged.link_add_to {l : Nat} {x : SimplexLink α} (hx : links'[l]? = some x) :
    ∃ first rest, parallel members (arcs ++ [arc]) x.tail x.head = first :: rest ∧
      x = rest.foldl mergeArc ⟨x.tail, x.head, first.weight, first.minLength⟩ := by
  rw [hget] at hx
  rw [parallel_append, he]
  split at hx
  next =>
    obtain rfl := Option.some.inj hx
    obtain ⟨first, rest, hpar, hfold⟩ := h.link i y hi
    refine ⟨first, rest ++ [arc], ?_, ?_⟩
    · change (if some (t, hd) = some (y.tail, y.head) then
        parallel members arcs y.tail y.head ++ [arc] else _) = _
      rw [ht, hh, if_pos rfl, ← ht, ← hh, hpar, List.cons_append]
    · rw [List.foldl_append, List.foldl_cons, List.foldl_nil]
      exact congrArg (mergeArc · arc) hfold
  next hl =>
    have hne : ¬ some (t, hd) = some (x.tail, x.head) := by
      intro heq
      obtain ⟨htx, hhx⟩ := Prod.mk.inj (Option.some.inj heq)
      exact hl (h.distinct l i x y hx hi (htx.symm.trans ht.symm) (hhx.symm.trans hh.symm))
    rw [if_neg hne]
    exact h.link l x hx

/-- The arc changes the link with its ends, and there is still one link for all parallel arcs. -/
theorem Merged.add_to : Merged members (arcs ++ [arc]) links' := by
  refine ⟨fun k l x z hx hz hxz hxz' => ?_, fun l x hx => h.link_add_to he hi ht hh hget hx,
    fun b hb t' h' hends => ?_⟩
  · obtain ⟨x', hx', htx, hhx⟩ := mergeArc_ends_old hi hget hx
    obtain ⟨z', hz', htz, hhz⟩ := mergeArc_ends_old hi hget hz
    exact h.distinct k l x' z' hx' hz' (htx.trans (hxz.trans htz.symm))
      (hhx.trans (hxz'.trans hhz.symm))
  · have hlink : ∃ (l : Nat) (x : SimplexLink α),
        links[l]? = some x ∧ x.tail = t' ∧ x.head = h' := by
      rcases List.mem_append.mp hb with hb | hb
      · exact h.complete b hb t' h' hends
      · rw [List.mem_singleton.mp hb, he] at hends
        cases hends
        exact ⟨i, y, hi, ht, hh⟩
    obtain ⟨l, x, hx, htx, hhx⟩ := hlink
    obtain ⟨x', hx', htx', hhx'⟩ := mergeArc_ends_new hi hget hx
    exact ⟨l, x', hx', htx'.trans htx, hhx'.trans hhx⟩

end AddTo

/-- The arc is the first one with its ends. -/
theorem Merged.add_new (hno : ∀ (l : Nat) x, links[l]? = some x → ¬ (x.tail = t ∧ x.head = hd))
    (hget : ∀ l : Nat, links'[l]? =
      if l = links.size then some ⟨t, hd, arc.weight, arc.minLength⟩ else links[l]?) :
    Merged members (arcs ++ [arc]) links' := by
  have hempty : parallel members arcs t hd = [] := by
    refine List.eq_nil_iff_forall_not_mem.mpr fun b hb => ?_
    obtain ⟨hmem, hends⟩ := mem_parallel.mp hb
    obtain ⟨l, x, hx, htx, hhx⟩ := h.complete b hmem t hd hends
    exact hno l x hx ⟨htx, hhx⟩
  have hcases : ∀ (l : Nat) x, links'[l]? = some x →
      links[l]? = some x ∨ l = links.size ∧ x = ⟨t, hd, arc.weight, arc.minLength⟩ := by
    intro l x hx
    rw [hget] at hx
    split at hx
    · exact .inr ⟨‹_›, (Option.some.inj hx).symm⟩
    · exact .inl hx
  refine ⟨fun k l x y hx hy hxy hxy' => ?_, fun l x hx => ?_, fun b hb t' h' hends => ?_⟩
  · rcases hcases k x hx with hx | ⟨rfl, rfl⟩ <;> rcases hcases l y hy with hy | ⟨rfl, rfl⟩
    · exact h.distinct k l x y hx hy hxy hxy'
    · exact absurd ⟨hxy, hxy'⟩ (hno k x hx)
    · exact absurd ⟨hxy.symm, hxy'.symm⟩ (hno l y hy)
    · rfl
  · rw [parallel_append, he]
    rcases hcases l x hx with hx | ⟨-, rfl⟩
    · have hne : ¬ some (t, hd) = some (x.tail, x.head) := by
        intro heq
        obtain ⟨htx, hhx⟩ := Prod.mk.inj (Option.some.inj heq)
        exact hno l x hx ⟨htx.symm, hhx.symm⟩
      rw [if_neg hne]
      exact h.link l x hx
    · exact ⟨arc, [], by rw [if_pos rfl, hempty, List.nil_append], rfl⟩
  · rcases List.mem_append.mp hb with hb | hb
    · obtain ⟨l, x, hx, hends'⟩ := h.complete b hb t' h' hends
      have hlt := (Array.getElem?_eq_some_iff.mp hx).1
      exact ⟨l, x, by rw [hget, if_neg (Nat.ne_of_lt hlt), hx], hends'⟩
    · rw [List.mem_singleton.mp hb, he] at hends
      cases hends
      exact ⟨links.size, _, by rw [hget, if_pos rfl], rfl, rfl⟩

end Add

theorem Merged.add {arcs : List (Arc α)} {links : Array (SimplexLink α)}
    (h : Merged members arcs links) (arc : Arc α) :
    Merged members (arcs ++ [arc]) (addArcLink members links arc) := by
  unfold addArcLink
  cases he : endsIn members arc with
  | none =>
    refine ⟨h.distinct, fun l x hx => ?_, fun b hb t hd hends => ?_⟩
    · rw [parallel_append, if_neg (by simp [he])]
      exact h.link l x hx
    · rcases List.mem_append.mp hb with hb | hb
      · exact h.complete b hb t hd hends
      · rw [List.mem_singleton.mp hb, he] at hends
        cases hends
  | some th =>
    obtain ⟨t, hd⟩ := th
    simp only
    rcases getElem?_mergeLink links ⟨t, hd, arc.weight, arc.minLength⟩ with
      ⟨i, y, hi, hyt, hyh, hget⟩ | ⟨hno, hget⟩
    · exact h.add_to he hi hyt hyh hget
    · exact h.add_new he hno hget

/-- **The links of a component** stand for the arcs between its members. -/
theorem componentLinks_merged (g : LayerGraph α) (members : List Nat) :
    Merged members g.arcs.toList (g.componentLinks members) := by
  rw [componentLinks_eq]
  induction g.arcs.toList using List.reverseRecOn with
  | nil => exact ⟨by simp, by simp, by simp⟩
  | append_singleton arcs arc ih =>
    rw [List.foldl_append, List.foldl_cons, List.foldl_nil]
    exact ih.add arc

/-- The least length of a link is the largest one of its arcs. -/
theorem Merged.minLength {arcs : List (Arc α)} {links : Array (SimplexLink α)}
    (h : Merged members arcs links) {l : Nat} {x : SimplexLink α} (hx : links[l]? = some x) :
    (∃ arc ∈ arcs, endsIn members arc = some (x.tail, x.head) ∧ arc.minLength = x.minLength) ∧
    ∀ arc ∈ arcs, endsIn members arc = some (x.tail, x.head) → arc.minLength ≤ x.minLength := by
  have hfold : ∀ (rest : List (Arc α)) (link : SimplexLink α),
      (rest.foldl mergeArc link).minLength = (rest.map Arc.minLength).foldl max link.minLength := by
    intro rest
    induction rest with
    | nil => exact fun _ => rfl
    | cons arc rest ih => exact fun _ => ih _
  obtain ⟨first, rest, hpar, hlink⟩ := h.link l x hx
  have hmax : ((parallel members arcs x.tail x.head).map Arc.minLength).max? =
      some x.minLength := by
    rw [hpar, List.map_cons, List.max?_cons', congrArg SimplexLink.minLength hlink, hfold]
  obtain ⟨hmem, hle⟩ := List.max?_eq_some_iff.mp hmax
  obtain ⟨arc, harc, heq⟩ := List.mem_map.mp hmem
  exact ⟨⟨arc, (mem_parallel.mp harc).1, (mem_parallel.mp harc).2, heq⟩, fun arc harc hends =>
    hle _ (List.mem_map_of_mem (mem_parallel.mpr ⟨harc, hends⟩))⟩

end Merging

/-! ## The start of the simplex -/

theorem endsIn_iff (hn : members.Nodup) {arc : Arc α} {t h : Nat} :
    endsIn members arc = some (t, h) ↔
    arc.active = true ∧ members[t]? = some arc.source ∧ members[h]? = some arc.target := by
  have hidx : ∀ a i, members.idxOf? a = some i ↔ members[i]? = some a := by
    intro a i
    rw [List.idxOf?_eq_some_iff]
    constructor
    · rintro ⟨hi, he, -⟩
      rw [List.getElem?_eq_getElem hi, he]
    · intro hi
      obtain ⟨hlt, he⟩ := List.getElem?_eq_some_iff.mp hi
      refine ⟨hlt, he, fun j hj hji => ?_⟩
      have := (List.Nodup.getElem_inj_iff hn).mp (hji.trans he.symm)
      omega
  unfold endsIn
  rw [← hidx, ← hidx]
  cases arc.active <;> cases members.idxOf? arc.source <;> cases members.idxOf? arc.target <;> simp

/-- The state from which the simplex starts on a component. -/
def componentStart [Scalar α] (g : LayerGraph α) (members : List Nat) : Simplex α :=
  Simplex.initial (g.componentLinks members) (members.map g.rank).toArray

section Start

variable [Scalar α]

theorem size_componentStart (g : LayerGraph α) (members : List Nat) :
    (g.componentStart members).size = members.length := by
  simp [componentStart, Simplex.initial, Simplex.size]

theorem rankOf_componentStart {i v : Nat} (h : members[i]? = some v) :
    (g.componentStart members).rankOf i = g.rank v := by
  simp [componentStart, Simplex.initial, Simplex.rankOf, h]

/-- No two links have the same ends, because parallel arcs are merged into one link. -/
theorem componentStart_distinct {k l : Nat} (hk : k < (g.componentLinks members).size)
    (hl : l < (g.componentLinks members).size)
    (ht : (g.componentStart members).tail k = (g.componentStart members).tail l)
    (hh : (g.componentStart members).head k = (g.componentStart members).head l) : k = l := by
  rw [componentStart, Simplex.tail_initial _ hk, Simplex.tail_initial _ hl] at ht
  rw [componentStart, Simplex.head_initial _ hk, Simplex.head_initial _ hl] at hh
  exact (componentLinks_merged g members).distinct k l _ _ (Array.getElem?_eq_getElem hk)
    (Array.getElem?_eq_getElem hl) ht hh

variable (hm : g.Component members)
include hm

/-- Every link of a component stands for an active arc, whose least length it has. -/
theorem Component.exists_arc {l : Nat} (hl : l < (g.componentLinks members).size) :
    ∃ (a : Nat) (arc : Arc α), g.arcs[a]? = some arc ∧ arc.active = true ∧
      members[(g.componentStart members).tail l]? = some arc.source ∧
      members[(g.componentStart members).head l]? = some arc.target ∧
      (g.componentStart members).minLength l = arc.minLength := by
  have hx := Array.getElem?_eq_getElem hl
  obtain ⟨⟨arc, harc, hends, hlen⟩, -⟩ := (componentLinks_merged g members).minLength hx
  obtain ⟨a, ha⟩ := List.getElem?_of_mem harc
  obtain ⟨hact, ht, hh⟩ := (endsIn_iff hm.nodup).mp hends
  refine ⟨a, arc, by simpa using ha, hact, ?_, ?_, ?_⟩
  · rwa [componentStart, Simplex.tail_initial _ hl]
  · rwa [componentStart, Simplex.head_initial _ hl]
  · simp [componentStart, Simplex.initial, Simplex.minLength, hl, hlen]

/-- Every active arc between members has a link, at least as long. -/
theorem Component.exists_link {a : Nat} {arc : Arc α} (ha : g.arcs[a]? = some arc)
    (hact : arc.active = true) {t h : Nat} (ht : members[t]? = some arc.source)
    (hh : members[h]? = some arc.target) :
    ∃ l < (g.componentStart members).links.size, (g.componentStart members).tail l = t ∧
      (g.componentStart members).head l = h ∧
      arc.minLength ≤ (g.componentStart members).minLength l := by
  have harc : arc ∈ g.arcs.toList := List.mem_of_getElem? (i := a) (by simpa using ha)
  have hends := (endsIn_iff hm.nodup).mpr ⟨hact, ht, hh⟩
  have hmerged := componentLinks_merged g members
  obtain ⟨l, x, hx, rfl, rfl⟩ := hmerged.complete arc harc t h hends
  obtain ⟨hl, rfl⟩ := Array.getElem?_eq_some_iff.mp hx
  refine ⟨l, hl, Simplex.tail_initial _ hl, Simplex.head_initial _ hl, ?_⟩
  have hle := (hmerged.minLength hx).2 arc harc hends
  simpa [componentStart, Simplex.initial, Simplex.minLength, hl] using hle

/-- A feasible state over the links of a component gives every arc its least length. -/
theorem Component.minLength_le_of_feasible {s : Simplex α}
    (hsame : Simplex.SameLinks (g.componentStart members) s) (hs : s.Feasible) {a : Nat}
    {arc : Arc α} (ha : g.arcs[a]? = some arc) (hact : arc.active = true) {t h : Nat}
    (ht : members[t]? = some arc.source) (hh : members[h]? = some arc.target) :
    s.rankOf t + arc.minLength ≤ s.rankOf h := by
  obtain ⟨l, hl, rfl, rfl, hlen⟩ := hm.exists_link ha hact ht hh
  have hslack := hs l (hsame.links ▸ hl)
  rw [Simplex.slack, hsame.tail_eq, hsame.head_eq, hsame.minLength_eq] at hslack
  omega

/-- **The links of a component of an acyclic graph are wired**: none is a loop, and no two join
the same members, since that would close a cycle. -/
theorem Component.start_wired (hg : g.Acyclic) : (g.componentStart members).Wired := by
  have hpos : ∀ {i v : Nat}, members[i]? = some v → i < (members.map g.rank).toArray.size := by
    intro i v hi
    simpa using (List.getElem?_eq_some_iff.mp hi).1
  refine Simplex.initial_wired (fun l hl => ?_) fun k hk l hl u v hjk hjl => ?_
  · obtain ⟨a, arc, ha, hact, ht, hh, -⟩ := hm.exists_arc hl
    rw [componentStart, Simplex.tail_initial _ hl] at ht
    rw [componentStart, Simplex.head_initial _ hl] at hh
    refine ⟨hpos ht, hpos hh, fun he => hg.loopless a arc ha hact ?_⟩
    exact Option.some.inj (ht.symm.trans ((congrArg (members[·]?) he).trans hh))
  · obtain ⟨a, arc, ha, hact, ht, hh, -⟩ := hm.exists_arc hk
    obtain ⟨b, brc, hb, hbct, hbt, hbh, -⟩ := hm.exists_arc hl
    have hopposite : (g.componentStart members).tail k = (g.componentStart members).head l →
        (g.componentStart members).head k = (g.componentStart members).tail l → k = l := by
      intro h1 h2
      rw [h1] at ht
      rw [h2] at hh
      have hback : g.Leads arc.target arc.source :=
        ⟨b, brc, hb, hbct, Option.some.inj (hbt.symm.trans hh), Option.some.inj (hbh.symm.trans ht)⟩
      exact absurd (.head ⟨a, arc, ha, hact, rfl, rfl⟩ (.single hback)) (hg arc.source)
    rcases hjk with ⟨rfl, rfl⟩ | ⟨rfl, rfl⟩ <;> rcases hjl with ⟨h1, h2⟩ | ⟨h1, h2⟩
    · exact componentStart_distinct hk hl h1.symm h2.symm
    · exact hopposite h2.symm h1.symm
    · exact hopposite h2.symm h1.symm
    · exact componentStart_distinct hk hl h1.symm h2.symm

/-- The links of a component connect its members. -/
theorem Component.start_connected : (g.componentStart members).Connected := by
  intro i hi
  rw [size_componentStart] at hi
  have hreach : ∀ w, g.Together members[0] w → ∃ j, members[j]? = some w ∧
      Relation.ReflTransGen (g.componentStart members).Linked 0 j := by
    intro w hw
    induction hw with
    | refl => exact ⟨0, List.getElem?_eq_getElem _, .refl⟩
    | @tail w x _ hb ih =>
      obtain ⟨j, hj, hpath⟩ := ih
      have hwm := List.mem_of_getElem? hj
      rcases hb with hlead | hlead
      · obtain ⟨k, hk⟩ := List.getElem?_of_mem ((hm.closed _ _ hlead).mp hwm)
        obtain ⟨a, arc, ha, hact, rfl, rfl⟩ := hlead
        obtain ⟨l, hl, ht, hh, -⟩ := hm.exists_link ha hact hj hk
        exact ⟨k, hk, hpath.tail ⟨l, hl, .inl ⟨ht, hh⟩⟩⟩
      · obtain ⟨k, hk⟩ := List.getElem?_of_mem ((hm.closed _ _ hlead).mpr hwm)
        obtain ⟨a, arc, ha, hact, rfl, rfl⟩ := hlead
        obtain ⟨l, hl, ht, hh, -⟩ := hm.exists_link ha hact hk hj
        exact ⟨k, hk, hpath.tail ⟨l, hl, .inr ⟨ht, hh⟩⟩⟩
  obtain ⟨j, hj, hpath⟩ := hreach members[i]
    (hm.together _ (List.getElem_mem _) _ (List.getElem_mem _))
  obtain ⟨hlt, he⟩ := List.getElem?_eq_some_iff.mp hj
  rwa [(List.Nodup.getElem_inj_iff hm.nodup).mp he] at hpath

/-- A ranking that gives the arcs between the members their least lengths is feasible for the
links. -/
theorem Component.start_feasible (hr : ∀ (a : Nat) arc, g.arcs[a]? = some arc → arc.active = true →
    arc.source ∈ members → g.rank arc.source + arc.minLength ≤ g.rank arc.target) :
    (g.componentStart members).Feasible := by
  intro l hl
  obtain ⟨a, arc, ha, hact, ht, hh, hlen⟩ := hm.exists_arc hl
  have := hr a arc ha hact (List.mem_of_getElem? ht)
  rw [Simplex.slack, rankOf_componentStart ht, rankOf_componentStart hh, hlen]
  omega

end Start

end Flowchart.LayerGraph
