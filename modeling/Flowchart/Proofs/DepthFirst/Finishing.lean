import Flowchart.Proofs.DepthFirst.Steps

/-!
# The order in which a walk finishes vertices

When a vertex is finished, the far ends of its arcs are finished before it, but for those arcs
that were noted to lead back: their far ends were still on the stack, so they are finished no
earlier. The stack is a path of arcs, so an arc that leads back closes a cycle.

`time` is the position of a vertex among the finished ones. A vertex that is not finished has the
time of the next one to be finished, which makes the two cases one comparison in every state.
-/

namespace Flowchart.Walk

variable {arcs : Nat → List (Nat × Nat)} {n : Nat} {w w' : Walk}

/-- Some arc leads from one vertex to the other. -/
def Adjacent (arcs : Nat → List (Nat × Nat)) (v u : Nat) : Prop := ∃ a, (a, u) ∈ arcs v

/-! ## Finishing times -/

/-- How many vertices were finished before this one. -/
def time (w : Walk) (v : Nat) : Nat := w.finished.toList.idxOf v

/-- What is not finished counts as finished after everything that is. -/
theorem time_of_not_mem {v : Nat} (h : v ∉ w.finished.toList) :
    w.time v = w.finished.toList.length := List.idxOf_eq_length_iff.mpr h

/-- A vertex was finished exactly if its time is less than the number of finished vertices. -/
theorem time_lt_iff {v : Nat} : w.time v < w.finished.toList.length ↔ v ∈ w.finished.toList :=
  List.idxOf_lt_length_iff

/-- Two vertices of which one is finished have different times. -/
theorem time_inj {u v : Nat} (hu : u ∈ w.finished.toList) (h : w.time u = w.time v) : u = v :=
  (List.idxOf_inj hu).mp h

/-- A finished vertex keeps its time when another one is finished. -/
theorem time_finish_of_mem {v u : Nat} (rest : List (Nat × List (Nat × Nat)))
    (hu : u ∈ w.finished.toList) : (w.finish v rest).time u = w.time u := by
  rw [time, finished_finish, List.idxOf_append_of_mem hu, time]

/-- A vertex that is finished gets the next time. -/
theorem time_finish_self {v : Nat} (rest : List (Nat × List (Nat × Nat)))
    (hv : v ∉ w.finished.toList) : (w.finish v rest).time v = w.finished.toList.length := by
  rw [time, finished_finish, List.idxOf_append_of_notMem hv]
  simp

/-- A vertex that was finished, now or before, has its time for good. -/
theorem time_finish_of_lt_or_eq {v u : Nat} (rest : List (Nat × List (Nat × Nat)))
    (hv : v ∉ w.finished.toList) (h : w.time u < w.finished.toList.length ∨ u = v) :
    (w.finish v rest).time u = w.time u := by
  obtain hu | rfl := h
  · exact time_finish_of_mem rest (time_lt_iff.mp hu)
  · rw [time_finish_self rest hv, time_of_not_mem hv]

/-- The vertices left have one more before them. -/
theorem time_finish_of_not_mem {v u : Nat} (rest : List (Nat × List (Nat × Nat)))
    (hu : u ∉ w.finished.toList) (hne : u ≠ v) :
    (w.finish v rest).time u = w.finished.toList.length + 1 := by
  rw [time_of_not_mem, finished_finish, List.length_append, List.length_singleton]
  rw [finished_finish, List.mem_append, List.mem_singleton]
  exact fun hmem => hmem.elim hu hne

/-- Times only grow, and only those of unfinished vertices do. -/
theorem time_le_finish (v u : Nat) (rest : List (Nat × List (Nat × Nat))) :
    w.time u ≤ (w.finish v rest).time u := by
  by_cases hu : u ∈ w.finished.toList
  · rw [time_finish_of_mem rest hu]
  · rw [time, time, finished_finish, List.idxOf_append_of_notMem hu,
      List.idxOf_eq_length_iff.mpr hu]
    exact Nat.le_add_right _ _

/-! ## The stack is a path -/

/-- Every vertex on the stack was entered through an arc of the one below it. -/
def Linked (arcs : Nat → List (Nat × Nat)) (w : Walk) : Prop :=
  w.onStack.IsChain fun top below => Adjacent arcs below top

/-- The stack stays a path of arcs: a vertex is put on it only through an arc of the vertex on
top. -/
theorem Linked.step (hc : Coherent n arcs w) (h : Linked arcs w) (hs : Step arcs w w') :
    Linked arcs w' := by
  unfold Linked at h ⊢
  cases hs with
  | finish top =>
    simp only [onStack, top, List.map_cons] at h
    exact h.tail
  | @enter v a u pending rest top mark =>
    have he : ((w.advance v pending rest).start arcs u (some (a, v))).onStack = u :: w.onStack := by
      simp [onStack, start, advance, top]
    have ht : w.onStack = v :: rest.map Prod.fst := by simp [onStack, top]
    rw [he, ht]
    rw [ht] at h
    have ha : (a, u) ∈ arcs v := (hc.pending _ (by rw [top]; exact List.mem_cons_self)).subset
      List.mem_cons_self
    exact List.isChain_cons_cons.mpr ⟨⟨a, ha⟩, h⟩
  | back top mark => simpa [onStack, top] using h
  | skip top mark => simpa [onStack, top] using h

/-- From every vertex of such a path the first one can be reached. -/
theorem reaches_top {v : Nat} {l : List Nat}
    (h : (v :: l).IsChain fun top below => Adjacent arcs below top) {u : Nat} (hu : u ∈ v :: l) :
    Relation.ReflTransGen (Adjacent arcs) u v := by
  induction l generalizing v with
  | nil => exact List.mem_singleton.mp hu ▸ .refl
  | cons x l ih =>
    obtain ⟨hx, hl⟩ := List.isChain_cons_cons.mp h
    rcases List.mem_cons.mp hu with rfl | hu
    · exact .refl
    · exact (ih hl hu).tail hx

/-! ## What was looked at -/

/-- An arc that a vertex on the stack has looked at leads to a finished vertex or to the one entered
through it, which lies above, or it was noted to lead back, to the vertex itself or to one below. -/
def Looked (w : Walk) (above below : List (Nat × List (Nat × Nat))) (v a u : Nat) : Prop :=
  u ∈ w.finished.toList ∨ u ∈ above.map Prod.fst ∨
    (a ∈ w.backArcs.toList ∧ u ∈ v :: below.map Prod.fst)

/-- Every arc of a vertex on the stack was looked at or is left. -/
def Accounted (arcs : Nat → List (Nat × Nat)) (w : Walk) : Prop :=
  ∀ above v pending below, w.stack = above ++ (v, pending) :: below →
    ∀ a u, (a, u) ∈ arcs v → (a, u) ∈ pending ∨ w.Looked above below v a u

/-- An arc that was looked at stays so when more vertices are finished, put on the stack above its
near end or noted. -/
theorem Looked.mono {above above' below : List (Nat × List (Nat × Nat))} {v a u : Nat}
    (h : w.Looked above below v a u) (hf : w.finished.toList ⊆ w'.finished.toList)
    (ha : above.map Prod.fst ⊆ above'.map Prod.fst)
    (hb : w.backArcs.toList ⊆ w'.backArcs.toList) : w'.Looked above' below v a u := by
  rcases h with h | h | ⟨h, hu⟩
  · exact .inl (hf h)
  · exact .inr (.inl (ha h))
  · exact .inr (.inr ⟨hb h, hu⟩)

/-- A step takes at most one arc off the list of the vertex on top. What it says about that arc is
all there is to show. -/
theorem Accounted.advance (h : Accounted arcs w) {v a u : Nat} {pending : List (Nat × Nat)}
    {rest : List (Nat × List (Nat × Nat))} (top : w.stack = (v, (a, u) :: pending) :: rest)
    (hs : w'.stack = (v, pending) :: rest) (hf : w.finished.toList ⊆ w'.finished.toList)
    (hb : w.backArcs.toList ⊆ w'.backArcs.toList) (ha : w'.Looked [] rest v a u) :
    Accounted arcs w' := by
  intro above x p below hx b t hbt
  rw [hs] at hx
  rcases above with _ | ⟨e, above⟩
  · simp only [List.nil_append, List.cons.injEq, Prod.mk.injEq] at hx
    obtain ⟨⟨rfl, rfl⟩, rfl⟩ := hx
    rcases h [] v _ rest top b t hbt with hp | hl
    · rcases List.mem_cons.mp hp with he | hp
      · cases he
        exact .inr ha
      · exact .inl hp
    · exact .inr (hl.mono hf (List.Subset.refl _) hb)
  · simp only [List.cons_append, List.cons.injEq] at hx
    obtain ⟨rfl, rfl⟩ := hx
    rcases h ((v, (a, u) :: pending) :: above) x p below (by simp [top]) b t hbt with hp | hl
    · exact .inl hp
    · exact .inr (hl.mono hf (by simp) hb)

/-- Every arc that is no longer pending was looked at. Where a vertex is started it has looked at
nothing yet, and it lies above all others on the stack. -/
theorem Accounted.step (hn : ∀ v < n, ∀ e ∈ arcs v, e.2 < n) (hc : Coherent n arcs w)
    (h : Accounted arcs w) (hs : Step arcs w w') : Accounted arcs w' := by
  cases hs with
  | @finish v rest top =>
    intro above x p below hx b t hbt
    rcases h ((v, []) :: above) x p below (by rw [top]; exact congrArg _ hx) b t hbt with hp | hl
    · exact .inl hp
    · rcases hl with hl | hl | hl
      · exact .inr (.inl (by rw [finished_finish]; exact List.mem_append_left _ hl))
      · rcases List.mem_cons.mp hl with rfl | hl
        · exact .inr (.inl (by rw [finished_finish]; simp))
        · exact .inr (.inr (.inl hl))
      · exact .inr (.inr (.inr hl))
  | @enter v a u pending rest top mark =>
    intro above x p below hx b t hbt
    rcases above with _ | ⟨e, above⟩
    · simp only [start, List.nil_append, List.cons.injEq, Prod.mk.injEq] at hx
      obtain ⟨⟨rfl, rfl⟩, -⟩ := hx
      exact .inl hbt
    · simp only [start, List.cons_append, List.cons.injEq] at hx
      obtain ⟨rfl, hx⟩ := hx
      rcases above with _ | ⟨e, above⟩
      · simp only [stack_advance, List.nil_append, List.cons.injEq, Prod.mk.injEq] at hx
        obtain ⟨⟨rfl, rfl⟩, rfl⟩ := hx
        rcases h [] v _ rest top b t hbt with hp | hl
        · rcases List.mem_cons.mp hp with he | hp
          · cases he
            exact .inr (.inr (.inl (by simp)))
          · exact .inl hp
        · exact .inr (hl.mono (List.Subset.refl _) (by simp) (List.Subset.refl _))
      · simp only [stack_advance, List.cons_append, List.cons.injEq] at hx
        obtain ⟨rfl, rfl⟩ := hx
        rcases h ((v, (a, u) :: pending) :: above) x p below (by simp [top]) b t hbt with hp | hl
        · exact .inl hp
        · exact .inr (hl.mono (List.Subset.refl _) (by simp) (List.Subset.refl _))
  | @back v a u pending rest top mark =>
    have hb := backArcs_noteBack (w := w.advance v pending rest) a
    refine h.advance top rfl (List.Subset.refl _) (hb ▸ List.subset_append_left _ _)
      (.inr (.inr ⟨hb ▸ List.mem_append_right _ (List.mem_singleton_self a), ?_⟩))
    have hu := (hc.started_iff u).mp mark
    simpa [onStack, top] using hu
  | @skip v a u pending rest top mark =>
    refine h.advance top rfl (List.Subset.refl _) (List.Subset.refl _) (.inl ?_)
    have hv : v ∈ w.onStack := by simp [onStack, top]
    have ha : (a, u) ∈ arcs v := (hc.pending _ (by rw [top]; exact List.mem_cons_self)).subset
      List.mem_cons_self
    exact (hc.done_iff u (hn v (hc.lt_of_mem_onStack hv) _ ha)).mp mark

/-! ## Arcs that lead back -/

/-- An arc that was noted leads from a vertex `v` to one that reaches `v` along arcs, and that is
not finished before `v`. -/
structure LeadsBack (arcs : Nat → List (Nat × Nat)) (w : Walk) (a v u : Nat) : Prop where
  /-- it is an arc of `v` -/
  arc : (a, u) ∈ arcs v
  /-- it closes a cycle -/
  cycle : Relation.ReflTransGen (Adjacent arcs) u v
  /-- its far end outlives `v` -/
  later : (v ∈ w.finished.toList ∧ w.time v ≤ w.time u) ∨
    ∃ above pending below, w.stack = above ++ (v, pending) :: below ∧ u ∈ v :: below.map Prod.fst

/-- Every noted arc leads back. -/
def BackNoted (arcs : Nat → List (Nat × Nat)) (w : Walk) : Prop :=
  ∀ a ∈ w.backArcs.toList, ∃ v u, LeadsBack arcs w a v u

/-- A step that only changes the list of the vertex on top, or pushes onto it, keeps what was said
of an arc that leads back. -/
theorem LeadsBack.push {a v u : Nat} (h : LeadsBack arcs w a v u)
    (hf : w'.finished = w.finished)
    (hs : ∀ above pending below, w.stack = above ++ (v, pending) :: below →
      ∃ above' pending', w'.stack = above' ++ (v, pending') :: below) :
    LeadsBack arcs w' a v u := by
  refine ⟨h.arc, h.cycle, ?_⟩
  rcases h.later with hl | ⟨above, pending, below, hst, hu⟩
  · exact .inl (by simpa only [hf, time] using hl)
  · obtain ⟨above', pending', hs'⟩ := hs above pending below hst
    exact .inr ⟨above', pending', below, hs', hu⟩

/-- Where a vertex stands on the stack does not depend on how many arcs the top has left. -/
theorem stack_split_advance {v : Nat} {p : Nat × Nat} {pending : List (Nat × Nat)}
    {rest : List (Nat × List (Nat × Nat))} (top : w.stack = (v, p :: pending) :: rest) {x : Nat}
    {above q below} (hx : w.stack = above ++ (x, q) :: below) :
    ∃ above' q', (v, pending) :: rest = above' ++ (x, q') :: below := by
  rw [top] at hx
  rcases above with _ | ⟨e, above⟩
  · simp only [List.nil_append, List.cons.injEq, Prod.mk.injEq] at hx
    obtain ⟨⟨rfl, rfl⟩, rfl⟩ := hx
    exact ⟨[], pending, rfl⟩
  · simp only [List.cons_append, List.cons.injEq] at hx
    obtain ⟨rfl, rfl⟩ := hx
    exact ⟨(v, pending) :: above, q, rfl⟩

/-- An arc that is noted leads back: its far end is on the stack, and the stack leads from there to
the vertex on top. -/
theorem BackNoted.step (hc : Coherent n arcs w) (hl : Linked arcs w) (h : BackNoted arcs w)
    (hs : Step arcs w w') : BackNoted arcs w' := by
  cases hs with
  | @finish v rest top =>
    intro a ha
    obtain ⟨x, u, hb⟩ := h a ha
    refine ⟨x, u, hb.arc, hb.cycle, ?_⟩
    rcases hb.later with ⟨hx, ht⟩ | ⟨above, p, below, hst, hu⟩
    · refine .inl ⟨by rw [finished_finish]; exact List.mem_append_left _ hx, ?_⟩
      rw [time_finish_of_mem rest hx]
      exact ht.trans (time_le_finish v u rest)
    · rw [top] at hst
      rcases above with _ | ⟨e, above⟩
      · -- the vertex on top is finished now, and what lies below it is not
        simp only [List.nil_append, List.cons.injEq, Prod.mk.injEq] at hst
        obtain ⟨⟨rfl, rfl⟩, rfl⟩ := hst
        have hv : v ∈ w.onStack := by simp [onStack, top]
        have huS : u ∈ w.onStack := by simpa [onStack, top] using hu
        refine .inl ⟨by rw [finished_finish]; simp, ?_⟩
        rw [time_finish_self rest (hc.not_mem_finished hv), ← time_of_not_mem
          (hc.not_mem_finished huS)]
        exact time_le_finish v u rest
      · simp only [List.cons_append, List.cons.injEq] at hst
        exact .inr ⟨above, p, below, hst.2, hu⟩
  | @enter v b x pending rest top mark =>
    intro a ha
    obtain ⟨y, u, hb⟩ := h a ha
    refine ⟨y, u, hb.push rfl fun above p below hst => ?_⟩
    obtain ⟨above', q, he⟩ := stack_split_advance top hst
    exact ⟨(x, arcs x) :: above', q, congrArg ((x, arcs x) :: ·) he⟩
  | @back v b x pending rest top mark =>
    intro a ha
    rw [backArcs_noteBack] at ha
    rcases List.mem_append.mp ha with ha | ha
    · obtain ⟨y, u, hb⟩ := h a ha
      exact ⟨y, u, hb.push rfl fun above p below hst => stack_split_advance top hst⟩
    · obtain rfl := List.mem_singleton.mp ha
      have hx : x ∈ v :: rest.map Prod.fst := by
        simpa [onStack, top] using (hc.started_iff x).mp mark
      have hst : w.onStack = v :: rest.map Prod.fst := by simp [onStack, top]
      refine ⟨v, x, ?_, reaches_top (hst ▸ hl) hx, .inr ⟨[], pending, rest, rfl, hx⟩⟩
      exact (hc.pending _ (by rw [top]; exact List.mem_cons_self)).subset List.mem_cons_self
  | @skip v b x pending rest top mark =>
    intro a ha
    obtain ⟨y, u, hb⟩ := h a ha
    exact ⟨y, u, hb.push rfl fun above p below hst => stack_split_advance top hst⟩

/-! ## The finishing order -/

/-- The arcs of a finished vertex lead to vertices finished before, or were noted to lead back. -/
def Ordered (arcs : Nat → List (Nat × Nat)) (w : Walk) : Prop :=
  ∀ v ∈ w.finished.toList, ∀ a u, (a, u) ∈ arcs v →
    w.time u < w.time v ∨ (a ∈ w.backArcs.toList ∧ w.time v ≤ w.time u)

/-- A step that finishes nothing keeps the order. -/
theorem Ordered.of_finished_eq (h : Ordered arcs w) (hf : w'.finished = w.finished)
    (hb : w.backArcs.toList ⊆ w'.backArcs.toList) : Ordered arcs w' := by
  intro v hv a u ha
  simp only [time, hf] at hv ⊢
  exact (h v hv a u ha).imp_right fun hr => ⟨hb hr.1, hr.2⟩

/-- When a vertex is finished, all of its arcs were looked at, and so their far ends are finished or
on the stack. -/
theorem Ordered.step (hc : Coherent n arcs w) (hacc : Accounted arcs w) (h : Ordered arcs w)
    (hs : Step arcs w w') : Ordered arcs w' := by
  cases hs with
  | @finish v rest top =>
    intro x hx a u ha
    rw [finished_finish] at hx
    rcases List.mem_append.mp hx with hx | hx
    · rw [time_finish_of_mem rest hx]
      rcases h x hx a u ha with hlt | ⟨hb, hle⟩
      · have hu : u ∈ w.finished.toList := time_lt_iff.mp (hlt.trans (time_lt_iff.mpr hx))
        exact .inl (by rwa [time_finish_of_mem rest hu])
      · exact .inr ⟨hb, hle.trans (time_le_finish v u rest)⟩
    · obtain rfl := List.mem_singleton.mp hx
      have hv : x ∈ w.onStack := by simp [onStack, top]
      rw [time_finish_self rest (hc.not_mem_finished hv)]
      -- all arcs of the vertex on top were looked at: the far ends are finished or on the stack
      rcases hacc [] x [] rest top a u ha with hp | hu | hu | ⟨hb, hu⟩
      · cases hp
      · exact .inl (by rw [time_finish_of_mem rest hu]; exact time_lt_iff.mpr hu)
      · cases hu
      · have hus : u ∈ w.onStack := by simpa [onStack, top] using hu
        refine .inr ⟨hb, ?_⟩
        rw [← time_of_not_mem (hc.not_mem_finished hus)]
        exact time_le_finish x u rest
  | enter top mark => exact h.of_finished_eq rfl (List.Subset.refl _)
  | back top mark =>
    exact h.of_finished_eq rfl (by rw [backArcs_noteBack]; exact List.subset_append_left _ _)
  | skip top mark => exact h.of_finished_eq rfl (List.Subset.refl _)

/-- What is known of a walk about its order. -/
structure Explored (arcs : Nat → List (Nat × Nat)) (w : Walk) : Prop where
  linked : Linked arcs w
  accounted : Accounted arcs w
  backNoted : BackNoted arcs w
  ordered : Ordered arcs w

/-- A vertex may be started whenever the stack is empty. -/
theorem Explored.start (h : Explored arcs w) (he : w.stack = []) (v : Nat) :
    Explored arcs (w.start arcs v none) := by
  refine ⟨?_, ?_, ?_, h.ordered.of_finished_eq rfl (List.Subset.refl _)⟩
  · simp [Linked, onStack, Walk.start, he]
  · intro above x p below hx a u ha
    have ht : (w.start arcs v none).stack = [(v, arcs v)] := by simp [Walk.start, he]
    rw [ht] at hx
    obtain ⟨rfl, hxe, rfl⟩ : above = [] ∧ (x, p) = (v, arcs v) ∧ below = [] := by
      rcases above with _ | ⟨e, above⟩
      · simpa using hx.symm
      · simp at hx
    cases hxe
    exact .inl ha
  · intro a ha
    obtain ⟨y, u, hb⟩ := h.backNoted a ha
    refine ⟨y, u, hb.push rfl fun above p below hst => ?_⟩
    exact absurd (he.symm.trans hst) (by simp)

/-- Every step keeps what is known about a walk: its stack is a path, its arcs are accounted for,
those noted lead back, and vertices are finished in order. -/
theorem Explored.step (hn : ∀ v < n, ∀ e ∈ arcs v, e.2 < n) (hc : Coherent n arcs w)
    (hs : Step arcs w w') (h : Explored arcs w) : Explored arcs w' :=
  ⟨h.linked.step hc hs, h.accounted.step hn hc hs, h.backNoted.step hc h.linked hs,
    h.ordered.step hc h.accounted hs⟩

/-- Nothing is finished and nothing noted at the start. -/
theorem explored_initial : Explored arcs (initial n) :=
  ⟨List.isChain_nil, fun above x p below hx => absurd hx (by simp [initial]), nofun, nofun⟩

/-- **Finishing order.** In a walk of the whole graph an arc leads to a vertex that is finished
before its near end, or it was noted. A noted arc closes a cycle and leads to a vertex that is
finished no earlier than its near end. -/
theorem all_finishing (hn : ∀ v < n, ∀ e ∈ arcs v, e.2 < n) :
    (∀ v < n, ∀ a u, (a, u) ∈ arcs v →
      (all n arcs).time u < (all n arcs).time v ∨ a ∈ (all n arcs).backArcs.toList) ∧
    ∀ a ∈ (all n arcs).backArcs.toList, ∃ v u, v < n ∧ (a, u) ∈ arcs v ∧
      Relation.ReflTransGen (Adjacent arcs) u v ∧ (all n arcs).time v ≤ (all n arcs).time u := by
  obtain ⟨hc, hE, he, hall⟩ := all_induct (P := Explored arcs) explored_initial
    (fun w v _ he _ h => h.start he v) (fun w w' hc hs h => h.step hn hc hs)
  refine ⟨fun v hv a u ha => (hE.ordered v (hall v hv) a u ha).imp_right And.left, fun a ha => ?_⟩
  obtain ⟨v, u, hb⟩ := hE.backNoted a ha
  rcases hb.later with ⟨hv, ht⟩ | ⟨above, p, below, hst, -⟩
  · exact ⟨v, u, hc.finished_lt v hv, hb.arc, hb.cycle, ht⟩
  · exact absurd (he.symm.trans hst) (by simp)

/-! ## Every arc is noted once -/

/-- A noted arc is listed once, and it is not among the arcs that are left. -/
structure NotedOnce (arcs : Nat → List (Nat × Nat)) (w : Walk) : Prop where
  nodup : w.backArcs.toList.Nodup
  used : ∀ a ∈ w.backArcs.toList, ∀ v u, (a, u) ∈ arcs v →
    v ∈ w.finished.toList ∨ ∃ pending, (v, pending) ∈ w.stack ∧ a ∉ pending.map Prod.fst

/-- What was said of a noted arc survives a step that takes an arc off the list of the top. -/
theorem NotedOnce.used_advance (h : NotedOnce arcs w) {v : Nat} {p : Nat × Nat}
    {pending : List (Nat × Nat)} {rest : List (Nat × List (Nat × Nat))}
    (top : w.stack = (v, p :: pending) :: rest) {a : Nat} (ha : a ∈ w.backArcs.toList) {x u : Nat}
    (hx : (a, u) ∈ arcs x) :
    x ∈ w.finished.toList ∨ ∃ q, (x, q) ∈ (v, pending) :: rest ∧ a ∉ q.map Prod.fst := by
  rcases h.used a ha x u hx with hf | ⟨q, hq, hnot⟩
  · exact .inl hf
  · rw [top] at hq
    rcases List.mem_cons.mp hq with he | hq
    · cases he
      exact .inr ⟨pending, List.mem_cons_self, fun hp => hnot (List.mem_cons_of_mem _ hp)⟩
    · exact .inr ⟨q, List.mem_cons_of_mem _ hq, hnot⟩

/-- An arc that is noted was still pending before, and is so no longer, so it is not noted again. -/
theorem NotedOnce.step (hu : ∀ v v' a u u', (a, u) ∈ arcs v → (a, u') ∈ arcs v' → v = v')
    (hd : ∀ v, ((arcs v).map Prod.fst).Nodup) (hc : Coherent n arcs w) (h : NotedOnce arcs w)
    (hs : Step arcs w w') : NotedOnce arcs w' := by
  cases hs with
  | @finish v rest top =>
    refine ⟨h.nodup, fun a ha x u hx => ?_⟩
    rw [finished_finish]
    rcases h.used a ha x u hx with hf | ⟨q, hq, hnot⟩
    · exact .inl (List.mem_append_left _ hf)
    · rw [top] at hq
      rcases List.mem_cons.mp hq with he | hq
      · cases he
        exact .inl (List.mem_append_right _ (List.mem_singleton_self v))
      · exact .inr ⟨q, hq, hnot⟩
  | @enter v b y pending rest top mark =>
    refine ⟨h.nodup, fun a ha x u hx => ?_⟩
    exact (h.used_advance top ha hx).imp_right fun ⟨q, hq, hnot⟩ =>
      ⟨q, List.mem_cons_of_mem _ hq, hnot⟩
  | @back v b y pending rest top mark =>
    have hsuf : (b, y) :: pending <:+ arcs v := hc.pending _ (by rw [top]; exact List.mem_cons_self)
    have hb : (b, y) ∈ arcs v := hsuf.subset List.mem_cons_self
    have hpend : b ∉ pending.map Prod.fst :=
      (List.nodup_cons.mp ((hsuf.sublist.map Prod.fst).nodup (hd v))).1
    constructor
    · -- the vertex on top still had this arc to look at, so it was not noted before
      rw [backArcs_noteBack]
      refine List.nodup_append.mpr ⟨h.nodup, List.nodup_singleton b, fun a ha c hcb hac => ?_⟩
      obtain rfl := List.mem_singleton.mp hcb
      subst hac
      have hv : v ∈ w.onStack := by simp [onStack, top]
      rcases h.used a ha v y hb with hf | ⟨q, hq, hnot⟩
      · exact hc.not_mem_finished hv hf
      · have hnd := hc.stack_nodup
        simp only [onStack, top, List.map_cons, List.nodup_cons] at hnd
        rw [top] at hq
        rcases List.mem_cons.mp hq with he | hq
        · cases he
          exact hnot List.mem_cons_self
        · exact hnd.1 (List.mem_map_of_mem (f := Prod.fst) hq)
    · intro a ha x u hx
      rw [backArcs_noteBack] at ha
      rcases List.mem_append.mp ha with ha | ha
      · exact h.used_advance top ha hx
      · obtain rfl := List.mem_singleton.mp ha
        obtain rfl := hu _ _ _ _ _ hx hb
        exact .inr ⟨pending, List.mem_cons_self, hpend⟩
  | @skip v b y pending rest top mark =>
    exact ⟨h.nodup, fun a ha x u hx => h.used_advance top ha hx⟩

/-- If every arc is listed once, at one vertex, a walk notes it at most once. -/
theorem all_backArcs_nodup (n : Nat)
    (hu : ∀ v v' a u u', (a, u) ∈ arcs v → (a, u') ∈ arcs v' → v = v')
    (hd : ∀ v, ((arcs v).map Prod.fst).Nodup) : (all n arcs).backArcs.toList.Nodup := by
  refine (all_induct (P := NotedOnce arcs) ⟨List.nodup_nil, nofun⟩ (fun w v _ he _ h => ?_)
    (fun w w' hc hs h => h.step hu hd hc hs)).2.1.nodup
  refine ⟨h.nodup, fun a ha x u hx => (h.used a ha x u hx).imp_right fun ⟨q, hq, _⟩ => ?_⟩
  exact absurd hq (by simp [he])

end Flowchart.Walk
