import Flowchart.Layered.Walk
import Flowchart.Proofs.Table
import Mathlib.Algebra.BigOperators.Group.Finset.Basic
import Mathlib.Algebra.GroupWithZero.Nat
import Mathlib.Algebra.Order.BigOperators.Group.Finset
import Mathlib.Data.List.Basic
import Mathlib.Logic.Relation

/-!
# The steps of a depth-first walk

A step of a walk does one of four things: it finishes the vertex on top of the stack, it enters a
vertex that was not met before, it notes an arc that leads back to an unfinished vertex, or it
passes over an arc to a finished one. `Step` lists them, and every property of walks is proved by
looking at these four cases only.

* `Coherent` ties the marks to the stack and to the finished vertices; it holds in every state.
* `potential` counts the steps that are left. It never grows, so the fuel of `run` suffices and
  every walk ends with an empty stack.
* `all_induct` and `fromRoot_induct` carry a property that steps preserve over a whole walk.
-/

namespace Flowchart.Walk

variable {arcs : Nat → List (Nat × Nat)} {n : Nat} {w w' : Walk}

/-! ## What a step does -/

/-- The vertices that are started and not finished, the innermost one first. -/
def onStack (w : Walk) : List Nat := w.stack.map Prod.fst

/-- The state after the vertex on top was finished. -/
def finish (w : Walk) (v : Nat) (rest : List (Nat × List (Nat × Nat))) : Walk :=
  { w with
    marks := w.marks.setIfInBounds v .done
    stack := rest
    finished := w.finished.push v }

/-- The state after an arc of the vertex on top was taken off its list. -/
def advance (w : Walk) (v : Nat) (pending : List (Nat × Nat))
    (rest : List (Nat × List (Nat × Nat))) : Walk :=
  { w with stack := (v, pending) :: rest }

/-- The state after an arc was noted to lead back. -/
def noteBack (w : Walk) (a : Nat) : Walk := { w with backArcs := w.backArcs.push a }

@[simp] theorem finished_finish (v : Nat) (rest : List (Nat × List (Nat × Nat))) :
    (w.finish v rest).finished.toList = w.finished.toList ++ [v] := by
  simp [finish]

@[simp] theorem stack_advance (v : Nat) (pending : List (Nat × Nat))
    (rest : List (Nat × List (Nat × Nat))) :
    (w.advance v pending rest).stack = (v, pending) :: rest := rfl

@[simp] theorem backArcs_noteBack (a : Nat) :
    (w.noteBack a).backArcs.toList = w.backArcs.toList ++ [a] := by
  simp [noteBack]

@[simp] theorem stack_noteBack (a : Nat) : (w.noteBack a).stack = w.stack := rfl

/-- The four things a step can do. -/
inductive Step (arcs : Nat → List (Nat × Nat)) (w : Walk) : Walk → Prop where
  /-- all arcs of the vertex on top were looked at -/
  | finish {v : Nat} {rest : List (Nat × List (Nat × Nat))} (top : w.stack = (v, []) :: rest) :
      Step arcs w (w.finish v rest)
  /-- the next arc leads to a vertex that was not met before -/
  | enter {v a u : Nat} {pending : List (Nat × Nat)} {rest : List (Nat × List (Nat × Nat))}
      (top : w.stack = (v, (a, u) :: pending) :: rest) (mark : w.mark u = .fresh) :
      Step arcs w ((w.advance v pending rest).start arcs u (some (a, v)))
  /-- the next arc leads to an unfinished vertex -/
  | back {v a u : Nat} {pending : List (Nat × Nat)} {rest : List (Nat × List (Nat × Nat))}
      (top : w.stack = (v, (a, u) :: pending) :: rest) (mark : w.mark u = .started) :
      Step arcs w ((w.advance v pending rest).noteBack a)
  /-- the next arc leads to a finished vertex -/
  | skip {v a u : Nat} {pending : List (Nat × Nat)} {rest : List (Nat × List (Nat × Nat))}
      (top : w.stack = (v, (a, u) :: pending) :: rest) (mark : w.mark u = .done) :
      Step arcs w (w.advance v pending rest)

/-- Unless the stack is empty, a step is one of the four: which of them it is depends on the arcs
that the vertex on top has left and on the mark of the vertex that the next of them leads to. -/
theorem step_spec (h : w.stack ≠ []) : Step arcs w (w.step arcs) := by
  rcases hs : w.stack with _ | ⟨⟨v, _ | ⟨⟨a, u⟩, pending⟩⟩, rest⟩
  · exact absurd hs h
  · have he : w.step arcs = w.finish v rest := by simp only [step, hs, finish]
    exact he ▸ Step.finish hs
  · have hm : (w.advance v pending rest).mark u = w.mark u := rfl
    rcases hu : w.mark u with _ | _ | _
    · have he : w.step arcs = (w.advance v pending rest).start arcs u (some (a, v)) := by
        simp only [step, hs]
        rw [← advance, hm, hu]
      exact he ▸ Step.enter hs hu
    · have he : w.step arcs = (w.advance v pending rest).noteBack a := by
        simp only [step, hs]
        rw [← advance, hm, hu]
        rfl
      exact he ▸ Step.back hs hu
    · have he : w.step arcs = w.advance v pending rest := by
        simp only [step, hs]
        rw [← advance, hm, hu]
      exact he ▸ Step.skip hs hu

/-! ## Marks -/

/-- A number beyond the vertices counts as done, so that no walk ever enters it. -/
theorem mark_of_le {v : Nat} (h : w.marks.size ≤ v) : w.mark v = .done := by
  simp [mark, Array.getD, Nat.not_lt.mpr h]

theorem lt_of_mark_ne {v : Nat} (h : w.mark v ≠ .done) : v < w.marks.size := by
  by_contra hv
  exact h (mark_of_le (Nat.le_of_not_lt hv))

/-- Finishing a vertex marks it as done and leaves all other marks alone. -/
theorem mark_finish (v : Nat) (rest : List (Nat × List (Nat × Nat))) (u : Nat) :
    (w.finish v rest).mark u = if u = v then .done else w.mark u := by
  simp only [mark, finish, Table.getD_set]
  by_cases hu : u = v
  · subst hu
    by_cases hv : u < w.marks.size
    · simp [hv]
    · rw [if_neg (fun h => hv h.2), if_pos rfl]
      exact mark_of_le (Nat.le_of_not_lt hv)
  · simp [hu]

/-- Starting a vertex marks it as started and leaves all other marks alone. -/
theorem mark_start (arcs : Nat → List (Nat × Nat)) {v : Nat} (hv : v < w.marks.size)
    (via : Option (Nat × Nat)) (u : Nat) :
    (w.start arcs v via).mark u = if u = v then .started else w.mark u := by
  simp only [mark, start, Table.getD_set, hv, and_true]

theorem mark_enter {v a u : Nat} {pending : List (Nat × Nat)}
    {rest : List (Nat × List (Nat × Nat))} (hu : w.mark u = .fresh) (x : Nat) :
    ((w.advance v pending rest).start arcs u (some (a, v))).mark x =
      if x = u then .started else w.mark x :=
  mark_start (w := w.advance v pending rest) arcs (lt_of_mark_ne (w := w) (hu ▸ nofun)) _ x

@[simp] theorem mark_advance (v : Nat) (pending : List (Nat × Nat))
    (rest : List (Nat × List (Nat × Nat))) (u : Nat) :
    (w.advance v pending rest).mark u = w.mark u := rfl

@[simp] theorem mark_noteBack (a u : Nat) : (w.noteBack a).mark u = w.mark u := rfl

/-- A vertex that was met stays met: a step makes no vertex fresh again. -/
theorem Step.mark_ne_fresh (h : Step arcs w w') {v : Nat} (hv : w.mark v ≠ .fresh) :
    w'.mark v ≠ .fresh := by
  cases h with
  | finish top =>
    rw [mark_finish]
    split
    · exact nofun
    · exact hv
  | enter top mark =>
    rw [mark_enter mark]
    split
    · exact nofun
    · exact hv
  | back top mark => exact hv
  | skip top mark => exact hv

/-! ## Marks, stack and finished vertices -/

/-- The marks say what the stack and the list of finished vertices say, and every vertex on the
stack has some last part of its arcs left. -/
structure Coherent (n : Nat) (arcs : Nat → List (Nat × Nat)) (w : Walk) : Prop where
  /-- every vertex has a mark -/
  size : w.marks.size = n
  /-- started vertices are those on the stack -/
  started_iff : ∀ v, w.mark v = .started ↔ v ∈ w.onStack
  /-- no vertex is on the stack twice -/
  stack_nodup : w.onStack.Nodup
  /-- done vertices are those listed as finished -/
  done_iff : ∀ v, v < n → (w.mark v = .done ↔ v ∈ w.finished.toList)
  /-- only vertices of the graph are finished -/
  finished_lt : ∀ v ∈ w.finished.toList, v < n
  /-- no vertex is finished twice -/
  finished_nodup : w.finished.toList.Nodup
  /-- the arcs left to a vertex are a last part of its arcs -/
  pending : ∀ e ∈ w.stack, e.2 <:+ arcs e.1

theorem Coherent.lt_of_mem_onStack (h : Coherent n arcs w) {v : Nat} (hv : v ∈ w.onStack) :
    v < n := by
  rw [← h.size]
  exact lt_of_mark_ne (((h.started_iff v).mpr hv) ▸ nofun)

/-- What is on the stack is not finished yet. -/
theorem Coherent.not_mem_finished (h : Coherent n arcs w) {v : Nat} (hv : v ∈ w.onStack) :
    v ∉ w.finished.toList := by
  intro hf
  have hd := (h.done_iff v (h.lt_of_mem_onStack hv)).mpr hf
  rw [(h.started_iff v).mpr hv] at hd
  cases hd

/-- A vertex that was not met is one of the vertices, since numbers beyond them count as done. -/
theorem Coherent.lt_of_fresh (h : Coherent n arcs w) {v : Nat} (hv : w.mark v = .fresh) :
    v < n := by
  rw [← h.size]
  exact lt_of_mark_ne (hv ▸ nofun)

/-- A vertex that was not met is not on the stack. -/
theorem Coherent.not_onStack_of_fresh (h : Coherent n arcs w) {v : Nat} (hv : w.mark v = .fresh) :
    v ∉ w.onStack := by
  rw [← h.started_iff, hv]
  exact nofun

/-- At the start nothing was met, the stack is empty and nothing is finished. -/
theorem coherent_initial : Coherent n arcs (initial n) := by
  refine ⟨by simp [initial], fun v => ?_, List.nodup_nil, fun v hv => ?_, nofun, List.nodup_nil,
    nofun⟩
  · simp only [mark, initial, Table.getD_replicate, onStack, List.map_nil, List.not_mem_nil,
      iff_false]
    split <;> exact nofun
  · simp [mark, initial, Array.getD, hv]

/-- Starting a vertex that was not met puts it on the stack, where the marks expect it. -/
theorem Coherent.start (h : Coherent n arcs w) {v : Nat} (hv : w.mark v = .fresh)
    (via : Option (Nat × Nat)) : Coherent n arcs (w.start arcs v via) := by
  have hlt := h.lt_of_fresh hv
  have hmark := mark_start arcs (h.size ▸ hlt : v < w.marks.size) via
  refine ⟨by simp [Walk.start, h.size], fun u => ?_, ?_, fun u hu => ?_, h.finished_lt,
    h.finished_nodup, ?_⟩
  · rw [hmark]
    by_cases hu : u = v <;> simp [hu, Walk.start, onStack, h.started_iff]
  · exact List.nodup_cons.mpr ⟨h.not_onStack_of_fresh hv, h.stack_nodup⟩
  · rw [hmark]
    by_cases huv : u = v
    · subst huv
      have hf : u ∉ w.finished.toList := by rw [← h.done_iff u hu, hv]; exact nofun
      simpa [Walk.start] using hf
    · simpa [huv, Walk.start] using h.done_iff u hu
  · intro e he
    rcases List.mem_cons.mp he with rfl | he
    · exact List.suffix_refl _
    · exact h.pending e he

/-- Taking an arc off the list of the vertex on top changes nothing the marks speak of. -/
theorem Coherent.advance (h : Coherent n arcs w) {v : Nat} {p : Nat × Nat}
    {pending : List (Nat × Nat)} {rest : List (Nat × List (Nat × Nat))}
    (top : w.stack = (v, p :: pending) :: rest) : Coherent n arcs (w.advance v pending rest) := by
  have hs : (w.advance v pending rest).onStack = w.onStack := by
    simp [onStack, Walk.advance, top]
  refine ⟨h.size, fun u => hs ▸ h.started_iff u, hs ▸ h.stack_nodup, h.done_iff, h.finished_lt,
    h.finished_nodup, fun e he => ?_⟩
  rcases List.mem_cons.mp he with rfl | he
  · exact (List.suffix_cons p pending).trans (h.pending (v, p :: pending) (by simp [top]))
  · exact h.pending e (by simp [top, he])

/-- Finishing the vertex on top moves it from the stack to the finished vertices, where the marks
then expect it. -/
theorem Coherent.finish (h : Coherent n arcs w) {v : Nat} {rest : List (Nat × List (Nat × Nat))}
    (top : w.stack = (v, []) :: rest) : Coherent n arcs (w.finish v rest) := by
  have hs : w.onStack = v :: (w.finish v rest).onStack := by
    simp [onStack, Walk.finish, top]
  have hnd : v ∉ (w.finish v rest).onStack ∧ (w.finish v rest).onStack.Nodup :=
    List.nodup_cons.mp (hs ▸ h.stack_nodup)
  have hv : v ∈ w.onStack := by simp [hs]
  refine ⟨by simp [Walk.finish, h.size], fun u => ?_, hnd.2, fun u hu => ?_, ?_, ?_, fun e he => ?_⟩
  · rw [mark_finish]
    by_cases hu : u = v
    · subst hu
      simpa using hnd.1
    · simp [hu, h.started_iff u, hs]
  · rw [mark_finish]
    by_cases huv : u = v
    · simp [huv, Walk.finish]
    · simpa [huv, Walk.finish] using h.done_iff u hu
  · intro u hu
    rcases List.mem_append.mp (finished_finish v rest ▸ hu) with hu | hu
    · exact h.finished_lt u hu
    · exact List.mem_singleton.mp hu ▸ h.lt_of_mem_onStack hv
  · simpa [Walk.finish, List.nodup_append, h.finished_nodup] using
      fun a ha => (ne_of_mem_of_not_mem ha (by simpa using h.not_mem_finished hv))
  · exact h.pending e (top ▸ List.mem_cons_of_mem _ he)

/-- Every step keeps marks, stack and finished vertices in line. -/
theorem Coherent.step (h : Coherent n arcs w) (hs : Step arcs w w') : Coherent n arcs w' := by
  cases hs with
  | finish top => exact h.finish top
  | enter top mark => exact (h.advance top).start mark _
  | back top mark =>
    have ha := h.advance top
    exact ⟨ha.size, ha.started_iff, ha.stack_nodup, ha.done_iff, ha.finished_lt, ha.finished_nodup,
      ha.pending⟩
  | skip top mark => exact h.advance top

/-! ## Every walk ends -/

/-- The steps that a vertex which was not met yet will take: one for each arc and one to finish. -/
def freshSteps (n : Nat) (arcs : Nat → List (Nat × Nat)) (w : Walk) : Nat :=
  ∑ v ∈ Finset.range n, if w.mark v = .fresh then (arcs v).length + 1 else 0

/-- The steps that are left to a walk if it meets every vertex. -/
def potential (n : Nat) (arcs : Nat → List (Nat × Nat)) (w : Walk) : Nat :=
  freshSteps n arcs w + (w.stack.map fun e => e.2.length + 1).sum

theorem freshSteps_advance (v : Nat) (pending : List (Nat × Nat))
    (rest : List (Nat × List (Nat × Nat))) :
    freshSteps n arcs (w.advance v pending rest) = freshSteps n arcs w := rfl

theorem freshSteps_noteBack (a : Nat) : freshSteps n arcs (w.noteBack a) = freshSteps n arcs w :=
  rfl

/-- A vertex that is started takes the steps for its arcs, and the one that finishes it, out of
those for vertices that were not met. -/
theorem freshSteps_start (h : Coherent n arcs w) {v : Nat} (hv : w.mark v = .fresh)
    (via : Option (Nat × Nat)) :
    freshSteps n arcs (w.start arcs v via) + ((arcs v).length + 1) = freshSteps n arcs w := by
  have hmem : v ∈ Finset.range n := Finset.mem_range.mpr (h.lt_of_fresh hv)
  have hmark := mark_start arcs (h.size ▸ h.lt_of_fresh hv : v < w.marks.size) via
  unfold freshSteps
  rw [← Finset.add_sum_erase _ _ hmem, ← Finset.add_sum_erase _ _ hmem, hmark, if_pos rfl, hv,
    if_pos rfl, if_neg nofun, Nat.zero_add, Nat.add_comm]
  congr 1
  refine Finset.sum_congr rfl fun u hu => ?_
  rw [hmark, if_neg (Finset.ne_of_mem_erase hu)]

/-- Starting a vertex changes no more than where its steps are counted: from now on they are counted
on the stack. -/
theorem potential_start (h : Coherent n arcs w) {v : Nat} (hv : w.mark v = .fresh)
    (via : Option (Nat × Nat)) : potential n arcs (w.start arcs v via) = potential n arcs w := by
  have hs := freshSteps_start h hv via
  simp only [potential, start, List.map_cons, List.sum_cons] at hs ⊢
  omega

/-- Finishing a vertex leaves the vertices alone that were not met. -/
theorem freshSteps_finish (h : Coherent n arcs w) {v : Nat} {rest : List (Nat × List (Nat × Nat))}
    (top : w.stack = (v, []) :: rest) :
    freshSteps n arcs (w.finish v rest) = freshSteps n arcs w := by
  have hv : w.mark v = .started := (h.started_iff v).mpr (by simp [onStack, top])
  refine Finset.sum_congr rfl fun u _ => ?_
  rw [mark_finish]
  by_cases hu : u = v
  · simp [hu, hv]
  · simp [hu]

/-- **Every step counts**: it uses up one of the steps that are left. -/
theorem Step.potential (h : Coherent n arcs w) (hs : Step arcs w w') :
    potential n arcs w' + 1 = potential n arcs w := by
  cases hs with
  | finish top =>
    rw [Walk.potential, freshSteps_finish h top, Walk.potential, top]
    simp only [Walk.finish, List.map_cons, List.length_nil, List.sum_cons]
    omega
  | enter top mark =>
    rw [potential_start (h.advance top) mark, Walk.potential, freshSteps_advance,
      Walk.potential, top]
    simp only [stack_advance, List.map_cons, List.length_cons, List.sum_cons]
    omega
  | back top mark =>
    rw [Walk.potential, freshSteps_noteBack, freshSteps_advance, Walk.potential, top]
    simp only [stack_noteBack, stack_advance, List.map_cons, List.length_cons, List.sum_cons]
    omega
  | skip top mark =>
    rw [Walk.potential, freshSteps_advance, Walk.potential, top]
    simp only [stack_advance, List.map_cons, List.length_cons, List.sum_cons]
    omega

/-- The fuel of a whole walk is one step for each arc of each vertex and one for finishing the
vertex. -/
theorem stepBound_eq (n : Nat) (arcs : Nat → List (Nat × Nat)) :
    stepBound n arcs = ∑ v ∈ Finset.range n, ((arcs v).length + 1) := by
  have hfold : ∀ (l : List Nat) (t : Nat),
      l.foldl (fun total v => total + (arcs v).length + 1) t =
        t + (l.map fun v => (arcs v).length + 1).sum := by
    intro l
    induction l with
    | nil => simp
    | cons v l ih =>
      intro t
      rw [List.foldl_cons, ih, List.map_cons, List.sum_cons]
      omega
  rw [stepBound, hfold, Nat.zero_add]
  induction n with
  | zero => rfl
  | succ n ih =>
    rw [List.range_succ, List.map_append, List.sum_append, ih, Finset.sum_range_succ]
    simp

/-- At the start all steps are left, so the potential is the bound on the number of steps. -/
theorem potential_initial : potential n arcs (initial n) = stepBound n arcs := by
  rw [stepBound_eq, potential, freshSteps]
  have hm : ∀ v ∈ Finset.range n, (initial n).mark v = .fresh := by
    intro v hv
    rw [mark, initial, Table.getD_replicate, if_pos (Finset.mem_range.mp hv)]
  rw [Finset.sum_congr rfl fun v hv => if_pos (hm v hv)]
  simp [initial]

/-! ## Properties of whole walks -/

section Induction

variable {P : Walk → Prop}

/-- What steps preserve, a run preserves. A run with enough fuel empties the stack: the potential
falls by one in every step and so bounds the fuel that is needed, on which the induction is. -/
theorem run_induct (hstep : ∀ w w', Coherent n arcs w → Step arcs w w' → P w → P w') :
    ∀ (fuel : Nat) (w : Walk), Coherent n arcs w → P w →
      Coherent n arcs (run arcs fuel w) ∧ P (run arcs fuel w) ∧
        potential n arcs (run arcs fuel w) ≤ potential n arcs w ∧
        (∀ v, w.mark v ≠ .fresh → (run arcs fuel w).mark v ≠ .fresh) ∧
        (potential n arcs w ≤ fuel → (run arcs fuel w).stack = []) := by
  -- the induction is on the fuel; the potential falls by one in every step, so it is a bound for it
  intro fuel
  induction fuel with
  | zero =>
    intro w h hP
    refine ⟨h, hP, le_refl _, fun _ hv => hv, fun hp => ?_⟩
    rcases hs : w.stack with _ | ⟨e, rest⟩
    · exact hs
    · rw [potential, hs, List.map_cons, List.sum_cons] at hp
      omega
  | succ fuel ih =>
    intro w h hP
    by_cases he : w.stack.isEmpty
    · rw [run, if_pos he]
      exact ⟨h, hP, le_refl _, fun _ hv => hv, fun _ => List.isEmpty_iff.mp he⟩
    · rw [run, if_neg he]
      have hs : Step arcs w (w.step arcs) := step_spec fun hn => he (List.isEmpty_iff.mpr hn)
      have hpot := hs.potential h
      obtain ⟨hc, hp, hle, hm, hend⟩ := ih _ (h.step hs) (hstep _ _ h hs hP)
      exact ⟨hc, hp, by omega, fun v hv => hm v (hs.mark_ne_fresh hv), fun hf => hend (by omega)⟩

/-- A visit to a vertex while nothing is on the stack: steps carry the property, the stack is empty
again, and the vertex was met. -/
theorem visit_induct (hstart : ∀ w v, Coherent n arcs w → w.stack = [] → w.mark v = .fresh → P w →
      P (w.start arcs v none))
    (hstep : ∀ w w', Coherent n arcs w → Step arcs w w' → P w → P w')
    {bound : Nat} (h : Coherent n arcs w) (hP : P w) (he : w.stack = [])
    (hb : potential n arcs w ≤ bound) (v : Nat) :
    let w' := visit arcs bound w v
    Coherent n arcs w' ∧ P w' ∧ w'.stack = [] ∧ potential n arcs w' ≤ bound ∧
      w'.mark v ≠ .fresh ∧ ∀ u, w.mark u ≠ .fresh → w'.mark u ≠ .fresh := by
  intro w'
  by_cases hv : w.mark v = .fresh
  · have hw' : w' = run arcs bound (w.start arcs v none) := by
      simp only [w', visit, hv]
    have hpot := potential_start h hv none
    obtain ⟨hc, hp, hle, hm, hend⟩ := run_induct hstep bound _ (h.start hv none)
      (hstart w v h he hv hP)
    have hmark := mark_start arcs (h.size ▸ h.lt_of_fresh hv : v < w.marks.size) none
    rw [hw']
    refine ⟨hc, hp, hend (by omega), by omega, hm v ?_, fun u hu => hm u ?_⟩
    · rw [hmark, if_pos rfl]
      exact nofun
    · rw [hmark]
      split
      · exact nofun
      · exact hu
  · have hw' : w' = w := by simp only [w', visit]
    rw [hw']
    exact ⟨h, hP, he, hb, hv, fun _ hu => hu⟩

/-- **A walk of the whole graph** carries what its steps preserve and finishes every vertex. One
visit follows the other, each with the stack empty again and the potential no larger; and in the end
a vertex that was met is finished, since one that is only started would be on the stack. -/
theorem all_induct (hinit : P (initial n))
    (hstart : ∀ w v, Coherent n arcs w → w.stack = [] → w.mark v = .fresh → P w →
      P (w.start arcs v none))
    (hstep : ∀ w w', Coherent n arcs w → Step arcs w w' → P w → P w') :
    Coherent n arcs (all n arcs) ∧ P (all n arcs) ∧ (all n arcs).stack = [] ∧
      ∀ v, v < n → v ∈ (all n arcs).finished.toList := by
  -- one visit after the other, each with the stack empty again and the potential no larger
  have hfold : ∀ (l : List Nat) (w : Walk), Coherent n arcs w → P w → w.stack = [] →
      potential n arcs w ≤ stepBound n arcs →
      let w' := l.foldl (visit arcs (stepBound n arcs)) w
      Coherent n arcs w' ∧ P w' ∧ w'.stack = [] ∧ (∀ v ∈ l, w'.mark v ≠ .fresh) ∧
        ∀ u, w.mark u ≠ .fresh → w'.mark u ≠ .fresh := by
    intro l
    induction l with
    | nil => exact fun w h hP he _ => ⟨h, hP, he, nofun, fun _ hu => hu⟩
    | cons v l ih =>
      intro w h hP he hb
      obtain ⟨hc, hp, he', hb', hv, hm⟩ := visit_induct hstart hstep h hP he hb v
      obtain ⟨hc', hp', he'', hl, hm'⟩ := ih _ hc hp he' hb'
      refine ⟨hc', hp', he'', fun u hu => ?_, fun u hu => hm' u (hm u hu)⟩
      rcases List.mem_cons.mp hu with rfl | hu
      · exact hm' u hv
      · exact hl u hu
  obtain ⟨hc, hp, he, hl, -⟩ := hfold (List.range n) (initial n) coherent_initial hinit rfl
    (le_of_eq potential_initial)
  change Coherent n arcs (all n arcs) at hc
  refine ⟨hc, hp, he, fun v hv => (hc.done_iff v hv).mp ?_⟩
  -- every vertex was met, and a vertex that is only started would be on the stack
  rcases hm : (all n arcs).mark v with _ | _ | _
  · exact absurd hm (hl v (List.mem_range.mpr hv))
  · exact absurd ((hc.started_iff v).mp hm)
      (by simp [onStack, show (all n arcs).stack = [] from he])
  · rfl

/-- A walk from one vertex carries what its steps preserve from the start of that vertex on. -/
theorem fromRoot_induct {root : Nat} (hroot : root < n)
    (hstart : P ((initial n).start arcs root none))
    (hstep : ∀ w w', Coherent n arcs w → Step arcs w w' → P w → P w') :
    Coherent n arcs (from_ n arcs root) ∧ P (from_ n arcs root) ∧
      (from_ n arcs root).stack = [] := by
  have hm : (initial n).mark root = .fresh := by
    rw [mark, initial, Table.getD_replicate, if_pos hroot]
  have hrun : from_ n arcs root =
      run arcs (stepBound n arcs) ((initial n).start arcs root none) := by
    simp only [from_, visit, hm]
  obtain ⟨hc, hp, -, -, hend⟩ := run_induct hstep (stepBound n arcs) _
    (coherent_initial.start hm none) hstart
  rw [hrun]
  exact ⟨hc, hp, hend (by rw [potential_start coherent_initial hm, potential_initial])⟩

end Induction

/-- A walk of the whole graph finishes every vertex. -/
theorem mem_finished_all (arcs : Nat → List (Nat × Nat)) {v : Nat} (hv : v < n) :
    v ∈ (all n arcs).finished.toList :=
  (all_induct (P := fun _ => True) trivial (fun _ _ _ _ _ _ => trivial)
    (fun _ _ _ _ _ => trivial)).2.2.2 v hv

/-- A walk of the whole graph ends in a coherent state. -/
theorem coherent_all (n : Nat) (arcs : Nat → List (Nat × Nat)) : Coherent n arcs (all n arcs) :=
  (all_induct (P := fun _ => True) trivial (fun _ _ _ _ _ _ => trivial)
    (fun _ _ _ _ _ => trivial)).1

end Flowchart.Walk
