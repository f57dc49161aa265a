import Flowchart.Proofs.DepthFirst.Finishing

/-!
# The tree of a walk

A walk enters every vertex but the root through an arc of a vertex on top of the stack, its
parent. The number of vertices finished before the start of a vertex and its own finishing time
bound an interval, and the intervals tell which vertices lie below which: the time of `x` lies in
the interval of `c` exactly if `x` is `c` or its parent lies below `c`.

* `Charted` ties the starts to the stack and to the finishing times; it holds in every state.
* `Charted.within_iff` is the equation for the intervals.
* `from_charted` collects what holds after a walk from one vertex.
-/

namespace Flowchart.Walk

variable {arcs : Nat → List (Nat × Nat)} {n : Nat} {w w' : Walk}

/-- The vertices in the order in which they were started. -/
def started (w : Walk) : List Nat := w.starts.toList.map Start.vertex

/-- How many vertices were started before this one. -/
def turn (w : Walk) (v : Nat) : Nat := w.started.idxOf v

/-- No time is later than that of a vertex which is not finished. -/
theorem time_le_length (w : Walk) (v : Nat) : w.time v ≤ w.finished.toList.length :=
  List.idxOf_le_length

/-- Vertices are told apart by when they were started. -/
theorem turn_inj {u v : Nat} (hu : u ∈ w.started) (h : w.turn u = w.turn v) : u = v :=
  (List.idxOf_inj hu).mp h

/-- A vertex with a record of its start is among those that were started. -/
theorem mem_started {s : Start} (hs : s ∈ w.starts.toList) : s.vertex ∈ w.started :=
  List.mem_map_of_mem hs

/-- A vertex that was started has a turn among those that were. -/
theorem turn_lt_length {v : Nat} (hv : v ∈ w.started) : w.turn v < w.started.length :=
  List.idxOf_lt_length_of_mem hv

/-! ## Starts -/

@[simp] theorem starts_start (v : Nat) (via : Option (Nat × Nat)) :
    (w.start arcs v via).starts.toList = w.starts.toList ++ [⟨v, via, w.finished.size⟩] := by
  simp [start]

/-- A vertex that is started comes after those that were started before. -/
theorem started_start (v : Nat) (via : Option (Nat × Nat)) :
    (w.start arcs v via).started = w.started ++ [v] := by
  simp [started]

theorem onStack_start (v : Nat) (via : Option (Nat × Nat)) :
    (w.start arcs v via).onStack = v :: w.onStack := rfl

/-- Those that were started before keep their turns. -/
theorem turn_start_of_mem {v u : Nat} {via : Option (Nat × Nat)} (hu : u ∈ w.started) :
    (w.start arcs v via).turn u = w.turn u := by
  rw [turn, started_start, List.idxOf_append_of_mem hu, turn]

/-- A vertex that is started gets the next turn. -/
theorem turn_start_self {v : Nat} {via : Option (Nat × Nat)} (hv : v ∉ w.started) :
    (w.start arcs v via).turn v = w.started.length := by
  rw [turn, started_start, List.idxOf_append_of_notMem hv]
  simp

/-! ## The invariant -/

/-- A vertex was entered through the arc `a` of the vertex `p`: `p` was started before and not
finished yet, and whatever was started in between was finished again. -/
structure Entered (arcs : Nat → List (Nat × Nat)) (w : Walk) (s : Start) (a p : Nat) : Prop where
  arc : (a, s.vertex) ∈ arcs p
  mem : p ∈ w.started
  turn_lt : w.turn p < w.turn s.vertex
  before_le : s.finishedBefore ≤ w.time p
  between : ∀ c ∈ w.started, w.turn p < w.turn c → w.turn c < w.turn s.vertex →
    w.time c < s.finishedBefore

/-- What the record of the starts says in every state of a walk. -/
structure Charted (arcs : Nat → List (Nat × Nat)) (w : Walk) : Prop where
  /-- the vertices started are those on the stack and those finished -/
  mem_iff : ∀ v, v ∈ w.started ↔ v ∈ w.onStack ∨ v ∈ w.finished.toList
  /-- no vertex is started twice -/
  nodup : w.started.Nodup
  /-- a vertex on the stack was started after those below it -/
  stack : w.onStack.Pairwise fun top below => w.turn below < w.turn top
  /-- the interval of a vertex is not empty -/
  before_le : ∀ s ∈ w.starts.toList, s.finishedBefore ≤ w.time s.vertex
  /-- of two intervals the later one starts after the other has ended, or lies in it -/
  nested : ∀ s ∈ w.starts.toList, ∀ s' ∈ w.starts.toList, w.turn s.vertex < w.turn s'.vertex →
    s.finishedBefore ≤ s'.finishedBefore ∧
      (w.time s.vertex < s'.finishedBefore ∨ w.time s'.vertex ≤ w.time s.vertex)
  entered : ∀ s ∈ w.starts.toList, ∀ a p, s.via = some (a, p) → Entered arcs w s a p

/-- Only starts, finished vertices and the stack matter. -/
theorem Charted.congr (h : Charted arcs w) (hs : w'.starts = w.starts)
    (hf : w'.finished = w.finished) (ho : w'.onStack = w.onStack) : Charted arcs w' := by
  have hstarted : w'.started = w.started := by rw [started, hs, started]
  have hturn : w'.turn = w.turn := by funext v; rw [turn, hstarted, turn]
  have htime : w'.time = w.time := by funext v; rw [time, hf, time]
  refine ⟨?_, ?_, ?_, ?_, ?_, fun s hmem a p hv => ?_⟩
  · rw [hstarted, ho, hf]
    exact h.mem_iff
  · exact hstarted ▸ h.nodup
  · rw [ho, hturn]
    exact h.stack
  · rw [hs, htime]
    exact h.before_le
  · rw [hs, hturn, htime]
    exact h.nested
  · obtain ⟨harc, hp, hlt, hle, hbetween⟩ := h.entered s (hs ▸ hmem) a p hv
    refine ⟨harc, hstarted ▸ hp, hturn ▸ hlt, htime ▸ hle, ?_⟩
    rw [hstarted, hturn, htime]
    exact hbetween

/-- At the start there is no record to be kept in order. -/
theorem charted_initial : Charted arcs (initial n) :=
  ⟨fun v => by simp [started, initial, onStack], List.nodup_nil, .nil, nofun, nofun, nofun⟩

/-- How an old vertex was entered does not change when a vertex is started. -/
theorem Entered.start {s : Start} {a p u : Nat} (h : Entered arcs w s a p)
    (hvertex : s.vertex ∈ w.started) (hu : u ∉ w.started) (via : Option (Nat × Nat)) :
    Entered arcs (w.start arcs u via) s a p := by
  have hold : ∀ v ∈ w.started, (w.start arcs u via).turn v = w.turn v := fun v hv =>
    turn_start_of_mem hv
  obtain ⟨harc, hp, hlt, hbefore, hbetween⟩ := h
  refine ⟨harc, ?_, ?_, hbefore, fun c hc hpc hcs => ?_⟩
  · exact started_start u via ▸ List.mem_append_left _ hp
  · rwa [hold _ hp, hold _ hvertex]
  · rw [hold _ hp] at hpc
    rw [hold _ hvertex] at hcs
    rw [started_start] at hc
    rcases List.mem_append.mp hc with hc | hc
    · rw [hold _ hc] at hpc hcs
      exact hbetween c hc hpc hcs
    · -- the new vertex is the last one, so it was not started in between
      obtain rfl := List.mem_singleton.mp hc
      rw [turn_start_self hu] at hcs
      exact absurd (turn_lt_length hvertex) (Nat.not_lt.mpr hcs.le)

/-- A vertex that is started through an arc of the vertex on top was entered from there. -/
theorem Charted.entered_start (h : Charted arcs w) {a p u : Nat} {rest : List Nat}
    (hu : u ∉ w.started) (harc : (a, u) ∈ arcs p) (hpf : p ∉ w.finished.toList)
    (hrest : w.onStack = p :: rest) (via : Option (Nat × Nat)) :
    Entered arcs (w.start arcs u via) ⟨u, via, w.finished.size⟩ a p := by
  have hp : p ∈ w.started := (h.mem_iff p).mpr (.inl (hrest ▸ List.mem_cons_self))
  have hturn : (w.start arcs u via).turn p = w.turn p := turn_start_of_mem hp
  refine ⟨harc, ?_, ?_, ?_, fun c hc hpc hcu => ?_⟩
  · exact started_start u via ▸ List.mem_append_left _ hp
  · rw [turn_start_self hu, hturn]
    exact turn_lt_length hp
  · exact Array.length_toList ▸ (time_of_not_mem hpf).ge
  · -- what was started after the vertex on top is not on the stack any more
    rw [started_start] at hc
    rcases List.mem_append.mp hc with hc | hc
    · rw [turn_start_of_mem hc, hturn] at hpc
      refine Array.length_toList ▸ time_lt_iff.mpr
        (((h.mem_iff c).mp hc).resolve_left fun hcs => ?_)
      have hsorted := h.stack
      rw [hrest] at hcs hsorted
      rcases List.mem_cons.mp hcs with rfl | hcs
      · exact Nat.lt_irrefl _ hpc
      · exact Nat.lt_asymm hpc ((List.pairwise_cons.mp hsorted).1 c hcs)
    · obtain rfl := List.mem_singleton.mp hc
      exact absurd hcu (Nat.lt_irrefl _)

/-- A vertex may be started as a root, or through an arc of the vertex on top. -/
theorem Charted.start (h : Charted arcs w) {u : Nat} (hstack : u ∉ w.onStack)
    (hfin : u ∉ w.finished.toList) {via : Option (Nat × Nat)}
    (hvia : ∀ a p, via = some (a, p) →
      (a, u) ∈ arcs p ∧ p ∉ w.finished.toList ∧ ∃ rest, w.onStack = p :: rest) :
    Charted arcs (w.start arcs u via) := by
  have hnot : u ∉ w.started := fun hu => ((h.mem_iff u).mp hu).elim hstack hfin
  have htime : (w.start arcs u via).time = w.time := rfl
  have hself : (w.start arcs u via).turn u = w.started.length := turn_start_self hnot
  have hold : ∀ v ∈ w.started, (w.start arcs u via).turn v = w.turn v := fun v hv =>
    turn_start_of_mem hv
  have hlen : w.finished.toList.length = w.finished.size := Array.length_toList
  have hon : ∀ v ∈ w.onStack, v ∈ w.started := fun v hv => (h.mem_iff v).mpr (.inl hv)
  refine ⟨fun v => ?_, ?_, ?_, fun s hs => ?_, fun s hs s' hs' hlt => ?_, fun s hs a p hv => ?_⟩
  · rw [started_start, List.mem_append, List.mem_singleton, onStack_start, List.mem_cons, h.mem_iff]
    exact ⟨by tauto, by tauto⟩
  · rw [started_start]
    exact List.concat_eq_append ▸ List.Nodup.concat hnot h.nodup
  · refine List.pairwise_cons.mpr ⟨fun v hv => ?_, h.stack.imp_of_mem fun hv hv' hlt => ?_⟩
    · rw [hself, hold v (hon v hv)]
      exact turn_lt_length (hon v hv)
    · rwa [hold _ (hon _ hv), hold _ (hon _ hv')]
  · rw [starts_start] at hs
    rcases List.mem_append.mp hs with hs | hs
    · exact h.before_le s hs
    · obtain rfl := List.mem_singleton.mp hs
      rw [htime, time_of_not_mem hfin, hlen]
  · rw [starts_start] at hs hs'
    rw [htime]
    rcases List.mem_append.mp hs' with hs' | hs'
    · rcases List.mem_append.mp hs with hs | hs
      · rw [hold _ (mem_started hs), hold _ (mem_started hs')] at hlt
        exact h.nested s hs s' hs' hlt
      · -- the new start is the last one
        obtain rfl := List.mem_singleton.mp hs
        rw [hself, hold _ (mem_started hs')] at hlt
        exact absurd (turn_lt_length (mem_started hs')) (Nat.not_lt.mpr hlt.le)
    · obtain rfl := List.mem_singleton.mp hs'
      rcases List.mem_append.mp hs with hs | hs
      · refine ⟨hlen ▸ (h.before_le s hs).trans (time_le_length w _), ?_⟩
        by_cases hf : s.vertex ∈ w.finished.toList
        · exact .inl (hlen ▸ time_lt_iff.mpr hf)
        · exact .inr (by rw [time_of_not_mem hfin, time_of_not_mem hf])
      · obtain rfl := List.mem_singleton.mp hs
        exact absurd hlt (Nat.lt_irrefl _)
  · rw [starts_start] at hs
    rcases List.mem_append.mp hs with hs | hs
    · exact (h.entered s hs a p hv).start (mem_started hs) hnot via
    · obtain rfl := List.mem_singleton.mp hs
      obtain ⟨harc, hpf, rest, hrest⟩ := hvia a p hv
      exact h.entered_start hnot harc hpf hrest via

/-- A vertex started after the one on top is not on the stack. -/
theorem Charted.mem_finished_of_turn_lt (h : Charted arcs w) {v u : Nat} {below : List Nat}
    (hst : w.onStack = v :: below) (hu : u ∈ w.started) (hlt : w.turn v < w.turn u) :
    u ∈ w.finished.toList := by
  refine ((h.mem_iff u).mp hu).resolve_left fun hmem => ?_
  have hsorted := h.stack
  rw [hst] at hmem hsorted
  obtain rfl | hmem := List.mem_cons.mp hmem
  · exact Nat.lt_irrefl _ hlt
  · exact Nat.lt_asymm hlt ((List.pairwise_cons.mp hsorted).1 _ hmem)

/-- An interval inside of another one stays there when the vertex on top is finished: if both are
still open then, the outer one is not that vertex. -/
theorem Charted.time_le_time_finish (h : Charted arcs w) {v u u' : Nat}
    {rest : List (Nat × List (Nat × Nat))} (hst : w.onStack = v :: rest.map Prod.fst)
    (hvf : v ∉ w.finished.toList) (hu' : u' ∈ w.started) (hlt : w.turn u < w.turn u')
    (hin : w.time u' ≤ w.time u) : (w.finish v rest).time u' ≤ (w.finish v rest).time u := by
  by_cases hdone : w.time u' < w.finished.toList.length ∨ u' = v
  · rw [time_finish_of_lt_or_eq rest hvf hdone]
    exact hin.trans (time_le_finish v u rest)
  · obtain ⟨hu'f, hu'v⟩ := not_or.mp hdone
    rw [time_lt_iff] at hu'f
    have huf : u ∉ w.finished.toList := by
      rw [← time_lt_iff, Nat.not_lt]
      exact (time_of_not_mem hu'f).symm.le.trans hin
    have huv : u ≠ v := by
      rintro rfl
      exact hu'f (h.mem_finished_of_turn_lt hst hu' hlt)
    rw [time_finish_of_not_mem rest hu'f hu'v, time_finish_of_not_mem rest huf huv]

/-- The vertex on top may be finished. A vertex that was finished, now or before, has its time for
good. -/
theorem Charted.finish (h : Charted arcs w) (hc : Coherent n arcs w) {v : Nat}
    {rest : List (Nat × List (Nat × Nat))} (top : w.stack = (v, []) :: rest) :
    Charted arcs (w.finish v rest) := by
  have hst : w.onStack = v :: (w.finish v rest).onStack := by simp [onStack, Walk.finish, top]
  have hv : v ∈ w.onStack := hst ▸ List.mem_cons_self
  have hvf := hc.not_mem_finished hv
  have hle := fun u => time_le_finish (w := w) v u rest
  have hold : ∀ {s u}, s ∈ w.starts.toList → w.time u < s.finishedBefore →
      (w.finish v rest).time u = w.time u := fun hs hu => time_finish_of_lt_or_eq rest hvf
    (.inl (hu.trans_le ((h.before_le _ hs).trans (time_le_length w _))))
  refine ⟨fun u => ?_, h.nodup, ?_, fun s hs => (h.before_le s hs).trans (hle _), ?_, ?_⟩
  · rw [finished_finish, List.mem_append, List.mem_singleton]
    have := h.mem_iff u
    rw [hst, List.mem_cons] at this
    exact this.trans ⟨by tauto, by tauto⟩
  · have hsorted := h.stack
    rw [hst] at hsorted
    exact (List.pairwise_cons.mp hsorted).2
  · intro s hs s' hs' hlt
    obtain ⟨hbefore, hcases⟩ := h.nested s hs s' hs' hlt
    refine ⟨hbefore, hcases.imp (fun hends => ?_) fun hin => ?_⟩
    · rwa [hold hs' hends]
    · exact h.time_le_time_finish hst hvf (mem_started hs') hlt hin
  · intro s hs a p hv
    obtain ⟨harc, hp, hlt, hbefore, hbetween⟩ := h.entered s hs a p hv
    refine ⟨harc, hp, hlt, hbefore.trans (hle p), fun c hc hpc hcs => ?_⟩
    have htime := hbetween c hc hpc hcs
    rwa [hold hs htime]

/-- Every step keeps the record of the starts: only starting a vertex adds to it, and only finishing
one adds a time. -/
theorem Charted.step (hc : Coherent n arcs w) (h : Charted arcs w) (hs : Step arcs w w') :
    Charted arcs w' := by
  cases hs with
  | finish top => exact h.finish hc top
  | @enter v a u pending rest top mark =>
    have ho : (w.advance v pending rest).onStack = w.onStack := by simp [onStack, advance, top]
    have ha : Charted arcs (w.advance v pending rest) := h.congr rfl rfl ho
    have hu := hc.lt_of_fresh mark
    refine ha.start ?_ ?_ fun b p hv => ?_
    · exact ho ▸ hc.not_onStack_of_fresh mark
    · intro hf
      have := (hc.done_iff u hu).mpr hf
      rw [mark] at this
      cases this
    · cases hv
      have hv : v ∈ w.onStack := by simp [onStack, top]
      exact ⟨(hc.pending _ (by rw [top]; exact List.mem_cons_self)).subset List.mem_cons_self,
        hc.not_mem_finished hv, rest.map Prod.fst, rfl⟩
  | back top mark => exact h.congr rfl rfl (by simp [onStack, top])
  | skip top mark => exact h.congr rfl rfl (by simp [onStack, top])

/-! ## Intervals -/

/-- The time of one vertex lies in the interval of another. -/
def Within (w : Walk) (v : Nat) (c : Start) : Prop :=
  c.finishedBefore ≤ w.time v ∧ w.time v ≤ w.time c.vertex

namespace Charted

variable {s c t : Start} {a p : Nat}

/-- The start of a vertex that was started. -/
theorem exists_start {v : Nat} (hv : v ∈ w.started) : ∃ s ∈ w.starts.toList, s.vertex = v :=
  List.mem_map.mp hv

/-- No vertex was started twice, so its record is the only one. -/
theorem start_unique (h : Charted arcs w) (hs : s ∈ w.starts.toList) (ht : t ∈ w.starts.toList)
    (heq : s.vertex = t.vertex) : s = t :=
  List.inj_on_of_nodup_map h.nodup hs ht heq

/-- Once everything is finished, times tell vertices apart. -/
theorem time_injective (h : Charted arcs w) (he : w.stack = []) {u v : Nat} (hu : u ∈ w.started)
    (heq : w.time u = w.time v) : u = v := by
  refine time_inj (((h.mem_iff u).mp hu).resolve_left ?_) heq
  simp [onStack, he]

/-- The interval of a parent takes in that of the vertex. -/
theorem parent (h : Charted arcs w) (he : w.stack = []) (hs : s ∈ w.starts.toList)
    (ht : t ∈ w.starts.toList) (hv : s.via = some (a, t.vertex)) :
    t.finishedBefore ≤ s.finishedBefore ∧ w.time s.vertex < w.time t.vertex := by
  obtain ⟨-, -, hlt, hle, -⟩ := h.entered s hs a _ hv
  obtain ⟨hbefore, hcases⟩ := h.nested t ht s hs hlt
  refine ⟨hbefore, lt_of_le_of_ne (hcases.resolve_left (Nat.not_lt.mpr hle)) fun heq => ?_⟩
  rw [h.time_injective he (mem_started hs) heq] at hlt
  exact Nat.lt_irrefl _ hlt

/-- **Lying below**: a vertex lies in the interval of `c` exactly if it is `c` or its parent lies
there, for what was started between the parent and the vertex was finished before the vertex. -/
theorem within_iff (h : Charted arcs w) (he : w.stack = []) (hs : s ∈ w.starts.toList)
    (hv : s.via = some (a, p)) (hc : c ∈ w.starts.toList) :
    w.Within s.vertex c ↔ s.vertex = c.vertex ∨ w.Within p c := by
  obtain ⟨t, ht, rfl⟩ := exists_start (h.entered s hs a p hv).mem
  obtain ⟨hbefore, hlt⟩ := h.parent he hs ht hv
  have hself := h.before_le s hs
  constructor
  · rintro ⟨hcs, hsc⟩
    by_cases heq : s.vertex = c.vertex
    · exact .inl heq
    have hltc : w.time s.vertex < w.time c.vertex := lt_of_le_of_ne hsc fun htime =>
      heq (h.time_injective he (mem_started hs) htime)
    refine .inr ⟨hcs.trans hlt.le, ?_⟩
    have hcstart : w.turn c.vertex < w.turn s.vertex := by
      rcases Nat.lt_trichotomy (w.turn c.vertex) (w.turn s.vertex) with hturn | hturn | hturn
      · exact hturn
      · exact absurd (turn_inj (mem_started hc) hturn).symm heq
      · have := (h.nested s hs c hc hturn).2
        omega
    -- what was started between the parent and the vertex was finished before the vertex
    rcases Nat.lt_trichotomy (w.turn c.vertex) (w.turn t.vertex) with hturn | hturn | hturn
    · have := (h.nested c hc t ht hturn).2
      omega
    · exact (turn_inj (mem_started hc) hturn ▸ Nat.le_refl _)
    · have := (h.entered s hs a _ hv).between _ (mem_started hc) hturn hcstart
      omega
  · rintro (heq | ⟨hct, htc⟩)
    · rw [Within, ← heq]
      have := h.before_le c hc
      rw [← heq] at this
      exact ⟨this, Nat.le_refl _⟩
    · refine ⟨?_, hlt.le.trans htc⟩
      rcases Nat.lt_trichotomy (w.turn c.vertex) (w.turn t.vertex) with hturn | hturn | hturn
      · have := (h.nested c hc t ht hturn).1
        omega
      · obtain rfl := h.start_unique hc ht (turn_inj (mem_started hc) hturn)
        omega
      · rcases (h.nested t ht c hc hturn).2 with hends | hin
        · omega
        · have heq := h.time_injective he (mem_started hc) (hin.antisymm htc)
          rw [heq] at hturn
          exact absurd hturn (Nat.lt_irrefl _)

end Charted

/-! ## A walk from one vertex -/

/-- The walk began at a root, and every other vertex was entered through an arc. -/
def Rooted (root : Nat) (w : Walk) : Prop :=
  ∃ rest, w.starts.toList = ⟨root, none, 0⟩ :: rest ∧ ∀ s ∈ rest, s.via.isSome

/-- The root stays the first vertex that was started and the only one without an arc to it. -/
theorem Rooted.step {root : Nat} (h : Rooted root w) (hs : Step arcs w w') : Rooted root w' := by
  obtain ⟨rest, hrest, hvia⟩ := h
  cases hs with
  | finish top => exact ⟨rest, hrest, hvia⟩
  | @enter v a u pending below top mark =>
    refine ⟨rest ++ [⟨u, some (a, v), w.finished.size⟩], ?_, fun s hs => ?_⟩
    · rw [starts_start]
      exact congrArg (· ++ _) hrest
    · rcases List.mem_append.mp hs with hs | hs
      · exact hvia s hs
      · exact List.mem_singleton.mp hs ▸ rfl
  | back top mark => exact ⟨rest, hrest, hvia⟩
  | skip top mark => exact ⟨rest, hrest, hvia⟩

/-- Every arc of a vertex that was met is left on the stack or leads to a vertex that was met. -/
def Met (n : Nat) (arcs : Nat → List (Nat × Nat)) (w : Walk) : Prop :=
  ∀ v < n, w.mark v ≠ .fresh → ∀ e ∈ arcs v, w.mark e.2 ≠ .fresh ∨
    ∃ pending, (v, pending) ∈ w.stack ∧ e ∈ pending

/-- What was left of the arcs of a vertex is left, but for the arc that was taken. -/
theorem Met.advance (h : Met n arcs w) {v : Nat} {e : Nat × Nat} {pending : List (Nat × Nat)}
    {rest : List (Nat × List (Nat × Nat))} (top : w.stack = (v, e :: pending) :: rest) {x : Nat}
    (hlt : x < n) (hx : w.mark x ≠ .fresh) {b : Nat × Nat} (hb : b ∈ arcs x) :
    w.mark b.2 ≠ .fresh ∨ b = e ∨ ∃ q, (x, q) ∈ (v, pending) :: rest ∧ b ∈ q := by
  refine (h x hlt hx b hb).imp_right fun ⟨q, hq, hbq⟩ => ?_
  rw [top] at hq
  rcases List.mem_cons.mp hq with heq | hq
  · cases heq
    exact (List.mem_cons.mp hbq).imp_right fun hbq => ⟨pending, List.mem_cons_self, hbq⟩
  · exact .inr ⟨q, List.mem_cons_of_mem _ hq, hbq⟩

/-- The arcs of a vertex lead to vertices that were met, but for those that are still pending. -/
theorem Met.step (hc : Coherent n arcs w) (h : Met n arcs w) (hs : Step arcs w w') :
    Met n arcs w' := by
  cases hs with
  | @finish v rest top =>
    intro x hlt hx b hb
    have hmark : ∀ u, (w.finish v rest).mark u ≠ .fresh ↔ w.mark u ≠ .fresh := by
      intro u
      rw [mark_finish]
      by_cases hu : u = v
      · have hv : w.mark v = .started := (hc.started_iff v).mpr (by simp [onStack, top])
        simp [hu, hv]
      · rw [if_neg hu]
    rw [hmark] at hx ⊢
    refine (h x hlt hx b hb).imp_right ?_
    rintro ⟨q, hq, hbq⟩
    rw [top] at hq
    rcases List.mem_cons.mp hq with heq | hq
    · cases heq
      cases hbq
    · exact ⟨q, hq, hbq⟩
  | @enter v a u pending rest top mark =>
    intro x hlt hx b hb
    rw [mark_enter mark] at hx ⊢
    by_cases hbu : b.2 = u
    · exact .inl (by rw [if_pos hbu]; decide)
    rw [if_neg hbu]
    by_cases hxu : x = u
    · subst hxu
      exact .inr ⟨arcs x, List.mem_cons_self, hb⟩
    · rw [if_neg hxu] at hx
      rcases h.advance top hlt hx hb with hm | rfl | ⟨q, hq, hbq⟩
      · exact .inl hm
      · exact absurd rfl hbu
      · exact .inr ⟨q, List.mem_cons_of_mem _ hq, hbq⟩
  | @back v a u pending rest top mark =>
    intro x hlt hx b hb
    rcases h.advance top hlt hx hb with hm | rfl | hq
    · exact .inl hm
    · exact .inl (by rw [mark_noteBack, mark_advance, mark]; decide)
    · exact .inr hq
  | @skip v a u pending rest top mark =>
    intro x hlt hx b hb
    rcases h.advance top hlt hx hb with hm | rfl | hq
    · exact .inl hm
    · exact .inl (by rw [mark_advance, mark]; decide)
    · exact .inr hq

/-- **The tree of a walk from one vertex.** The record of the starts is in order, nothing is left
on the stack, the root was started first and everything else was entered through an arc, and the
arcs of a finished vertex lead to finished vertices. -/
theorem from_charted (arcs : Nat → List (Nat × Nat)) {root : Nat} (hroot : root < n) :
    Coherent n arcs (from_ n arcs root) ∧ Charted arcs (from_ n arcs root) ∧
      (from_ n arcs root).stack = [] ∧ Rooted root (from_ n arcs root) ∧
      ∀ v ∈ (from_ n arcs root).finished.toList, ∀ e ∈ arcs v, e.2 < n →
        e.2 ∈ (from_ n arcs root).finished.toList := by
  have hmark : ∀ u, ((initial n).start arcs root none).mark u =
      if u = root then .started else (initial n).mark u :=
    mark_start arcs (by simpa [initial] using hroot) none
  have hfresh : ∀ u < n, (initial n).mark u = .fresh := fun u hu => by
    rw [mark, initial, Table.getD_replicate, if_pos hu]
  have hmet : Met n arcs ((initial n).start arcs root none) := by
    intro v hv hm e he
    rw [hmark] at hm
    by_cases hvr : v = root
    · subst hvr
      exact .inr ⟨arcs v, List.mem_cons_self, he⟩
    · rw [if_neg hvr] at hm
      exact absurd (hfresh v hv) hm
  obtain ⟨hc, ⟨hcharted, hrooted, hmet⟩, he⟩ := fromRoot_induct (n := n)
    (P := fun w => Charted arcs w ∧ Rooted root w ∧ Met n arcs w) hroot
    ⟨charted_initial.start List.not_mem_nil List.not_mem_nil (fun a p h => by cases h),
      ⟨[], rfl, fun s hs => by cases hs⟩, hmet⟩
    (fun w w' hc hs h => ⟨h.1.step hc hs, h.2.1.step hs, h.2.2.step hc hs⟩)
  refine ⟨hc, hcharted, he, hrooted, fun v hv e hve hlt => ?_⟩
  have hdone := (hc.done_iff v (hc.finished_lt v hv)).mpr hv
  rcases hmet v (hc.finished_lt v hv) (by rw [hdone]; decide) e hve with hm | ⟨q, hq, -⟩
  · refine (hc.done_iff _ hlt).mp ?_
    rcases hme : (from_ n arcs root).mark e.2 with _ | _ | _
    · exact absurd hme hm
    · exact absurd ((hc.started_iff _).mp hme) (by simp [onStack, he])
    · rfl
  · rw [he] at hq
    cases hq

end Flowchart.Walk
