import Flowchart.Proofs.Simplex.Exchange

/-!
# Runs of the network simplex

A run starts from the first tree and makes one exchange after the other, as long as some cut value
is negative, but no more than it is allowed to. Every state of a run is `Sound`. A run that made
fewer exchanges than it was allowed to ended because there was nothing left to exchange.
-/

namespace Flowchart.Simplex

variable {α : Type} [Scalar α] {s s' : Simplex α}

/-! ## One exchange -/

theorem leaving?_spec (h : s.Hanging) {l : Nat} (hl : s.leaving? = some l) :
    ∃ c < s.size, ∃ p, (s.place c).parent = some (l, p) ∧ s.cut.getD c 0.0 < (0.0 : α) := by
  obtain ⟨c, hc, hcl⟩ := List.exists_of_findSome?_eq_some hl
  refine ⟨c, (h.mem_preorder c).mp hc, ?_⟩
  cases hp : (s.place c).parent with
  | none =>
    rw [hp] at hcl
    cases hcl
  | some lp =>
    rw [hp] at hcl
    simp only at hcl
    split at hcl
    · obtain rfl := Option.some.inj hcl
      exact ⟨lp.2, rfl, ‹_›⟩
    · cases hcl

theorem leaving?_none (h : s.Hanging) (hl : s.leaving? = none) {c l p : Nat} (hc : c < s.size)
    (hp : (s.place c).parent = some (l, p)) : ¬ s.cut.getD c 0.0 < (0.0 : α) := by
  have hcl := List.findSome?_eq_none_iff.mp hl c ((h.mem_preorder c).mpr hc)
  rw [hp] at hcl
  intro hneg
  simp only [hneg, if_true] at hcl
  cases hcl

/-- One exchange of the run, if there is one to make. -/
def pivot? (s : Simplex α) : Option (Simplex α) :=
  s.leaving?.bind fun l => (s.entering? l).map (s.exchange l)

theorem pivot?_spec (h : s.Hanging) (hs : s.pivot? = some s') : ∃ c < s.size, ∃ l p e,
    (s.place c).parent = some (l, p) ∧ s.cut.getD c 0.0 < (0.0 : α) ∧ s.entering? l = some e ∧
      s' = s.exchange l e := by
  obtain ⟨l, hl, hs⟩ := Option.bind_eq_some_iff.mp hs
  obtain ⟨e, he, rfl⟩ := Option.map_eq_some_iff.mp hs
  obtain ⟨c, hc, p, hp, hneg⟩ := leaving?_spec h hl
  exact ⟨c, hc, l, p, e, hp, hneg, he, rfl⟩

theorem Sound.pivot (h : s.Sound) (hs : s.pivot? = some s') : s'.Sound ∧ SameLinks s s' := by
  obtain ⟨c, hc, l, p, e, hp, -, he, rfl⟩ := pivot?_spec h.hanging hs
  exact ⟨(h.exchange hc hp he).1, (h.exchange hc hp he).2.1⟩

/-! ## Runs -/

theorem improve_succ (limit : Nat) (s : Simplex α) : improve (limit + 1) s =
    match s.pivot? with
    | none => (s, 0)
    | some s' => ((improve limit s').1, (improve limit s').2 + 1) := by
  rw [improve, pivot?]
  cases s.leaving? with
  | none => rfl
  | some l =>
    cases he : s.entering? l with
    | none => simp [he]
    | some e => simp [he]

/-- States that a run may reach. -/
def Reaches (s s' : Simplex α) : Prop :=
  Relation.ReflTransGen (fun s s' => s.pivot? = some s') s s'

/-- A run makes exchanges, and it stops early only if there is none to make. -/
theorem improve_reaches (limit : Nat) (s : Simplex α) :
    Reaches s (improve limit s).1 ∧
      ((improve limit s).2 < limit → (improve limit s).1.pivot? = none) := by
  induction limit generalizing s with
  | zero => exact ⟨.refl, nofun⟩
  | succ limit ih =>
    rw [improve_succ]
    cases hp : s.pivot? with
    | none => exact ⟨.refl, fun _ => hp⟩
    | some s' => exact ⟨.head hp (ih s').1, fun hlt => (ih s').2 (Nat.lt_of_succ_lt_succ hlt)⟩

theorem Sound.reaches (h : s.Sound) (hs : Reaches s s') : s'.Sound ∧ SameLinks s s' := by
  induction hs with
  | refl => exact ⟨h, .refl s⟩
  | tail _ hp ih =>
    obtain ⟨hsound, hsame⟩ := ih.1.pivot hp
    exact ⟨hsound, ih.2.trans hsame⟩

/-! ## The start of a run -/

/-- What the simplex asks of the state it is started in. -/
structure Startable (s : Simplex α) : Prop where
  wired : s.Wired
  pos : 0 < s.size
  connected : s.Connected
  feasible : s.Feasible
  no_tree : ∀ l, s.isTree l = false

omit [Scalar α] in
/-- The first tree with its numbers is a sound state. -/
theorem Startable.firstTree_sound (h : s.Startable) :
    s.feasibleTree.numberTree.Sound ∧ SameLinks s s.feasibleTree.numberTree := by
  obtain ⟨hsame, hfeasible, htight, hspanning⟩ :=
    (feasibleTree_grounded h.wired h.pos h.connected h.feasible h.no_tree).1
  exact ⟨numberTree_sound (hsame.wired h.wired) hspanning hfeasible htight,
    hsame.trans (sameLinks_numberTree _)⟩

theorem Startable.prepared_sound (h : s.Startable) : s.prepared.Sound ∧ SameLinks s s.prepared := by
  obtain ⟨hsound, hsame⟩ := h.firstTree_sound
  exact ⟨hsound.computeCuts, hsame.trans (sameTree_computeCuts _).1.same⟩

/-- **Every run ends in a sound state** over the links it was started with, whatever it was
allowed. -/
theorem Startable.solve_sound (h : s.Startable) (limit : Nat) :
    (s.solve limit).1.Sound ∧ SameLinks s (s.solve limit).1 := by
  obtain ⟨hsound, hsame⟩ := h.prepared_sound
  obtain ⟨hend, hlinks⟩ := hsound.reaches (improve_reaches limit s.prepared).1
  exact ⟨hend, hsame.trans hlinks⟩

end Flowchart.Simplex
