import Flowchart.Proofs.Simplex.Cuts
import Flowchart.Proofs.Simplex.Running

/-!
# The network simplex finds the least total length

The total length of a ranking is the sum over the links of the weight times the length.

* An exchange changes the total by the slack of the entering link times a negative cut value.
* If some cut value is negative, some link crosses the split the other way, so there is an
  exchange to make. When there is none, no cut value is negative.
* The total length is the sum over the links of the *tree* of the cut value times the length. Tree
  links are as short as they may be, so if no cut value is negative no ranking has a smaller
  total.
-/

namespace Flowchart.Simplex

open Finset

variable {α : Type} {s s' : Simplex α} {w : Nat → Int} {c l p : Nat}

/-- The total weighted length of the links under a ranking. -/
def cost (s : Simplex α) (w : Nat → Int) (r : Nat → Int) : Int :=
  ∑ k ∈ range s.links.size, w k * (r (s.head k) - r (s.tail k))

theorem cost_congr {r r' : Nat → Int} (hw : s.Wired) (h : ∀ v < s.size, r v = r' v) :
    s.cost w r = s.cost w r' := by
  refine sum_congr rfl fun k hk => ?_
  obtain ⟨ht, hh⟩ := hw.ends_lt k (mem_range.mp hk)
  rw [h _ ht, h _ hh]

theorem SameLinks.cost_eq (h : SameLinks s s') : s'.cost = s.cost := by
  funext w r
  rw [cost, h.links, h.head_eq, h.tail_eq, cost]

/-! ## One exchange -/

/-- **Moving what lies below a vertex** by the slack of the entering link changes the total by
that slack times the cut value. -/
theorem cost_movedRank (s : Simplex α) (w : Nat → Int) (c l e : Nat) :
    s.cost w (s.movedRank c (s.moveBy c l e)) =
      s.cost w s.rankOf + s.slack e * s.cutValue w c l := by
  have hmove : ∀ v, s.movedRank c (s.moveBy c l e) v =
      s.rankOf v - s.upward c l * s.slack e * s.within v c := by
    intro v
    unfold movedRank moveBy upward within
    cases s.tail l == c <;> cases s.isBelow v c <;> simp [sub_eq_add_neg]
  rw [cutValue, outflow, cost, cost, mul_sum, mul_sum, ← sum_add_distrib]
  refine sum_congr rfl fun k _ => ?_
  rw [hmove, hmove]
  ring

/-- If a cut value is negative, some link may enter: the only tree link that crosses the split
crosses it the other way, so that another link has to make the sum negative. -/
theorem Sound.exists_enters (h : s.Sound) (hw : ∀ k, 0 ≤ w k) (hc : c < s.size)
    (hp : (s.place c).parent = some (l, p)) (hneg : s.cutValue w c l < 0) :
    ∃ k, s.Enters c l k := by
  have hsum : s.cutValue w c l = ∑ k ∈ range s.links.size,
      w k * (s.upward c l * (s.within (s.tail k) c - s.within (s.head k) c)) := by
    rw [cutValue, outflow, mul_sum]
    exact sum_congr rfl fun k _ => by ring
  rw [hsum] at hneg
  obtain ⟨k, hk, hkneg⟩ := exists_lt_of_sum_lt (hneg.trans_eq sum_const_zero.symm)
  have hagainst : s.upward c l * (s.within (s.tail k) c - s.within (s.head k) c) < 0 := by
    by_contra hnot
    exact absurd (mul_nonneg (hw k) (not_lt.mp hnot)) (not_le.mpr hkneg)
  have hends : s.isBelow (s.tail k) c = (!(s.tail l == c)) ∧
      s.isBelow (s.head k) c = (s.tail l == c) := by
    unfold upward within at hagainst
    cases hl : s.tail l == c <;> cases ht : s.isBelow (s.tail k) c <;>
      cases hh : s.isBelow (s.head k) c <;> simp [hl, ht, hh] at hagainst ⊢
  refine ⟨k, mem_range.mp hk, ?_, hends.1, hends.2⟩
  -- the only tree link that crosses the split crosses it the other way
  rw [Bool.eq_false_iff]
  intro hkt
  obtain ⟨htree, hj, -⟩ := h.hanging.link c hc l p hp
  obtain rfl := (h.hanging.crosses_iff h.wired hc hp hkt (.inl ⟨rfl, rfl⟩)).mp (by
    rw [hends.1, hends.2]
    simp)
  rcases hj with ⟨ht, -⟩ | ⟨ht, hh⟩
  · have := hends.1
    rw [ht, h.hanging.below_self hc, beq_self_eq_true] at this
    cases this
  · have := hends.2
    rw [hh, h.hanging.below_self hc, ← hh] at this
    exact h.wired.ends_ne k (mem_range.mp hk) (by simpa using this.symm)

/-! ## Optimality -/

/-- The parent of a vertex; the root stands for its own. -/
def parentOf (s : Simplex α) (c : Nat) : Nat := ((s.place c).parent.map Prod.snd).getD c

/-- The rank of a vertex is that of the root plus the steps on the way up from the root. -/
theorem Hanging.rank_eq_sum (h : s.Hanging) (hw : s.Wired) (r : Nat → Int) :
    ∀ v < s.size, r v = r 0 + ∑ c ∈ range s.size, s.within v c * (r c - r (s.parentOf c)) := by
  refine h.induct hw ?_ fun v hv l p hp hplt ih => ?_
  · have hzero : ∀ c ∈ range s.size, s.within 0 c * (r c - r (s.parentOf c)) = 0 := by
      intro c hc
      by_cases h0 : 0 = c
      · subst h0
        rw [parentOf, h.root, Option.map_none, Option.getD_none, sub_self, mul_zero]
      · rw [within, if_neg fun hb => h0 ((h.below_root c (mem_range.mp hc)).mp hb), zero_mul]
    rw [sum_eq_zero hzero, add_zero]
  · have hterm : ∀ c ∈ range s.size, s.within v c * (r c - r (s.parentOf c)) =
        s.within p c * (r c - r (s.parentOf c)) + if c = v then r v - r p else 0 := by
      intro c hc
      by_cases hcv : c = v
      · subst hcv
        rw [if_pos rfl, within, within, h.below_self hv, h.parent_not_below hv hp, parentOf, hp]
        simp
      · rw [if_neg hcv, within, within, h.below_parent hv hp (mem_range.mp hc) (Ne.symm hcv),
          add_zero]
    rw [sum_congr rfl hterm, sum_add_distrib, sum_ite_eq', if_pos (mem_range.mpr hv), ← add_assoc,
      ← ih]
    ring

/-- The total length, link by link of the tree. -/
theorem Hanging.cost_eq_sum (h : s.Hanging) (hw : s.Wired) (w : Nat → Int) (r : Nat → Int) :
    s.cost w r = ∑ c ∈ range s.size, (r (s.parentOf c) - r c) * s.outflow w c := by
  have hlength : ∀ k ∈ range s.links.size, w k * (r (s.head k) - r (s.tail k)) =
      ∑ c ∈ range s.size, (r (s.parentOf c) - r c) *
        (w k * (s.within (s.tail k) c - s.within (s.head k) c)) := by
    intro k hk
    obtain ⟨ht, hh⟩ := hw.ends_lt k (mem_range.mp hk)
    rw [h.rank_eq_sum hw r _ hh, h.rank_eq_sum hw r _ ht, add_sub_add_left_eq_sub,
      ← sum_sub_distrib,
      mul_sum]
    exact sum_congr rfl fun c _ => by ring
  rw [cost, sum_congr rfl hlength, sum_comm]
  exact sum_congr rfl fun c _ => by rw [outflow, mul_sum]

/-- **Without negative cut values the ranking is optimal**: no ranking that gives the links their
least lengths has a smaller total. Tree links are tight, so their lengths are the least ones, and
their cut values weigh what any other ranking adds to them. -/
theorem Sound.optimal (h : s.Sound) (hcuts : ∀ c < s.size, ∀ l p,
      (s.place c).parent = some (l, p) → 0 ≤ s.cutValue w c l) {r : Nat → Int}
    (hr : ∀ k < s.links.size, s.minLength k ≤ r (s.head k) - r (s.tail k)) :
    s.cost w s.rankOf ≤ s.cost w r := by
  rw [h.hanging.cost_eq_sum h.wired, h.hanging.cost_eq_sum h.wired]
  refine sum_le_sum fun c hc => ?_
  rw [mem_range] at hc
  by_cases h0 : c = 0
  · subst h0
    rw [parentOf, h.hanging.root, Option.map_none, Option.getD_none, sub_self, sub_self]
  · obtain ⟨l, p, hp⟩ := h.hanging.parent c hc h0
    obtain ⟨htree, hj, -⟩ := h.hanging.link c hc l p hp
    have hparent : s.parentOf c = p := by rw [parentOf, hp]; rfl
    have hlength : ∀ r : Nat → Int,
        r p - r c = s.upward c l * (r (s.head l) - r (s.tail l)) := by
      intro r
      have hne := h.wired.ends_ne l (h.wired.lt_of_isTree htree)
      unfold upward
      rcases hj with ⟨rfl, rfl⟩ | ⟨rfl, rfl⟩
      · rw [if_pos (beq_self_eq_true _), one_mul]
      · rw [if_neg (by simpa using hne)]
        ring
    -- the tree link is tight, so its length is the least one, and the cut value is not negative
    have htight := h.tight l htree
    rw [slack] at htight
    have hle := hr l (h.wired.lt_of_isTree htree)
    have hcut := hcuts c hc l p hp
    rw [cutValue] at hcut
    rw [hparent, hlength, hlength, mul_right_comm, mul_right_comm _ (r (s.head l) - _)]
    exact mul_le_mul_of_nonneg_left (by omega) hcut

/-! ## Runs -/

section Runs

variable [Scalar α] {R : WholeReading α}

/-- What holds of a state between two exchanges whose cut values are right. -/
structure Priceable (R : WholeReading α) (s : Simplex α) (w : Nat → Int) : Prop where
  sound : s.Sound
  weighs : Weighs R s w
  priced : Priced R s w

/-- **An exchange does not increase the total length.** -/
theorem Priceable.pivot (h : Priceable R s w) (hs : s.pivot? = some s') :
    Priceable R s' w ∧ s'.cost w s'.rankOf ≤ s.cost w s.rankOf := by
  obtain ⟨c, hc, l, p, e, hp, hneg, he, rfl⟩ := pivot?_spec h.sound.hanging hs
  obtain ⟨hsound, hsame, hrank⟩ := h.sound.exchange hc hp he
  refine ⟨⟨hsound, h.weighs.congr hsame, ?_⟩, ?_⟩
  · obtain ⟨hretree, hlinks, -⟩ := h.sound.retree hc hp he
    exact hretree.computeCuts_priced (h.weighs.congr hlinks)
  · have hslack := h.sound.feasible e (entering?_spec h.sound.hanging h.sound.wired hc hp he).1.lt
    have hcut := (R.lt_zero (h.priced c hc l p hp)).mp hneg
    rw [hsame.cost_eq, cost_congr h.sound.wired hrank, cost_movedRank]
    exact add_le_of_nonpos_right (mul_nonpos_of_nonneg_of_nonpos hslack hcut.le)

theorem Priceable.reaches (h : Priceable R s w) (hs : Reaches s s') : Priceable R s' w := by
  induction hs with
  | refl => exact h
  | tail _ hp ih => exact (ih.pivot hp).1

/-- **When there is nothing left to exchange no cut value is negative.** -/
theorem Priceable.cutValue_nonneg (h : Priceable R s w) (hs : s.pivot? = none) :
    ∀ c < s.size, ∀ l p, (s.place c).parent = some (l, p) → 0 ≤ s.cutValue w c l := by
  have hhanging := h.sound.hanging
  cases hl : s.leaving? with
  | none =>
    intro c hc l p hp
    have hnot := leaving?_none hhanging hl hc hp
    rw [R.lt_zero (h.priced c hc l p hp)] at hnot
    exact not_lt.mp hnot
  | some l =>
    obtain ⟨c, hc, p, hp, hneg⟩ := leaving?_spec hhanging hl
    rw [R.lt_zero (h.priced c hc l p hp)] at hneg
    obtain ⟨k, hk⟩ := h.sound.exists_enters h.weighs.nonneg hc hp hneg
    obtain ⟨e, he⟩ := exists_entering? hhanging h.sound.wired hc hp hk
    simp [pivot?, hl, he] at hs

theorem Startable.prepared_priceable (h : s.Startable) (hR : Weighs R s w) :
    Priceable R s.prepared w := by
  obtain ⟨hsound, hsame⟩ := h.firstTree_sound
  exact ⟨h.prepared_sound.1, hR.congr h.prepared_sound.2,
    hsound.computeCuts_priced (hR.congr hsame)⟩

/-- **A run that was not cut off ends with the least total length** of all rankings that give the
links their least lengths. -/
theorem Startable.solve_optimal (h : s.Startable) (hR : Weighs R s w) {limit : Nat}
    (hlimit : (s.solve limit).2 < limit) {r : Nat → Int}
    (hr : ∀ k < s.links.size, s.minLength k ≤ r (s.head k) - r (s.tail k)) :
    s.cost w (s.solve limit).1.rankOf ≤ s.cost w r := by
  obtain ⟨hreaches, hend⟩ := improve_reaches limit s.prepared
  have hpriceable : Priceable R (s.solve limit).1 w := (h.prepared_priceable hR).reaches hreaches
  have hsame := (h.solve_sound limit).2
  rw [← hsame.cost_eq]
  refine hpriceable.sound.optimal (hpriceable.cutValue_nonneg (hend hlimit)) fun k hk => ?_
  rw [hsame.minLength_eq, hsame.head_eq, hsame.tail_eq]
  exact hr k (hsame.links ▸ hk)

end Runs

end Flowchart.Simplex
