import Flowchart.Proofs.Scalar.Whole
import Flowchart.Proofs.Simplex.Exchange
import Mathlib.Algebra.BigOperators.Ring.Finset
import Mathlib.Algebra.Order.BigOperators.Ring.Finset

/-!
# Cut values

The cut value of the tree link above a vertex `c` is what flows over the split that the link
bridges: the weights of all links out of what lies below `c`, less those of the links into it, or
the other way around if the tree link leads down. `outflow` is this sum.

The program does not look at all links. It adds up the links at `c` and takes back the cut values
of the vertices right below `c`. The sum it has reached at any moment is the outflow of a part of
what lies below `c`, so it is never larger than the sum of all weights, and nothing is rounded
when the weights are whole numbers.
-/

namespace Flowchart.Simplex

open Finset

variable {α : Type} {s s' : Simplex α} {w : Nat → Int} {c l p u x : Nat}

/-! ## Right below a vertex -/

namespace Hanging

/-- What lies below a vertex is the vertex and what lies below the vertices hung on it. -/
theorem below_iff_exists (h : s.Hanging) (hw : s.Wired) (hc : c < s.size) (hu : u < s.size) :
    s.isBelow u c = true ↔
      u = c ∨ ∃ x < s.size, ∃ k, (s.place x).parent = some (k, c) ∧ s.isBelow u x = true := by
  constructor
  · refine h.induct (P := fun u => s.isBelow u c = true → u = c ∨ ∃ x < s.size, ∃ k,
      (s.place x).parent = some (k, c) ∧ s.isBelow u x = true) hw ?_ ?_ u hu
    · exact fun hb => .inl ((h.below_root c hc).mp hb)
    · intro v hv k q hq _ ih hb
      by_cases hvc : v = c
      · exact .inl hvc
      · rw [h.below_parent hv hq hc hvc] at hb
        rcases ih hb with rfl | ⟨x, hx, k', hxk, hbx⟩
        · exact .inr ⟨v, hv, k, hq, h.below_self hv⟩
        · refine .inr ⟨x, hx, k', hxk, ?_⟩
          exact (h.below_iff v hv k q hq x hx).mpr (.inr hbx)
  · rintro (rfl | ⟨x, hx, k, hxk, hbx⟩)
    · exact h.below_self hc
    · refine h.induct (P := fun u => s.isBelow u x = true → s.isBelow u c = true) hw ?_ ?_ u hu hbx
      · intro hb
        rw [h.root_not_below hx hxk] at hb
        cases hb
      · intro v hv k' q hq _ ih hb
        refine (h.below_iff v hv k' q hq c hc).mpr ?_
        rcases (h.below_iff v hv k' q hq x hx).mp hb with rfl | hb
        · obtain ⟨rfl, rfl⟩ := Prod.mk.inj (Option.some.inj (hq.symm.trans hxk))
          exact .inr (h.below_self hc)
        · exact .inr (ih hb)

/-- Nothing lies below two vertices that hang on the same one. -/
theorem not_below_both (h : s.Hanging) (hw : s.Wired) {y k k' : Nat} (hx : x < s.size)
    (hy : y < s.size) (hxk : (s.place x).parent = some (k, c))
    (hyk : (s.place y).parent = some (k', c))
    (hne : x ≠ y) (hu : u < s.size) (hux : s.isBelow u x = true) : s.isBelow u y = false := by
  refine h.induct (P := fun u => s.isBelow u x = true → s.isBelow u y = false) hw ?_ ?_ u hu hux
  · exact fun _ => h.root_not_below hy hyk
  · intro v hv l q hq _ ih hb
    by_cases hvx : v = x
    · subst hvx
      obtain ⟨rfl, rfl⟩ := Prod.mk.inj (Option.some.inj (hq.symm.trans hxk))
      rw [h.below_parent hv hq hy hne]
      exact h.parent_not_below hy hyk
    · rw [h.below_parent hv hq hx hvx] at hb
      by_cases hvy : v = y
      · subst hvy
        obtain ⟨rfl, rfl⟩ := Prod.mk.inj (Option.some.inj (hq.symm.trans hyk))
        rw [h.parent_not_below hx hxk] at hb
        cases hb
      · rw [h.below_parent hv hq hy hvy]
        exact ih hb

end Hanging

/-- A tree link at a vertex that is not the one above it bears its other end. -/
theorem Hanging.parent_of_link (h : s.Hanging) (hp : (s.place c).parent = some (l, p)) {k : Nat}
    (hk : s.isTree k = true)
    (hj : s.Joins k c u) (hne : k ≠ l) : u < s.size ∧ (s.place u).parent = some (k, c) := by
  obtain ⟨x, hx, q, hxk⟩ := h.above k hk
  have hjx := (h.link x hx k q hxk).2.1
  have hxc : x ≠ c := by
    rintro rfl
    exact hne (Prod.mk.inj (Option.some.inj (hxk.symm.trans hp))).1
  have hends : x = u ∧ q = c := by
    rcases hj with ⟨rfl, rfl⟩ | ⟨rfl, rfl⟩ <;> rcases hjx with ⟨h1, h2⟩ | ⟨h1, h2⟩
    · exact absurd h1.symm hxc
    · exact ⟨h2.symm, h1.symm⟩
    · exact ⟨h1.symm, h2.symm⟩
    · exact absurd h2.symm hxc
  obtain ⟨rfl, rfl⟩ := hends
  exact ⟨hx, hxk⟩

/-! ## Outflow -/

/-- One for a vertex below `c`, zero for any other one. -/
def within (s : Simplex α) (u c : Nat) : Int := if s.isBelow u c then 1 else 0

/-- The weights of the links out of what lies below `c` less those of the links into it. -/
def outflow (s : Simplex α) (w : Nat → Int) (c : Nat) : Int :=
  ∑ k ∈ range s.links.size, w k * (s.within (s.tail k) c - s.within (s.head k) c)

/-- One for a link that leaves `c`, minus one for a link that enters it. -/
def upward (s : Simplex α) (c l : Nat) : Int := if s.tail l == c then 1 else -1

/-- The cut value of the link `l` above `c`. -/
def cutValue (s : Simplex α) (w : Nat → Int) (c l : Nat) : Int := s.upward c l * s.outflow w c

theorem SameTree.outflow_eq (h : SameTree s s') : s'.outflow = s.outflow := by
  funext w c
  have hbelow : s'.within = s.within := by
    funext u c
    rw [within, isBelow, h.place_eq, within, isBelow]
  rw [outflow, h.same.links, h.same.tail_eq, h.same.head_eq, hbelow, outflow]

theorem SameTree.cutValue_eq (h : SameTree s s') : s'.cutValue = s.cutValue := by
  funext w c l
  rw [cutValue, upward, h.outflow_eq, h.same.tail_eq, cutValue, upward]

/-- The part of what lies below `c` that was looked at: `c` itself as an end of the links `A`, and
what hangs on `c` by the links `B`. -/
def Seen (s : Simplex α) (c : Nat) (A B : List Nat) (k u : Nat) : Prop :=
  k ∈ A ∧ u = c ∨ ∃ x < s.size, ∃ l ∈ B, (s.place x).parent = some (l, c) ∧ s.isBelow u x = true

instance (s : Simplex α) (c : Nat) (A B : List Nat) (k u : Nat) : Decidable (s.Seen c A B k u) :=
  inferInstanceAs (Decidable (_ ∨ _))

/-- One for an end that was looked at, zero for any other one. -/
def seen (s : Simplex α) (c : Nat) (A B : List Nat) (k u : Nat) : Int :=
  if s.Seen c A B k u then 1 else 0

/-- The outflow of the part that was looked at. -/
def partialOutflow (s : Simplex α) (w : Nat → Int) (c : Nat) (A B : List Nat) : Int :=
  ∑ k ∈ range s.links.size, w k * (s.seen c A B k (s.tail k) - s.seen c A B k (s.head k))

section Partial

variable {A B A' B' : List Nat} {k : Nat}

theorem seen_nonneg_le (s : Simplex α) (c : Nat) (A B : List Nat) (k u : Nat) :
    0 ≤ s.seen c A B k u ∧ s.seen c A B k u ≤ 1 := by
  unfold seen
  split <;> decide

theorem seen_congr {A B A' B' : List Nat} {k u k' u' : Nat}
    (h : s.Seen c A B k u ↔ s.Seen c A' B' k' u') : s.seen c A B k u = s.seen c A' B' k' u' :=
  if_congr h rfl rfl

/-- Partial sums are no larger than the sum of all weights. -/
theorem abs_partialOutflow_le (hw : ∀ k, 0 ≤ w k) (c : Nat) (A B : List Nat) :
    |s.partialOutflow w c A B| ≤ ∑ k ∈ range s.links.size, w k := by
  refine (abs_sum_le_sum_abs _ _).trans (sum_le_sum fun k _ => ?_)
  obtain ⟨ht0, ht1⟩ := seen_nonneg_le s c A B k (s.tail k)
  obtain ⟨hh0, hh1⟩ := seen_nonneg_le s c A B k (s.head k)
  rw [abs_mul, abs_of_nonneg (hw k)]
  exact mul_le_of_le_one_right (hw k) (abs_le.mpr ⟨by omega, by omega⟩)

theorem partialOutflow_congr
    (h : ∀ k u, u < s.size → (s.Seen c A B k u ↔ s.Seen c A' B' k u)) (hw : s.Wired) :
    s.partialOutflow w c A B = s.partialOutflow w c A' B' := by
  refine sum_congr rfl fun k hk => ?_
  obtain ⟨ht, hh⟩ := hw.ends_lt k (mem_range.mp hk)
  rw [seen_congr (h k _ ht), seen_congr (h k _ hh)]

theorem partialOutflow_nil (s : Simplex α) (w : Nat → Int) (c : Nat) :
    s.partialOutflow w c [] [] = 0 := by
  refine sum_eq_zero fun k _ => ?_
  have hseen : ∀ u, s.seen c [] [] k u = 0 := fun u => by
    refine if_neg ?_
    rintro (⟨hk, -⟩ | ⟨_, _, _, hk, _⟩)
    · cases hk
    · cases hk
  rw [hseen, hseen, sub_self, mul_zero]

/-- `c` was not looked at as an end of a link that is not among those of the part. -/
theorem Hanging.not_seen (h : s.Hanging) (hk : k ∉ A) : ¬ s.Seen c A B k c := by
  rintro (⟨hkA, -⟩ | ⟨x, hx, l, -, hxl, hb⟩)
  · exact hk hkA
  · rw [h.parent_not_below hx hxl] at hb
    cases hb

/-- Looking at one more link at `c` adds its weight with the sign of its direction: only the link
itself is looked at in a new way. -/
theorem Hanging.partialOutflow_cons_link (h : s.Hanging) (hw : s.Wired) (hl : l ∈ s.linksAt c)
    (hA : l ∉ A) :
    s.partialOutflow w c (l :: A) B = s.partialOutflow w c A B + s.upward c l * w l := by
  obtain ⟨hlt, hend⟩ := (hw.mem_linksAt c l).mp hl
  have hne := hw.ends_ne l hlt
  have hother : ∀ k u, k ≠ l ∨ u ≠ c → s.seen c (l :: A) B k u = s.seen c A B k u := by
    intro k u hku
    refine seen_congr (or_congr_left ?_)
    rw [List.mem_cons]
    tauto
  have hnew : s.seen c (l :: A) B l c = 1 := if_pos (.inl ⟨List.mem_cons_self, rfl⟩)
  have hold : s.seen c A B l c = 0 := if_neg (h.not_seen hA)
  have hterm : ∀ k ∈ range s.links.size,
      w k * (s.seen c (l :: A) B k (s.tail k) - s.seen c (l :: A) B k (s.head k)) =
        w k * (s.seen c A B k (s.tail k) - s.seen c A B k (s.head k)) +
          if k = l then s.upward c l * w l else 0 := by
    intro k _
    by_cases hk : k = l
    · subst hk
      rw [if_pos rfl, upward]
      rcases hend with ht | hh
      · have hh : s.head k ≠ c := fun he => hne (ht.trans he.symm)
        rw [ht, hnew, hold, hother k _ (.inr hh), beq_self_eq_true, if_pos rfl]
        ring
      · have ht : s.tail k ≠ c := fun he => hne (he.trans hh.symm)
        rw [hh, hnew, hold, hother k _ (.inr ht), if_neg (by simpa using ht)]
        ring
    · rw [if_neg hk, hother k _ (.inl hk), hother k _ (.inl hk), add_zero]
  rw [partialOutflow, sum_congr rfl hterm, sum_add_distrib, sum_ite_eq', if_pos (mem_range.mpr hlt)]
  rfl

/-- Looking at what hangs on `c` by one more link. -/
theorem Hanging.partialOutflow_cons_child (h : s.Hanging) (hw : s.Wired) (hx : x < s.size)
    (hp : (s.place x).parent = some (l, c)) (hB : l ∉ B) :
    s.partialOutflow w c A (l :: B) = s.partialOutflow w c A B + s.outflow w x := by
  have hseen : ∀ k u, u < s.size →
      s.seen c A (l :: B) k u = s.seen c A B k u + s.within u x := by
    intro k u hu
    have hiff : s.Seen c A (l :: B) k u ↔ s.Seen c A B k u ∨ s.isBelow u x = true := by
      unfold Seen
      rw [or_assoc]
      refine or_congr_right ?_
      constructor
      · rintro ⟨y, hy, k', hk', hyk, hb⟩
        rcases List.mem_cons.mp hk' with rfl | hk'
        · exact .inr (h.link_inj hw hy hx hyk hp ▸ hb)
        · exact .inl ⟨y, hy, k', hk', hyk, hb⟩
      · rintro (⟨y, hy, k', hk', hyk, hb⟩ | hb)
        · exact ⟨y, hy, k', List.mem_cons_of_mem _ hk', hyk, hb⟩
        · exact ⟨x, hx, l, List.mem_cons_self, hp, hb⟩
    have hexcl : s.isBelow u x = true → ¬ s.Seen c A B k u := by
      rintro hb (⟨-, rfl⟩ | ⟨y, hy, k', hk', hyk, hby⟩)
      · rw [h.parent_not_below hx hp] at hb
        cases hb
      · have hne : x ≠ y := by
          rintro rfl
          obtain ⟨rfl, -⟩ := Prod.mk.inj (Option.some.inj (hyk.symm.trans hp))
          exact hB hk'
        rw [h.not_below_both hw hx hy hp hyk hne hu hb] at hby
        cases hby
    unfold seen within
    by_cases hb : s.isBelow u x = true
    · rw [if_pos (hiff.mpr (.inr hb)), if_neg (hexcl hb), if_pos hb, zero_add]
    · rw [if_neg hb, add_zero]
      exact if_congr (hiff.trans (or_iff_left hb)) rfl rfl
  rw [partialOutflow, partialOutflow, outflow, ← sum_add_distrib]
  refine sum_congr rfl fun k hk => ?_
  obtain ⟨ht, hh⟩ := hw.ends_lt k (mem_range.mp hk)
  rw [hseen k _ ht, hseen k _ hh]
  ring

/-- If nothing hangs on `c` by the link, looking at what hangs on it adds nothing. -/
theorem partialOutflow_cons_none (hw : s.Wired)
    (hnone : ∀ x < s.size, (s.place x).parent ≠ some (l, c)) :
    s.partialOutflow w c A (l :: B) = s.partialOutflow w c A B := by
  refine partialOutflow_congr (fun k u _ => or_congr_right ?_) hw
  constructor
  · rintro ⟨x, hx, k', hk', hxk, hb⟩
    rcases List.mem_cons.mp hk' with rfl | hk'
    · exact absurd hxk (hnone x hx)
    · exact ⟨x, hx, k', hk', hxk, hb⟩
  · rintro ⟨x, hx, k', hk', hxk, hb⟩
    exact ⟨x, hx, k', List.mem_cons_of_mem _ hk', hxk, hb⟩

/-- Once all links at `c` were looked at, everything below `c` was. -/
theorem Hanging.partialOutflow_full (h : s.Hanging) (hw : s.Wired) (hc : c < s.size)
    (hA : ∀ k ∈ s.linksAt c, k ∈ A) (hB : ∀ k ∈ s.linksAt c, k ∈ B) :
    s.partialOutflow w c A B = s.outflow w c := by
  refine sum_congr rfl fun k hk => ?_
  obtain ⟨ht, hh⟩ := hw.ends_lt k (mem_range.mp hk)
  have hseen : ∀ u < s.size, s.tail k = u ∨ s.head k = u → s.seen c A B k u = s.within u c := by
    intro u hu hend
    have hiff : s.Seen c A B k u ↔ s.isBelow u c = true := by
      rw [h.below_iff_exists hw hc hu]
      constructor
      · rintro (⟨-, rfl⟩ | ⟨x, hx, l, -, hxl, hb⟩)
        · exact .inl rfl
        · exact .inr ⟨x, hx, l, hxl, hb⟩
      · rintro (rfl | ⟨x, hx, l, hxl, hb⟩)
        · exact .inl ⟨hA k ((hw.mem_linksAt u k).mpr ⟨mem_range.mp hk, hend⟩), rfl⟩
        · obtain ⟨htree, hj, -⟩ := h.link x hx l c hxl
          have hl : l ∈ s.linksAt c := (hw.mem_linksAt c l).mpr
            ⟨hw.lt_of_isTree htree, (Joins.symm hj).imp And.left And.right⟩
          exact .inr ⟨x, hx, l, hB l hl, hxl, hb⟩
    exact if_congr hiff rfl rfl
  rw [hseen _ ht (.inl rfl), hseen _ hh (.inr rfl)]

end Partial

/-! ## The sum the program makes -/

variable {A B : List Nat} {k : Nat}

theorem upward_mul_self (s : Simplex α) (c l : Nat) : s.upward c l * s.upward c l = 1 := by
  unfold upward
  split <;> rfl

/-- Seen from its two ends a link leads in opposite directions. -/
theorem Wired.upward_neg (hw : s.Wired) (hl : l < s.links.size) (hj : s.Joins l x c) :
    s.upward x l = -s.upward c l := by
  have hne := hw.ends_ne l hl
  unfold upward
  rcases hj with ⟨rfl, rfl⟩ | ⟨rfl, rfl⟩
  · rw [if_pos (beq_self_eq_true _), if_neg (by simpa using hne)]
    rfl
  · rw [if_pos (beq_self_eq_true _), if_neg (by simpa using hne)]

/-- Whether two links lead the same way at a vertex: both away from it or both towards it. -/
def along (s : Simplex α) (c k l : Nat) : Bool := (s.tail k == c) == (s.tail l == c)

/-- Seen from the link `l`, what crosses upward at the link `k` counts as it is or is taken back. -/
theorem upward_mul_upward (s : Simplex α) (c k l : Nat) (b : Int) :
    s.upward c l * (s.upward c k * b) = if s.along c k l then b else -b := by
  unfold upward along
  cases s.tail k == c <;> cases s.tail l == c <;> simp

/-- A link that does not lead to the parent is not the one above the vertex. -/
theorem Hanging.not_mem_above (h : s.Hanging) (hw : s.Wired) (hc : c < s.size)
    (hp : (s.place c).parent = some (l, p)) (hfar : s.other k c ≠ p) (hA : k ∉ A) : k ∉ l :: A := by
  obtain ⟨htree, hj, -⟩ := h.link c hc l p hp
  rw [List.mem_cons, not_or]
  refine ⟨?_, hA⟩
  rintro rfl
  exact hfar (hw.other_eq (hw.lt_of_isTree htree) hj)

/-- The link above the vertex was looked at from the start, and nothing hangs on the vertex by
it. -/
theorem Hanging.partialOutflow_above (h : s.Hanging) (hw : s.Wired) (hc : c < s.size)
    (hp : (s.place c).parent = some (l, p)) (hk : k ∈ s.linksAt c) (hfar : s.other k c = p) :
    s.partialOutflow w c (k :: l :: A) (k :: B) = s.partialOutflow w c (l :: A) B := by
  obtain ⟨htree, hj, -⟩ := h.link c hc l p hp
  obtain ⟨hklt, hkj⟩ := hw.mem_linksAt_iff.mp hk
  obtain rfl := hw.apart k hklt l (hw.lt_of_isTree htree) c p (hfar ▸ hkj) hj
  have hnone : ∀ x < s.size, (s.place x).parent ≠ some (k, c) := by
    intro x hx hxk
    obtain rfl := h.link_inj hw hx hc hxk hp
    exact hw.ne_of_joins hklt (h.link x hx k x hxk).2.1 rfl
  rw [partialOutflow_cons_none hw hnone]
  exact partialOutflow_congr (fun i u _ => or_congr_left (by simp)) hw

section Sum

variable [Scalar α] (R : WholeReading α)

/-- The weights of the links are whole numbers, none is negative, and their sum is within the
bound. -/
structure Weighs (s : Simplex α) (w : Nat → Int) : Prop where
  reads : ∀ l < s.links.size, R.Reads (s.weight l) (w l)
  nonneg : ∀ l, 0 ≤ w l
  sum_le : ∑ l ∈ range s.links.size, w l ≤ R.bound

variable {R}

theorem Weighs.abs_le (h : Weighs R s w) (c l : Nat) (A B : List Nat) :
    |s.upward c l * s.partialOutflow w c A B| ≤ R.bound := by
  have habs : |s.upward c l| = 1 := by
    unfold upward
    split <;> rfl
  rw [abs_mul, habs, one_mul]
  exact (abs_partialOutflow_le h.nonneg c A B).trans h.sum_le

/-- A link counts with its weight, or with the opposite against the direction of the link above. -/
theorem Weighs.add_weight (hR : Weighs R s w) (h : s.Hanging) (hw : s.Wired) {value : α}
    (hvalue : R.Reads value (s.upward c l * s.partialOutflow w c A B)) (hk : k ∈ s.linksAt c)
    (hA : k ∉ A) :
    R.Reads (value + (if s.along c k l then s.weight k else -(s.weight k)))
      (s.upward c l * s.partialOutflow w c (k :: A) B) := by
  obtain ⟨hklt, -⟩ := hw.mem_linksAt_iff.mp hk
  have hsum := h.partialOutflow_cons_link (w := w) (B := B) hw hk hA
  have hle := hR.abs_le c l (k :: A) B
  rw [hsum, mul_add, upward_mul_upward] at hle ⊢
  cases halong : s.along c k l with
  | true =>
    rw [halong, if_pos rfl] at hle
    exact R.add hvalue (hR.reads k hklt) hle
  | false =>
    rw [halong, if_neg Bool.false_ne_true] at hle
    exact R.add hvalue (R.neg (hR.reads k hklt)) hle

/-- A tree link bears a vertex, and what was counted in the cut value of that vertex is taken
back. -/
theorem Weighs.add_below (hR : Weighs R s w) (h : s.Hanging) (hw : s.Wired) {value : α}
    (hvalue : R.Reads value (s.upward c l * s.partialOutflow w c A B)) (hk : k ∈ s.linksAt c)
    (hx : s.other k c < s.size) (hxk : (s.place (s.other k c)).parent = some (k, c)) (hB : k ∉ B)
    (hbelow : R.Reads (s.cut.getD (s.other k c) 0.0) (s.cutValue w (s.other k c) k)) :
    R.Reads (value + (if s.along c k l then -(s.cut.getD (s.other k c) 0.0)
        else s.cut.getD (s.other k c) 0.0))
      (s.upward c l * s.partialOutflow w c A (k :: B)) := by
  obtain ⟨hklt, hkj⟩ := hw.mem_linksAt_iff.mp hk
  have hsum := h.partialOutflow_cons_child (w := w) (A := A) hw hx hxk hB
  have hle := hR.abs_le c l A (k :: B)
  have hback := s.upward_mul_upward c k l (s.upward c k * s.outflow w (s.other k c))
  rw [← mul_assoc (s.upward c k), upward_mul_self, one_mul] at hback
  rw [cutValue, hw.upward_neg hklt hkj.symm, neg_mul] at hbelow
  rw [hsum, mul_add, hback] at hle ⊢
  cases halong : s.along c k l with
  | true =>
    have hneg := R.neg hbelow
    rw [neg_neg] at hneg
    rw [halong, if_pos rfl] at hle
    exact R.add hvalue hneg hle
  | false =>
    rw [halong, if_neg Bool.false_ne_true] at hle
    exact R.add hvalue hbelow hle

section Child

variable (hR : Weighs R s w) (h : s.Hanging) (hw : s.Wired) (hc : c < s.size)
  (hp : (s.place c).parent = some (l, p))
  (hcuts : ∀ x < s.size, ∀ k, (s.place x).parent = some (k, c) →
    R.Reads (s.cut.getD x 0.0) (s.cutValue w x k))
include hR h hw hc hp hcuts

/-- **What one more link adds to the sum**: nothing if it is the link above the vertex, and
otherwise its weight, and for a tree link the cut value below it as well. -/
theorem cutShare_reads {P : List Nat} {value : α}
    (hvalue : R.Reads value (s.upward c l * s.partialOutflow w c (l :: P) P))
    (hk : k ∈ s.linksAt c) (hP : k ∉ P) :
    R.Reads (s.cutShare c p (s.tail l == c) value k)
      (s.upward c l * s.partialOutflow w c (k :: l :: P) (k :: P)) := by
  have hshare : s.cutShare c p (s.tail l == c) value k = if s.other k c == p then value else
      if s.isTree k then
        value + (if s.along c k l then s.weight k else -(s.weight k)) +
          (if s.along c k l then -(s.cut.getD (s.other k c) 0.0) else s.cut.getD (s.other k c) 0.0)
      else value + (if s.along c k l then s.weight k else -(s.weight k)) := rfl
  rw [hshare]
  by_cases hfar : s.other k c = p
  · rw [if_pos (beq_iff_eq.mpr hfar), h.partialOutflow_above hw hc hp hk hfar]
    exact hvalue
  · rw [if_neg (fun h => hfar (beq_iff_eq.mp h))]
    have hne := h.not_mem_above hw hc hp hfar hP
    have hlink := hR.add_weight h hw hvalue hk hne
    by_cases htree : s.isTree k = true
    · obtain ⟨-, hkj⟩ := hw.mem_linksAt_iff.mp hk
      obtain ⟨hx, hxk⟩ := h.parent_of_link hp htree hkj (List.ne_of_not_mem_cons hne)
      rw [if_pos htree]
      exact hR.add_below h hw hlink hk hx hxk hP (hcuts _ hx k hxk)
    · rw [if_neg htree, partialOutflow_cons_none hw fun x hx hxk => htree (h.link x hx k c hxk).1]
      exact hlink

/-- The sum over a list of links reads what all of them together let out, one link after the
other. -/
theorem foldl_cutShare_reads {ls P : List Nat} {value : α} (hls : ls.Nodup)
    (hmem : ∀ k ∈ ls, k ∈ s.linksAt c) (hP : ∀ k ∈ ls, k ∉ P)
    (hvalue : R.Reads value (s.upward c l * s.partialOutflow w c (l :: P) P)) :
    R.Reads (ls.foldl (s.cutShare c p (s.tail l == c)) value)
      (s.upward c l * s.partialOutflow w c (l :: (ls.reverse ++ P)) (ls.reverse ++ P)) := by
  induction ls generalizing P value with
  | nil => exact hvalue
  | cons k ls ih =>
    obtain ⟨hk, hls⟩ := List.nodup_cons.mp hls
    have hstep := cutShare_reads hR h hw hc hp hcuts hvalue (hmem k List.mem_cons_self)
      (hP k List.mem_cons_self)
    have hswap : s.partialOutflow w c (k :: l :: P) (k :: P) =
        s.partialOutflow w c (l :: k :: P) (k :: P) :=
      partialOutflow_congr (fun i u _ => or_congr_left
        (and_congr_left' (List.Perm.swap l k P).mem_iff)) hw
    rw [hswap] at hstep
    have hrest := ih hls (fun i hi => hmem i (List.mem_cons_of_mem _ hi)) (fun i hi hiP => ?_) hstep
    · rwa [List.reverse_cons, List.append_assoc, List.singleton_append]
    · rcases List.mem_cons.mp hiP with rfl | hiP
      · exact hk hi
      · exact hP i (List.mem_cons_of_mem _ hi) hiP

/-- **The sum that the program makes is the cut value.** -/
theorem setCut_reads : R.Reads ((s.setCut c).cut.getD c 0.0) (s.cutValue w c l) := by
  have htree := (h.link c hc l p hp).1
  have hl : l ∈ s.linksAt c :=
    (hw.mem_linksAt c l).mpr ⟨hw.lt_of_isTree htree,
      (h.link c hc l p hp).2.1.imp And.left And.right⟩
  have hset : (s.setCut c).cut.getD c 0.0 =
      (s.linksAt c).foldl (s.cutShare c p (s.tail l == c)) (s.weight l) := by
    unfold setCut
    rw [hp]
    exact Table.getD_set_self _ _ _ (hw.cut_size ▸ hc)
  have hstart : R.Reads (s.weight l) (s.upward c l * s.partialOutflow w c [l] []) := by
    rw [h.partialOutflow_cons_link hw hl List.not_mem_nil, partialOutflow_nil, zero_add,
      ← mul_assoc,
      upward_mul_self, one_mul]
    exact hR.reads l (hw.lt_of_isTree htree)
  have hsum := foldl_cutShare_reads hR h hw hc hp hcuts (hw.linksAt_nodup c) (fun _ hk => hk)
    (fun _ _ => List.not_mem_nil) hstart
  rw [h.partialOutflow_full hw hc (fun k hk => by simp [hk]) (fun k hk => by simp [hk])] at hsum
  rw [hset]
  exact hsum

end Child

/-! ## All cut values -/

theorem Weighs.congr (hR : Weighs R s w) (h : SameLinks s s') : Weighs R s' w := by
  refine ⟨?_, hR.nonneg, ?_⟩
  · rw [h.links, h.weight_eq]
    exact hR.reads
  · rw [h.links]
    exact hR.sum_le

theorem setCut_cut_of_ne (s : Simplex α) {v : Nat} (hv : v ≠ c) (d : α) :
    (s.setCut c).cut.getD v d = s.cut.getD v d := by
  unfold setCut
  split
  · rfl
  · exact Table.getD_set_ne _ _ _ hv

/-- The table holds the cut value of every link of the tree, by the vertex below it. -/
def Priced (R : WholeReading α) (s : Simplex α) (w : Nat → Int) : Prop :=
  ∀ c < s.size, ∀ l p, (s.place c).parent = some (l, p) →
    R.Reads (s.cut.getD c 0.0) (s.cutValue w c l)

/-- **All cut values are right.** The vertices right below a vertex are finished before it, so
their cut values are there when they are taken back. -/
theorem Sound.computeCuts_priced (h : s.Sound) (hR : Weighs R s w) : Priced R s.computeCuts w := by
  have hprefix : ∀ done rest, s.postorder = done ++ rest →
      SameTree s (done.foldl setCut s) ∧ (done.foldl setCut s).rank = s.rank ∧
      ∀ c ∈ done, ∀ l p, (s.place c).parent = some (l, p) →
        R.Reads ((done.foldl setCut s).cut.getD c 0.0) (s.cutValue w c l) := by
    intro done
    induction done using List.reverseRecOn with
    | nil => exact fun _ _ => ⟨.refl s, rfl, nofun⟩
    | append_singleton done c ih =>
      intro rest hpost
      obtain ⟨htree, hrank, hdone⟩ := ih (c :: rest) (by rw [hpost, List.append_assoc]; rfl)
      rw [List.foldl_append, List.foldl_cons, List.foldl_nil]
      generalize done.foldl setCut s = t at htree hrank hdone
      have hsound := h.congr htree hrank
      have hnodup : (done ++ [c] ++ rest).Nodup := hpost ▸ h.hanging.postorder_nodup
      have hnew : c ∉ done := fun hc => by
        have := (List.nodup_append.mp (List.nodup_append.mp hnodup).1).2.2
        exact this c hc c List.mem_cons_self rfl
      have hc : c < s.size := (h.hanging.mem_postorder c).mp (by simp [hpost])
      refine ⟨htree.trans (sameTree_setCut t c).1, (sameTree_setCut t c).2.trans hrank,
        fun v hv l p hp => ?_⟩
      by_cases hvc : v = c
      · subst hvc
        rw [← htree.cutValue_eq]
        refine setCut_reads (hR.congr htree.same) hsound.hanging hsound.wired (htree.same.size ▸ hc)
          (htree.place_eq ▸ hp) fun x hx k hxk => ?_
        rw [htree.cutValue_eq]
        rw [htree.same.size] at hx
        rw [htree.place_eq] at hxk
        refine hdone x ?_ k v hxk
        -- the vertex below is earlier in the order
        have hlt := h.hanging.postorder_lt x hx k v hxk
        rw [hpost, List.append_assoc, List.idxOf_append, List.idxOf_append (a := v), if_neg hnew,
          List.singleton_append, List.idxOf_cons_self] at hlt
        by_contra hxd
        rw [if_neg hxd] at hlt
        omega
      · rw [setCut_cut_of_ne t hvc]
        have hv' : v ∈ done := (List.mem_append.mp hv).resolve_right fun h' =>
          hvc (List.mem_singleton.mp h')
        exact hdone v hv' l p hp
  obtain ⟨htree, -, hall⟩ := hprefix s.postorder [] (List.append_nil _).symm
  intro c hc l p hp
  rw [Simplex.computeCuts, htree.cutValue_eq]
  rw [Simplex.computeCuts] at hc hp
  rw [htree.same.size] at hc
  rw [htree.place_eq] at hp
  exact hall c ((h.hanging.mem_postorder c).mpr hc) l p hp

end Sum

end Flowchart.Simplex
