import Flowchart.Proofs.Scalar.Real
import Flowchart.Route.Polyline

/-!
# Dropping corners

A clean-up reads the corners of a route one after the other and keeps those that are left on a
stack. One step skips the new corner, because it is the same as the last one that was kept, or puts
it on the stack, perhaps in place of the last one. What is in place of a pinned corner afterwards is
on top of the stack, either the corner itself or one that counts as the same; and since it is as
good as pinned then, it is never dropped later.

* A route without repeated corners keeps all that are pinned, `simplifyKeeping_sublist`.
* Any route keeps, for each of some pinned corners that are apart, one that counts as the same,
  `simplifyKeeping_keeps`.
-/

namespace Flowchart

variable {pinned stack points kept wanted : List (Point ℝ)} {a b p q k : Point ℝ}

/-! ## Corners that count as the same -/

theorem Point.near_iff : p.near q = true ↔ p.distance q < 1e-3 := decide_eq_true_iff

theorem Point.near_self (p : Point ℝ) : p.near p = true := by
  rw [near_iff, distance_self]
  norm_num

/-- Two points that are too far apart for a third one to count as the same as both. -/
def Apart (p q : Point ℝ) : Prop := 2e-3 ≤ p.distance q

/-- What counts as the same as a point does not count as the same as another one apart from it. -/
theorem Apart.near_eq_false (h : Apart p q) (hk : k.near p = true) : k.near q = false := by
  by_contra hq
  rw [Bool.not_eq_false, Point.near_iff] at hq
  rw [Point.near_iff, Point.distance_comm] at hk
  have htriangle := Point.distance_triangle p k q
  have hfar : (2e-3 : ℝ) ≤ p.distance q := h
  norm_num at hk hq hfar
  linarith

/-! ## One step -/

/-- The corner counts as the same as a pinned one. -/
def HeldBy (pinned : List (Point ℝ)) (b : Point ℝ) : Prop := pinned.any b.near = true

theorem heldBy_of_near (hp : p ∈ pinned) (h : k.near p = true) : HeldBy pinned k :=
  List.any_eq_true.mpr ⟨p, hp, h⟩

/-- What one step does: it skips the corner, puts it in place of the last one, or puts it on top. -/
theorem addCorner_cases (pinned : List (Point ℝ)) (b : Point ℝ) (stack : List (Point ℝ))
    (p : Point ℝ) :
    (b.near p = true ∧ addCorner pinned (b :: stack) p = b :: stack) ∨
    (b.near p = false ∧ ¬ HeldBy pinned b ∧ stack ≠ [] ∧
      addCorner pinned (b :: stack) p = p :: stack) ∨
    (b.near p = false ∧ addCorner pinned (b :: stack) p = p :: b :: stack) := by
  unfold HeldBy
  cases hnear : b.near p with
  | true => cases stack <;> simp [addCorner, hnear]
  | false =>
    cases stack with
    | nil => simp [addCorner, hnear]
    | cons a rest =>
      by_cases hdrop : straightOn a b p = true ∧ pinned.any b.near = false
      · simp [addCorner, hnear, hdrop.1, hdrop.2]
      · have hkeep : (straightOn a b p && !pinned.any b.near) = false := by
          cases hstraight : straightOn a b p <;> simp_all
        simp [addCorner, hnear, hkeep]

/-- The top of the stack stands for the corner that was added. -/
theorem addCorner_head (pinned stack : List (Point ℝ)) (p : Point ℝ) :
    ∃ k rest, addCorner pinned stack p = k :: rest ∧ k.near p = true := by
  cases stack with
  | nil => exact ⟨p, [], rfl, p.near_self⟩
  | cons b stack =>
    obtain ⟨hnear, h⟩ | ⟨-, -, -, h⟩ | ⟨-, h⟩ := addCorner_cases pinned b stack p
    exacts [⟨b, _, h, hnear⟩, ⟨p, _, h, p.near_self⟩, ⟨p, _, h, p.near_self⟩]

/-- The bottom of the stack stays when a corner is added, since only the corners on top are compared
with the new one. -/
theorem addCorner_getLast? (pinned : List (Point ℝ)) (b : Point ℝ) (stack : List (Point ℝ))
    (p : Point ℝ) : (addCorner pinned (b :: stack) p).getLast? = (b :: stack).getLast? := by
  obtain ⟨-, h⟩ | ⟨-, -, hne, h⟩ | ⟨-, h⟩ := addCorner_cases pinned b stack p
  · rw [h]
  · obtain ⟨a, rest, rfl⟩ := List.exists_cons_of_ne_nil hne
    rw [h, List.getLast?_cons_cons, List.getLast?_cons_cons]
  · rw [h, List.getLast?_cons_cons]

/-- Corners that are as good as pinned stay on the stack, for the corner that goes is not as good as
pinned. -/
theorem addCorner_keeps (hkept : kept.Sublist stack) (hheld : ∀ k ∈ kept, HeldBy pinned k)
    (p : Point ℝ) : kept.Sublist (addCorner pinned stack p) := by
  cases stack with
  | nil => exact (List.sublist_nil.mp hkept) ▸ List.nil_sublist _
  | cons b stack =>
    obtain ⟨-, h⟩ | ⟨-, hfree, -, h⟩ | ⟨-, h⟩ := addCorner_cases pinned b stack p
    · rwa [h]
    · rw [h]
      -- the corner that goes is not as good as pinned, so it is none of those kept
      have hb : b ∉ kept := fun hb => hfree (hheld b hb)
      exact ((List.sublist_cons_iff.mp hkept).resolve_right
        (fun ⟨_, heq, _⟩ => hb (heq ▸ List.mem_cons_self))).cons p
    · rw [h]
      exact hkept.cons p

/-- A corner apart from those kept so far is represented by one more. -/
theorem addCorner_takes (hkept : kept.Sublist stack) (hheld : ∀ k ∈ kept, HeldBy pinned k)
    (hnew : ∀ k ∈ kept, k.near p = false) :
    ∃ k, k.near p = true ∧ (k :: kept).Sublist (addCorner pinned stack p) := by
  have hstay := addCorner_keeps hkept hheld p
  obtain ⟨k, rest, h, hnear⟩ := addCorner_head pinned stack p
  rw [h] at hstay ⊢
  have hk : k ∉ kept := fun hk => by simp [hnew k hk] at hnear
  exact ⟨k, hnear, ((List.sublist_cons_iff.mp hstay).resolve_right
    (fun ⟨_, heq, _⟩ => hk (heq ▸ List.mem_cons_self))).cons_cons k⟩

/-! ## A whole route -/

/-- The first corner of a route stays first, whatever is cleaned up behind it. -/
theorem simplifyKeeping_head? (pinned : List (Point ℝ)) (p : Point ℝ) (points : List (Point ℝ)) :
    (simplifyKeeping pinned (p :: points)).head? = some p := by
  rw [simplifyKeeping, List.head?_reverse, List.foldl_cons]
  have hbottom : ∀ (points : List (Point ℝ)) (b : Point ℝ) (stack : List (Point ℝ)),
      (points.foldl (addCorner pinned) (b :: stack)).getLast? = (b :: stack).getLast? := by
    intro points
    induction points with
    | nil => exact fun _ _ => rfl
    | cons p points ih =>
      intro b stack
      obtain ⟨k, rest, h, -⟩ := addCorner_head pinned (b :: stack) p
      rw [List.foldl_cons, ← addCorner_getLast? pinned b stack p, h]
      exact ih k rest
  exact hbottom points p []

/-- The last corner of a route stays, or one that counts as the same becomes the last one. -/
theorem simplifyKeeping_getLast? (pinned : List (Point ℝ)) (h : points.getLast? = some q) :
    ∃ k, (simplifyKeeping pinned points).getLast? = some k ∧ k.near q = true := by
  obtain ⟨front, rfl⟩ := List.getLast?_eq_some_iff.mp h
  rw [simplifyKeeping, List.getLast?_reverse, List.foldl_append, List.foldl_cons, List.foldl_nil]
  obtain ⟨k, rest, h, hnear⟩ := addCorner_head pinned (front.foldl (addCorner pinned) []) q
  exact ⟨k, by rw [h, List.head?_cons], hnear⟩

/-- Neighbours that do not count as the same are added without skipping one. -/
theorem foldl_addCorner_sublist (pinned : List (Point ℝ)) {b : Point ℝ}
    (h : (b :: points).IsChain fun p q => p.near q = false) (stack : List (Point ℝ)) :
    ((points.reverse ++ b :: stack).filter fun p => pinned.any p.near).Sublist
        (points.foldl (addCorner pinned) (b :: stack)) ∧
      (points.foldl (addCorner pinned) (b :: stack)).head? =
        (points.reverse ++ b :: stack).head? := by
  induction points generalizing b stack with
  | nil => exact ⟨List.filter_sublist, rfl⟩
  | cons p points ih =>
    obtain ⟨hbp, hrest⟩ := List.isChain_cons_cons.mp h
    rw [List.foldl_cons, List.reverse_cons, List.append_assoc]
    obtain ⟨hnear, -⟩ | ⟨-, hfree, -, hadd⟩ | ⟨-, hadd⟩ := addCorner_cases pinned b stack p
    · rw [hbp] at hnear
      cases hnear
    · -- the filter leaves out the corner that goes, too
      obtain ⟨hsub, hhead⟩ := ih hrest stack
      rw [hadd]
      refine ⟨?_, hhead.trans (by simp [List.head?_append])⟩
      rw [HeldBy, Bool.not_eq_true] at hfree
      simpa [List.filter_append, List.filter_cons, hfree] using hsub
    · rw [hadd]
      exact ih hrest (b :: stack)

/-- A clean-up of a route without repeated corners drops no pinned corner and not the last one. -/
theorem simplifyKeeping_sublist (pinned : List (Point ℝ))
    (h : points.IsChain fun p q => p.near q = false) :
    (points.filter fun p => pinned.any p.near).Sublist (simplifyKeeping pinned points) ∧
      (simplifyKeeping pinned points).getLast? = points.getLast? := by
  cases points with
  | nil => exact ⟨.slnil, rfl⟩
  | cons b points =>
    obtain ⟨hsub, hhead⟩ := foldl_addCorner_sublist pinned h []
    rw [← List.reverse_cons, List.filter_reverse] at hsub
    rw [← List.reverse_cons, List.head?_reverse] at hhead
    rw [simplifyKeeping, List.getLast?_reverse]
    exact ⟨List.reverse_sublist.mp (by rwa [List.reverse_reverse]), hhead⟩

/-- Each of the wanted corners is represented on the stack in the end, after those that stood for
corners before. What stands for one of them is held from then on, and it is too far from what is
still wanted to stand for that as well. -/
theorem foldl_addCorner_keeps (hwanted : wanted.Sublist points) (hpinned : ∀ p ∈ wanted, p ∈ pinned)
    (hapart : wanted.Pairwise Apart) (hkept : kept.Sublist stack)
    (hheld : ∀ k ∈ kept, HeldBy pinned k) (hnew : ∀ k ∈ kept, ∀ p ∈ wanted, k.near p = false) :
    ∃ added, List.Forall₂ (fun p k => k.near p = true) wanted added ∧
      (added.reverse ++ kept).Sublist (points.foldl (addCorner pinned) stack) := by
  induction points generalizing wanted stack kept with
  | nil =>
    obtain rfl := List.sublist_nil.mp hwanted
    exact ⟨[], .nil, hkept⟩
  | cons p points ih =>
    rw [List.foldl_cons]
    obtain hskip | ⟨later, rfl, hlater⟩ := List.sublist_cons_iff.mp hwanted
    · exact ih hskip hpinned hapart (addCorner_keeps hkept hheld p) hheld hnew
    · obtain ⟨hp, hapart⟩ := List.pairwise_cons.mp hapart
      obtain ⟨k, hk, htaken⟩ :=
        addCorner_takes hkept hheld fun k hk => hnew k hk p List.mem_cons_self
      obtain ⟨added, hadded, hsub⟩ := ih hlater
        (fun q hq => hpinned q (List.mem_cons_of_mem p hq)) hapart htaken
        (List.forall_mem_cons.mpr ⟨heldBy_of_near (hpinned p List.mem_cons_self) hk, hheld⟩)
        (List.forall_mem_cons.mpr ⟨fun q hq => (hp q hq).near_eq_false hk,
          fun k hk q hq => hnew k hk q (List.mem_cons_of_mem p hq)⟩)
      exact ⟨k :: added, .cons hk hadded, by simpa using hsub⟩

/-- A clean-up keeps, for each of some pinned corners that are apart, one that counts as the same,
and keeps these in order. -/
theorem simplifyKeeping_keeps (hwanted : wanted.Sublist points) (hpinned : ∀ p ∈ wanted, p ∈ pinned)
    (hapart : wanted.Pairwise Apart) :
    ∃ kept, List.Forall₂ (fun p k => k.near p = true) wanted kept ∧
      kept.Sublist (simplifyKeeping pinned points) := by
  obtain ⟨kept, hkept, hsub⟩ := foldl_addCorner_keeps hwanted hpinned hapart (List.nil_sublist [])
    nofun nofun
  rw [List.append_nil] at hsub
  refine ⟨kept, hkept, ?_⟩
  rwa [simplifyKeeping, ← List.reverse_sublist, List.reverse_reverse]

end Flowchart
