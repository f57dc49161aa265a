import Flowchart.Layered.Ranking
import Flowchart.Proofs.LayerGraph.Adjacency
import Flowchart.Proofs.Table
import Mathlib.Algebra.Order.BigOperators.Group.Finset

/-!
# Weak components

The network simplex works on one weakly connected component after the other. A component is found
by marking what arcs connect with its first vertex, directions disregarded. `Component` says what
makes a list of vertices one: it is closed under arcs, and arcs connect its members. The
components found are of this kind, no two share a vertex, and every vertex is in one of them.
-/

namespace Flowchart.LayerGraph

open Table

variable {α : Type} {g : LayerGraph α} {met : Array Bool} {u v : Nat}

/-- An arc leads from one vertex to the other, in either direction. -/
def Beside (g : LayerGraph α) (u v : Nat) : Prop := g.Leads u v ∨ g.Leads v u

theorem Beside.symm (h : g.Beside u v) : g.Beside v u := Or.symm h

instance : Std.Symm g.Beside := ⟨fun _ _ => Beside.symm⟩

theorem Consistent.lt_of_beside (hg : g.Consistent) (h : g.Beside u v) : u < g.size ∧ v < g.size :=
  h.elim hg.lt_of_leads fun h => (hg.lt_of_leads h).symm

theorem Consistent.mem_neighbours (hg : g.Consistent) :
    u ∈ g.successors v ++ g.predecessors v ↔ g.Beside v u := by
  rw [List.mem_append, successors, predecessors, List.mem_map, List.mem_map]
  refine or_congr ⟨?_, ?_⟩ ⟨?_, ?_⟩
  · rintro ⟨a, ha, rfl⟩
    exact hg.leads_of_mem_outArcs ha
  · rintro ⟨a, arc, ha, hact, hs, rfl⟩
    exact ⟨a, (hg.mem_outArcs v a).mpr ⟨arc, ha, hact, hs⟩, target_eq ha⟩
  · rintro ⟨a, ha, rfl⟩
    exact hg.leads_of_mem_inArcs ha
  · rintro ⟨a, arc, ha, hact, rfl, ht⟩
    exact ⟨a, (hg.mem_inArcs v a).mpr ⟨arc, ha, hact, ht⟩, source_eq ha⟩

/-! ## Marking what is connected -/

/-- Arcs connect two vertices, directions disregarded. -/
def Together (g : LayerGraph α) (u v : Nat) : Prop := Relation.ReflTransGen g.Beside u v

instance : Std.Symm g.Together := inferInstanceAs (Std.Symm (Relation.ReflTransGen g.Beside))

theorem Together.symm (h : g.Together u v) : g.Together v u := Std.Symm.symm u v h

theorem Together.trans {w : Nat} (h : g.Together u v) (h' : g.Together v w) : g.Together u w :=
  Relation.ReflTransGen.trans h h'

/-- What is marked while the vertices on the stack have still to be looked at: everything marked is
connected with the first vertex, and what lies beside a vertex that was looked at is marked. -/
structure Spreading (g : LayerGraph α) (root : Nat) (met : Array Bool) (stack : List Nat) :
    Prop where
  size : met.size = g.size
  pending : ∀ v ∈ stack, met.getD v false = true
  first : met.getD root false = true
  together : ∀ v, met.getD v false = true → g.Together root v
  closed : ∀ v, met.getD v false = true → v ∉ stack → ∀ u, g.Beside v u → met.getD u false = true

/-- The neighbours of a vertex that are not marked yet, each once. -/
def freshBeside (g : LayerGraph α) (met : Array Bool) (v : Nat) : List Nat :=
  ((g.successors v ++ g.predecessors v).filter fun u => !met.getD u true).eraseDups

theorem spread_cons (g : LayerGraph α) (fuel : Nat) (met : Array Bool) (v : Nat)
    (stack : List Nat) : g.spread (fuel + 1) met (v :: stack) =
      g.spread fuel ((g.freshBeside met v).foldl (·.setIfInBounds · true) met)
        (g.freshBeside met v ++ stack) := rfl

/-- Vertices outside the table count as marked, but all neighbours are inside. -/
theorem mem_freshBeside (hg : g.Consistent) (hsize : met.size = g.size) :
    u ∈ g.freshBeside met v ↔ g.Beside v u ∧ met.getD u false = false := by
  rw [freshBeside, List.mem_eraseDups, List.mem_filter, hg.mem_neighbours]
  refine and_congr_right fun hb => ?_
  rw [getD_default (hsize ▸ (hg.lt_of_beside hb).2) true false, Bool.not_eq_true']

theorem freshBeside_spec (hg : g.Consistent) (hsize : met.size = g.size) :
    ∀ u ∈ g.freshBeside met v, u < met.size ∧ met.getD u false = false := fun _ hu =>
  have ⟨hbeside, hnew⟩ := (mem_freshBeside hg hsize).mp hu
  ⟨hsize ▸ (hg.lt_of_beside hbeside).2, hnew⟩

/-- **A vertex leaves the stack** when its fresh neighbours are marked and put on the stack: then all
its neighbours are marked. -/
theorem Spreading.visit {root : Nat} {stack : List Nat} (hg : g.Consistent)
    (h : Spreading g root met (v :: stack)) :
    Spreading g root ((g.freshBeside met v).foldl (·.setIfInBounds · true) met)
      (g.freshBeside met v ++ stack) := by
  have hmark : ∀ u, ((g.freshBeside met v).foldl (·.setIfInBounds · true) met).getD u false = true ↔
      u ∈ g.freshBeside met v ∨ met.getD u false = true := by
    intro u
    rw [getD_foldl_mark]
    exact or_congr_left (and_iff_left_of_imp fun hu => (freshBeside_spec hg h.size u hu).1)
  have hv := h.pending v List.mem_cons_self
  refine ⟨(size_foldl_mark _ _).trans h.size, fun u hu => ?_, (hmark _).mpr (.inr h.first),
    fun u hu => ?_, fun u hu hnot x hux => ?_⟩
  · rw [hmark]
    exact (List.mem_append.mp hu).imp_right fun hu => h.pending u (List.mem_cons_of_mem _ hu)
  · rcases (hmark u).mp hu with hu | hu
    · exact (h.together v hv).tail ((mem_freshBeside hg h.size).mp hu).1
    · exact h.together u hu
  · rw [hmark]
    obtain ⟨hnf, hns⟩ := not_or.mp (mt List.mem_append.mpr hnot)
    have hold := ((hmark u).mp hu).resolve_left hnf
    by_cases huv : u = v
    · subst huv
      by_cases hx : met.getD x false = true
      · exact .inr hx
      · exact .inl ((mem_freshBeside hg h.size).mpr ⟨hux, Bool.eq_false_iff.mpr hx⟩)
    · exact .inr (h.closed u hold (by simp [huv, hns]) x hux)

/-- With enough fuel the stack runs empty, and what is marked then is closed under neighbours. Every
vertex is put on the stack once, when it is marked. -/
theorem Spreading.spread {root : Nat} {stack : List Nat} (hg : g.Consistent)
    (h : Spreading g root met stack) (fuel : Nat)
    (hfuel : stack.length + g.size ≤ fuel + (memberSet met).card) :
    Spreading g root (g.spread fuel met stack) [] := by
  induction fuel generalizing met stack with
  | zero =>
    have hle := h.size ▸ card_memberSet_le met
    obtain rfl : stack = [] := List.length_eq_zero_iff.mp (by omega)
    exact h
  | succ fuel ih =>
    cases stack with
    | nil => exact h
    | cons v stack =>
      have hnodup : (g.freshBeside met v).Nodup := nodup_eraseDups _
      rw [spread_cons]
      refine ih (h.visit hg) ?_
      rw [card_foldl_mark hnodup (freshBeside_spec hg h.size), List.length_append]
      rw [List.length_cons] at hfuel
      omega

/-- **A component is what arcs connect with a vertex.** -/
theorem mem_componentOf (hg : g.Consistent) (hv : v < g.size) :
    u ∈ g.componentOf v ↔ g.Together v u := by
  have hmark : ∀ x, ((Array.replicate g.size false).setIfInBounds v true).getD x false = true ↔
      x = v := by
    intro x
    rw [getD_set, getD_replicate, Array.size_replicate]
    by_cases hx : x = v <;> simp [hx, hv]
  have hset : memberSet ((Array.replicate g.size false).setIfInBounds v true) = {v} := by
    ext x
    rw [mem_memberSet, hmark, Finset.mem_singleton]
  have hstart : Spreading g v ((Array.replicate g.size false).setIfInBounds v true) [v] := by
    refine ⟨by simp, fun x hx => (hmark x).mpr (List.mem_singleton.mp hx), (hmark v).mpr rfl,
      fun x hx => (hmark x).mp hx ▸ .refl, fun x hx hnot => ?_⟩
    exact absurd (List.mem_singleton.mpr ((hmark x).mp hx)) hnot
  have hend := hstart.spread hg g.size (by rw [hset]; simp [Nat.add_comm])
  have hmem : u ∈ g.componentOf v ↔ (g.spread g.size
      ((Array.replicate g.size false).setIfInBounds v true) [v]).getD u false = true := by
    simp only [componentOf, vertices, List.mem_filter, List.mem_range, and_iff_right_iff_imp]
    exact fun hu => hend.size ▸ lt_of_member hu
  rw [hmem]
  refine ⟨hend.together u, fun hu => ?_⟩
  clear hmem
  induction hu with
  | refl => exact hend.first
  | tail _ hb ih => exact hend.closed _ ih List.not_mem_nil _ hb

/-! ## Components -/

/-- A list of vertices is a component: arcs stay in it and connect its members. -/
structure Component (g : LayerGraph α) (members : List Nat) : Prop where
  nodup : members.Nodup
  lt : ∀ v ∈ members, v < g.size
  closed : ∀ u v, g.Leads u v → (u ∈ members ↔ v ∈ members)
  together : ∀ u ∈ members, ∀ v ∈ members, g.Together u v

theorem componentOf_component (hg : g.Consistent) (hv : v < g.size) :
    g.Component (g.componentOf v) := by
  have hmem := fun u => mem_componentOf (u := u) hg hv
  refine ⟨List.nodup_range.filter _, fun u hu => ?_, fun u w huw => ?_, fun u hu w hw => ?_⟩
  · exact List.mem_range.mp (List.mem_filter.mp hu).1
  · rw [hmem, hmem]
    exact ⟨fun hu => hu.tail (.inl huw), fun hw => hw.tail (.inr huw)⟩
  · exact ((hmem u).mp hu).symm.trans ((hmem w).mp hw)

/-- The components found, and the vertices seen in them. -/
structure Collected (g : LayerGraph α) (found : List (List Nat)) (seen : Array Bool) : Prop where
  size : seen.size = g.size
  seen_iff : ∀ v, seen.getD v false = true ↔ ∃ members ∈ found, v ∈ members
  of_vertex : ∀ members ∈ found, ∃ v < g.size, members = g.componentOf v
  disjoint : found.Pairwise List.Disjoint

/-- One more component shares no vertex with those collected so far, for a shared vertex would
connect the new vertex with one that was seen. -/
theorem Collected.add (hg : g.Consistent) {found : List (List Nat)} {seen : Array Bool}
    (h : Collected g found seen) (hv : v < g.size) (hnew : seen.getD v false = false) :
    Collected g (found ++ [g.componentOf v])
      ((g.componentOf v).foldl (·.setIfInBounds · true) seen) := by
  refine ⟨(size_foldl_mark _ _).trans h.size, fun u => ?_, fun members hm => ?_, ?_⟩
  · rw [getD_foldl_mark, h.seen_iff]
    have hlt : u ∈ g.componentOf v → u < seen.size := fun hu =>
      h.size ▸ (componentOf_component hg hv).lt u hu
    rw [and_iff_left_of_imp hlt, or_comm]
    simp [List.mem_append, or_and_right, exists_or]
  · rcases List.mem_append.mp hm with hm | hm
    · exact h.of_vertex members hm
    · exact ⟨v, hv, List.mem_singleton.mp hm⟩
  · refine List.pairwise_append.mpr ⟨h.disjoint, List.pairwise_singleton _ _,
      fun members hm c hc => ?_⟩
    obtain rfl := List.mem_singleton.mp hc
    obtain ⟨u, hu, rfl⟩ := h.of_vertex members hm
    intro x hxu hxv
    -- a shared vertex would connect the new one with one that was seen
    have huv : g.Together u v :=
      ((mem_componentOf hg hu).mp hxu).trans ((mem_componentOf hg hv).mp hxv).symm
    have hseen := (h.seen_iff v).mpr ⟨_, hm, (mem_componentOf hg hu).mpr huv⟩
    rw [hnew] at hseen
    cases hseen

/-- **The components** are components, share no vertex and cover all vertices: what is seen stays
seen, and a vertex that is looked at is seen afterwards. -/
theorem components_spec (hg : g.Consistent) :
    (∀ members ∈ g.components, g.Component members) ∧ g.components.Pairwise List.Disjoint ∧
      ∀ v < g.size, ∃ members ∈ g.components, v ∈ members := by
  have hfold : ∀ (l : List Nat) (s : List (List Nat) × Array Bool), (∀ v ∈ l, v < g.size) →
      Collected g s.1 s.2 →
      let s' := l.foldl (fun (found : List (List Nat) × Array Bool) v =>
        if found.2.getD v true then found
        else
          let members := g.componentOf v
          (found.1 ++ [members], members.foldl (·.setIfInBounds · true) found.2)) s
      Collected g s'.1 s'.2 ∧ (∀ v ∈ l, s'.2.getD v false = true) ∧
        ∀ v, s.2.getD v false = true → s'.2.getD v false = true := by
    intro l
    induction l with
    | nil => exact fun s _ hs => ⟨hs, nofun, fun _ hv => hv⟩
    | cons v l ih =>
      intro s hl hs
      have hv := hl v List.mem_cons_self
      have hdefault : s.2.getD v true = s.2.getD v false := getD_default (hs.size ▸ hv) true false
      have hl' := fun u hu => hl u (List.mem_cons_of_mem _ hu)
      rw [List.foldl_cons, hdefault]
      split
      · rename_i hseen
        obtain ⟨hs', hall, hkeep⟩ := ih s hl' hs
        refine ⟨hs', fun u hu => ?_, hkeep⟩
        rcases List.mem_cons.mp hu with rfl | hu
        · exact hkeep _ hseen
        · exact hall u hu
      · rename_i hnew
        have hadd := hs.add hg hv (Bool.eq_false_iff.mpr hnew)
        obtain ⟨hs', hall, hkeep⟩ := ih (s.1 ++ [g.componentOf v],
          (g.componentOf v).foldl (·.setIfInBounds · true) s.2) hl' hadd
        refine ⟨hs', fun u hu => ?_, fun u hu => hkeep u ?_⟩
        · rcases List.mem_cons.mp hu with rfl | hu
          · refine hkeep _
              ((hadd.seen_iff _).mpr ⟨_, List.mem_append_right _ List.mem_cons_self, ?_⟩)
            exact (mem_componentOf hg hv).mpr .refl
          · exact hall u hu
        · exact (getD_foldl_mark _ _ _).mpr (.inr hu)
  have hstart : Collected g [] (Array.replicate g.size false) :=
    ⟨by simp, fun v => by rw [getD_replicate]; simp, nofun, .nil⟩
  obtain ⟨hs, hall, -⟩ := hfold g.vertices ([], Array.replicate g.size false)
    (fun v hv => List.mem_range.mp hv) hstart
  refine ⟨fun members hm => ?_, hs.disjoint, fun v hv => ?_⟩
  · obtain ⟨v, hv, rfl⟩ := hs.of_vertex members hm
    exact componentOf_component hg hv
  · exact (hs.seen_iff v).mp (hall v (List.mem_range.mpr hv))

end Flowchart.LayerGraph
