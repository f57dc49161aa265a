import Flowchart.Layered.Cycles
import Flowchart.Proofs.DepthFirst.Finishing
import Flowchart.Proofs.LayerGraph.Building

/-!
# Cycle removal

The depth-first walk finishes the target of an arc before its source, but for the arcs that lead
back. Once these are turned around, finishing times fall along every arc, so there is no cycle
left. Turning many arcs at once closes no new cycle, because one numbering serves them all.

In a graph without cycles no arc leads back, so nothing is turned.
-/

namespace Flowchart.LayerGraph

variable {α : Type} {g : LayerGraph α}

/-! ## The arcs a walk follows -/

theorem mem_arcsDown {v a u : Nat} : (a, u) ∈ g.arcsDown v ↔ a ∈ g.outArcs v ∧ g.target a = u := by
  simp only [arcsDown, List.mem_map, Prod.mk.injEq]
  constructor
  · rintro ⟨b, hb, rfl, rfl⟩
    exact ⟨hb, rfl⟩
  · rintro ⟨ha, rfl⟩
    exact ⟨a, ha, rfl, rfl⟩

theorem Consistent.mem_arcsDown_iff (h : g.Consistent) {v a u : Nat} :
    (a, u) ∈ g.arcsDown v ↔
      ∃ arc, g.arcs[a]? = some arc ∧ arc.active = true ∧ arc.source = v ∧ arc.target = u := by
  rw [mem_arcsDown, h.mem_outArcs]
  constructor
  · rintro ⟨⟨arc, ha, hact, hs⟩, ht⟩
    exact ⟨arc, ha, hact, hs, (target_eq ha).symm.trans ht⟩
  · rintro ⟨arc, ha, hact, hs, ht⟩
    exact ⟨⟨arc, ha, hact, hs⟩, (target_eq ha).trans ht⟩

theorem Consistent.adjacent_arcsDown_iff (h : g.Consistent) {v u : Nat} :
    Walk.Adjacent g.arcsDown v u ↔ g.Leads v u :=
  exists_congr fun _ => h.mem_arcsDown_iff

theorem Consistent.arcsDown_lt (h : g.Consistent) :
    ∀ v < g.size, ∀ e ∈ g.arcsDown v, e.2 < g.size := by
  rintro v - ⟨a, u⟩ he
  obtain ⟨arc, ha, -, -, rfl⟩ := h.mem_arcsDown_iff.mp he
  exact (h.ends_lt a arc ha).2

theorem Consistent.arcsDown_unique (h : g.Consistent) (v v' a u u' : Nat)
    (hu : (a, u) ∈ g.arcsDown v) (hu' : (a, u') ∈ g.arcsDown v') : v = v' := by
  obtain ⟨arc, ha, -, rfl, -⟩ := h.mem_arcsDown_iff.mp hu
  obtain ⟨arc', ha', -, rfl, -⟩ := h.mem_arcsDown_iff.mp hu'
  rw [Option.some.inj (ha.symm.trans ha')]

theorem Consistent.arcsDown_nodup (h : g.Consistent) (v : Nat) :
    ((g.arcsDown v).map Prod.fst).Nodup := by
  have hmap : (g.arcsDown v).map Prod.fst = g.outArcs v := by
    simp [arcsDown, List.map_map, Function.comp_def]
  exact hmap ▸ h.outArcs_nodup v

/-! ## The arcs that lead back -/

theorem Consistent.backArcs_nodup (h : g.Consistent) : g.backArcs.Nodup :=
  Walk.all_backArcs_nodup g.size h.arcsDown_unique h.arcsDown_nodup

/-- An arc that leads back is active, closes a cycle, and its target is finished no earlier than its
source. -/
theorem Consistent.of_mem_backArcs (h : g.Consistent) {a : Nat} (ha : a ∈ g.backArcs) :
    ∃ arc, g.arcs[a]? = some arc ∧ arc.active = true ∧
      Relation.ReflTransGen g.Leads arc.target arc.source ∧
      (Walk.all g.size g.arcsDown).time arc.source ≤
        (Walk.all g.size g.arcsDown).time arc.target := by
  obtain ⟨v, u, -, hau, hcycle, htime⟩ := (Walk.all_finishing h.arcsDown_lt).2 a ha
  obtain ⟨arc, harc, hact, rfl, rfl⟩ := h.mem_arcsDown_iff.mp hau
  have hleads := Relation.ReflTransGen.mono (fun _ _ => h.adjacent_arcsDown_iff.mp) _ _ hcycle
  exact ⟨arc, harc, hact, hleads, htime⟩

/-- An active arc that does not lead back has its target finished first. -/
theorem Consistent.time_lt_of_not_mem (h : g.Consistent) {a : Nat} {arc : Arc α}
    (harc : g.arcs[a]? = some arc) (hact : arc.active = true) (ha : a ∉ g.backArcs) :
    (Walk.all g.size g.arcsDown).time arc.target < (Walk.all g.size g.arcsDown).time arc.source :=
  ((Walk.all_finishing h.arcsDown_lt).1 arc.source (h.ends_lt a arc harc).1 a arc.target
    (h.mem_arcsDown_iff.mpr ⟨arc, harc, hact, rfl, rfl⟩)).resolve_right ha

theorem Consistent.backArcs_of_acyclic (h : g.Consistent) (hg : g.Acyclic) : g.backArcs = [] := by
  refine List.eq_nil_iff_forall_not_mem.mpr fun a ha => ?_
  obtain ⟨arc, harc, hact, hcycle, -⟩ := h.of_mem_backArcs ha
  exact hg arc.source (Relation.TransGen.head' ⟨a, arc, harc, hact, rfl, rfl⟩ hcycle)

/-! ## The graph after the turn -/

/-- Finishing times fall along every arc of the graph in which the arcs that lead back were
turned. -/
theorem Consistent.acyclic_foldl_backArcs (h : g.Consistent) (hl : g.Loopless) :
    (g.backArcs.foldl LayerGraph.reverse g).Acyclic := by
  refine acyclic_of_decreasing (Walk.all g.size g.arcsDown).time fun u v huv => ?_
  obtain ⟨a, arc', ha', hact', rfl, rfl⟩ := huv
  rw [getElem?_foldl_reverse h.backArcs_nodup] at ha'
  split at ha'
  · obtain ⟨arc, harc, hact, -, htime⟩ := h.of_mem_backArcs ‹_›
    rw [harc] at ha'
    obtain rfl := Option.some.inj ha'
    -- both ends are finished, so equal times would make the arc a loop
    have hfin := Walk.mem_finished_all g.arcsDown (h.ends_lt a arc harc).1
    exact lt_of_le_of_ne htime fun he => hl a arc harc hact (Walk.time_inj hfin he)
  · exact h.time_lt_of_not_mem ha' hact' ‹_›

/-- **Cycle removal.** No directed cycle of active arcs is left. The number returned is that of the
arcs that were turned around, all of them active; every other arc, every vertex and every rank list
is as before, and the adjacency is still consistent. A graph without cycles is returned as it is. -/
theorem makeAcyclic_acyclic (h : g.Consistent) (hl : g.Loopless) :
    g.makeAcyclic.1.Acyclic ∧ g.makeAcyclic.1.Consistent ∧ SameVertices g g.makeAcyclic.1 ∧
    (∃ turned : List Nat, turned.Nodup ∧ g.makeAcyclic.2 = turned.length ∧
      (∀ a ∈ turned, ∃ arc, g.arcs[a]? = some arc ∧ arc.active = true ∧
        g.makeAcyclic.1.arcs[a]? = some arc.turned) ∧
      ∀ a, a ∉ turned → g.makeAcyclic.1.arcs[a]? = g.arcs[a]?) ∧
    (g.Acyclic → g.makeAcyclic = (g, 0)) := by
  have harcs := getElem?_foldl_reverse h.backArcs_nodup g
  refine ⟨h.acyclic_foldl_backArcs hl, h.foldl_reverse _, sameVertices_foldl_reverse g _,
    ⟨g.backArcs, h.backArcs_nodup, rfl, fun a ha => ?_, fun a ha => ?_⟩, fun hg => ?_⟩
  · obtain ⟨arc, harc, hact, -⟩ := h.of_mem_backArcs ha
    exact ⟨arc, harc, hact, by rw [makeAcyclic, harcs, if_pos ha, harc]; rfl⟩
  · rw [makeAcyclic, harcs, if_neg ha]
  · rw [makeAcyclic, h.backArcs_of_acyclic hg]
    rfl

/-- In the ring two arcs are turned around. -/
theorem makeAcyclic_ring : ring.Consistent ∧ ring.Loopless ∧ ring.makeAcyclic.1.Acyclic ∧
    ring.makeAcyclic.2 = 2 :=
  ⟨ring_built.fresh.consistent, ring_built.fresh.loopless,
    (makeAcyclic_acyclic ring_built.fresh.consistent ring_built.fresh.loopless).1,
    by decide +kernel⟩

end Flowchart.LayerGraph
