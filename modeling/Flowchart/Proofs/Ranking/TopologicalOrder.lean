import Flowchart.Proofs.Ranking.Anchoring

/-!
# Listing successors first

The tight tree goes through the vertices in the order of `reverseTopological`. It is made by taking
vertices off the graph, one without arcs into it at a time: the degree of a vertex counts the arcs
into it that were not released yet, that is, those from vertices not listed so far, and the stack
holds the vertices without such arcs that are still to be listed. `Releasing` is what the release of
an arc preserves, `Listing` what the listing of a vertex preserves.

In an acyclic graph the listing ends with all vertices, since what is left over would need an
unlisted predecessor each. And a vertex is listed only after all its predecessors, so read from its
end the list has every vertex after its successors, `reverseTopological_spec`.
-/

namespace Flowchart.LayerGraph

variable {α : Type} {g : LayerGraph α} {released released' listed : List Nat}
  {state : Array Nat × List Nat} {u v a b : Nat}

/-! ## Releasing arcs -/

/-- The degrees count the arcs that are not released, and the vertices without such arcs are those
on the stack and those that are listed, each once. -/
structure Releasing (g : LayerGraph α) (released listed : List Nat)
    (state : Array Nat × List Nat) : Prop where
  size : state.1.size = g.size
  degree : ∀ u, state.1.getD u 0 = (g.inArcs u).countP (· ∉ released)
  free : ∀ u, u ∈ state.2 ++ listed ↔ u < g.size ∧ ∀ a ∈ g.inArcs u, a ∈ released
  once : (state.2 ++ listed).Nodup

/-- Releases one arc. -/
def releaseArc (g : LayerGraph α) (state : Array Nat × List Nat) (a : Nat) :
    Array Nat × List Nat :=
  let left := state.1.getD (g.target a) 0 - 1
  (state.1.setIfInBounds (g.target a) left, if left == 0 then g.target a :: state.2 else state.2)

theorem releaseSuccessors_eq (arcs : List Nat) (state : Array Nat × List Nat) :
    g.releaseSuccessors arcs state = arcs.foldl g.releaseArc state := by
  induction arcs generalizing state with
  | nil => rfl
  | cons a arcs ih => exact ih _

/-- An arc that is released does not count any more where it leads. -/
theorem Consistent.countP_release (hc : g.Consistent) (ha : a ∈ g.outArcs v) (hnew : a ∉ released)
    (u : Nat) : (g.inArcs u).countP (· ∉ a :: released) =
      if u = g.target a then (g.inArcs u).countP (· ∉ released) - 1
      else (g.inArcs u).countP (· ∉ released) := by
  split
  · rename_i hu
    have hperm := List.perm_cons_erase (hu ▸ hc.mem_inArcs_target ha)
    rw [hperm.countP_eq, hperm.countP_eq, List.countP_cons_of_neg (by simp),
      List.countP_cons_of_pos (by simpa using hnew), Nat.add_sub_cancel]
    refine List.countP_congr fun b hb => ?_
    simp [((hc.inArcs_nodup u).mem_erase_iff.mp hb).1]
  · rename_i hu
    refine List.countP_congr fun b hb => ?_
    have hne : b ≠ a := fun hba => hu (hba ▸ hc.target_of_mem_inArcs hb).symm
    simp [hne]

/-- At every other vertex the arcs that count are the same. -/
theorem Consistent.free_release_of_ne (hc : g.Consistent) (hu : u ≠ g.target a) :
    (∀ b ∈ g.inArcs u, b ∈ a :: released) ↔ ∀ b ∈ g.inArcs u, b ∈ released := by
  refine forall₂_congr fun b hb => ?_
  have hne : b ≠ a := fun hba => hu (hba ▸ hc.target_of_mem_inArcs hb).symm
  simp [hne]

namespace Releasing

theorem congr (h : g.Releasing released listed state) (hsame : ∀ a, a ∈ released' ↔ a ∈ released) :
    g.Releasing released' listed state :=
  ⟨h.size, by simpa only [hsame] using h.degree, by simpa only [hsame] using h.free, h.once⟩

/-- Taking one arc away keeps the order partial: its target has one arc less to wait for, and
becomes free if this was the last one. -/
theorem releaseArc (h : g.Releasing released listed state) (hc : g.Consistent)
    (ha : a ∈ g.outArcs v) (hnew : a ∉ released) :
    g.Releasing (a :: released) listed (g.releaseArc state a) := by
  have hin := hc.mem_inArcs_target ha
  have hlt : g.target a < g.size := (hc.lt_of_leads (hc.leads_of_mem_outArcs ha)).2
  have hbusy : g.target a ∉ state.2 ++ listed := fun hmem => hnew (((h.free _).mp hmem).2 a hin)
  have hdegree : ∀ u, (g.releaseArc state a).1.getD u 0 =
      (g.inArcs u).countP (· ∉ a :: released) := by
    intro u
    rw [LayerGraph.releaseArc, Table.getD_set, hc.countP_release ha hnew, h.degree, h.degree]
    by_cases hu : u = g.target a <;> simp [hu, h.size, hlt]
  -- the target becomes free if this was the last arc into it
  have hleft : state.1.getD (g.target a) 0 - 1 = 0 ↔
      ∀ b ∈ g.inArcs (g.target a), b ∈ a :: released := by
    have hcount := hdegree (g.target a)
    rw [LayerGraph.releaseArc, Table.getD_set_self _ _ _ (h.size ▸ hlt)] at hcount
    rw [hcount, List.countP_eq_zero]
    simp [or_iff_not_imp_left]
  refine ⟨Array.size_setIfInBounds.trans h.size, hdegree, fun u => ?_, ?_⟩
  · by_cases hu : u = g.target a
    · subst hu
      rw [← hleft, LayerGraph.releaseArc]
      split <;> simp_all
    · rw [hc.free_release_of_ne hu, ← h.free u, LayerGraph.releaseArc]
      split <;> simp [hu]
  · rw [LayerGraph.releaseArc]
    split
    · exact List.nodup_cons.mpr ⟨hbusy, h.once⟩
    · exact h.once

theorem releaseSuccessors {arcs : List Nat} (h : g.Releasing released listed state)
    (hc : g.Consistent) (ha : ∀ a ∈ arcs, a ∈ g.outArcs v) (hnew : ∀ a ∈ arcs, a ∉ released)
    (hnodup : arcs.Nodup) :
    g.Releasing (arcs ++ released) listed (g.releaseSuccessors arcs state) := by
  rw [releaseSuccessors_eq]
  induction arcs generalizing released state with
  | nil => exact h
  | cons a arcs ih =>
    obtain ⟨hfirst, hrest⟩ := List.nodup_cons.mp hnodup
    obtain ⟨ha, hlater⟩ := List.forall_mem_cons.mp ha
    obtain ⟨hnew, hnews⟩ := List.forall_mem_cons.mp hnew
    refine (ih (h.releaseArc hc ha hnew) hlater (fun b hb hmem => ?_) hrest).congr fun b => ?_
    · rcases List.mem_cons.mp hmem with rfl | hmem
      · exact hfirst hb
      · exact hnews b hb hmem
    · simp only [List.mem_append, List.mem_cons]
      tauto

end Releasing

/-! ## Listing vertices -/

/-- The arcs out of the listed vertices are released, and no listed vertex leads to one that was
listed before it. -/
structure Listing (g : LayerGraph α) (listed : List Nat) (state : Array Nat × List Nat) : Prop where
  releasing : g.Releasing (listed.flatMap g.outArcs) listed state
  order : listed.Pairwise fun u v => ¬ g.Leads u v

theorem listing_start (hc : g.Consistent) : g.Listing []
    (g.incoming.map List.length, g.vertices.filter fun v => (g.inArcs v).isEmpty) := by
  refine ⟨⟨?_, fun u => ?_, fun u => ?_, ?_⟩, .nil⟩
  · rw [Array.size_map, hc.incoming_size]
  · rw [inArcs, Array.getD_eq_getD_getElem?, Array.getD_eq_getD_getElem?, Array.getElem?_map]
    cases g.incoming[u]? <;> simp
  · simp [vertices, List.eq_nil_iff_forall_not_mem]
  · rw [List.append_nil]
    exact List.nodup_range.filter _

theorem Listing.lt (h : g.Listing listed state) (hv : v ∈ listed) : v < g.size :=
  ((h.releasing.free v).mp (List.mem_append_right _ hv)).1

/-- A listed vertex is led to by listed ones only. -/
theorem Listing.mem_of_leads (h : g.Listing listed state) (hc : g.Consistent) (hv : v ∈ listed)
    (hl : g.Leads u v) : u ∈ listed := by
  obtain ⟨a, arc, harc, hact, rfl, rfl⟩ := hl
  have hin : a ∈ g.inArcs arc.target := (hc.mem_inArcs _ a).mpr ⟨arc, harc, hact, rfl⟩
  have hreleased := ((h.releasing.free _).mp (List.mem_append_right _ hv)).2 a hin
  obtain ⟨w, hw, ha⟩ := List.mem_flatMap.mp hreleased
  rwa [← source_eq harc, hc.source_of_mem_outArcs ha]

theorem Listing.list {degrees : Array Nat} {stack : List Nat}
    (h : g.Listing listed (degrees, v :: stack)) (hc : g.Consistent) :
    g.Listing (v :: listed) (g.releaseSuccessors (g.outArcs v) (degrees, stack)) := by
  obtain ⟨hsize, hdegree, hfree, honce⟩ := h.releasing
  have hmoved : (stack ++ v :: listed).Perm (v :: stack ++ listed) := List.perm_middle
  have hv : v ∉ listed := fun hmem =>
    (List.nodup_cons.mp honce).1 (List.mem_append_right _ hmem)
  have hreleasing : g.Releasing (listed.flatMap g.outArcs) (v :: listed) (degrees, stack) :=
    ⟨hsize, hdegree, fun u => hmoved.mem_iff.trans (hfree u), hmoved.nodup_iff.mpr honce⟩
  refine ⟨?_, List.pairwise_cons.mpr ⟨fun w hw hl => hv (h.mem_of_leads hc hw hl), h.order⟩⟩
  refine hreleasing.releaseSuccessors hc (fun _ ha => ha) (fun a ha hmem => hv ?_)
    (hc.outArcs_nodup v)
  obtain ⟨w, hw, ha'⟩ := List.mem_flatMap.mp hmem
  rwa [← hc.source_of_mem_outArcs ha, hc.source_of_mem_outArcs ha']

theorem listSources_nil (fuel : Nat) (listed : List Nat) (degrees : Array Nat) :
    g.listSources fuel listed (degrees, []) = listed := by
  cases fuel <;> rfl

/-- The listing does not end before all vertices of an acyclic graph are listed. -/
theorem Listing.listSources (h : g.Listing listed state) (hc : g.Consistent) (hg : g.Acyclic)
    {fuel : Nat} (hfuel : listed.length + fuel = g.size) :
    (∀ v, v ∈ g.listSources fuel listed state ↔ v < g.size) ∧
      (g.listSources fuel listed state).Pairwise fun u v => ¬ g.Leads u v := by
  induction fuel generalizing listed state with
  | zero =>
    rw [LayerGraph.listSources]
    refine ⟨fun v => ⟨h.lt, fun hv => ?_⟩, h.order⟩
    have hsub : listed ⊆ List.range g.size := fun u hu => List.mem_range.mpr (h.lt hu)
    have hnodup : listed.Nodup := (List.nodup_append.mp h.releasing.once).2.1
    have hperm := (hnodup.subperm hsub).perm_of_length_le (by simp [← hfuel])
    exact hperm.mem_iff.mpr (List.mem_range.mpr hv)
  | succ fuel ih =>
    obtain ⟨degrees, stack⟩ := state
    cases stack with
    | nil =>
      rw [listSources_nil]
      refine ⟨fun v => ⟨h.lt, fun hv => ?_⟩, h.order⟩
      refine hc.induct_up hg (fun v hv hsources => ?_) v hv
      refine (h.releasing.free v).mpr ⟨hv, fun a ha => ?_⟩
      obtain ⟨arc, harc, hact, -⟩ := (hc.mem_inArcs v a).mp ha
      exact List.mem_flatMap.mpr ⟨g.source a, hsources a ha,
        (hc.mem_outArcs _ a).mpr ⟨arc, harc, hact, (source_eq harc).symm⟩⟩
    | cons v stack =>
      rw [LayerGraph.listSources]
      exact ih (h.list hc) (by simp only [List.length_cons]; omega)

/-- **Successors are listed first.** In an acyclic graph every vertex is listed, and no vertex leads
to one that is listed after it. -/
theorem reverseTopological_spec (hc : g.Consistent) (hg : g.Acyclic) :
    (∀ v, v ∈ g.reverseTopological ↔ v < g.size) ∧
      g.reverseTopological.Pairwise fun u v => ¬ g.Leads u v :=
  (listing_start hc).listSources hc hg (Nat.zero_add _)

end Flowchart.LayerGraph
