import Flowchart.Proofs.LayerGraph.Adjacency

/-!
# Building graphs

Adding a vertex or an arc keeps the adjacency consistent. A graph that a caller has built this way
is `Fresh`: all its arcs are active and as the caller gave them, and nothing stands for a passage.
-/

namespace Flowchart.LayerGraph

variable {α : Type} {g : LayerGraph α}

/-! ## Adding vertices and arcs -/

theorem outArcs_pushNode (h : g.outgoing.size = g.size) (x : Vertex α) (v : Nat) :
    (g.pushNode x).outArcs v = g.outArcs v := by
  simp only [outArcs, pushNode, Array.getD_eq_getD_getElem?, Array.getElem?_push]
  split
  · subst_vars
    simp [h]
  · rfl

theorem inArcs_pushNode (h : g.incoming.size = g.size) (x : Vertex α) (v : Nat) :
    (g.pushNode x).inArcs v = g.inArcs v := by
  simp only [inArcs, pushNode, Array.getD_eq_getD_getElem?, Array.getElem?_push]
  split
  · subst_vars
    simp [h]
  · rfl

theorem size_pushNode (g : LayerGraph α) (x : Vertex α) : (g.pushNode x).size = g.size + 1 := by
  simp [pushNode, size]

/-- A vertex without arcs may be added, since no list of arcs has to change for it. -/
theorem Consistent.pushNode (h : g.Consistent) (x : Vertex α) : (g.pushNode x).Consistent := by
  have hout := outArcs_pushNode h.outgoing_size x
  have hin := inArcs_pushNode h.incoming_size x
  refine ⟨?_, ?_, fun a arc ha => ?_, fun v a => ?_, fun v a => ?_, fun v => ?_, fun v => ?_⟩
  · simp [LayerGraph.pushNode, size, h.outgoing_size]
  · simp [LayerGraph.pushNode, size, h.incoming_size]
  · rw [size_pushNode]
    have := h.ends_lt a arc ha
    omega
  · rw [hout]
    exact h.mem_outArcs v a
  · rw [hin]
    exact h.mem_inArcs v a
  · rw [hout]
    exact h.outArcs_nodup v
  · rw [hin]
    exact h.inArcs_nodup v

theorem arcs_pushArc (g : LayerGraph α) (x : Arc α) (b : Nat) :
    (g.pushArc x).arcs[b]? = if b = g.arcs.size then some x else g.arcs[b]? := by
  simp [pushArc, Array.getElem?_push]

theorem Consistent.outArcs_pushArc (h : g.Consistent) {x : Arc α} (hs : x.source < g.size)
    (v : Nat) : (g.pushArc x).outArcs v =
      if v = x.source then g.outArcs v ++ [g.arcs.size] else g.outArcs v := by
  simp only [outArcs, LayerGraph.pushArc, Table.getD_modify, h.outgoing_size, hs, and_true]

theorem Consistent.inArcs_pushArc (h : g.Consistent) {x : Arc α} (ht : x.target < g.size)
    (v : Nat) : (g.pushArc x).inArcs v =
      if v = x.target then g.inArcs v ++ [g.arcs.size] else g.inArcs v := by
  simp only [inArcs, LayerGraph.pushArc, Table.getD_modify, h.incoming_size, ht, and_true]

/-- The next arc to be added is in no list. -/
theorem Consistent.arcs_size_not_mem (h : g.Consistent) (v : Nat) :
    g.arcs.size ∉ g.outArcs v ∧ g.arcs.size ∉ g.inArcs v := by
  constructor
  · intro hv
    obtain ⟨arc, ha, -⟩ := (h.mem_outArcs v _).mp hv
    simp at ha
  · intro hv
    obtain ⟨arc, ha, -⟩ := (h.mem_inArcs v _).mp hv
    simp at ha

/-- An active arc between vertices of the graph may be added. -/
theorem Consistent.pushArc (h : g.Consistent) {x : Arc α} (hs : x.source < g.size)
    (ht : x.target < g.size) (hact : x.active = true) : (g.pushArc x).Consistent := by
  have hout := h.outArcs_pushArc hs
  have hin := h.inArcs_pushArc ht
  have harcs := arcs_pushArc g x
  have hnew := h.arcs_size_not_mem
  refine ⟨?_, ?_, fun a arc ha => ?_, fun v a => ?_, fun v a => ?_, fun v => ?_, fun v => ?_⟩
  · simpa [LayerGraph.pushArc, size] using h.outgoing_size
  · simpa [LayerGraph.pushArc, size] using h.incoming_size
  · rw [harcs] at ha
    split at ha
    · cases ha
      exact ⟨hs, ht⟩
    · exact h.ends_lt a arc ha
  · rw [hout, harcs]
    by_cases ha : a = g.arcs.size
    · subst ha
      by_cases hv : v = x.source <;> simp [hv, hact, hnew, Ne.symm]
    · split <;> simp [ha, h.mem_outArcs]
  · rw [hin, harcs]
    by_cases ha : a = g.arcs.size
    · subst ha
      by_cases hv : v = x.target <;> simp [hv, hact, hnew, Ne.symm]
    · split <;> simp [ha, h.mem_inArcs]
  · rw [hout]
    split
    · exact List.concat_eq_append ▸ List.Nodup.concat (hnew v).1 (h.outArcs_nodup v)
    · exact h.outArcs_nodup v
  · rw [hin]
    split
    · exact List.concat_eq_append ▸ List.Nodup.concat (hnew v).2 (h.inArcs_nodup v)
    · exact h.inArcs_nodup v

/-- The index has no part in the adjacency. -/
theorem Consistent.withIndex (h : g.Consistent) (index : List (String × Nat)) :
    ({ g with index := index } : LayerGraph α).Consistent :=
  { h with }

/-! ## The graphs of callers -/

/-- **The graphs of callers**: vertices and arcs are added one after the other, and every arc joins
two different vertices that are there already. -/
inductive Built [Scalar α] : LayerGraph α → Prop where
  /-- nothing was added yet -/
  | empty : Built {}
  /-- a vertex is added, or was there already -/
  | addNode {g : LayerGraph α} (built : Built g) (id : String) (width height : α)
      (cluster : List Nat) : Built (g.addNode id width height cluster)
  /-- an arc is added -/
  | addArc {g : LayerGraph α} (built : Built g) (source target : Nat) (weight : α) (origin : Nat)
      (source_lt : source < g.size) (target_lt : target < g.size) (ends_ne : source ≠ target) :
      Built (g.addArc source target weight origin)

theorem consistent_empty : ({} : LayerGraph α).Consistent := by
  have hout : ∀ v, ({} : LayerGraph α).outArcs v = [] := fun v => by simp [outArcs]
  have hin : ∀ v, ({} : LayerGraph α).inArcs v = [] := fun v => by simp [inArcs]
  refine ⟨rfl, rfl, fun a arc ha => by simp at ha, fun v a => ?_, fun v a => ?_, fun v => ?_,
    fun v => ?_⟩
  · simp [hout]
  · simp [hin]
  · rw [hout]
    exact List.nodup_nil
  · rw [hin]
    exact List.nodup_nil

/-- What every graph of a caller satisfies. -/
structure Fresh (g : LayerGraph α) : Prop where
  consistent : g.Consistent
  /-- no arc was turned around, taken out or made longer, and none is a loop -/
  arcs : ∀ (a : Nat) (arc : Arc α), g.arcs[a]? = some arc →
    arc.active = true ∧ arc.reversed = false ∧ arc.minLength = 1 ∧ arc.source ≠ arc.target
  /-- no vertex stands for a passage -/
  nodes : ∀ (v : Nat) (x : Vertex α), g.nodes[v]? = some x → x.passage = none
  /-- no arc was split -/
  chains : g.chains = []

/-- A vertex of the caller may be added and indexed. -/
theorem Fresh.pushNode (h : g.Fresh) {x : Vertex α} (hx : x.passage = none)
    (index : List (String × Nat)) : ({ g.pushNode x with index := index } : LayerGraph α).Fresh := by
  refine ⟨(h.consistent.pushNode x).withIndex index, h.arcs, fun v y hy => ?_, h.chains⟩
  simp only [LayerGraph.pushNode, Array.getElem?_push] at hy
  split at hy
  · cases hy
    exact hx
  · exact h.nodes v y hy

theorem Built.fresh [Scalar α] (h : Built g) : g.Fresh := by
  induction h with
  | empty =>
    exact ⟨consistent_empty, fun a arc ha => by simp at ha, fun v x hx => by simp at hx, rfl⟩
  | @addNode g _ id width height cluster ih =>
    unfold LayerGraph.addNode
    split
    · exact ih
    · exact ih.pushNode rfl _
  | @addArc g _ s t weight origin hs ht hne ih =>
    refine ⟨ih.consistent.pushArc hs ht rfl, fun a arc ha => ?_, ih.nodes, ih.chains⟩
    rw [LayerGraph.addArc, arcs_pushArc] at ha
    split at ha
    · cases ha
      exact ⟨rfl, rfl, rfl, hne⟩
    · exact ih.arcs a arc ha

/-- Vertices may be added one after the other. -/
theorem Built.addNodes [Scalar α] (h : Built g) (width height : α) (ids : List String) :
    Built (ids.foldl (fun g id => g.addNode id width height []) g) := by
  induction ids generalizing g with
  | nil => exact h
  | cons id ids ih => exact ih (h.addNode id width height [])

/-- Arcs between vertices that are there may be added one after the other. -/
theorem Built.addArcs [Scalar α] (h : Built g) (weight : α) (arcs : List ((Nat × Nat) × Nat))
    (hends : ∀ e ∈ arcs, e.1.1 < g.size ∧ e.1.2 < g.size ∧ e.1.1 ≠ e.1.2) :
    Built (arcs.foldl (fun g (arc, origin) => g.addArc arc.1 arc.2 weight origin) g) := by
  induction arcs generalizing g with
  | nil => exact h
  | cons e arcs ih =>
    obtain ⟨hs, ht, hne⟩ := hends e List.mem_cons_self
    exact ih (h.addArc e.1.1 e.1.2 weight e.2 hs ht hne) fun e' he' =>
      hends e' (List.mem_cons_of_mem _ he')

theorem Fresh.loopless (h : g.Fresh) : g.Loopless := fun a arc ha _ => (h.arcs a arc ha).2.2.2

/-- A caller's graph with a cycle over four vertices, a pair of opposite arcs on it, a parallel arc
and a vertex apart. -/
def ring : LayerGraph Float32 :=
  let vertices := ["a", "b", "c", "d", "e"].foldl (fun g id => g.addNode id 1.0 1.0 []) {}
  [(0, 1), (1, 2), (2, 3), (3, 0), (2, 1), (0, 1)].zipIdx.foldl
    (fun g (arc, origin) => g.addArc arc.1 arc.2 1.0 origin) vertices

theorem ring_built : Built ring :=
  (Built.empty.addNodes 1.0 1.0 ["a", "b", "c", "d", "e"]).addArcs 1.0 _ (by decide +kernel)

end Flowchart.LayerGraph
