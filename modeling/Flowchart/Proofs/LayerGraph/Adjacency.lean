import Flowchart.Layered.Graph
import Flowchart.Proofs.Table
import Mathlib.Data.List.Nodup
import Mathlib.Logic.Relation

/-!
# Adjacency of the working graph

A graph is `Consistent` if its adjacency lists say exactly what its arcs say: an arc is listed
once at the vertex it leaves and once at the vertex it enters if it is active, and nowhere
otherwise. The operations of the layered phases keep this; here it is shown of turning arcs
around.

* `Leads` and `Acyclic` say where active arcs lead.
* `Consistent.reverse` and `getElem?_foldl_reverse` say what turning arcs around does to the lists
  and to the arcs.
-/

namespace Flowchart

variable {α : Type}

/-- An arc turned around. -/
def Arc.turned (a : Arc α) : Arc α :=
  { a with source := a.target, target := a.source, reversed := !a.reversed }

/-- Turned around twice, an arc is as it was. -/
@[simp] theorem Arc.turned_turned (a : Arc α) : a.turned.turned = a := by
  cases a
  simp [turned]

namespace LayerGraph

variable {g g' : LayerGraph α}

/-- Some active arc leads from one vertex to the other. -/
def Leads (g : LayerGraph α) (u v : Nat) : Prop :=
  ∃ (a : Nat) (arc : Arc α), g.arcs[a]? = some arc ∧ arc.active = true ∧ arc.source = u ∧
    arc.target = v

/-- The active arcs form no directed cycle. -/
def Acyclic (g : LayerGraph α) : Prop := ∀ v, ¬ Relation.TransGen g.Leads v v

/-- No active arc leads back to its own source. -/
def Loopless (g : LayerGraph α) : Prop :=
  ∀ (a : Nat) (arc : Arc α), g.arcs[a]? = some arc → arc.active = true → arc.source ≠ arc.target

/-- A graph without cycles has no loop, for an active arc from a vertex to itself would be a
cycle. -/
theorem Acyclic.loopless (h : g.Acyclic) : g.Loopless := fun a arc ha hact he =>
  h arc.source (.single ⟨a, arc, ha, hact, rfl, he.symm⟩)

/-- A number that falls along every active arc rules out cycles. -/
theorem acyclic_of_decreasing (f : Nat → Nat) (h : ∀ u v, g.Leads u v → f v < f u) : g.Acyclic := by
  intro v hv
  have hlt : ∀ u, Relation.TransGen g.Leads v u → f u < f v := by
    intro u hu
    induction hu with
    | single h1 => exact h _ _ h1
    | tail _ h1 ih => exact Nat.lt_trans (h _ _ h1) ih
  exact Nat.lt_irrefl _ (hlt v hv)

/-- The adjacency lists say what the arcs say. -/
structure Consistent (g : LayerGraph α) : Prop where
  /-- every vertex has a list of arcs that leave it -/
  outgoing_size : g.outgoing.size = g.size
  /-- every vertex has a list of arcs that enter it -/
  incoming_size : g.incoming.size = g.size
  /-- arcs join vertices of the graph -/
  ends_lt : ∀ (a : Nat) (arc : Arc α), g.arcs[a]? = some arc →
    arc.source < g.size ∧ arc.target < g.size
  /-- the arcs listed as leaving a vertex are the active ones with this source -/
  mem_outArcs : ∀ v a, a ∈ g.outArcs v ↔
    ∃ arc, g.arcs[a]? = some arc ∧ arc.active = true ∧ arc.source = v
  /-- the arcs listed as entering a vertex are the active ones with this target -/
  mem_inArcs : ∀ v a, a ∈ g.inArcs v ↔
    ∃ arc, g.arcs[a]? = some arc ∧ arc.active = true ∧ arc.target = v
  /-- no arc is listed twice as leaving a vertex -/
  outArcs_nodup : ∀ v, (g.outArcs v).Nodup
  /-- no arc is listed twice as entering a vertex -/
  inArcs_nodup : ∀ v, (g.inArcs v).Nodup

theorem source_eq {a : Nat} {arc : Arc α} (h : g.arcs[a]? = some arc) :
    g.source a = arc.source := by
  simp [source, h]

theorem target_eq {a : Nat} {arc : Arc α} (h : g.arcs[a]? = some arc) :
    g.target a = arc.target := by
  simp [target, h]

theorem minLength_eq {a : Nat} {arc : Arc α} (h : g.arcs[a]? = some arc) :
    g.minLength a = arc.minLength := by
  simp [minLength, h]

/-- An arc is listed as leaving only the vertex that it leaves. -/
theorem Consistent.source_of_mem_outArcs (h : g.Consistent) {v a : Nat} (ha : a ∈ g.outArcs v) :
    g.source a = v := by
  obtain ⟨arc, harc, -, hsource⟩ := (h.mem_outArcs v a).mp ha
  rw [source_eq harc, hsource]

/-- An arc is listed as entering only the vertex that it enters. -/
theorem Consistent.target_of_mem_inArcs (h : g.Consistent) {v a : Nat} (ha : a ∈ g.inArcs v) :
    g.target a = v := by
  obtain ⟨arc, harc, -, htarget⟩ := (h.mem_inArcs v a).mp ha
  rw [target_eq harc, htarget]

/-- An arc listed where it starts is listed where it leads. -/
theorem Consistent.mem_inArcs_target (h : g.Consistent) {v a : Nat} (ha : a ∈ g.outArcs v) :
    a ∈ g.inArcs (g.target a) := by
  obtain ⟨arc, harc, hact, -⟩ := (h.mem_outArcs v a).mp ha
  exact (h.mem_inArcs _ a).mpr ⟨arc, harc, hact, (target_eq harc).symm⟩

/-- An arc listed as leaving a vertex leads on from it. -/
theorem Consistent.leads_of_mem_outArcs (h : g.Consistent) {v a : Nat} (ha : a ∈ g.outArcs v) :
    g.Leads v (g.target a) := by
  obtain ⟨arc, harc, hact, hsrc⟩ := (h.mem_outArcs v a).mp ha
  exact ⟨a, arc, harc, hact, hsrc, (target_eq harc).symm⟩

/-- An arc listed as entering a vertex leads to it. -/
theorem Consistent.leads_of_mem_inArcs (h : g.Consistent) {v a : Nat} (ha : a ∈ g.inArcs v) :
    g.Leads (g.source a) v := by
  obtain ⟨arc, harc, hact, htgt⟩ := (h.mem_inArcs v a).mp ha
  exact ⟨a, arc, harc, hact, (source_eq harc).symm, htgt⟩

/-- The ends of an active arc are vertices of the graph. -/
theorem Consistent.lt_of_leads (h : g.Consistent) {u v : Nat} (hl : g.Leads u v) :
    u < g.size ∧ v < g.size := by
  obtain ⟨a, arc, ha, -, rfl, rfl⟩ := hl
  exact h.ends_lt a arc ha

/-! ## Listing and unlisting -/

/-- Unlisting an arc takes it out of the list of the vertex that it left, and changes no other list
of leaving arcs. -/
theorem outArcs_unlist (g : LayerGraph α) (a s t v : Nat) :
    (g.unlist a s t).outArcs v = if v = s then (g.outArcs v).filter (· != a) else g.outArcs v :=
  Table.getD_modify_of_fixed g.outgoing s v rfl

/-- Unlisting an arc takes it out of the list of the vertex that it entered, and changes no other
list of entering arcs. -/
theorem inArcs_unlist (g : LayerGraph α) (a s t v : Nat) :
    (g.unlist a s t).inArcs v = if v = t then (g.inArcs v).filter (· != a) else g.inArcs v :=
  Table.getD_modify_of_fixed g.incoming t v rfl

/-- Listing an arc puts it at the end of the list of the vertex that it leaves. -/
theorem outArcs_enlist {s : Nat} (hs : s < g.outgoing.size) (a t v : Nat) :
    (g.enlist a s t).outArcs v = if v = s then g.outArcs v ++ [a] else g.outArcs v := by
  simp only [outArcs, enlist, Table.getD_modify, hs, and_true]

/-- Listing an arc puts it at the end of the list of the vertex that it enters. -/
theorem inArcs_enlist {t : Nat} (ht : t < g.incoming.size) (a s v : Nat) :
    (g.enlist a s t).inArcs v = if v = t then g.inArcs v ++ [a] else g.inArcs v := by
  simp only [inArcs, enlist, Table.getD_modify, ht, and_true]

/-! ## Turning an arc around -/

/-- There is nothing to turn around where there is no arc. -/
theorem reverse_of_none {a : Nat} (ha : g.arcs[a]? = none) : g.reverse a = g := by
  simp only [reverse, ha]

/-- An arc that is listed nowhere is turned around without any change to the lists. -/
theorem reverse_of_inactive {a : Nat} {arc : Arc α} (ha : g.arcs[a]? = some arc)
    (hact : arc.active = false) :
    g.reverse a = { g with arcs := g.arcs.modify a fun b =>
      { b with source := arc.target, target := arc.source, reversed := !arc.reversed } } := by
  simp only [reverse, ha, hact, Bool.false_eq_true, if_false]

/-- An arc that is listed is taken out of the lists of its two ends and put into those of its new
ends. -/
theorem reverse_of_active {a : Nat} {arc : Arc α} (ha : g.arcs[a]? = some arc)
    (hact : arc.active = true) :
    g.reverse a = { (g.unlist a arc.source arc.target).enlist a arc.target arc.source with
      arcs := g.arcs.modify a fun b =>
        { b with source := arc.target, target := arc.source, reversed := !arc.reversed } } := by
  simp only [reverse, ha, hact, if_true]
  rfl

/-- Turning an arc around is seen in the table of arcs at its number and nowhere else. -/
theorem arcs_reverse {a : Nat} {arc : Arc α} (ha : g.arcs[a]? = some arc) (b : Nat) :
    (g.reverse a).arcs[b]? = if b = a then some arc.turned else g.arcs[b]? := by
  have harcs : (g.reverse a).arcs = g.arcs.modify a fun b =>
      { b with source := arc.target, target := arc.source, reversed := !arc.reversed } := by
    cases hact : arc.active
    · rw [reverse_of_inactive ha hact]
    · rw [reverse_of_active ha hact]
  rw [harcs, Array.getElem?_modify]
  by_cases hb : b = a
  · subst hb
    simp [ha, Arc.turned]
  · simp [hb, Ne.symm hb]

/-- This holds of every number, also of one that no arc has. -/
theorem getElem?_reverse (g : LayerGraph α) (a b : Nat) :
    (g.reverse a).arcs[b]? = if b = a then g.arcs[b]?.map Arc.turned else g.arcs[b]? := by
  cases ha : g.arcs[a]? with
  | none =>
    rw [reverse_of_none ha]
    by_cases hb : b = a <;> simp [hb, ha]
  | some arc =>
    rw [arcs_reverse ha]
    by_cases hb : b = a <;> simp [hb, ha]

/-- Turning several arcs around, each once, turns exactly these. -/
theorem getElem?_foldl_reverse {l : List Nat} (hl : l.Nodup) (g : LayerGraph α) (b : Nat) :
    (l.foldl reverse g).arcs[b]? = if b ∈ l then g.arcs[b]?.map Arc.turned else g.arcs[b]? := by
  induction l generalizing g with
  | nil => simp
  | cons a l ih =>
    obtain ⟨ha, hl⟩ := List.nodup_cons.mp hl
    rw [List.foldl_cons, ih hl, getElem?_reverse]
    by_cases hb : b = a
    · subst hb
      simp [ha]
    · simp [hb]

/-- The part of a graph that turning arcs around leaves alone. -/
structure SameVertices (g g' : LayerGraph α) : Prop where
  nodes : g'.nodes = g.nodes
  index : g'.index = g.index
  ranks : g'.ranks = g.ranks
  chains : g'.chains = g.chains
  arcs_size : g'.arcs.size = g.arcs.size
  outgoing_size : g'.outgoing.size = g.outgoing.size
  incoming_size : g'.incoming.size = g.incoming.size

theorem SameVertices.refl (g : LayerGraph α) : SameVertices g g :=
  ⟨rfl, rfl, rfl, rfl, rfl, rfl, rfl⟩

/-- Vertices that stay through two steps stay through both. -/
theorem SameVertices.trans {g'' : LayerGraph α} (h : SameVertices g g') (h' : SameVertices g' g'') :
    SameVertices g g'' :=
  ⟨h'.nodes.trans h.nodes, h'.index.trans h.index, h'.ranks.trans h.ranks,
    h'.chains.trans h.chains, h'.arcs_size.trans h.arcs_size, h'.outgoing_size.trans h.outgoing_size,
    h'.incoming_size.trans h.incoming_size⟩

theorem SameVertices.size_eq (h : SameVertices g g') : g'.size = g.size :=
  congrArg Array.size h.nodes

/-- Turning an arc around touches no vertex: their entries and their number are as before. -/
theorem sameVertices_reverse (g : LayerGraph α) (a : Nat) : SameVertices g (g.reverse a) := by
  cases ha : g.arcs[a]? with
  | none =>
    rw [reverse_of_none ha]
    exact .refl g
  | some arc =>
    cases hact : arc.active
    · rw [reverse_of_inactive ha hact]
      exact ⟨rfl, rfl, rfl, rfl, Array.size_modify, rfl, rfl⟩
    · rw [reverse_of_active ha hact]
      exact ⟨rfl, rfl, rfl, rfl, Array.size_modify, by simp [enlist, unlist],
        by simp [enlist, unlist]⟩

/-- Membership after a turn: at its old ends the arc is taken out and at the new ones put in. -/
theorem Consistent.outArcs_reverse (h : g.Consistent) {a : Nat} {arc : Arc α}
    (ha : g.arcs[a]? = some arc) (hact : arc.active = true) (v : Nat) :
    (g.reverse a).outArcs v =
      (if v = arc.source then (g.outArcs v).filter (· != a) else g.outArcs v) ++
        (if v = arc.target then [a] else []) := by
  have ht : arc.target < (g.unlist a arc.source arc.target).outgoing.size := by
    simp [unlist, h.outgoing_size, (h.ends_lt a arc ha).2]
  rw [reverse_of_active ha hact]
  change ((g.unlist a arc.source arc.target).enlist a arc.target arc.source).outArcs v = _
  rw [outArcs_enlist ht, outArcs_unlist]
  by_cases hv : v = arc.target <;> simp [hv]

/-- The same for the lists of entering arcs, with the two ends exchanged. -/
theorem Consistent.inArcs_reverse (h : g.Consistent) {a : Nat} {arc : Arc α}
    (ha : g.arcs[a]? = some arc) (hact : arc.active = true) (v : Nat) :
    (g.reverse a).inArcs v =
      (if v = arc.target then (g.inArcs v).filter (· != a) else g.inArcs v) ++
        (if v = arc.source then [a] else []) := by
  have hs : arc.source < (g.unlist a arc.source arc.target).incoming.size := by
    simp [unlist, h.incoming_size, (h.ends_lt a arc ha).1]
  rw [reverse_of_active ha hact]
  change ((g.unlist a arc.source arc.target).enlist a arc.target arc.source).inArcs v = _
  rw [inArcs_enlist hs, inArcs_unlist]
  by_cases hv : v = arc.source <;> simp [hv]

section Moved

variable {l : List Nat} {a : Nat} {p q : Prop} [Decidable p] [Decidable q]

/-- What a list holds from which an entry was taken and to which it was added again. -/
private theorem mem_moved (ha : a ∈ l → p) (b : Nat) :
    b ∈ (if p then l.filter (· != a) else l) ++ (if q then [a] else []) ↔
      if b = a then q else b ∈ l := by
  rw [List.mem_append]
  by_cases hb : b = a
  · subst hb
    have hnot : b ∉ (if p then l.filter (· != b) else l) := by
      split
      · simp
      · exact fun hv => ‹¬p› (ha hv)
    by_cases hq : q <;> simp [hnot, hq]
  · have hkeep : b ∈ (if p then l.filter (· != a) else l) ↔ b ∈ l := by split <;> simp [hb]
    by_cases hq : q <;> simp [hkeep, hb, hq]

/-- Such a list has no entry twice: what is added again was either taken out before or had not been
in it. -/
private theorem nodup_moved (hl : l.Nodup) (ha : a ∈ l → p) :
    ((if p then l.filter (· != a) else l) ++ (if q then [a] else [])).Nodup := by
  refine List.nodup_append.mpr ⟨?_, by split <;> simp, fun b hb c hc hbc => ?_⟩
  · split
    · exact hl.filter _
    · exact hl
  · subst hbc
    obtain rfl : b = a := by
      split at hc
      · exact List.mem_singleton.mp hc
      · cases hc
    split at hb
    · simp at hb
    · exact ‹¬p› (ha hb)

end Moved

namespace Consistent

variable (h : g.Consistent) {arc : Arc α}
include h

/-- A turned arc has the same ends, so they are vertices as before. -/
theorem ends_lt_reverse (ha : g.arcs[a]? = some arc) {b : Nat} {arc' : Arc α}
    (hb : (g.reverse a).arcs[b]? = some arc') :
    arc'.source < (g.reverse a).size ∧ arc'.target < (g.reverse a).size := by
  rw [(sameVertices_reverse g a).size_eq]
  rw [arcs_reverse ha] at hb
  split at hb
  · cases hb
    exact (h.ends_lt a arc ha).symm
  · exact h.ends_lt b arc' hb

/-- Turning around an arc that is not active changes its entry only, and that is in no list before
and after. -/
theorem reverse_inactive (ha : g.arcs[a]? = some arc) (hact : arc.active = false) :
    (g.reverse a).Consistent := by
  have hsame := sameVertices_reverse g a
  have hg := reverse_of_inactive ha hact
  have hout : (g.reverse a).outArcs = g.outArcs := by rw [hg]; rfl
  have hin : (g.reverse a).inArcs = g.inArcs := by rw [hg]; rfl
  refine ⟨hsame.size_eq ▸ hsame.outgoing_size.trans h.outgoing_size,
    hsame.size_eq ▸ hsame.incoming_size.trans h.incoming_size,
    fun b arc' hb => h.ends_lt_reverse ha hb, fun v b => ?_, fun v b => ?_,
    hout ▸ h.outArcs_nodup, hin ▸ h.inArcs_nodup⟩
  · rw [hout, h.mem_outArcs, arcs_reverse ha]
    by_cases hb : b = a
    · subst hb
      simp [ha, hact, Arc.turned]
    · simp [hb]
  · rw [hin, h.mem_inArcs, arcs_reverse ha]
    by_cases hb : b = a
    · subst hb
      simp [ha, hact, Arc.turned]
    · simp [hb]

/-- An active arc moves from the lists of its old ends to those of its new ones. -/
theorem reverse_active (ha : g.arcs[a]? = some arc) (hact : arc.active = true) :
    (g.reverse a).Consistent := by
  have hsame := sameVertices_reverse g a
  have hout := h.outArcs_reverse ha hact
  have hin := h.inArcs_reverse ha hact
  have haout : ∀ v, a ∈ g.outArcs v → v = arc.source := by
    intro v hv
    obtain ⟨arc', ha', -, rfl⟩ := (h.mem_outArcs v a).mp hv
    exact congrArg Arc.source (Option.some.inj (ha'.symm.trans ha))
  have hain : ∀ v, a ∈ g.inArcs v → v = arc.target := by
    intro v hv
    obtain ⟨arc', ha', -, rfl⟩ := (h.mem_inArcs v a).mp hv
    exact congrArg Arc.target (Option.some.inj (ha'.symm.trans ha))
  refine ⟨hsame.size_eq ▸ hsame.outgoing_size.trans h.outgoing_size,
    hsame.size_eq ▸ hsame.incoming_size.trans h.incoming_size,
    fun b arc' hb => h.ends_lt_reverse ha hb, fun v b => ?_, fun v b => ?_, fun v => ?_,
    fun v => ?_⟩
  · rw [hout, mem_moved (haout v), arcs_reverse ha]
    by_cases hb : b = a
    · simpa [hb, hact, Arc.turned] using eq_comm
    · simpa [hb] using h.mem_outArcs v b
  · rw [hin, mem_moved (hain v), arcs_reverse ha]
    by_cases hb : b = a
    · simpa [hb, hact, Arc.turned] using eq_comm
    · simpa [hb] using h.mem_inArcs v b
  · rw [hout]
    exact nodup_moved (h.outArcs_nodup v) (haout v)
  · rw [hin]
    exact nodup_moved (h.inArcs_nodup v) (hain v)

/-- **Turning an arc around keeps the adjacency consistent.** -/
theorem reverse (a : Nat) : (g.reverse a).Consistent := by
  cases ha : g.arcs[a]? with
  | none =>
    rw [reverse_of_none ha]
    exact h
  | some arc =>
    cases hact : arc.active with
    | false => exact h.reverse_inactive ha hact
    | true => exact h.reverse_active ha hact

end Consistent

/-- Consistency is kept however many arcs are turned around, one after the other. -/
theorem Consistent.foldl_reverse (h : g.Consistent) (l : List Nat) :
    (l.foldl LayerGraph.reverse g).Consistent := by
  induction l generalizing g with
  | nil => exact h
  | cons a l ih => exact ih (h.reverse a)

/-- However many arcs are turned around, no vertex is touched. -/
theorem sameVertices_foldl_reverse (g : LayerGraph α) (l : List Nat) :
    SameVertices g (l.foldl reverse g) := by
  induction l generalizing g with
  | nil => exact .refl g
  | cons a l ih => exact (sameVertices_reverse g a).trans (ih (g.reverse a))

end LayerGraph

end Flowchart
