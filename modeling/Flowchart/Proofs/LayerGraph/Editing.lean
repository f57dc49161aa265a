import Flowchart.Proofs.LayerGraph.CycleRemoval
import Flowchart.Proofs.LayerGraph.Frame
import Flowchart.Proofs.LayerGraph.Indexing
import Flowchart.Proofs.LayerGraph.Splitting

/-!
# Editing the working graph

A working graph comes about from the empty one by single edits of a caller (vertices and arcs are
added, arcs are turned around or split, ranks are set) and by the phases before the ordering, in any
order. Every edit keeps two things: the lists of arcs say what the arcs say (`Consistent`), and the
index says what the vertices say (`Indexed`). So both hold of every graph that was edited, and the
phases may read the lists and look up ids without checks.

* `Edit.sound` is the step and `Edited.sound` the run.
* `edited_mirrored` spells out what this says about the lists, the index and the ids.
-/

namespace Flowchart.LayerGraph

variable {α : Type} {g g' : LayerGraph α}

/-! ## Arcs in the lists -/

/-- An active arc is listed once as going out of its source and once as coming into its target, and
nowhere else. -/
theorem Consistent.count (h : g.Consistent) {a : Nat} {arc : Arc α} (ha : g.arcs[a]? = some arc)
    (v : Nat) :
    (g.outArcs v).count a = (if arc.active = true ∧ v = arc.source then 1 else 0) ∧
      (g.inArcs v).count a = if arc.active = true ∧ v = arc.target then 1 else 0 := by
  have hout : a ∈ g.outArcs v ↔ arc.active = true ∧ v = arc.source := by
    simp [h.mem_outArcs, ha, eq_comm (a := v)]
  have hin : a ∈ g.inArcs v ↔ arc.active = true ∧ v = arc.target := by
    simp [h.mem_inArcs, ha, eq_comm (a := v)]
  rw [(h.outArcs_nodup v).count, (h.inArcs_nodup v).count]
  simp only [hout, hin, and_self]

/-! ## Single edits -/

/-- The lists of arcs say what the arcs say, and the index says what the vertices say. -/
structure Sound (g : LayerGraph α) : Prop where
  consistent : g.Consistent
  indexed : g.Indexed

theorem sound_empty : ({} : LayerGraph α).Sound := ⟨consistent_empty, indexed_empty⟩

namespace Sound

/-- Phases that write neither arcs nor names keep a graph sound. -/
theorem keeps (h : g.Sound) (hkeeps : Keeps Vertex.naming g g') : g'.Sound :=
  ⟨hkeeps.consistent h.consistent, h.indexed.congr hkeeps.index fun v id => by
    rw [Named, Named, hkeeps.getElem?]⟩

theorem addArc (h : g.Sound) {source target : Nat} (hs : source < g.size) (ht : target < g.size)
    (weight : α) (origin : Nat) : (g.addArc source target weight origin).Sound :=
  ⟨h.consistent.pushArc hs ht rfl, h.indexed.congr rfl fun _ _ => Iff.rfl⟩

theorem foldl_reverse (h : g.Sound) (l : List Nat) : (l.foldl LayerGraph.reverse g).Sound :=
  have hsame := sameVertices_foldl_reverse g l
  ⟨h.consistent.foldl_reverse l, h.indexed.congr hsame.index fun v id => by
    rw [Named, Named, hsame.nodes]⟩

variable [Scalar α]

theorem addNode (h : g.Sound) (id : String) (width height : α) (cluster : List Nat) :
    (g.addNode id width height cluster).Sound := by
  refine ⟨?_, h.indexed.addNode id width height cluster⟩
  unfold LayerGraph.addNode
  split
  · exact h.consistent
  · exact (h.consistent.pushNode _).withIndex _

/-- Any arc may be split, at any ranks of its ends and also if it is inactive. -/
theorem split (h : g.Sound) (a : Nat) : (g.split a).1.Sound := by
  cases ha : g.arcs[a]? with
  | none =>
    rw [split_of_none ha]
    exact h
  | some arc =>
    by_cases hlong : 1 < g.rank arc.target - g.rank arc.source
    · obtain ⟨hsplit, -⟩ := h.consistent.split ha hlong
      refine ⟨hsplit.consistent,
        h.indexed.append_passages hsplit.index hsplit.nodes fun x hx => ?_⟩
      obtain ⟨step, -, rfl⟩ := List.mem_map.mp hx
      exact Option.some_ne_none _
    · have hshort : g.between arc = 0 := by
        rw [between]
        omega
      rw [split_of_short ha hshort]
      exact h

/-- Splitting all long arcs is an edit of the graph, by induction on the arcs that are still to be
split, whatever was counted so far. -/
theorem splitLong (h : g.Sound) : g.splitLong.1.Sound := by
  unfold LayerGraph.splitLong
  generalize g.longArcs = l
  -- over the arcs still to be split, whatever was counted so far
  suffices hfold : ∀ s : LayerGraph α × Nat, s.1.Sound →
      (l.foldl (fun s a => ((s.1.split a).1, s.2 + (s.1.split a).2)) s).1.Sound from hfold (g, 0) h
  induction l with
  | nil => exact fun s hs => hs
  | cons a l ih => exact fun s hs => ih _ (hs.split a)

end Sound

variable [Scalar α]

/-- **One edit**: a call of a caller, or a whole phase before the ordering. -/
inductive Edit : LayerGraph α → LayerGraph α → Prop where
  /-- a vertex is added, or was there already -/
  | addNode (g : LayerGraph α) (id : String) (width height : α) (cluster : List Nat) :
      Edit g (g.addNode id width height cluster)
  /-- an arc is added between vertices of the graph, which may be the same -/
  | addArc (g : LayerGraph α) (source target : Nat) (weight : α) (origin : Nat)
      (source_lt : source < g.size) (target_lt : target < g.size) :
      Edit g (g.addArc source target weight origin)
  /-- an arc is added between the vertices of two ids -/
  | addArcById (g g' : LayerGraph α) (source target : String) (origin : Nat)
      (added : g.addArcById? source target origin = some g') : Edit g g'
  /-- an arc is turned around, whether it is active or not -/
  | reverse (g : LayerGraph α) (a : Nat) : Edit g (g.reverse a)
  /-- a vertex is put on any rank -/
  | setRank (g : LayerGraph α) (v : Nat) (rank : Int) : Edit g (g.setRank v rank)
  /-- an arc is split if it is long -/
  | split (g : LayerGraph α) (a : Nat) : Edit g (g.split a).1
  /-- the arcs that lead back are turned around -/
  | makeAcyclic (g : LayerGraph α) : Edit g g.makeAcyclic.1
  /-- all vertices are ranked -/
  | assignRanks (g : LayerGraph α) (strategy : RankStrategy) (limit : Nat) :
      Edit g (g.assignRanks strategy limit)
  /-- all long arcs are split -/
  | splitLong (g : LayerGraph α) : Edit g g.splitLong.1
  /-- the arcs that were turned around are turned back -/
  | undoAcyclic (g : LayerGraph α) : Edit g g.undoAcyclic

/-- Every edit keeps a graph sound, so any sequence of edits does, starting from an empty graph. -/
theorem Edit.sound (h : Edit g g') (hg : g.Sound) : g'.Sound := by
  cases h with
  | addNode id width height cluster => exact hg.addNode id width height cluster
  | addArc source target weight origin hs ht => exact hg.addArc hs ht weight origin
  | addArcById _ source target origin hadded =>
    unfold addArcById? at hadded
    split at hadded
    · rename_i s t hs ht
      obtain rfl := Option.some.inj hadded
      exact hg.addArc (hg.indexed.lt_of_find? hs) (hg.indexed.lt_of_find? ht) 1.0 origin
    · cases hadded
  | reverse a => exact hg.foldl_reverse [a]
  | setRank v rank => exact hg.keeps (keeps_setRank (fun _ _ => rfl) g v rank)
  | split a => exact hg.split a
  | makeAcyclic => exact hg.foldl_reverse _
  | assignRanks strategy limit =>
    exact hg.keeps (keeps_assignRanks (fun _ _ => rfl) g strategy limit)
  | splitLong => exact hg.splitLong
  | undoAcyclic => exact hg.foldl_reverse _

/-! ## Runs of edits -/

/-- The graphs that come about from the empty one by edits. -/
def Edited (g : LayerGraph α) : Prop := Relation.ReflTransGen Edit {} g

theorem Edited.sound (h : Edited g) : g.Sound := by
  induction h with
  | refl => exact sound_empty
  | tail _ hedit ih => exact hedit.sound ih

theorem Built.edited (h : Built g) : Edited g := by
  induction h with
  | empty => exact .refl
  | addNode _ id width height cluster ih => exact ih.tail (.addNode _ id width height cluster)
  | addArc _ source target weight origin hs ht _ ih =>
    exact ih.tail (.addArc _ source target weight origin hs ht)

/-- **The lists mirror the arcs, and the index mirrors the vertices**, whatever edits a graph has
seen. Every vertex has its two lists and every arc joins vertices of the graph. An active arc is
listed once as leaving its source, once as entering its target and nowhere else; an inactive one is
not listed; and nothing but arcs is listed. Vertices that callers gave have different ids. No id is
indexed twice, the index takes the id of each of these vertices to the vertex itself, and it holds
nothing else: neither an id that no caller gave nor a passage. -/
theorem edited_mirrored (h : Edited g) :
    (g.outgoing.size = g.size ∧ g.incoming.size = g.size) ∧
    (∀ (a : Nat) arc, g.arcs[a]? = some arc → (arc.source < g.size ∧ arc.target < g.size) ∧
      ∀ v, (g.outArcs v).count a = (if arc.active = true ∧ v = arc.source then 1 else 0) ∧
        (g.inArcs v).count a = if arc.active = true ∧ v = arc.target then 1 else 0) ∧
    (∀ v a, a ∈ g.outArcs v ∨ a ∈ g.inArcs v → a < g.arcs.size) ∧
    (∀ (u v : Nat) x y, g.nodes[u]? = some x → g.nodes[v]? = some y → x.passage = none →
      y.passage = none → x.id = y.id → u = v) ∧
    (g.index.map Prod.fst).Nodup ∧
    (∀ (v : Nat) x, g.nodes[v]? = some x → x.passage = none → g.find? x.id = some v) ∧
    ∀ (id : String) (v : Nat), (id, v) ∈ g.index →
      ∃ x, g.nodes[v]? = some x ∧ x.passage = none ∧ x.id = id := by
  obtain ⟨hcons, hindexed⟩ := h.sound
  refine ⟨⟨hcons.outgoing_size, hcons.incoming_size⟩,
    fun a arc ha => ⟨hcons.ends_lt a arc ha, hcons.count ha⟩, fun v a ha => ?_,
    fun u v x y hx hy hxc hyc hxy => ?_, hindexed.keys_nodup, fun v x hx hcaller => ?_,
    fun id v hv => ?_⟩
  · rcases ha with ha | ha
    · obtain ⟨arc, harc, -⟩ := (hcons.mem_outArcs v a).mp ha
      exact (Array.getElem?_eq_some_iff.mp harc).1
    · obtain ⟨arc, harc, -⟩ := (hcons.mem_inArcs v a).mp ha
      exact (Array.getElem?_eq_some_iff.mp harc).1
  · exact hindexed.unique (named_iff.mpr ⟨x, hx, hxc, rfl⟩) (named_iff.mpr ⟨y, hy, hyc, hxy.symm⟩)
  · exact (hindexed.find?_iff x.id v).mpr (named_iff.mpr ⟨x, hx, hcaller, rfl⟩)
  · exact named_iff.mp ((hindexed.find?_iff id v).mp (lookup_of_mem hindexed.keys_nodup hv))

/-- The ring with a loop added, put through the phases before the ordering. After that the arc that
was split is turned around, a segment of its chain is stretched and split as well, and everything
that counts as reversed is turned back. -/
def reworked : LayerGraph Float32 :=
  let phased := ((ring.addArc 4 4 1.0 6).makeAcyclic.1.assignRanks .longestPath 0).splitLong.1
  (((phased.reverse 3).setRank 3 4).split 9).1.undoAcyclic

theorem reworked_edited : Edited reworked := by
  have hloop := ring_built.edited.tail (.addArc _ 4 4 1.0 6 (by decide +kernel) (by decide +kernel))
  have hphased := ((hloop.tail (.makeAcyclic _)).tail (.assignRanks _ .longestPath 0)).tail
    (.splitLong _)
  exact (((hphased.tail (.reverse _ 3)).tail (.setRank _ 3 4)).tail (.split _ 9)).tail
    (.undoAcyclic _)

/-- The loop is listed once at its vertex on either side, the arc and the segment that were split are
listed nowhere, and the vertex of the loop is still the one that is indexed under its id. -/
theorem edited_mirrored_reworked : Edited reworked ∧
    (reworked.outArcs 4).count 6 = 1 ∧ (reworked.inArcs 4).count 6 = 1 ∧
    (∀ v, (reworked.outArcs v).count 3 = 0 ∧ (reworked.inArcs v).count 3 = 0) ∧
    (∀ v, (reworked.outArcs v).count 9 = 0 ∧ (reworked.inArcs v).count 9 = 0) ∧
    reworked.find? "e" = some 4 := by
  have hread : ([3, 6, 9].map fun a => reworked.arcs[a]?.map fun arc =>
      (arc.source, arc.target, arc.active)) =
      [some (3, 0, false), some (4, 4, true), some (3, 6, false)] := by decide +kernel
  simp only [List.map_cons, List.map_nil, List.cons.injEq, and_true] at hread
  obtain ⟨h3, h6, h9⟩ := hread
  obtain ⟨split, harc3, hsplit⟩ := Option.map_eq_some_iff.mp h3
  obtain ⟨loop, harc6, hloop⟩ := Option.map_eq_some_iff.mp h6
  obtain ⟨segment, harc9, hsegment⟩ := Option.map_eq_some_iff.mp h9
  simp only [Prod.mk.injEq] at hsplit hloop hsegment
  have hnode : (reworked.nodes[4]?.map fun x => (x.id, x.passage)) = some ("e", none) := by
    decide +kernel
  obtain ⟨e, he, hids⟩ := Option.map_eq_some_iff.mp hnode
  obtain ⟨hid, hcaller⟩ := Prod.mk.inj hids
  obtain ⟨-, hmirrored, -, -, -, hindex, -⟩ := edited_mirrored reworked_edited
  refine ⟨reworked_edited, ?_, ?_, fun v => ?_, fun v => ?_, hid ▸ hindex 4 e he hcaller⟩
  · simpa [hloop] using ((hmirrored 6 loop harc6).2 4).1
  · simpa [hloop] using ((hmirrored 6 loop harc6).2 4).2
  · simpa [hsplit] using (hmirrored 3 split harc3).2 v
  · simpa [hsegment] using (hmirrored 9 segment harc9).2 v

end Flowchart.LayerGraph
