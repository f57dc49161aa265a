import Flowchart.Proofs.LayerGraph.Building

/-!
# The index of a graph

Ids are looked up in the index of the graph. It is written in one place, where a caller adds a
vertex under a new id; vertices are appended in a second place as well, where an arc is split, and
those are not indexed even if their generated ids are ids that callers gave. `Indexed` says that the
index and the vertices agree all the same: an id is indexed at a position exactly if the vertex
there was given under it. `Indexed.addNode` is the step that writes both, and every change that
leaves the index alone keeps it as long as vertices keep their names, `Indexed.congr`.
-/

namespace Flowchart

variable {α : Type}

/-- What decides whether an id finds a vertex. -/
def Vertex.naming (x : Vertex α) : Option Passage × String := (x.passage, x.id)

namespace LayerGraph

variable {g g' : LayerGraph α} {id : String} {u v : Nat}

/-- The vertex at a position was given by a caller under an id. -/
def Named (g : LayerGraph α) (v : Nat) (id : String) : Prop :=
  g.nodes[v]?.map Vertex.naming = some (none, id)

theorem named_iff : g.Named v id ↔ ∃ x, g.nodes[v]? = some x ∧ x.passage = none ∧ x.id = id := by
  simp [Named, Vertex.naming]

theorem Named.lt (h : g.Named v id) : v < g.size := by
  obtain ⟨x, hx, -⟩ := named_iff.mp h
  exact (Array.getElem?_eq_some_iff.mp hx).1

/-- A vertex that is appended is named as it says, and the others keep their names. -/
theorem named_pushNode (g : LayerGraph α) (x : Vertex α) :
    (g.pushNode x).Named v id ↔ if v = g.size then x.naming = (none, id) else g.Named v id := by
  rw [Named, pushNode, Array.getElem?_push, Named]
  by_cases hv : v = g.size
  · rw [if_pos hv, if_pos (show v = g.nodes.size from hv), Option.map_some, Option.some_inj]
  · rw [if_neg hv, if_neg (show ¬v = g.nodes.size from hv)]

/-- **The index says what the vertices say**: no id is indexed twice, and the position of an id is
that of the vertex which a caller gave under it. Passages are not indexed. -/
structure Indexed (g : LayerGraph α) : Prop where
  keys_nodup : (g.index.map Prod.fst).Nodup
  find?_iff : ∀ (id : String) (v : Nat), g.find? id = some v ↔ g.Named v id

namespace Indexed

/-- Only the index, the names and their places count. -/
theorem congr (h : g.Indexed) (hindex : g'.index = g.index)
    (hnamed : ∀ (v : Nat) (id : String), g'.Named v id ↔ g.Named v id) : g'.Indexed := by
  refine ⟨hindex ▸ h.keys_nodup, fun id v => ?_⟩
  rw [find?, hindex, hnamed]
  exact h.find?_iff id v

/-- No two vertices that callers gave have the same id. -/
theorem unique (h : g.Indexed) (hu : g.Named u id) (hv : g.Named v id) : u = v :=
  Option.some.inj (((h.find?_iff id u).mpr hu).symm.trans ((h.find?_iff id v).mpr hv))

theorem lt_of_find? (h : g.Indexed) (hv : g.find? id = some v) : v < g.size :=
  ((h.find?_iff id v).mp hv).lt

/-- An id that is not indexed was given to no vertex. -/
theorem not_named (h : g.Indexed) (hid : g.find? id = none) : ¬ g.Named v id := by
  rw [← h.find?_iff, hid]
  exact Option.some_ne_none v ∘ Eq.symm

/-- Passages may be appended without a word in the index. -/
theorem append_passages (h : g.Indexed) {passages : List (Vertex α)} (hindex : g'.index = g.index)
    (hnodes : g'.nodes.toList = g.nodes.toList ++ passages)
    (hpassages : ∀ x ∈ passages, x.passage ≠ none) : g'.Indexed := by
  refine h.congr hindex fun v id => ?_
  rw [Named, Table.getElem?_of_toList_append hnodes]
  split
  · rfl
  · rename_i hv
    have hnone : g.nodes[v]? = none := Array.getElem?_eq_none (Nat.le_of_not_lt hv)
    rw [Named, hnone]
    refine iff_of_false (fun hnamed => ?_) (Option.some_ne_none _ ∘ Eq.symm)
    obtain ⟨x, hx, hname⟩ := Option.map_eq_some_iff.mp hnamed
    exact hpassages x (List.mem_of_getElem? hx) (congrArg Prod.fst hname)

/-- **Adding a vertex** writes the index and the vertices in step: a known id adds nothing, and a
new one is indexed at the position of the vertex that is appended. -/
theorem addNode [Scalar α] (h : g.Indexed) (id : String) (width height : α) (cluster : List Nat) :
    (g.addNode id width height cluster).Indexed := by
  unfold LayerGraph.addNode
  split
  · exact h
  · rename_i hknown
    have hnew : g.find? id = none := Option.not_isSome_iff_eq_none.mp hknown
    have hfree : id ∉ g.index.map Prod.fst := mt isSome_lookup_iff.mpr hknown
    constructor
    case keys_nodup =>
      change ((setKey id g.size g.index).map Prod.fst).Nodup
      rw [setKey_of_new hnew, List.map_append]
      exact List.concat_eq_append ▸ List.Nodup.concat hfree h.keys_nodup
    case find?_iff =>
      intro id' v
      let x : Vertex α := ⟨id, width, height, 0, 0, 0.0, 0.0, none, cluster⟩
      change (setKey id g.size g.index).lookup id' = some v ↔ (g.pushNode x).Named v id'
      have hname : x.naming = (none, id') ↔ id' = id := by
        simp [x, Vertex.naming, eq_comm]
      rw [lookup_setKey, named_pushNode, hname]
      by_cases hid : id' = id
      · have hother : ¬ g.Named v id' := h.not_named (hid ▸ hnew)
        simp [hid, hid ▸ hother, eq_comm (a := v)]
      · have hread : g.index.lookup id' = some v ↔ g.Named v id' := h.find?_iff id' v
        by_cases hv : v = g.size
        · subst hv
          have hbeyond : g.index.lookup id' ≠ some g.size := fun hl =>
            Nat.lt_irrefl _ (hread.mp hl).lt
          simp [hid, hbeyond]
        · simp [hid, hv, hread]

end Indexed

theorem indexed_empty : ({} : LayerGraph α).Indexed :=
  ⟨List.nodup_nil, fun id v => by simp [find?, Named]⟩

/-- The graphs of callers are indexed: adding a vertex enters its id in the index, and adding an arc
does not touch it. -/
theorem Built.indexed [Scalar α] (h : Built g) : g.Indexed := by
  induction h with
  | empty => exact indexed_empty
  | addNode _ id width height cluster ih => exact ih.addNode id width height cluster
  | addArc _ source target weight origin _ _ _ ih => exact ih.congr rfl fun _ _ => Iff.rfl

end LayerGraph

end Flowchart
