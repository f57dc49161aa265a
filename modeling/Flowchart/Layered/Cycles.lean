import Flowchart.Layered.Graph
import Flowchart.Layered.Walk

/-!
# Cycle removal

Ranking needs a graph without directed cycles. A depth-first walk finds the arcs that lead back to
an unfinished vertex; turning exactly these around leaves no cycle. The arcs stay marked as
reversed, so that after the layout every one of them, and every segment of a chain made from one,
can be turned back.
-/

namespace Flowchart.LayerGraph

variable {α : Type}

/-- The arcs out of a vertex with their far ends. -/
def arcsDown (g : LayerGraph α) (v : Nat) : List (Nat × Nat) :=
  (g.outArcs v).map fun a => (a, g.target a)

/-- The arcs that lead back in a depth-first walk along the arcs. -/
def backArcs (g : LayerGraph α) : List Nat := (Walk.all g.size g.arcsDown).backArcs.toList

/-- Turns every back arc around. Returns how many there were. -/
def makeAcyclic (g : LayerGraph α) : LayerGraph α × Nat :=
  let back := g.backArcs
  (back.foldl reverse g, back.length)

/-- The arcs that run against the caller's connection. -/
def reversedArcs (g : LayerGraph α) : List Nat :=
  (List.range g.arcs.size).filter fun a => (g.arcs[a]?.map Arc.reversed).getD false

/-- Turns every reversed arc back. -/
def undoAcyclic (g : LayerGraph α) : LayerGraph α := g.reversedArcs.foldl reverse g

end Flowchart.LayerGraph
