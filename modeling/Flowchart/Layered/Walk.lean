/-!
# Depth-first walks

Cycle removal, longest-path ranking and the tree of the network simplex all walk a graph depth
first. A walk is a state with an explicit stack: each entry is a vertex that was started but not
finished, with the arcs out of it that were not looked at yet. One step looks at one arc, or
finishes the vertex on top. What the users of a walk need is recorded on the way: the order in which
vertices were started and finished, the arc through which each one was entered, and the arcs that
lead back to an unfinished vertex.

Arcs are given by a function from a vertex to the pairs of an arc and the vertex at its far end.
-/

namespace Flowchart

/-- How far a walk has come with a vertex. -/
inductive Mark where
  /-- not met yet -/
  | fresh
  /-- started and not finished: it is on the stack -/
  | started
  /-- finished -/
  | done
  deriving Repr, DecidableEq, Inhabited

/-- The start of a vertex in a walk. -/
structure Start where
  /-- the vertex -/
  vertex : Nat
  /-- the arc through which it was entered and the vertex at its near end; none for a root -/
  via : Option (Nat × Nat)
  /-- how many vertices were finished before -/
  finishedBefore : Nat
  deriving Repr, DecidableEq, Inhabited

/-- The state of a depth-first walk. -/
structure Walk where
  /-- progress of every vertex -/
  marks : Array Mark
  /-- unfinished vertices with the arcs still to be looked at, the innermost one first -/
  stack : List (Nat × List (Nat × Nat)) := []
  /-- vertices in the order in which they were started -/
  starts : Array Start := #[]
  /-- vertices in the order in which they were finished -/
  finished : Array Nat := #[]
  /-- arcs found to lead to an unfinished vertex, in the order in which they were looked at -/
  backArcs : Array Nat := #[]
  deriving Inhabited

namespace Walk

/-- The walk of `n` vertices that has not begun. -/
def initial (n : Nat) : Walk := { marks := Array.replicate n .fresh }

/-- Progress of a vertex; vertices outside the graph count as finished. -/
def mark (w : Walk) (v : Nat) : Mark := w.marks.getD v .done

/-- Starts a vertex. -/
def start (arcs : Nat → List (Nat × Nat)) (w : Walk) (v : Nat) (via : Option (Nat × Nat)) : Walk :=
  { w with
    marks := w.marks.setIfInBounds v .started
    stack := (v, arcs v) :: w.stack
    starts := w.starts.push ⟨v, via, w.finished.size⟩ }

/-- Looks at the next arc of the vertex on top of the stack, or finishes that vertex. -/
def step (arcs : Nat → List (Nat × Nat)) (w : Walk) : Walk :=
  match w.stack with
  | [] => w
  | (v, []) :: rest =>
    { w with
      marks := w.marks.setIfInBounds v .done
      stack := rest
      finished := w.finished.push v }
  | (v, (a, u) :: pending) :: rest =>
    let w := { w with stack := (v, pending) :: rest }
    match w.mark u with
    | .fresh => w.start arcs u (some (a, v))
    | .started => { w with backArcs := w.backArcs.push a }
    | .done => w

/-- Steps until the stack is empty, at most `fuel` times. -/
def run (arcs : Nat → List (Nat × Nat)) : (fuel : Nat) → Walk → Walk
  | 0, w => w
  | fuel + 1, w => if w.stack.isEmpty then w else run arcs fuel (w.step arcs)

/-- Steps that any walk of `n` vertices takes at most: every vertex is finished once and every arc
is looked at once. -/
def stepBound (n : Nat) (arcs : Nat → List (Nat × Nat)) : Nat :=
  (List.range n).foldl (fun total v => total + (arcs v).length + 1) 0

/-- Walks everything that can be reached from a vertex, unless the vertex was met before. -/
def visit (arcs : Nat → List (Nat × Nat)) (bound : Nat) (w : Walk) (v : Nat) : Walk :=
  match w.mark v with
  | .fresh => run arcs bound (w.start arcs v none)
  | _ => w

/-- Walks a whole graph, taking the roots by their numbers. -/
def all (n : Nat) (arcs : Nat → List (Nat × Nat)) : Walk :=
  (List.range n).foldl (visit arcs (stepBound n arcs)) (initial n)

/-- Walks what can be reached from one vertex. -/
def from_ (n : Nat) (arcs : Nat → List (Nat × Nat)) (root : Nat) : Walk :=
  visit arcs (stepBound n arcs) (initial n) root

end Walk

end Flowchart
