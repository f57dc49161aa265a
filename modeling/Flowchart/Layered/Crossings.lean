import Flowchart.Layered.Graph

/-!
# Counting crossings

Two arcs between the same two ranks cross when their ends lie in opposite orders. Sorted by their
upper ends, the crossings are the inversions in the sequence of their lower ends, which a merge sort
counts on the way.
-/

namespace Flowchart

/-- Merges two sorted lists. The second component counts the pairs of a member of the first list and
a smaller one of the second. -/
def mergeCounting : List Nat → List Nat → List Nat × Nat
  | [], ys => (ys, 0)
  | xs, [] => (xs, 0)
  | x :: xs, y :: ys =>
    if x ≤ y then
      let (rest, n) := mergeCounting xs (y :: ys)
      (x :: rest, n)
    else
      let (rest, n) := mergeCounting (x :: xs) ys
      (y :: rest, n + (xs.length + 1))
termination_by xs ys => xs.length + ys.length

/-- Sorts a list by merging and counts its inversions; `fuel` bounds the depth of halving. -/
def sortCountingWith : (fuel : Nat) → List Nat → List Nat × Nat
  | 0, xs => (xs, 0)
  | fuel + 1, xs =>
    if xs.length < 2 then (xs, 0)
    else
      let (left, m) := sortCountingWith fuel (xs.take (xs.length / 2))
      let (right, n) := sortCountingWith fuel (xs.drop (xs.length / 2))
      let (merged, k) := mergeCounting left right
      (merged, m + n + k)

/-- Sorts a list and counts the pairs of its members that are out of order. -/
def sortCounting (xs : List Nat) : List Nat × Nat := sortCountingWith xs.length xs

/-- The number of pairs of members that are out of order. -/
def inversions (xs : List Nat) : Nat := (sortCounting xs).2

/-- Lexicographic order of pairs. -/
def pairLe (a b : Nat × Nat) : Bool := a.1 < b.1 || (a.1 == b.1 && a.2 ≤ b.2)

namespace LayerGraph

variable {α : Type}

/-- The positions of both ends of every arc that leaves a member of a rank list. -/
def arcEnds (g : LayerGraph α) (members : List Nat) : List (Nat × Nat) :=
  members.flatMap fun v => (g.successors v).map fun u => (g.order v, g.order u)

/-- Crossings among the arcs that leave the members of a rank list. -/
def crossingsBelow (g : LayerGraph α) (members : List Nat) : Nat :=
  inversions (((g.arcEnds members).mergeSort pairLe).map Prod.snd)

/-- Crossings between all neighbouring ranks. -/
def countCrossings (g : LayerGraph α) : Nat :=
  (g.ranks.toList.dropLast.map g.crossingsBelow).foldl (· + ·) 0

end LayerGraph

end Flowchart
