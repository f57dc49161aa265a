import Flowchart.Layered.Crossings

/-!
# Ordering the ranks

The vertices of every rank are first listed in breadth-first order. Sweeps down and up the ranks
then sort each rank by the medians of the neighbours' positions in the rank before, and the
arrangement with the fewest crossings seen is kept.

Members of a block have to stay together. After each sort the vertices of a rank are sorted again by
keys with one entry per nesting level: the mean position of all vertices of the rank that share this
level's block, and in the end the own position. So vertices that share a block share the beginning
of their keys, and the groups come to lie where their members were on average.
-/

namespace Flowchart

/-- What the ordering did. -/
structure OrderingStats where
  /-- crossings before the first sweep -/
  initialCrossings : Nat
  /-- crossings of the arrangement that was kept -/
  crossings : Nat
  /-- sweeps made -/
  passes : Nat
  deriving Repr, DecidableEq, Inhabited

/-- Order of natural numbers as a test. -/
def natLe (a b : Nat) : Bool := decide (a ≤ b)

/-- The median of a list of positions, the mean of the two middle ones for an even number. -/
def medianPosition? {α : Type} [Scalar α] (positions : List Nat) : Option α :=
  let sorted := positions.mergeSort natLe
  let half := sorted.length / 2
  if sorted.length % 2 == 1 then sorted[half]?.map Scalar.ofNat
  else match sorted[half - 1]?, sorted[half]? with
    | some a, some b => some (Scalar.ofNat (a + b) / 2.0)
    | _, _ => none

namespace LayerGraph

variable {α : Type} [Scalar α]

/-! ## Blocks stay together -/

/-- The non-empty leading parts of a cluster path, shortest first. -/
def leadingPaths : List Nat → List (List Nat)
  | [] => []
  | a :: rest => [a] :: (leadingPaths rest).map (a :: ·)

/-- The mean position of the members of a rank list whose cluster path starts with `path`. -/
def meanPosition (g : LayerGraph α) (members : List Nat) (path : List Nat) : α :=
  let inside := members.zipIdx.filter fun (v, _) => path.isPrefixOf (g.cluster v)
  Scalar.sum (inside.map fun (_, pos) => Scalar.ofNat pos) / Scalar.ofNat inside.length

/-- Mean positions of all groups of a rank list. -/
def groupMeans (g : LayerGraph α) (members : List Nat) : List (List Nat × α) :=
  (members.flatMap fun v => leadingPaths (g.cluster v)).eraseDups.map fun p =>
    (p, g.meanPosition members p)

/-- The sort key of a vertex: for every block around it the mean position of the group and the
number of the block, then the own position. -/
def groupKey (means : List (List Nat × α)) (path : List Nat) (pos : Nat) : List (α × Nat) :=
  (leadingPaths path).map (fun p =>
    ((means.lookup p).getD 0.0, (p.getLast?.getD 0) + 1)) ++ [(Scalar.ofNat pos, 0)]

/-- Lexicographic order of sort keys. -/
def keyLe : List (α × Nat) → List (α × Nat) → Bool
  | [], _ => true
  | _ :: _, [] => false
  | (x, m) :: xs, (y, n) :: ys =>
    if Scalar.totalLe x y && Scalar.totalLe y x then
      if m == n then keyLe xs ys else decide (m < n)
    else Scalar.totalLe x y

/-- Sorts a rank list so that the members of every block are next to each other. -/
def groupClusters (g : LayerGraph α) (members : List Nat) : List Nat :=
  if members.all fun v => (g.cluster v).isEmpty then members
  else
    let means := g.groupMeans members
    let keyed := members.zipIdx.map fun (v, pos) => (groupKey means (g.cluster v) pos, v)
    (keyed.mergeSort fun a b => keyLe a.1 b.1).map Prod.snd

/-! ## The first arrangement -/

/-- Lists everything that can be reached along the arcs, breadth first; `met` marks the vertices
that were listed or are in the queue, and the list is built backwards. -/
def breadthFirst (g : LayerGraph α) :
    (fuel : Nat) → List Nat → Array Bool → List Nat → List Nat × Array Bool
  | 0, listed, met, _ => (listed, met)
  | _, listed, met, [] => (listed, met)
  | fuel + 1, listed, met, v :: queue =>
    let fresh := ((g.successors v).filter fun u => !met.getD u true).eraseDups
    g.breadthFirst fuel (v :: listed) (fresh.foldl (·.setIfInBounds · true) met) (queue ++ fresh)

/-- All vertices in breadth-first order: from the sources, then from whatever was not reached. -/
def breadthFirstOrder (g : LayerGraph α) : List Nat :=
  let sources := g.vertices.filter fun v => (g.inArcs v).isEmpty
  let (listed, _) := (sources ++ g.vertices).foldl (fun (listed, met) v =>
    if met.getD v true then (listed, met)
    else g.breadthFirst g.size listed (met.setIfInBounds v true) [v])
    (([] : List Nat), Array.replicate g.size false)
  listed.reverse

/-- Fills the rank lists in breadth-first order, groups kept together. -/
def initialOrder (g : LayerGraph α) : LayerGraph α :=
  let count := if g.size == 0 then 0 else g.maxRank.toNat + 1
  let listed := g.breadthFirstOrder
  let ranks := (List.range count).map fun r =>
    g.groupClusters (listed.filter fun v => (g.rank v).toNat == r)
  { g with ranks := ranks.toArray }.syncOrders

/-! ## Sweeps -/

/-- The value a vertex is sorted by: the median position of its neighbours in the rank that the
sweep comes from, or its own position if it has none. -/
def sweepKey (g : LayerGraph α) (downward : Bool) (v : Nat) : α :=
  let neighbours := if downward then g.predecessors v else g.successors v
  (medianPosition? (neighbours.map g.order)).getD (Scalar.ofNat (g.order v))

/-- Sorts one rank by the neighbours' positions. -/
def sweepRank (downward : Bool) (g : LayerGraph α) (r : Nat) : LayerGraph α :=
  let members := g.ranks.getD r []
  let keyed := members.map fun v => (g.sweepKey downward v, v)
  let sorted := (keyed.mergeSort fun a b => Scalar.totalLe a.1 b.1).map Prod.snd
  let grouped := g.groupClusters sorted
  { g with ranks := g.ranks.setIfInBounds r grouped }.syncRank grouped

/-- The ranks that a sweep sorts, in its order. -/
def sweepRanks (count : Nat) (downward : Bool) : List Nat :=
  if downward then (List.range count).drop 1 else (List.range (count - 1)).reverse

/-- Sorts all ranks but the one that the sweep starts from. -/
def sweep (g : LayerGraph α) (downward : Bool) : LayerGraph α :=
  (sweepRanks g.ranks.size downward).foldl (sweepRank downward) g

/-- Makes up to `left` more sweeps, alternating in direction, while there are crossings; `best`
holds the fewest crossings seen and the arrangement that had them. -/
def improveOrder : (left passes : Nat) → LayerGraph α → Nat × Array (List Nat) →
    LayerGraph α × (Nat × Array (List Nat)) × Nat
  | 0, passes, g, best => (g, best, passes)
  | left + 1, passes, g, best =>
    if best.1 == 0 then (g, best, passes)
    else
      let g := g.sweep (passes % 2 == 0)
      let crossings := g.countCrossings
      improveOrder left (passes + 1) g
        (if crossings < best.1 then (crossings, g.ranks) else best)

/-- Arranges the vertices within the ranks, with at most `limit` sweeps. -/
def orderRanks (g : LayerGraph α) (limit : Nat) : LayerGraph α × OrderingStats :=
  let g := g.initialOrder
  let first := g.countCrossings
  let (g, (crossings, ranks), passes) := improveOrder limit 0 g (first, g.ranks)
  ({ g with ranks := ranks }.syncOrders, ⟨first, crossings, passes⟩)

end LayerGraph

end Flowchart
