import Flowchart.Layered.Simplex
import Flowchart.Text.Blank

/-!
# Ranking

A ranking gives every vertex of an acyclic graph a whole number so that every arc leads at least its
least length upwards. Three strategies differ in how tightly they pull the vertices together: the
longest path puts each vertex as early as possible, the tight tree then lets vertices drop down next
to what they feed, and the network simplex makes the total weighted length of the arcs least. In the
end the smallest rank is zero.
-/

namespace Flowchart

/-- How ranks are chosen. -/
inductive RankStrategy where
  /-- as early as possible -/
  | longestPath
  /-- next to the successors -/
  | tightTree
  /-- least total length -/
  | networkSimplex
  deriving Repr, DecidableEq, Inhabited

namespace RankStrategy

/-- Reads the name of a strategy, in either case, with hyphens or underscores and with blanks around
it. -/
def ofName? (name : String) : Option RankStrategy :=
  let cs := (Text.lowerAscii (Text.trim name)).toList.map fun c => if c == '_' then '-' else c
  match String.ofList cs with
  | "longest-path" => some longestPath
  | "tight-tree" => some tightTree
  | "network-simplex" => some networkSimplex
  | _ => none

/-- The name of a strategy. -/
def name : RankStrategy → String
  | longestPath => "longest-path"
  | tightTree => "tight-tree"
  | networkSimplex => "network-simplex"

end RankStrategy

namespace LayerGraph

variable {α : Type}

/-- Writes a list of ranks to the vertices. -/
def withRanks (g : LayerGraph α) (ranks : Array Int) : LayerGraph α :=
  { g with nodes := g.nodes.mapIdx fun v n => { n with rank := ranks.getD v 0 } }

/-! ## Longest path -/

/-- The arcs into a vertex with their near ends. -/
def arcsUp (g : LayerGraph α) (v : Nat) : List (Nat × Nat) :=
  (g.inArcs v).map fun a => (a, g.source a)

/-- The least rank that the arcs into a vertex allow, zero if there are none. -/
def rankBelowPredecessors (g : LayerGraph α) (ranks : Array Int) (v : Nat) : Int :=
  ((g.inArcs v).map fun a => ranks.getD (g.source a) 0 + g.minLength a).max?.getD 0

/-- Ranks every vertex right below its lowest predecessor, predecessors first. -/
def longestPath (g : LayerGraph α) : LayerGraph α :=
  let finished := (Walk.all g.size g.arcsUp).finished.toList
  g.withRanks <| finished.foldl (fun (ranks : Array Int) v =>
    ranks.setIfInBounds v (g.rankBelowPredecessors ranks v)) (Array.replicate g.size 0)

/-! ## Tight tree -/

/-- Takes a vertex off the graph: its successors lose an arc, and those left without one join the
stack. -/
def releaseSuccessors (g : LayerGraph α) :
    List Nat → Array Nat × List Nat → Array Nat × List Nat
  | [], state => state
  | a :: rest, (degrees, stack) =>
    let u := g.target a
    let left := degrees.getD u 0 - 1
    g.releaseSuccessors rest
      (degrees.setIfInBounds u left, if left == 0 then u :: stack else stack)

/-- Lists vertices whose predecessors were all listed before; returns the list backwards. -/
def listSources (g : LayerGraph α) : (fuel : Nat) → List Nat → Array Nat × List Nat → List Nat
  | 0, listed, _ => listed
  | _, listed, (_, []) => listed
  | fuel + 1, listed, (degrees, v :: stack) =>
    g.listSources fuel (v :: listed) (g.releaseSuccessors (g.outArcs v) (degrees, stack))

/-- The vertices with every arc leading backwards, that is, successors before predecessors. Vertices
on or behind a cycle are left out. -/
def reverseTopological (g : LayerGraph α) : List Nat :=
  let degrees := g.incoming.map List.length
  g.listSources g.size [] (degrees, g.vertices.filter fun v => (g.inArcs v).isEmpty)

/-- The rank a vertex drops to: right above its highest successor, but not above what its
predecessors allow. A vertex without successors stays. -/
def droppedRank (g : LayerGraph α) (v : Nat) : Int :=
  match ((g.outArcs v).map fun a => g.rank (g.target a) - g.minLength a).min? with
  | none => g.rank v
  | some upper =>
    match ((g.inArcs v).map fun a => g.rank (g.source a) + g.minLength a).max? with
    | none => upper
    | some lower => max upper lower

/-- Lets every vertex of a list drop. -/
def dropAll (g : LayerGraph α) (order : List Nat) : LayerGraph α :=
  order.foldl (fun g v => g.setRank v (g.droppedRank v)) g

/-- Repeats a pass over all vertices until nothing moves, at most `limit` times. -/
def dropUntilStable (order : List Nat) : (limit : Nat) → LayerGraph α → LayerGraph α
  | 0, g => g
  | limit + 1, g =>
    let next := g.dropAll order
    if next.nodes.toList.map Vertex.rank == g.nodes.toList.map Vertex.rank then next
    else dropUntilStable order limit next

/-- Lets the vertices drop next to what they feed. -/
def tightTree (g : LayerGraph α) : LayerGraph α :=
  dropUntilStable g.reverseTopological (max g.size 1) g

/-! ## Network simplex -/

/-- Marks everything connected with the vertices on the stack. -/
def spread (g : LayerGraph α) : (fuel : Nat) → Array Bool → List Nat → Array Bool
  | 0, met, _ => met
  | _, met, [] => met
  | fuel + 1, met, v :: stack =>
    let fresh := ((g.successors v ++ g.predecessors v).filter fun u => !met.getD u true).eraseDups
    g.spread fuel (fresh.foldl (·.setIfInBounds · true) met) (fresh ++ stack)

/-- The vertices connected with a vertex, directions disregarded, by their numbers. -/
def componentOf (g : LayerGraph α) (v : Nat) : List Nat :=
  let met := g.spread g.size ((Array.replicate g.size false).setIfInBounds v true) [v]
  g.vertices.filter fun u => met.getD u false

/-- The weakly connected components by their smallest members. -/
def components (g : LayerGraph α) : List (List Nat) :=
  (g.vertices.foldl (fun (found : List (List Nat) × Array Bool) v =>
    if found.2.getD v true then found
    else
      let members := g.componentOf v
      (found.1 ++ [members], members.foldl (·.setIfInBounds · true) found.2))
    ([], Array.replicate g.size false)).1

/-- Adds an arc to the links of a component: to the link with the same ends if there is one. -/
def mergeLink [Scalar α] (links : Array (SimplexLink α)) (link : SimplexLink α) :
    Array (SimplexLink α) :=
  match links.findIdx? fun l => l.tail == link.tail && l.head == link.head with
  | some i => links.modify i fun l =>
    { l with weight := l.weight + link.weight, minLength := max l.minLength link.minLength }
  | none => links.push link

/-- The links of a component, whose vertices are renumbered by their positions in it. -/
def componentLinks [Scalar α] (g : LayerGraph α) (members : List Nat) : Array (SimplexLink α) :=
  g.arcs.toList.foldl (fun links arc =>
    if arc.active then
      match members.idxOf? arc.source, members.idxOf? arc.target with
      | some t, some h => mergeLink links ⟨t, h, arc.weight, arc.minLength⟩
      | _, _ => links
    else links) #[]

/-- Ranks one component by the network simplex, its smallest rank being zero. -/
def simplexComponent [Scalar α] (limit : Nat) (g : LayerGraph α) (members : List Nat) :
    LayerGraph α :=
  if members.length < 2 then g
  else
    let start := Simplex.initial (g.componentLinks members) (members.map g.rank).toArray
    let ranks := (start.solve limit).1.rank.toList
    let least := ranks.min?.getD 0
    (members.zip ranks).foldl (fun g (v, r) => g.setRank v (r - least)) g

/-- Ranks every component by the network simplex, with at most `limit` exchanges in each. -/
def networkSimplex [Scalar α] (g : LayerGraph α) (limit : Nat) : LayerGraph α :=
  g.components.foldl (simplexComponent limit) g

/-! ## The whole ranking -/

/-- Shifts all ranks so that the smallest one is zero. -/
def normalizeRanks (g : LayerGraph α) : LayerGraph α :=
  let least := g.minRank
  { g with nodes := g.nodes.map fun n => { n with rank := n.rank - least } }

/-- Ranks the graph. -/
def assignRanks [Scalar α] (g : LayerGraph α) (strategy : RankStrategy) (limit : Nat) :
    LayerGraph α :=
  let g := g.longestPath
  let g := match strategy with
    | .longestPath => g
    | .tightTree => g.tightTree
    | .networkSimplex => g.networkSimplex limit
  g.normalizeRanks

end LayerGraph

end Flowchart
