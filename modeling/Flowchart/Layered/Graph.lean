import Flowchart.Geometry.Point
import Flowchart.Keyed

/-!
# The working graph of the layered phases

Vertices and arcs live in two arrays and refer to each other by position. Beside the arcs, the graph
holds for every vertex the arcs that leave it and those that enter it, for every rank the vertices
in it, and an index with the position of every vertex under the id that its caller gave. The phases
of the layout change this one value:

* cycle removal reverses arcs and marks them as reversed,
* ranking sets the rank of every vertex,
* splitting replaces an arc over several ranks by a chain of arcs through *passages*, vertices
  without extent, one in each rank between; the arc itself stays in the array but is inactive and
  appears in no adjacency list,
* ordering fills the rank lists and the position of every vertex in its rank,
* coordinate assignment places the centres.

Every arc remembers the caller's connection it stands for as its *origin*.
-/

namespace Flowchart

/-- What a passage vertex stands for. -/
structure Passage where
  /-- position of the arc that was split -/
  arc : Nat
  /-- id of the vertex the split arc left -/
  source : String
  /-- id of the vertex the split arc entered -/
  target : String
  deriving Repr, DecidableEq, Inhabited

/-- A vertex of the working graph. -/
structure Vertex (α : Type) where
  /-- name given by the caller, or a generated one for a passage -/
  id : String
  /-- extent along the x axis -/
  width : α
  /-- extent along the y axis -/
  height : α
  /-- layer along the flow -/
  rank : Int
  /-- position within the layer -/
  order : Nat
  /-- x coordinate of the centre -/
  x : α
  /-- y coordinate of the centre -/
  y : α
  /-- set for passages -/
  passage : Option Passage
  /-- the blocks around the vertex, outermost first, by their position in the listing of blocks -/
  cluster : List Nat
  deriving Inhabited

/-- The vertex was put in to carry a long connection through a rank. -/
def Vertex.isPassage {α : Type} (v : Vertex α) : Bool := v.passage.isSome

/-- An arc of the working graph. -/
structure Arc (α : Type) where
  /-- position of the vertex it leaves -/
  source : Nat
  /-- position of the vertex it enters -/
  target : Nat
  /-- how much its length counts in ranking -/
  weight : α
  /-- least difference of the ranks of its ends -/
  minLength : Int
  /-- it runs against the caller's connection -/
  reversed : Bool
  /-- it is listed in the adjacency of its ends -/
  active : Bool
  /-- the caller's connection it stands for -/
  origin : Nat
  deriving Inhabited

/-- The passages of an arc that was split. -/
structure PassageChain where
  /-- position of the arc -/
  arc : Nat
  /-- its passages by rank -/
  passages : List Nat
  /-- the arc was marked as reversed when it was split -/
  reversed : Bool
  deriving Repr, DecidableEq, Inhabited

/-- The working graph. -/
structure LayerGraph (α : Type) where
  /-- all vertices -/
  nodes : Array (Vertex α) := #[]
  /-- for each id that a caller gave the position of its vertex -/
  index : List (String × Nat) := []
  /-- all arcs, inactive ones included -/
  arcs : Array (Arc α) := #[]
  /-- for each vertex the active arcs that leave it -/
  outgoing : Array (List Nat) := #[]
  /-- for each vertex the active arcs that enter it -/
  incoming : Array (List Nat) := #[]
  /-- for each rank its vertices in order -/
  ranks : Array (List Nat) := #[]
  /-- the arcs that were split -/
  chains : List PassageChain := []
  deriving Inhabited

namespace LayerGraph

variable {α : Type}

/-! ## Reading the graph -/

/-- Number of vertices. -/
def size (g : LayerGraph α) : Nat := g.nodes.size

/-- All positions of vertices. -/
def vertices (g : LayerGraph α) : List Nat := List.range g.size

/-- The arcs that leave a vertex. -/
def outArcs (g : LayerGraph α) (v : Nat) : List Nat := g.outgoing.getD v []

/-- The arcs that enter a vertex. -/
def inArcs (g : LayerGraph α) (v : Nat) : List Nat := g.incoming.getD v []

/-- The vertex an arc leaves. -/
def source (g : LayerGraph α) (a : Nat) : Nat := (g.arcs[a]?.map Arc.source).getD 0

/-- The vertex an arc enters. -/
def target (g : LayerGraph α) (a : Nat) : Nat := (g.arcs[a]?.map Arc.target).getD 0

/-- The least difference of ranks an arc asks for. -/
def minLength (g : LayerGraph α) (a : Nat) : Int := (g.arcs[a]?.map Arc.minLength).getD 1

/-- The rank of a vertex. -/
def rank (g : LayerGraph α) (v : Nat) : Int := (g.nodes[v]?.map Vertex.rank).getD 0

/-- The position of a vertex in its rank. -/
def order (g : LayerGraph α) (v : Nat) : Nat := (g.nodes[v]?.map Vertex.order).getD 0

/-- The blocks around a vertex, outermost first. -/
def cluster (g : LayerGraph α) (v : Nat) : List Nat := (g.nodes[v]?.map Vertex.cluster).getD []

/-- The vertex carries a long connection. -/
def isPassage (g : LayerGraph α) (v : Nat) : Bool := (g.nodes[v]?.map Vertex.isPassage).getD false

/-- The vertices that arcs lead from into a vertex, one for each arc. -/
def predecessors (g : LayerGraph α) (v : Nat) : List Nat := (g.inArcs v).map g.source

/-- The vertices that arcs lead to from a vertex, one for each arc. -/
def successors (g : LayerGraph α) (v : Nat) : List Nat := (g.outArcs v).map g.target

/-- The vertex that is indexed under an id. -/
def find? (g : LayerGraph α) (id : String) : Option Nat := g.index.lookup id

/-- The largest rank, zero for the graph without vertices. -/
def maxRank (g : LayerGraph α) : Int := (g.nodes.toList.map Vertex.rank).max?.getD 0

/-- The smallest rank, zero for the graph without vertices. -/
def minRank (g : LayerGraph α) : Int := (g.nodes.toList.map Vertex.rank).min?.getD 0

/-! ## Changing the graph -/

/-- Changes one vertex. -/
def updateNode (g : LayerGraph α) (v : Nat) (f : Vertex α → Vertex α) : LayerGraph α :=
  { g with nodes := g.nodes.modify v f }

/-- Sets the rank of a vertex. -/
def setRank (g : LayerGraph α) (v : Nat) (rank : Int) : LayerGraph α :=
  g.updateNode v ({ · with rank := rank })

/-- Sets the position of a vertex in its rank. -/
def setOrder (g : LayerGraph α) (v : Nat) (order : Nat) : LayerGraph α :=
  g.updateNode v ({ · with order := order })

/-- Appends a vertex without arcs; it is not indexed. -/
def pushNode (g : LayerGraph α) (v : Vertex α) : LayerGraph α :=
  { g with
    nodes := g.nodes.push v
    outgoing := g.outgoing.push []
    incoming := g.incoming.push [] }

/-- Appends an arc and lists it at both ends. -/
def pushArc (g : LayerGraph α) (a : Arc α) : LayerGraph α :=
  { g with
    arcs := g.arcs.push a
    outgoing := g.outgoing.modify a.source (· ++ [g.arcs.size])
    incoming := g.incoming.modify a.target (· ++ [g.arcs.size]) }

/-- The graph with the vertex of a given id, which is added and indexed if the id is new. -/
def addNode [Scalar α] (g : LayerGraph α) (id : String) (width height : α) (cluster : List Nat) :
    LayerGraph α :=
  if (g.find? id).isSome then g
  else
    { g.pushNode ⟨id, width, height, 0, 0, 0.0, 0.0, none, cluster⟩ with
      index := setKey id g.size g.index }

/-- Adds an arc between two vertices. -/
def addArc (g : LayerGraph α) (source target : Nat) (weight : α) (origin : Nat) : LayerGraph α :=
  g.pushArc ⟨source, target, weight, 1, false, true, origin⟩

/-- Adds an arc between the vertices of two ids; nothing is added if one of them is unknown. -/
def addArcById? [Scalar α] (g : LayerGraph α) (source target : String) (origin : Nat) :
    Option (LayerGraph α) :=
  match g.find? source, g.find? target with
  | some s, some t => some (g.addArc s t 1.0 origin)
  | _, _ => none

/-- Takes an arc out of the adjacency of its ends. -/
def unlist (g : LayerGraph α) (a source target : Nat) : LayerGraph α :=
  { g with
    outgoing := g.outgoing.modify source (·.filter (· != a))
    incoming := g.incoming.modify target (·.filter (· != a)) }

/-- Lists an arc at the end of the adjacency of its ends. -/
def enlist (g : LayerGraph α) (a source target : Nat) : LayerGraph α :=
  { g with
    outgoing := g.outgoing.modify source (· ++ [a])
    incoming := g.incoming.modify target (· ++ [a]) }

/-- Turns an arc around. -/
def reverse (g : LayerGraph α) (a : Nat) : LayerGraph α :=
  match g.arcs[a]? with
  | none => g
  | some arc =>
    let g := if arc.active then (g.unlist a arc.source arc.target).enlist a arc.target arc.source
      else g
    { g with arcs := g.arcs.modify a fun b =>
        { b with source := arc.target, target := arc.source, reversed := !arc.reversed } }

/-! ## Chains -/

/-- The part that two cluster paths have in common. -/
def commonCluster : List Nat → List Nat → List Nat
  | a :: as, b :: bs => if a == b then a :: commonCluster as bs else []
  | _, _ => []

/-- The passage that carries an arc `step` ranks below the vertex it leaves. -/
def passageVertex [Scalar α] (g : LayerGraph α) (a : Nat) (arc : Arc α) (step : Nat) : Vertex α where
  id := "_dummy_" ++ toString a ++ "_" ++ toString step
  width := 0.0
  height := 0.0
  rank := g.rank arc.source + step
  order := 0
  x := 0.0
  y := 0.0
  passage := some
    ⟨a, (g.nodes[arc.source]?.map Vertex.id).getD "", (g.nodes[arc.target]?.map Vertex.id).getD ""⟩
  cluster := commonCluster (g.cluster arc.source) (g.cluster arc.target)

/-- Continues the chain of an arc from the vertex `last` through one more passage. -/
def extendChain (g : LayerGraph α) (arc : Arc α) (last : Nat) (passage : Vertex α) :
    LayerGraph α :=
  (g.pushNode passage).pushArc { arc with source := last, target := g.size }

/-- Puts the passages of an arc in, starting `step` ranks below its source, and closes the chain.
Returns the positions of the passages. -/
def threadChain [Scalar α] (a : Nat) (arc : Arc α) :
    (count step last : Nat) → LayerGraph α → LayerGraph α × List Nat
  | 0, _, last, g => (g.pushArc { arc with source := last }, [])
  | count + 1, step, last, g =>
    let passage := g.size
    let g := g.extendChain arc last (g.passageVertex a arc step)
    let (g, rest) := threadChain a arc count (step + 1) passage g
    (g, passage :: rest)

/-- Replaces an arc over more than one rank by a chain with one passage in every rank between.
Returns the number of passages. -/
def split [Scalar α] (g : LayerGraph α) (a : Nat) : LayerGraph α × Nat :=
  match g.arcs[a]? with
  | none => (g, 0)
  | some arc =>
    let between := (g.rank arc.target - g.rank arc.source - 1).toNat
    if between == 0 then (g, 0)
    else
      let g := g.unlist a arc.source arc.target
      let g := { g with arcs := g.arcs.modify a ({ · with active := false }) }
      let segment := { arc with minLength := 1, active := true }
      let (g, passages) := threadChain a segment between 1 arc.source g
      ({ g with chains := g.chains ++ [⟨a, passages, arc.reversed⟩] }, between)

/-- The active arcs over more than one rank. -/
def longArcs (g : LayerGraph α) : List Nat :=
  (List.range g.arcs.size).filter fun a =>
    match g.arcs[a]? with
    | some arc => arc.active && decide (1 < g.rank arc.target - g.rank arc.source)
    | none => false

/-- Splits every long arc. Returns the number of passages. -/
def splitLong [Scalar α] (g : LayerGraph α) : LayerGraph α × Nat :=
  g.longArcs.foldl (fun (g, count) a =>
    let (g, n) := g.split a
    (g, count + n)) (g, 0)

/-- The centre of a vertex. -/
def position [Scalar α] (g : LayerGraph α) (v : Nat) : Point α :=
  match g.nodes[v]? with
  | some n => ⟨n.x, n.y⟩
  | none => Point.origin

/-- The centres of the passages of a chain, along the caller's connection. -/
def chainPoints [Scalar α] (g : LayerGraph α) (c : PassageChain) : List (Point α) :=
  let along := c.passages.map g.position
  if c.reversed then along.reverse else along

/-- The points through which the chain of an arc runs, along the caller's connection. -/
def waypoints [Scalar α] (g : LayerGraph α) (a : Nat) : List (Point α) :=
  match g.chains.find? (·.arc == a) with
  | some c => g.chainPoints c
  | none => []

/-! ## Rank lists -/

/-- Lists the vertices of every rank by their positions. -/
def rebuildRanks (g : LayerGraph α) : LayerGraph α :=
  let count := if g.size == 0 then 0 else g.maxRank.toNat + 1
  let inRank (r : Nat) := g.vertices.filter fun v => (g.rank v).toNat == r
  { g with ranks := ((List.range count).map fun r =>
      (inRank r).mergeSort fun a b => g.order a ≤ g.order b).toArray }

/-- Writes the positions of the vertices of one rank list back. -/
def syncRank (g : LayerGraph α) (members : List Nat) : LayerGraph α :=
  members.zipIdx.foldl (fun g (v, pos) => g.setOrder v pos) g

/-- Writes the position of every listed vertex back. -/
def syncOrders (g : LayerGraph α) : LayerGraph α := g.ranks.toList.foldl syncRank g

end LayerGraph

end Flowchart
