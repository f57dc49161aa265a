import Flowchart.Layered.Graph
import Flowchart.Layered.Walk

/-!
# Ranking by network simplex

The ranks of one weakly connected component are improved until the total weighted length of its arcs
is as small as possible. The state is a ranking in which every link is at least as long as it has to
be, together with a spanning tree of *tight* links, those of exactly their least length. Removing a
tree link splits the vertices in two; its *cut value* is the weight of all links that cross the
split in its direction less the weight of those that cross against it. A tree link with a negative
cut value can be exchanged for the crossing link with the least slack in the other direction, which
shortens the drawing. When no cut value is negative the ranking is optimal.

Cut values are computed from the leaves up, using the numbers of a depth-first walk of the tree: a
vertex lies below another one exactly when its finishing number lies in the interval of the other.
-/

namespace Flowchart

/-- A link between two vertices of a component; parallel arcs are merged into one link. -/
structure SimplexLink (α : Type) where
  /-- the vertex it leaves -/
  tail : Nat
  /-- the vertex it enters -/
  head : Nat
  /-- sum of the weights of the merged arcs -/
  weight : α
  /-- largest of the least lengths of the merged arcs -/
  minLength : Int
  deriving Inhabited

/-- The numbers that a walk of the spanning tree gives to a vertex. -/
structure TreePlace where
  /-- the tree link to its parent and the parent; none for the root -/
  parent : Option (Nat × Nat)
  /-- least finishing number in its subtree -/
  low : Nat
  /-- own finishing number, from one on -/
  lim : Nat
  deriving Repr, DecidableEq, Inhabited

/-- The state of the network simplex on one component. -/
structure Simplex (α : Type) where
  /-- the links -/
  links : Array (SimplexLink α)
  /-- for each vertex the links at it -/
  incident : Array (List Nat)
  /-- the ranking -/
  rank : Array Int
  /-- which links belong to the tree -/
  inTree : Array Bool
  /-- place of each vertex in the tree -/
  places : Array TreePlace
  /-- cut value of the tree link above each vertex -/
  cut : Array α
  /-- vertices by their finishing numbers -/
  postorder : List Nat
  /-- vertices in the order in which the walk of the tree met them -/
  preorder : List Nat
  deriving Inhabited

namespace Simplex

variable {α : Type} [Scalar α]

/-- The state before a tree was found. -/
def initial (links : Array (SimplexLink α)) (rank : Array Int) : Simplex α where
  links := links
  incident := (List.range links.size).foldl (fun inc l =>
    match links[l]? with
    | some link => (inc.modify link.tail (· ++ [l])).modify link.head (· ++ [l])
    | none => inc) (Array.replicate rank.size [])
  rank := rank
  inTree := Array.replicate links.size false
  places := Array.replicate rank.size ⟨none, 0, 0⟩
  cut := Array.replicate rank.size 0.0
  postorder := []
  preorder := []

/-- Number of vertices. -/
def size (s : Simplex α) : Nat := s.rank.size

/-- The vertex a link leaves. -/
def tail (s : Simplex α) (l : Nat) : Nat := (s.links[l]?.map SimplexLink.tail).getD 0

/-- The vertex a link enters. -/
def head (s : Simplex α) (l : Nat) : Nat := (s.links[l]?.map SimplexLink.head).getD 0

/-- The weight of a link. -/
def weight (s : Simplex α) (l : Nat) : α := (s.links[l]?.map SimplexLink.weight).getD 0.0

/-- The least length of a link. -/
def minLength (s : Simplex α) (l : Nat) : Int := (s.links[l]?.map SimplexLink.minLength).getD 1

/-- The rank of a vertex. -/
def rankOf (s : Simplex α) (v : Nat) : Int := s.rank.getD v 0

/-- The links at a vertex. -/
def linksAt (s : Simplex α) (v : Nat) : List Nat := s.incident.getD v []

/-- The link belongs to the tree. -/
def isTree (s : Simplex α) (l : Nat) : Bool := s.inTree.getD l false

/-- By how much a link is longer than it has to be. -/
def slack (s : Simplex α) (l : Nat) : Int := s.rankOf (s.head l) - s.rankOf (s.tail l) - s.minLength l

/-- The end of a link that is not the given vertex. -/
def other (s : Simplex α) (l v : Nat) : Nat := if s.tail l == v then s.head l else s.tail l

/-- The first member of a list with the least slack. -/
def leastSlack? (s : Simplex α) : List Nat → Option Nat
  | [] => none
  | l :: rest => some (rest.foldl (fun best k => if s.slack k < s.slack best then k else best) l)

/-! ## A first tree -/

/-- Looks at the links of one vertex of the tree and takes in the far ends of tight ones. Returns
the new members, the last one first. -/
def absorb (v : Nat) : List Nat → Simplex α × Array Bool × List Nat → Simplex α × Array Bool × List Nat
  | [], state => state
  | l :: rest, (s, members, stack) =>
    let u := s.other l v
    if !members.getD u true && s.slack l == 0 then
      absorb v rest ({ s with inTree := s.inTree.setIfInBounds l true },
        members.setIfInBounds u true, u :: stack)
    else absorb v rest (s, members, stack)

/-- Takes in everything that tight links connect with the vertices on the stack. -/
def growTight : (fuel : Nat) → Simplex α × Array Bool × List Nat → Simplex α × Array Bool
  | 0, (s, members, _) => (s, members)
  | _, (s, members, []) => (s, members)
  | fuel + 1, (s, members, v :: stack) => growTight fuel (absorb v (s.linksAt v) (s, members, stack))

/-- The members of a vertex set, the largest number first. -/
def membersDown (members : Array Bool) : List Nat :=
  ((List.range members.size).filter fun v => members.getD v false).reverse

/-- The links with exactly one end in a vertex set. -/
def crossing (s : Simplex α) (members : Array Bool) : List Nat :=
  (List.range s.links.size).filter fun l =>
    members.getD (s.tail l) false != members.getD (s.head l) false

/-- Adds the same amount to the ranks of all members of a vertex set. -/
def shift (s : Simplex α) (members : Array Bool) (amount : Int) : Simplex α :=
  { s with rank := s.rank.mapIdx fun v r => if members.getD v false then r + amount else r }

/-- Grows the tree along tight links and, when that stalls, shifts the whole tree by the least slack
of a link that leaves it, which makes this link tight. -/
def growTree : (fuel : Nat) → Simplex α → Array Bool → Simplex α
  | 0, s, _ => s
  | fuel + 1, s, members =>
    let stack := membersDown members
    let (s, members) := growTight (s.size + 1) (s, members, stack)
    if members.all id then s
    else
      match s.leastSlack? (s.crossing members) with
      | none => s
      | some l =>
        let amount := if members.getD (s.tail l) false then s.slack l else -s.slack l
        growTree fuel (s.shift members amount) members

/-- Finds a spanning tree of tight links, starting from the first vertex. -/
def feasibleTree (s : Simplex α) : Simplex α :=
  growTree s.size s ((Array.replicate s.size false).setIfInBounds 0 true)

/-! ## Numbers of the tree -/

/-- The tree links at a vertex with their far ends. -/
def treeArcs (s : Simplex α) (v : Nat) : List (Nat × Nat) :=
  ((s.linksAt v).filter s.isTree).map fun l => (l, s.other l v)

/-- Numbers the vertices by a walk of the tree from the first vertex. -/
def numberTree (s : Simplex α) : Simplex α :=
  let w := Walk.from_ s.size s.treeArcs 0
  let finishing := w.finished.toList.zipIdx.foldl (fun (lim : Array Nat) (v, i) =>
    lim.setIfInBounds v (i + 1)) (s.places.map TreePlace.lim)
  let places := w.starts.toList.foldl (fun (places : Array TreePlace) start =>
    places.setIfInBounds start.vertex
      ⟨start.via, start.finishedBefore + 1, finishing.getD start.vertex 0⟩)
    (s.places.map ({ · with parent := none }))
  { s with
    places := places
    postorder := w.finished.toList
    preorder := w.starts.toList.map Start.vertex }

/-- Place of a vertex in the tree. -/
def place (s : Simplex α) (v : Nat) : TreePlace := s.places.getD v ⟨none, 0, 0⟩

/-- The vertex lies in the subtree below `root`. -/
def isBelow (s : Simplex α) (v root : Nat) : Bool :=
  (s.place root).low ≤ (s.place v).lim && (s.place v).lim ≤ (s.place root).lim

/-! ## Cut values -/

/-- What one link at `child` adds to the cut value of the tree link above `child`, which leads to
`parent`. A link that crosses the split in the direction of the tree link counts with its weight,
one against it with the opposite; for a tree link to a lower vertex the links counted in that
vertex's own cut value are taken back. -/
def cutShare (s : Simplex α) (child parent : Nat) (childIsTail : Bool) (value : α) (l : Nat) : α :=
  let isOut := s.tail l == child
  let far := if isOut then s.head l else s.tail l
  if far == parent then value
  else
    let along := isOut == childIsTail
    let value := value + (if along then s.weight l else -(s.weight l))
    if s.isTree l then
      let below := s.cut.getD far 0.0
      value + (if along then -below else below)
    else value

/-- Computes the cut value above one vertex from those of the vertices below it. -/
def setCut (s : Simplex α) (child : Nat) : Simplex α :=
  match (s.place child).parent with
  | none => s
  | some (l, parent) =>
    let value := (s.linksAt child).foldl (s.cutShare child parent (s.tail l == child)) (s.weight l)
    { s with cut := s.cut.setIfInBounds child value }

/-- Computes all cut values from the leaves up. -/
def computeCuts (s : Simplex α) : Simplex α := s.postorder.foldl setCut s

/-! ## Exchanging links -/

/-- The first tree link with a negative cut value. -/
def leaving? (s : Simplex α) : Option Nat :=
  s.preorder.findSome? fun v =>
    match (s.place v).parent with
    | some (l, _) => if s.cut.getD v 0.0 < (0.0 : α) then some l else none
    | none => none

/-- The link outside the tree that replaces a leaving one: it crosses the same split the other way
and has the least slack. -/
def entering? (s : Simplex α) (l : Nat) : Option Nat :=
  let tail := s.tail l
  let head := s.head l
  let flip : Bool := (s.place head).lim < (s.place tail).lim
  let root := if flip then head else tail
  s.leastSlack? <| (List.range s.links.size).filter fun k =>
    !s.isTree k && flip == s.isBelow (s.tail k) root && flip != s.isBelow (s.head k) root

/-- Makes the tree link above one vertex tight again by moving that vertex. -/
def settleRank (s : Simplex α) (v : Nat) : Simplex α :=
  match (s.place v).parent with
  | none => s
  | some (l, parent) =>
    let r := if s.tail l == v then s.rankOf parent - s.minLength l else s.rankOf parent + s.minLength l
    { s with rank := s.rank.setIfInBounds v r }

/-- Recomputes all ranks from the root of the tree down. -/
def settleRanks (s : Simplex α) : Simplex α := (s.preorder.drop 1).foldl settleRank s

/-- Exchanges one tree link for another link and brings ranks and cut values up to date. -/
def exchange (s : Simplex α) (leaving entering : Nat) : Simplex α :=
  let s := { s with inTree := (s.inTree.setIfInBounds leaving false).setIfInBounds entering true }
  s.numberTree.settleRanks.computeCuts

/-- Exchanges links until no cut value is negative, at most `limit` times. Returns the number of
exchanges. -/
def improve : (limit : Nat) → Simplex α → Simplex α × Nat
  | 0, s => (s, 0)
  | limit + 1, s =>
    match s.leaving? with
    | none => (s, 0)
    | some l =>
      match s.entering? l with
      | none => (s, 0)
      | some e =>
        let (s, n) := improve limit (s.exchange l e)
        (s, n + 1)

/-- The first tree with its numbers and cut values. -/
def prepared (s : Simplex α) : Simplex α := s.feasibleTree.numberTree.computeCuts

/-- Runs the network simplex with at most `limit` exchanges. Returns the number of exchanges. -/
def solve (s : Simplex α) (limit : Nat) : Simplex α × Nat := s.prepared.improve limit

end Simplex

end Flowchart
