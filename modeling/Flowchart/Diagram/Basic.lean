import Flowchart.Diagram.Direction
import Flowchart.Diagram.Shape
import Flowchart.Diagram.Style
import Flowchart.Keyed

/-!
# Diagrams

A diagram is a set of nodes, a list of connections between them and a forest of blocks that group
nodes. Nodes are found by their id. A table beside them keeps the number under which each id was
first mentioned, and a listing of the nodes follows these numbers.

Blocks nest. A block lists every node mentioned inside it, nested blocks included, and
`Diagram.flatBlocks` lists all blocks in the order in which they were opened, with their depth and
the position of the block around them.
-/

namespace Flowchart

/-- A node of a diagram. -/
structure Node (α : Type) where
  /-- the name that connections refer to -/
  id : String
  /-- the text shown, if it differs from the id -/
  label : Option String := none
  /-- outline -/
  shape : Shape := .rectangle
  /-- style classes, in the order in which they apply -/
  classes : List String := []
  /-- the node's own settings -/
  style : NodeStyle α := {}
  /-- innermost block around the node -/
  parent : Option String := none
  deriving Repr, Inhabited

/-- The text shown in a node. -/
def Node.shownLabel {α : Type} (n : Node α) : String := n.label.getD n.id

/-- Fills in a label that is still missing; the shape travels with the label. -/
def Node.fillLabel {α : Type} (n : Node α) (label : Option String) (shape : Option Shape) : Node α :=
  match n.label, label with
  | none, some text => { n with label := some text, shape := shape.getD n.shape }
  | _, _ => n

/-- A connection between two nodes. -/
structure Edge where
  /-- id of the node it leaves -/
  source : String
  /-- id of the node it enters -/
  target : String
  /-- text beside the line -/
  label : Option String := none
  /-- what it points with -/
  kind : LinkKind := .arrow
  /-- how the line is drawn -/
  line : LineStyle := .solid
  /-- a symbol is drawn where it leaves -/
  arrowStart : Bool := kind.startMarker?.isSome
  /-- a symbol is drawn where it enters -/
  arrowEnd : Bool := kind.endMarker?.isSome
  deriving Repr, DecidableEq, Inhabited

/-- The connection leads back to the node it leaves. -/
def Edge.isLoop (e : Edge) : Bool := e.source == e.target

/-- A group of nodes with a title and possibly a flow direction of its own. -/
inductive Block where
  | mk (id : String) (title : Option String) (direction : Option Direction)
      (members : List String) (children : List Block)
  deriving Repr, Inhabited

namespace Block

/-- The name of the block. -/
def id : Block → String
  | mk i _ _ _ _ => i

/-- The text shown above the block, if it differs from the id. -/
def title : Block → Option String
  | mk _ t _ _ _ => t

/-- The flow direction inside the block, if it has its own. -/
def direction : Block → Option Direction
  | mk _ _ d _ _ => d

/-- Every node mentioned inside, nested blocks included. -/
def members : Block → List String
  | mk _ _ _ m _ => m

/-- The blocks directly inside. -/
def children : Block → List Block
  | mk _ _ _ _ c => c

/-- The block with other blocks directly inside. -/
def withChildren (children : List Block) : Block → Block
  | mk i t d m _ => mk i t d m children

/-- The text shown above the block. -/
def label (b : Block) : String := b.title.getD b.id

/-- The node is mentioned inside the block. -/
def contains (b : Block) (node : String) : Bool := b.members.contains node

end Block

/-- A block in the listing of all blocks. -/
structure FlatBlock where
  /-- the block itself -/
  block : Block
  /-- how many blocks surround it -/
  depth : Nat
  /-- position in the listing of the block right around it -/
  parent : Option Nat
  deriving Inhabited

mutual

/-- Lists a block and everything inside it, the block itself being at position `index`. -/
def Block.listFrom (index depth : Nat) (parent : Option Nat) : Block → List FlatBlock
  | .mk i t d m children =>
    ⟨.mk i t d m children, depth, parent⟩
      :: Block.listAllFrom (index + 1) (depth + 1) (some index) children

/-- Lists sibling blocks one after the other, the first one being at position `index`. -/
def Block.listAllFrom (index depth : Nat) (parent : Option Nat) : List Block → List FlatBlock
  | [] => []
  | b :: rest =>
    let here := Block.listFrom index depth parent b
    here ++ Block.listAllFrom (index + here.length) depth parent rest

end

/-- A parsed or hand-built diagram. -/
structure Diagram (α : Type) where
  /-- overall flow direction -/
  direction : Direction := .topDown
  /-- the nodes, each id once -/
  nodes : List (Node α) := []
  /-- for each id the number under which it was first mentioned -/
  nodeOrder : List (String × Nat) := []
  /-- the connections in order -/
  edges : List Edge := []
  /-- the outermost blocks in order -/
  blocks : List Block := []
  /-- style classes by name -/
  classes : List (String × NodeStyle α) := []
  /-- styles of single connections by their position -/
  edgeStyles : List (Nat × EdgeStyle α) := []
  /-- style of all connections -/
  edgeStyleDefault : Option (EdgeStyle α) := none
  deriving Inhabited

namespace Diagram

variable {α : Type}

/-- The node with a given id. -/
def node? (g : Diagram α) (id : String) : Option (Node α) := g.nodes.find? (·.id == id)

/-- Some node has the given id. -/
def hasNode (g : Diagram α) (id : String) : Bool := g.nodes.any (·.id == id)

/-- The diagram with one node replaced by its image. -/
def updateNode (g : Diagram α) (id : String) (f : Node α → Node α) : Diagram α :=
  { g with nodes := g.nodes.map fun n => if n.id == id then f n else n }

/-- Mentions a node: it is numbered and created at the first mention, and later ones only fill in a
label that is still missing. -/
def mention (g : Diagram α) (id : String) (label : Option String) (shape : Option Shape) :
    Diagram α :=
  { g with
    nodes :=
      if g.hasNode id then (g.updateNode id (·.fillLabel label shape)).nodes
      else g.nodes ++ [{ id := id, label := label, shape := shape.getD .rectangle }]
    nodeOrder := addKey id g.nodeOrder.length g.nodeOrder }

/-- Removes a node and its number. -/
def removeNode (g : Diagram α) (id : String) : Diagram α :=
  { g with
    nodes := g.nodes.filter (·.id != id)
    nodeOrder := g.nodeOrder.filter (·.1 != id) }

/-- The number under which an id was first mentioned. -/
def orderOf? (g : Diagram α) (id : String) : Option Nat := g.nodeOrder.lookup id

/-- Order of the listing of nodes: by number, nodes without one last, then by id. -/
def listedBefore (g : Diagram α) (a b : Node α) : Bool :=
  match g.orderOf? a.id, g.orderOf? b.id with
  | some i, some j => i < j || (i == j && decide (a.id ≤ b.id))
  | some _, none => true
  | none, some _ => false
  | none, none => decide (a.id ≤ b.id)

/-- All nodes by first mention. -/
def listedNodes (g : Diagram α) : List (Node α) := g.nodes.mergeSort g.listedBefore

/-- All blocks, each one before those inside it. -/
def flatBlocks (g : Diagram α) : List FlatBlock := Block.listAllFrom 0 0 none g.blocks

/-- The first block with a given id. -/
def findBlock? (g : Diagram α) (id : String) : Option Block :=
  (g.flatBlocks.find? (·.block.id == id)).map FlatBlock.block

/-- Settings of a node after its classes, in order, and then its own settings. -/
def nodeStyle (g : Diagram α) (id : String) : NodeStyle α :=
  match g.node? id with
  | none => {}
  | some n =>
    let fromClasses := n.classes.foldl (fun (style : NodeStyle α) name =>
      style.merge ((g.classes.lookup name).getD {})) {}
    fromClasses.merge n.style

/-- Settings of the connection at a position: the default, then its own settings. -/
def edgeStyle (g : Diagram α) (index : Nat) : EdgeStyle α :=
  (g.edgeStyleDefault.getD {}).merge ((g.edgeStyles.lookup index).getD {})

end Diagram

end Flowchart
