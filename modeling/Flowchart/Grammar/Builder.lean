import Flowchart.Diagram.Basic
import Flowchart.Grammar.Statement

/-!
# Building a diagram from statements

Statements are carried out one after the other on a *builder*. Nodes and links are entered at once;
classes and styles of nodes are collected and applied at the end, so that they may come before the
nodes they are meant for. Blocks are *drafts* in the order in which they were opened.

Every node belongs to the first block in which it was mentioned, but a mention in a block inside
that one sharpens this to the inner block. At the end

* an id that was only used to link to a block, a *placeholder*, is replaced by the first node of that
  block, and links that lead to a block without nodes are dropped,
* blocks keep only the nodes that belong to them or to blocks inside them.
-/

namespace Flowchart

/-- A block while the diagram is built. -/
structure Draft where
  /-- the name of the block -/
  id : String
  /-- its title -/
  title : Option String
  /-- its own flow direction -/
  direction : Option Direction := none
  /-- nodes mentioned inside, in order of first mention -/
  members : List String := []
  /-- the draft right around it -/
  parent : Option Nat
  /-- the drafts directly inside it, in the order in which they were opened -/
  children : List Nat := []
  deriving Repr, Inhabited

/-- A statement that was skipped. -/
structure Diagnostic where
  /-- the line it stands on, counted from one -/
  line : Nat
  /-- why it was skipped -/
  reason : Rejection
  deriving Repr, DecidableEq

/-- The text of a diagnostic. -/
def Diagnostic.message (d : Diagnostic) : String :=
  "line " ++ toString d.line ++ ": " ++ d.reason.message

/-- A diagram under construction. -/
structure Builder where
  /-- what was entered so far -/
  diagram : Diagram Float32 := {}
  /-- all blocks in the order in which they were opened -/
  drafts : List Draft := []
  /-- the blocks that are open, innermost first -/
  openBlocks : List Nat := []
  /-- for each node the block it belongs to -/
  owners : List (String × Nat) := []
  /-- how many ids were tried for blocks without one -/
  autoCount : Nat := 0
  /-- classes given to nodes -/
  classRequests : List (String × String) := []
  /-- styles given to nodes -/
  styleRequests : List (String × NodeStyle Float32) := []
  /-- statements skipped so far -/
  warnings : List Diagnostic := []
  deriving Inhabited

/-- The draft right around another one. -/
def parentOf (drafts : List Draft) (i : Nat) : Option Nat := (drafts[i]?).bind Draft.parent

/-- The drafts around another one, innermost first; `fuel` bounds their number. -/
def ancestorsWith (drafts : List Draft) : (fuel : Nat) → Nat → List Nat
  | 0, _ => []
  | fuel + 1, i =>
    match parentOf drafts i with
    | some p => p :: ancestorsWith drafts fuel p
    | none => []

/-- The drafts around another one, innermost first. -/
def ancestors (drafts : List Draft) (i : Nat) : List Nat := ancestorsWith drafts drafts.length i

/-- One draft lies inside another one. -/
def liesInside (drafts : List Draft) (inner outer : Nat) : Bool :=
  (ancestors drafts inner).contains outer

namespace Builder

/-! ## Blocks -/

/-- The id tried as the `n`-th one for blocks without an id. -/
def autoId (n : Nat) : String := "subgraph_" ++ toString n

/-- An id is used by a block or a node so far. -/
def isTaken (b : Builder) (id : String) : Bool :=
  b.drafts.any (·.id == id) || b.diagram.hasNode id

/-- The first number from `n` on whose id is free; `fuel` bounds the search. -/
def freeAutoId (b : Builder) : (fuel n : Nat) → Nat
  | 0, n => n
  | fuel + 1, n => if b.isTaken (autoId n) then b.freeAutoId fuel (n + 1) else n

/-- Appends a draft and notes it in the innermost open one. -/
def pushDraft (drafts : List Draft) (opened : List Nat) (d : Draft) : List Draft :=
  let all := drafts ++ [d]
  match opened with
  | p :: _ => all.modify p fun around => { around with children := around.children ++ [drafts.length] }
  | [] => all

/-- Opens a block inside the innermost open one. -/
def openBlock (b : Builder) (header : BlockHeader) : Builder :=
  let (id, b) := match header.id with
    | some id => (id, b)
    | none =>
      let n := b.freeAutoId (b.drafts.length + b.diagram.nodes.length) b.autoCount
      (autoId n, { b with autoCount := n + 1 })
  { b with
    drafts := pushDraft b.drafts b.openBlocks
      { id := id, title := header.title, parent := b.openBlocks.head? }
    openBlocks := b.drafts.length :: b.openBlocks }

/-- Closes the innermost open block; the line is noted if there is none. -/
def closeBlock (b : Builder) (line : Nat) : Builder :=
  match b.openBlocks with
  | _ :: rest => { b with openBlocks := rest }
  | [] => { b with warnings := b.warnings ++ [⟨line, .endWithoutBlock⟩] }

/-- Sets the direction of the innermost open block, or of the diagram. -/
def setDirection (b : Builder) (d : Direction) : Builder :=
  match b.openBlocks with
  | i :: _ => { b with drafts := b.drafts.modify i ({ · with direction := some d }) }
  | [] => { b with diagram := { b.diagram with direction := d } }

/-! ## Nodes and links -/

/-- Adds a node to the members of a draft, unless it is one. -/
def addMember (id : String) (d : Draft) : Draft :=
  if d.members.contains id then d else { d with members := d.members ++ [id] }

/-- The block a node belongs to after a mention inside `innermost`. -/
def sharpenOwner (drafts : List Draft) (owner : Option Nat) (innermost : Nat) : Nat :=
  match owner with
  | none => innermost
  | some o => if liesInside drafts innermost o then innermost else o

/-- Notes that a node was mentioned inside the open blocks. -/
def register (b : Builder) (id : String) : Builder :=
  match b.openBlocks with
  | [] => b
  | innermost :: _ =>
    let owner := sharpenOwner b.drafts (b.owners.lookup id) innermost
    { b with
      drafts := b.openBlocks.foldl (fun ds i => ds.modify i (addMember id)) b.drafts
      owners := setKey id owner b.owners }

/-- Enters a mention of a node. -/
def mention (b : Builder) (r : NodeRef) : Builder :=
  { b with
    diagram := b.diagram.mention r.id r.label r.shape
    classRequests := b.classRequests ++ r.classes.map fun c => (r.id, c) }.register r.id

/-- The connections of a chain: every node of a group with every node of the next one. -/
def chainEdges (group : List NodeRef) : List (Link × List NodeRef) → List Edge
  | [] => []
  | (link, next) :: rest =>
    (group.flatMap fun s => next.map fun t =>
      { source := s.id, target := t.id, label := link.label, kind := link.kind, line := link.line })
    ++ chainEdges next rest

/-- Enters the nodes and connections of a chain. -/
def addChain (b : Builder) (c : Chain) : Builder :=
  let b := c.references.foldl mention b
  { b with diagram := { b.diagram with edges := b.diagram.edges ++ chainEdges c.first c.rest } }

/-! ## Styles -/

/-- Defines style classes. -/
def defineClasses (b : Builder) (s : NamedStyle (NodeStyle Float32)) : Builder :=
  { b with diagram := { b.diagram with
      classes := s.names.foldl (fun cs name => setKey name s.style cs) b.diagram.classes } }

/-- Gives a style to links. -/
def styleLinks (b : Builder) : LinkSelection × EdgeStyle Float32 → Builder
  | (.all, style) => { b with diagram := { b.diagram with edgeStyleDefault := some style } }
  | (.numbered indices, style) =>
    { b with diagram := { b.diagram with
        edgeStyles := indices.foldl (fun es i => setKey i style es) b.diagram.edgeStyles } }

/-! ## Statements -/

/-- Carries out one statement that stands on a given line. -/
def run (b : Builder) (line : Nat) : Statement → Builder
  | .closeBlock => b.closeBlock line
  | .openBlock header => b.openBlock header
  | .direction d => b.setDirection d
  | .defineClasses (some s) => b.defineClasses s
  | .defineClasses none => b
  | .assignClasses pairs => { b with classRequests := b.classRequests ++ pairs }
  | .styleNodes (some s) =>
    { b with styleRequests := b.styleRequests ++ s.names.map fun id => (id, s.style) }
  | .styleNodes none => b
  | .styleLinks (some s) => b.styleLinks s
  | .styleLinks none => b
  | .ignored => b
  | .chain c => b.addChain c
  | .rejected reason => { b with warnings := b.warnings ++ [⟨line, reason⟩] }

/-! ## The end of the text -/

/-- Adds a class to a node, unless it has it. -/
def addClass (name : String) (n : Node Float32) : Node Float32 :=
  if n.classes.contains name then n else { n with classes := n.classes ++ [name] }

/-- Applies the collected classes and styles. -/
def applyRequests (b : Builder) : Diagram Float32 :=
  let g := b.classRequests.foldl (fun g (id, name) => g.updateNode id (addClass name)) b.diagram
  b.styleRequests.foldl (fun g (id, style) =>
    g.updateNode id fun n => { n with style := n.style.merge style }) g

/-- Ids that stand for blocks: nodes without a label that have the id of a block. -/
def placeholders (g : Diagram Float32) (drafts : List Draft) : List String :=
  (g.nodes.filter fun n => n.label.isNone && drafts.any (·.id == n.id)).map Node.id

/-- The first member of the last draft with a given id that is no placeholder. -/
def firstMember? (drafts : List Draft) (standIns : List String) (id : String) : Option String :=
  match drafts.reverse.find? (·.id == id) with
  | some d => d.members.find? fun m => !standIns.contains m
  | none => none

/-- The node that the end of a connection means. -/
def resolveEnd? (g : Diagram Float32) (drafts : List Draft) (standIns : List String)
    (id : String) : Option String :=
  if standIns.contains id then firstMember? drafts standIns id
  else if g.hasNode id then some id
  else none

/-- A connection between the nodes that its ends mean. -/
def resolveEdge? (g : Diagram Float32) (drafts : List Draft) (standIns : List String)
    (e : Edge) : Option Edge :=
  match resolveEnd? g drafts standIns e.source, resolveEnd? g drafts standIns e.target with
  | some s, some t => some { e with source := s, target := t }
  | _, _ => none

/-- Renumbers styles of connections after some connections were dropped; `kept` tells for each
connection whether it stayed. -/
def renumberStyles (kept : List Bool) (styles : List (Nat × EdgeStyle Float32)) :
    List (Nat × EdgeStyle Float32) :=
  styles.filterMap fun (i, style) =>
    if kept.getD i false then some ((kept.take i).count true, style) else none

/-- Replaces placeholders by the nodes they mean and removes them, with their numbers. -/
def resolveBlocks (g : Diagram Float32) (drafts : List Draft) (standIns : List String) :
    Diagram Float32 :=
  let resolved := g.edges.map (resolveEdge? g drafts standIns)
  { g with
    nodes := g.nodes.filter fun n => !standIns.contains n.id
    nodeOrder := g.nodeOrder.filter fun p => !standIns.contains p.1
    edges := resolved.filterMap id
    edgeStyles := renumberStyles (resolved.map Option.isSome) g.edgeStyles }

/-- Tells every node the id of the block it belongs to. -/
def assignParents (drafts : List Draft) (owners : List (String × Nat)) (g : Diagram Float32) :
    Diagram Float32 :=
  { g with nodes := g.nodes.map fun n =>
      match (owners.lookup n.id).bind fun i => drafts[i]? with
      | some d => { n with parent := some d.id }
      | none => n }

/-- The members of a draft that belong to it or to drafts inside it. -/
def ownMembers (drafts : List Draft) (owners : List (String × Nat)) (i : Nat) (d : Draft) :
    List String :=
  d.members.filter fun m =>
    match owners.lookup m with
    | some o => o == i || liesInside drafts o i
    | none => false

/-- Takes the blocks out of some slots; a slot is empty after that. -/
def takeBlocks (slots : List (Option Block)) : List Nat → List Block × List (Option Block)
  | [] => ([], slots)
  | i :: rest =>
    let (taken, left) := takeBlocks (slots.set i none) rest
    ((slots[i]?.join).toList ++ taken, left)

/-- Puts the blocks of the drafts inside one into the block of this draft. -/
def nestChildren (drafts : List Draft) (slots : List (Option Block)) (i : Nat) :
    List (Option Block) :=
  let (nested, left) := takeBlocks slots ((drafts[i]?.map Draft.children).getD [])
  left.modify i (Option.map (·.withChildren nested))

/-- Nests the blocks made of drafts. A draft comes before those inside it, so that in reverse order
every block is complete when it is put into the one around it. -/
def nestBlocks (drafts : List Draft) : List Block :=
  let positions := List.range drafts.length
  let slots := drafts.map fun d => some (Block.mk d.id d.title d.direction d.members [])
  let nested := positions.reverse.foldl (nestChildren drafts) slots
  (takeBlocks nested (positions.filter fun i => (parentOf drafts i).isNone)).1

/-- The finished diagram. -/
def finish (b : Builder) : Diagram Float32 :=
  let g := b.applyRequests
  let standIns := placeholders g b.drafts
  let g := resolveBlocks g b.drafts standIns
  let owners := b.owners.filter fun (id, _) => !standIns.contains id
  let g := assignParents b.drafts owners g
  let drafts := b.drafts.zipIdx.map fun (d, i) =>
    { d with members := ownMembers b.drafts owners i d }
  { g with blocks := nestBlocks drafts }

end Builder

end Flowchart
