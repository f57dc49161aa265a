import Flowchart.Layout.Parts

/-!
# Boxes of blocks

The box of a block surrounds its members and the boxes of the blocks inside it, with padding on all
sides and room for the title on top. Boxes of blocks on the same level must not overlap, and a node
must not lie in a box of its own level to which it does not belong. `settle` moves nodes until both
hold or its rounds are used up:

* two overlapping boxes are pushed apart along the axis that needs less, by moving the members of the
  one that lies further along it,
* a node inside a foreign box is put right outside of it.

After every move all boxes are computed again from the inside out.
-/

namespace Flowchart

/-- Distances around and between the boxes of blocks. -/
structure BoxSpacing (α : Type) where
  /-- room around the content -/
  padding : α
  /-- least room for a title -/
  title : α
  /-- gap between boxes that were pushed apart -/
  gap : α
  deriving Inhabited

/-- What settling changes. -/
structure BoxState (α : Type) where
  /-- the blocks, each one before those inside it -/
  blocks : List (PlacedBlock α)
  /-- the nodes -/
  nodes : List (PlacedNode α)
  deriving Inhabited

namespace BoxState

variable {α : Type} [Scalar α]

/-! ## Bounds -/

/-- Room for the title of a block; a blank title needs none. -/
def titleRoom (spacing : BoxSpacing α) (b : PlacedBlock α) : α :=
  if Text.isBlankText b.label then 0.0
  else Scalar.max spacing.title (b.title.height + spacing.padding * 0.5)

/-- The boxes of the known members of a block. -/
def memberBoxes (nodes : List (PlacedNode α)) (b : PlacedBlock α) : List (Rect α) :=
  b.members.filterMap fun id => (placedNode? nodes id).map PlacedNode.box

/-- The boxes of the blocks right inside the block at position `i`. -/
def childBoxes (blocks : List (PlacedBlock α)) (i : Nat) : List (Rect α) :=
  ((blocks.drop (i + 1)).filter fun c => c.parent == some i && c.hasBox).map PlacedBlock.box

/-- The box around a content, with padding and room for a title. -/
def wrap (spacing : BoxSpacing α) (title : α) (content : Rect α) : Rect α :=
  ⟨content.x - spacing.padding, content.y - spacing.padding - title,
    content.width + spacing.padding * 2.0, content.height + spacing.padding * 2.0 + title⟩

/-- Computes the box of the block at position `i`; a block without content keeps its box. -/
def fitBlock (spacing : BoxSpacing α) (nodes : List (PlacedNode α))
    (blocks : List (PlacedBlock α)) (i : Nat) : List (PlacedBlock α) :=
  match blocks[i]? with
  | none => blocks
  | some b =>
    match Rect.unionAll? (memberBoxes nodes b ++ childBoxes blocks i) with
    | none => blocks
    | some content => blocks.set i { b with box := wrap spacing (titleRoom spacing b) content }

/-- Computes all boxes, inner ones first. -/
def fitBlocks (spacing : BoxSpacing α) (nodes : List (PlacedNode α))
    (blocks : List (PlacedBlock α)) : List (PlacedBlock α) :=
  (List.range blocks.length).reverse.foldl (fitBlock spacing nodes) blocks

/-- Computes all boxes of a state. -/
def fit (s : BoxState α) (spacing : BoxSpacing α) : BoxState α :=
  { s with blocks := fitBlocks spacing s.nodes s.blocks }

/-! ## Pushing siblings apart -/

/-- A push: which of two blocks moves, and by how much. -/
structure Push (α : Type) where
  /-- the second block moves, not the first one -/
  second : Bool
  /-- the displacement -/
  by_ : Point α

/-- How two overlapping boxes are pushed apart. On each axis the box with the larger centre would
move; the axis that needs the smaller displacement is taken, the flow axis if both need the same. -/
def push (direction : Direction) (gap : α) (a b : Rect α) : Push α :=
  let secondX : Bool := decide (a.center.x ≤ b.center.x)
  let secondY : Bool := decide (a.center.y ≤ b.center.y)
  let needX := if secondX then a.right + gap - b.x else b.right + gap - a.x
  let needY := if secondY then a.bottom + gap - b.y else b.bottom + gap - a.y
  let alongX : Bool :=
    if Scalar.abs (needX - needY) < 1e-3 then direction.isHorizontal else decide (needX < needY)
  if alongX then ⟨secondX, ⟨needX, 0.0⟩⟩ else ⟨secondY, ⟨0.0, needY⟩⟩

/-- Moves some nodes. -/
def shiftNodes (ids : List String) (d : Point α) (nodes : List (PlacedNode α)) :
    List (PlacedNode α) :=
  ids.foldl (fun ns id => updatePlaced id (·.translate d) ns) nodes

/-- Pushes the blocks at two positions apart if they are siblings and overlap. The second component
tells whether they did. -/
def separate (direction : Direction) (spacing : BoxSpacing α) (s : BoxState α) (i j : Nat) :
    BoxState α × Bool :=
  match s.blocks[i]?, s.blocks[j]? with
  | some a, some b =>
    if a.parent == b.parent && a.hasBox && b.hasBox && a.box.intersects b.box then
      let p := push direction spacing.gap a.box b.box
      let loser := if p.second then b else a
      ({ s with nodes := shiftNodes loser.members p.by_ s.nodes }.fit spacing, true)
    else (s, false)
  | _, _ => (s, false)

/-- All pairs of positions below `n`, the smaller one first. -/
def pairsBelow (n : Nat) : List (Nat × Nat) :=
  (List.range n).flatMap fun i => ((List.range n).drop (i + 1)).map fun j => (i, j)

/-- Deals with every pair of blocks once. -/
def separateAll (direction : Direction) (spacing : BoxSpacing α) (s : BoxState α) :
    BoxState α × Bool :=
  (pairsBelow s.blocks.length).foldl (fun (s, moved) (i, j) =>
    let (s, now) := separate direction spacing s i j
    (s, moved || now)) (s, false)

/-- Passes over all pairs until one moves nothing; `passes` counts those made before. -/
def separateLoop (direction : Direction) (spacing : BoxSpacing α) :
    (left passes : Nat) → BoxState α → BoxState α × Nat
  | 0, passes, s => (s, passes)
  | left + 1, passes, s =>
    let (s, moved) := separateAll direction spacing s
    if moved then separateLoop direction spacing left (passes + 1) s else (s, passes)

/-- Most passes and rounds of each kind. -/
def roundLimit : Nat := 10

/-- Pushes sibling boxes apart. Returns the passes that moved something, at most ten. -/
def resolveOverlaps (s : BoxState α) (direction : Direction) (spacing : BoxSpacing α) :
    BoxState α × Nat :=
  separateLoop direction spacing roundLimit 0 (s.fit spacing)

/-! ## Putting foreign nodes out -/

/-- The id of the block right around a block. -/
def levelOf (blocks : List (PlacedBlock α)) (b : PlacedBlock α) : Option String :=
  (b.parent.bind fun p => blocks[p]?).map PlacedBlock.id

/-- The nodes that lie in the box of a block and belong directly to the block around it. -/
def intruders (s : BoxState α) (b : PlacedBlock α) : List String :=
  let level := levelOf s.blocks b
  (s.nodes.filter fun n =>
    n.parent == level && !b.members.contains n.id && n.box.intersects b.box).map PlacedNode.id

/-- The box of a node put right outside another box, on the axis where its centre is further off. -/
def pushOutside (gap : α) (outer box : Rect α) : Rect α :=
  let dx := box.center.x - outer.center.x
  let dy := box.center.y - outer.center.y
  if Scalar.abs dy ≤ Scalar.abs dx then
    { box with x := if (0.0 : α) ≤ dx then outer.right + gap else outer.x - gap - box.width }
  else
    { box with y := if (0.0 : α) ≤ dy then outer.bottom + gap else outer.y - gap - box.height }

/-- Puts nodes outside a box. -/
def evict (gap : α) (outer : Rect α) (ids : List String) (nodes : List (PlacedNode α)) :
    List (PlacedNode α) :=
  ids.foldl (fun ns id => updatePlaced id (fun n =>
    { n with box := pushOutside gap outer n.box }) ns) nodes

/-- Puts the intruders of the block at position `i` outside the box that `outer` chooses for it, and
counts them. -/
def evictIntruders (spacing : BoxSpacing α)
    (outer : List (PlacedBlock α) → PlacedBlock α → Rect α) :
    BoxState α × Nat → Nat → BoxState α × Nat
  | (s, count), i =>
    match s.blocks[i]? with
    | none => (s, count)
    | some b =>
      if b.hasBox then
        let ids := s.intruders b
        if ids.isEmpty then (s, count)
        else
          let nodes := evict spacing.gap (outer s.blocks b) ids s.nodes
          ({ s with nodes := nodes }.fit spacing, count + ids.length)
      else (s, count)

/-- Puts the intruders of every block outside its own box. -/
def repelOnce (s : BoxState α) (spacing : BoxSpacing α) : BoxState α × Nat :=
  (List.range s.blocks.length).foldl (evictIntruders spacing fun _ b => b.box) (s, 0)

/-- Repeats until no node is moved; `count` counts the moves made before. -/
def repelLoop (spacing : BoxSpacing α) : (left count : Nat) → BoxState α → BoxState α × Nat
  | 0, count, s => (s, count)
  | left + 1, count, s =>
    let (s, n) := s.repelOnce spacing
    if n == 0 then (s, count) else repelLoop spacing left (count + n) s

/-- Moves nodes out of boxes they do not belong to. Returns the number of moves. -/
def repelForeign (s : BoxState α) (spacing : BoxSpacing α) : BoxState α × Nat :=
  repelLoop spacing roundLimit 0 s

/-- The smallest box around all siblings of a block, itself included. -/
def siblingBounds (blocks : List (PlacedBlock α)) (b : PlacedBlock α) : Rect α :=
  (Rect.unionAll? ((blocks.filter fun c => c.parent == b.parent && c.hasBox).map
    PlacedBlock.box)).getD b.box

/-- Puts the intruders of every block outside all boxes of its level. -/
def evictPastSiblings (s : BoxState α) (spacing : BoxSpacing α) : BoxState α × Nat :=
  (List.range s.blocks.length).foldl (evictIntruders spacing siblingBounds) (s, 0)

/-! ## Settling -/

/-- Alternates both kinds of moves until no foreign node is left; `passes` counts the passes made
before. -/
def settleLoop (direction : Direction) (spacing : BoxSpacing α) :
    (left passes : Nat) → BoxState α → BoxState α × Nat
  | 0, passes, s => (((s.evictPastSiblings spacing).1).fit spacing, passes)
  | left + 1, passes, s =>
    let (s, n) := s.resolveOverlaps direction spacing
    let (s, moves) := s.repelForeign spacing
    if moves == 0 then (s.fit spacing, passes + n)
    else settleLoop direction spacing left (passes + n) s

/-- Computes all boxes and moves nodes until boxes and foreign nodes are apart. Returns the passes
over pairs of boxes that moved something. -/
def settle (s : BoxState α) (direction : Direction) (spacing : BoxSpacing α) : BoxState α × Nat :=
  settleLoop direction spacing roundLimit 0 s

end BoxState

end Flowchart
