import Mathlib.Data.List.Perm.Basic
import Mathlib.Data.List.Sort
import Mathlib.Data.String.Basic
import Flowchart.Layout.Engine
import Flowchart.Measure.Estimated
import Flowchart.Proofs.Blocks.Membership
import Flowchart.Proofs.Boxes.Moving
import Flowchart.Proofs.Measure.Wrapping

/-!
# Layouts show their diagrams

A layout has a node for every node of the diagram, a connection for every connection between nodes
of the diagram and a block for every block, and it tells about each of them what the diagram tells,
`layered_shows`.

What the phases choose about a part is its place: box, rank and position of a node, box of a block,
route and label place of a connection. The rest of it is its *face*. Every phase keeps the faces in
their order, whatever is turned around or split on the way. So in the end they are the faces of
nodes that were sized, of connections that were drawn and of blocks that were titled. Only the nodes
change their order, once, when they are sorted by their ids.
-/

namespace Flowchart

variable {α : Type} [Scalar α]

/-! ## What a layout shows -/

namespace Layout

section Shows

variable (theme : Theme α) (options : LayoutOptions α) (m : Measurer α) (g : Diagram α)

/-- A node of the layout shows a node of the diagram. -/
structure ShowsNode (n : Node α) (p : PlacedNode α) : Prop where
  id : p.id = n.id
  shape : p.shape = n.shape
  parent : p.parent = n.parent
  style : p.style = g.nodeStyle n.id
  label : p.label =
    labelBlock m options ((g.nodeStyle n.id).fontSize.getD theme.fontSize) n.shownLabel
  /-- the lines of the label have the words of its text -/
  words : p.label.lines.flatMap Text.words = labelWords n.shownLabel
  size : (p.box.width, p.box.height) = n.shape.size options p.label

/-- A connection of the layout shows the connection of the diagram at a position. -/
structure ShowsEdge (e : Edge × Nat) (p : PlacedEdge α) : Prop where
  source : p.source = e.1.source
  target : p.target = e.1.target
  kind : p.kind = e.1.kind
  line : p.line = e.1.line
  arrowStart : p.arrowStart = e.1.arrowStart
  arrowEnd : p.arrowEnd = e.1.arrowEnd
  startMarker : p.startMarker = if e.1.arrowStart then e.1.kind.startMarker? else none
  endMarker : p.endMarker = if e.1.arrowEnd then e.1.kind.endMarker? else none
  /-- a blank label is left out -/
  label : p.label = (e.1.label.filter (!Text.isBlankText ·)).map
    (labelBlock m options theme.fontSize)
  /-- the lines of any other label have the words of its text -/
  words : ∀ text, e.1.label = some text → Text.isBlankText text = false →
    ∃ block, p.label = some block ∧ block.lines.flatMap Text.words = labelWords text
  style : p.style = g.edgeStyle e.2
  curved : p.curved = options.curvedEdges

/-- A block of the layout shows a block of the diagram. -/
structure ShowsBlock (b : FlatBlock) (p : PlacedBlock α) : Prop where
  id : p.id = b.block.id
  label : p.label = b.block.label
  title : p.title = labelBlock m options theme.fontSize b.block.label
  /-- the lines of the title have the words of its text -/
  words : p.title.lines.flatMap Text.words = labelWords b.block.label
  direction : p.direction = b.block.direction
  depth : p.depth = b.depth
  /-- the position of the block around it -/
  parent : p.parent = b.parent
  /-- the members that are nodes, in their order -/
  members : p.members = b.block.members.filter (· ∈ g.nodes.map Node.id)

/-- A layout shows a diagram: nothing is lost and nothing is added. -/
structure Shows (l : Layout α) : Prop where
  /-- the nodes, each one once -/
  nodes : ∃ shown : List (Node α), shown.Perm g.nodes ∧
    List.Forall₂ (ShowsNode theme options m g) shown l.nodes
  /-- they are sorted by their ids -/
  sorted : (l.nodes.map PlacedNode.id).Pairwise (· < ·)
  /-- the connections both ends of which are nodes, in their order -/
  edges : List.Forall₂ (ShowsEdge theme options m g)
    (g.edges.zipIdx.filter fun e =>
      e.1.source ∈ g.nodes.map Node.id ∧ e.1.target ∈ g.nodes.map Node.id) l.edges
  /-- all blocks, in their order -/
  blocks : List.Forall₂ (ShowsBlock theme options m g) g.flatBlocks l.blocks

end Shows

omit [Scalar α] in
/-- Whether a diagram has a node is a question about the ids of its nodes. -/
theorem hasNode_eq (g : Diagram α) (id : String) :
    g.hasNode id = decide (id ∈ g.nodes.map Node.id) := by
  rw [Bool.eq_iff_iff, decide_eq_true_iff, Diagram.hasNode_iff, List.mem_map]

omit [Scalar α] in
/-- A connection is drawn if both of its ends are nodes of the diagram, under its position among all
connections. -/
theorem keptEdges_eq (g : Diagram α) : keptEdges g = g.edges.zipIdx.filter fun e =>
    e.1.source ∈ g.nodes.map Node.id ∧ e.1.target ∈ g.nodes.map Node.id := by
  refine List.filter_congr fun ⟨e, i⟩ _ => ?_
  dsimp only
  rw [hasNode_eq, hasNode_eq, Bool.decide_and]

end Layout

/-! ## Faces -/

/-- Everything about a node but where it was put. -/
def PlacedNode.face (n : PlacedNode α) : PlacedNode α := { n.still with rank := 0, order := 0 }

/-- Everything about a connection but its route and the place of its label. -/
def PlacedEdge.face (e : PlacedEdge α) : PlacedEdge α :=
  { e with points := [], labelAnchor := none }

/-- Placing changes less than a face leaves out, so what keeps all but places keeps the faces. -/
theorem map_face_of_still {l l' : List (PlacedNode α)}
    (h : l'.map PlacedNode.still = l.map PlacedNode.still) :
    l'.map PlacedNode.face = l.map PlacedNode.face := by
  have hface := congrArg (List.map fun n : PlacedNode α => { n with rank := 0, order := 0 }) h
  rwa [List.map_map, List.map_map] at hface

/-- What a face shows is the same in lists with the same faces. -/
theorem map_of_face {β : Type} {f : PlacedNode α → β} (hf : ∀ n, f n.face = f n)
    {l l' : List (PlacedNode α)} (h : l'.map PlacedNode.face = l.map PlacedNode.face) :
    l'.map f = l.map f := by
  have hmap := congrArg (List.map f) h
  simpa only [List.map_map, Function.comp_def, hf] using hmap

/-- Two lists have the same images exactly if their members do one by one. -/
theorem map_eq_map_iff_forall₂ {β γ δ : Type} {f : β → δ} {f' : γ → δ} {l : List β} {l' : List γ} :
    l.map f = l'.map f' ↔ List.Forall₂ (fun a b => f a = f' b) l l' := by
  rw [← List.forall₂_eq_eq_eq, List.forall₂_map_left_iff, List.forall₂_map_right_iff]

section

open Layout

variable {theme : Theme α} {options : LayoutOptions α} {m : Measurer α} {g : Diagram α}

theorem face_sizeNode (theme : Theme α) (options : LayoutOptions α) (m : Measurer α)
    (g : Diagram α) (n : Node α) :
    (sizeNode theme options m g n).face = sizeNode theme options m g n := rfl

/-- A node with the face of one that was only sized shows what the diagram says of that one. -/
theorem showsNode_of_face {n : Node α} {p : PlacedNode α}
    (h : p.face = sizeNode theme options m g n) : ShowsNode theme options m g n p := by
  have hlabel : p.label =
      labelBlock m options ((g.nodeStyle n.id).fontSize.getD theme.fontSize) n.shownLabel :=
    congrArg PlacedNode.label h
  constructor
  case id => exact congrArg PlacedNode.id h
  case shape => exact congrArg PlacedNode.shape h
  case parent => exact congrArg PlacedNode.parent h
  case style => exact congrArg PlacedNode.style h
  case label => exact hlabel
  case words =>
    rw [hlabel]
    exact flatMap_words_labelBlock m options _ n.shownLabel
  case size =>
    have hsize := congrArg (fun p : PlacedNode α => (p.box.width, p.box.height)) h
    exact hsize.trans (congrArg (n.shape.size options) hlabel.symm)

/-- A connection with the face of one that has no route yet shows what the diagram says of that
one. -/
theorem showsEdge_of_face {e : Edge × Nat} {p : PlacedEdge α}
    (h : p.face = drawEdge theme options m g e.1 e.2 []) : ShowsEdge theme options m g e p := by
  constructor
  case source => exact congrArg PlacedEdge.source h
  case target => exact congrArg PlacedEdge.target h
  case kind => exact congrArg PlacedEdge.kind h
  case line => exact congrArg PlacedEdge.line h
  case arrowStart => exact congrArg PlacedEdge.arrowStart h
  case arrowEnd => exact congrArg PlacedEdge.arrowEnd h
  case startMarker => exact congrArg PlacedEdge.startMarker h
  case endMarker => exact congrArg PlacedEdge.endMarker h
  case label => exact congrArg PlacedEdge.label h
  case words =>
    intro text htext hblank
    refine ⟨labelBlock m options theme.fontSize text, (congrArg PlacedEdge.label h).trans ?_,
      flatMap_words_labelBlock m options theme.fontSize text⟩
    simp [drawEdge, htext, hblank]
  case style => exact congrArg PlacedEdge.style h
  case curved => exact congrArg PlacedEdge.curved h

/-- A block with the frame of one that was only titled shows what the diagram says of that one. -/
theorem showsBlock_of_frame {b : FlatBlock} {p : PlacedBlock α}
    (h : p.frame = titleBlock theme options m g b) : ShowsBlock theme options m g b p := by
  constructor
  case id => exact congrArg PlacedBlock.id h
  case label => exact congrArg PlacedBlock.label h
  case title => exact congrArg PlacedBlock.title h
  case words =>
    have htitle : p.title = labelBlock m options theme.fontSize b.block.label :=
      congrArg PlacedBlock.title h
    rw [htitle]
    exact flatMap_words_labelBlock m options theme.fontSize b.block.label
  case direction => exact congrArg PlacedBlock.direction h
  case depth => exact congrArg PlacedBlock.depth h
  case parent => exact congrArg PlacedBlock.parent h
  case members =>
    have hmembers := congrArg PlacedBlock.members h
    exact hmembers.trans (List.filter_congr fun id _ => hasNode_eq g id)

end

/-! ## Placing -/

/-- Putting a node at its place leaves its face alone. -/
theorem face_put (p : Placement α) (n : PlacedNode α) : (p.put n).face = n.face := by
  rw [Placement.put]
  split <;> rfl

namespace FlowState

variable {s s' s'' : FlowState α}

/-- The states have the same nodes and connections, but for what is chosen about them. -/
structure Alike (s s' : FlowState α) : Prop where
  nodes : s'.nodes.map PlacedNode.face = s.nodes.map PlacedNode.face
  links : s'.links.map FlowEdge.edge = s.links.map FlowEdge.edge

theorem Alike.refl (s : FlowState α) : Alike s s := ⟨rfl, rfl⟩

/-- States that are alike after each of two steps are alike after both. -/
theorem Alike.trans (h : Alike s s') (h' : Alike s' s'') : Alike s s'' :=
  ⟨h'.nodes.trans h.nodes, h'.links.trans h.links⟩

/-- Moving the members of a block changes nothing about nodes but their places. -/
theorem map_still_moveMembers (p : Placement α) (members : List String) (d : Point α)
    (nodes : List (PlacedNode α)) :
    (moveMembers p members d nodes).map PlacedNode.still = nodes.map PlacedNode.still := by
  rw [moveMembers, List.map_map]
  refine List.map_congr_left fun n _ => ?_
  rw [Function.comp_apply]
  split
  · rw [Placement.put]
    split <;> rfl
  · rfl

theorem map_face_moveMembers (p : Placement α) (members : List String) (d : Point α)
    (nodes : List (PlacedNode α)) :
    (moveMembers p members d nodes).map PlacedNode.face = nodes.map PlacedNode.face :=
  map_face_of_still (map_still_moveMembers p members d nodes)

/-- A new course for a connection leaves the connection itself alone. -/
theorem map_edge_redirect (p : Placement α) (inner : List NodeLink) (own : Direction)
    (d : Point α) (links : List (FlowEdge α)) :
    (redirect p inner own d links).map FlowEdge.edge = links.map FlowEdge.edge := by
  have hedge : (redirect p inner own d links).map FlowEdge.edge =
      (links.zipIdx.map Prod.fst).map FlowEdge.edge := by
    rw [redirect, List.map_map, List.map_map]
    refine List.map_congr_left fun ⟨l, i⟩ _ => ?_
    dsimp only [Function.comp_apply]
    split <;> rfl
  rw [hedge, List.zipIdx_map_fst]

/-- Placing a block again moves nodes and redirects connections, and changes nothing else. -/
theorem Alike.replace (options : LayoutOptions α) (sizes : List (SizedNode α)) (own : Direction)
    (block : Block) (s : FlowState α) : Alike s (s.replace options sizes own block) := by
  rw [FlowState.replace]
  split
  · exact ⟨map_face_moveMembers _ _ _ _, map_edge_redirect _ _ _ _ _⟩
  · exact .refl s

/-- So does placing all blocks again that run their own way. -/
theorem Alike.replaceDirected (options : LayoutOptions α) (overall : Direction)
    (flat : List FlatBlock) (sizes : List (SizedNode α)) (s : FlowState α) :
    Alike s (s.replaceDirected options overall flat sizes) := by
  refine List.foldlRecOn (motive := Alike s) _ _ (.refl s) fun s' h b _ => h.trans ?_
  dsimp only
  split
  · exact .replace options sizes _ _ s'
  · exact .refl s'

end FlowState

namespace Layout

/-- Placing keeps nodes and connections, and sorts the nodes by their ids. -/
theorem placed_spec (options : LayoutOptions α) (d : Direction) (flat : List FlatBlock)
    (nodes : List (PlacedNode α)) (edges : List Edge) :
    ((placed options d flat nodes edges).1.nodes.map PlacedNode.face).Perm
        (nodes.map PlacedNode.face) ∧
      ((placed options d flat nodes edges).1.nodes.map PlacedNode.id).Pairwise (· ≤ ·) ∧
      (placed options d flat nodes edges).1.links.map FlowEdge.edge = edges := by
  let sizes := nodes.map fun n =>
    (⟨n.id, n.box.width, n.box.height, clusterPath flat n.id⟩ : SizedNode α)
  let p := Placement.compute options d sizes
    (edges.zipIdx.map fun l => ⟨l.2, l.1.source, l.1.target⟩)
  let start : FlowState α := ⟨(nodes.map p.put).mergeSort placedLe,
    edges.zipIdx.map fun l => ⟨l.1, p.waypointsOf l.2, d⟩⟩
  have halike : FlowState.Alike start (placed options d flat nodes edges).1 :=
    .replaceDirected options d flat sizes start
  have hfaces : (nodes.map p.put).map PlacedNode.face = nodes.map PlacedNode.face := by
    rw [List.map_map]
    exact List.map_congr_left fun n _ => face_put p n
  refine ⟨?_, ?_, ?_⟩
  · rw [halike.nodes, ← hfaces]
    exact (List.mergeSort_perm _ placedLe).map PlacedNode.face
  · rw [map_of_face (f := PlacedNode.id) (fun _ => rfl) halike.nodes]
    have hsorted : start.nodes.Pairwise fun a b => placedLe a b = true :=
      List.pairwise_mergeSort
        (fun a b c hab hbc => by simp only [placedLe, decide_eq_true_eq] at *; exact hab.trans hbc)
        (fun a b => by simpa [placedLe] using le_total a.id b.id) _
    exact List.pairwise_map.mpr (hsorted.imp fun h => of_decide_eq_true h)
  · rw [halike.links]
    exact List.map_map.trans (List.zipIdx_map_fst 0 edges)

end Layout

/-! ## Routing and labelling -/

/-- Every connection gets its entry in the list of ports, whether its ends were placed or not. -/
theorem length_assignPorts (options : LayoutOptions α) (nodes : List (PlacedNode α))
    (links : List (FlowEdge α)) : (assignPorts options nodes links).length = links.length := by
  simp only [assignPorts, List.length_map, List.length_zipIdx]

section Routing

variable {ω : Type} [Scalar ω] [Widening α ω]

/-- Every connection gets a route, so that nothing of the list is dropped or put in. -/
theorem length_routeEdges [Trigonometry ω] (options : LayoutOptions α) (nodes : List (PlacedNode α))
    (blocks : List (PlacedBlock α)) (links : List (FlowEdge α)) :
    (routeEdges options nodes blocks links).length = links.length := by
  rw [routeEdges, List.length_map, List.length_zip, length_assignPorts, Nat.min_self]

/-- Labels are given places one after the other, which a face leaves out. -/
theorem map_face_placeLabelsFrom (taken : List (Rect α)) (edges : List (PlacedEdge α)) :
    (placeLabelsFrom taken edges).map PlacedEdge.face = edges.map PlacedEdge.face := by
  induction edges generalizing taken with
  | nil => rfl
  | cons e edges ih =>
    rw [placeLabelsFrom]
    split
    · rw [List.map_cons, ih, List.map_cons]
    · rw [List.map_cons, ih, List.map_cons]
      rfl

end Routing

/-! ## Blocks without content and normal position -/

/-- Blocks without content are stacked beside the others, which changes their boxes only. -/
theorem frame_stackEmpty (options : LayoutOptions α) (corner : Point α)
    (blocks : List (PlacedBlock α)) : (stackEmpty options corner blocks).map PlacedBlock.frame =
      blocks.map PlacedBlock.frame := by
  induction blocks generalizing corner with
  | nil => rfl
  | cons b blocks ih =>
    rw [stackEmpty]
    split
    · rw [List.map_cons, ih, List.map_cons]
    · rw [List.map_cons, ih, List.map_cons]
      rfl

/-- The same whether there is anything to stack them beside or not. -/
theorem frame_placeEmpty (options : LayoutOptions α) (nodes : List (PlacedNode α))
    (blocks : List (PlacedBlock α)) : (placeEmpty options nodes blocks).map PlacedBlock.frame =
      blocks.map PlacedBlock.frame := by
  rw [placeEmpty]
  split
  · exact frame_stackEmpty options _ blocks
  · exact frame_stackEmpty options _ blocks

theorem frame_translate (b : PlacedBlock α) (d : Point α) : (b.translate d).frame = b.frame := by
  rw [PlacedBlock.translate]
  split <;> rfl

/-- Moving a layout to the origin changes places only. -/
theorem Layout.normalize_faces (l : Layout α) :
    l.normalize.nodes.map PlacedNode.face = l.nodes.map PlacedNode.face ∧
      l.normalize.edges.map PlacedEdge.face = l.edges.map PlacedEdge.face ∧
      l.normalize.blocks.map PlacedBlock.frame = l.blocks.map PlacedBlock.frame := by
  rw [Layout.normalize]
  split
  · exact ⟨rfl, rfl, rfl⟩
  · refine ⟨?_, ?_, ?_⟩
    · exact List.map_map
    · exact List.map_map
    · rw [List.map_map]
      exact List.map_congr_left fun b _ => frame_translate b _

/-! ## A whole layout -/

namespace Layout

variable {ω : Type} [Scalar ω] [Widening α ω] [Trigonometry ω] {theme : Theme α}
  {options : LayoutOptions α} {m : Measurer α} {g : Diagram α} {l : Layout α}

/-- A layout is what the phases arranged, moved to the origin. -/
theorem layered_eq (h : layered (ω := ω) theme options m g = .ok l) :
    l = (arranged (ω := ω) theme options m g).normalize := by
  rw [layered] at h
  split at h
  · cases h
  · exact (Except.ok.inj h).symm

/-- A diagram that is not too large is laid out. -/
theorem exists_layered (hnodes : g.nodes.length ≤ options.maxNodes)
    (hedges : g.edges.length ≤ options.maxEdges) :
    ∃ l, layered (ω := ω) theme options m g = .ok l := by
  refine ⟨_, if_neg ?_⟩
  simp only [Bool.or_eq_true, decide_eq_true_eq]
  omega

omit [Trigonometry ω] in
/-- Labelled connections with any routes show the same. -/
theorem map_face_drawEdge (nodes : List (PlacedNode α)) {kept : List (Edge × Nat)}
    {routes : List (List (Point α))} (hlength : kept.length ≤ routes.length) :
    (placeLabels (ω := ω) nodes ((kept.zip routes).map fun ((e, i), points) =>
        drawEdge theme options m g e i points)).map PlacedEdge.face =
      kept.map fun e => drawEdge theme options m g e.1 e.2 [] := by
  have hface : PlacedEdge.face ∘ (fun ((e, i), points) => drawEdge theme options m g e i points) =
      (fun e : Edge × Nat => drawEdge theme options m g e.1 e.2 []) ∘ Prod.fst := rfl
  rw [placeLabels, map_face_placeLabelsFrom, List.map_map, hface, ← List.map_map,
    List.map_fst_zip hlength]

/-- **The faces of a layout** are those of the parts of the diagram before anything was placed. Each
phase is taken by what is known of its result: placing and settling change places only, every
connection is given a route, and labels and blocks without content are placed in the end. -/
theorem layered_faces (h : layered (ω := ω) theme options m g = .ok l) :
    (l.nodes.map PlacedNode.face).Perm (g.nodes.map (sizeNode theme options m g)) ∧
      (l.nodes.map PlacedNode.id).Pairwise (· ≤ ·) ∧
      l.edges.map PlacedEdge.face =
        (keptEdges g).map (fun e => drawEdge theme options m g e.1 e.2 []) ∧
      l.blocks.map PlacedBlock.frame = g.flatBlocks.map (titleBlock theme options m g) := by
  obtain ⟨hplaced, hsorted, hlinks⟩ := placed_spec options
    (options.directionOverride.getD g.direction) g.flatBlocks
    (g.listedNodes.map (sizeNode theme options m g)) ((keptEdges g).map Prod.fst)
  rw [layered_eq h, arranged]
  dsimp only
  -- from here on only what is known of the results of placing and settling is needed
  generalize (placed options _ g.flatBlocks _ _).1 = flow at hplaced hsorted hlinks ⊢
  have hsettled := BoxState.Alike.settle
    ⟨g.flatBlocks.map (titleBlock theme options m g), flow.nodes⟩
    (options.directionOverride.getD g.direction) (boxSpacing options)
  generalize (BoxState.settle _ _ (boxSpacing options)).1 = boxes at hsettled ⊢
  have hfaces := map_face_of_still hsettled.nodes
  refine ⟨?nodes, ?sorted, ?edges, ?blocks⟩
  case nodes =>
    have hsized : (g.listedNodes.map (sizeNode theme options m g)).map PlacedNode.face =
        g.listedNodes.map (sizeNode theme options m g) := by
      rw [List.map_map]
      exact List.map_congr_left fun n _ => face_sizeNode theme options m g n
    rw [(normalize_faces _).1]
    rw [hsized, ← hfaces] at hplaced
    exact hplaced.trans ((List.mergeSort_perm g.nodes g.listedBefore).map _)
  case sorted =>
    rw [map_of_face (f := PlacedNode.id) (fun _ => rfl) (normalize_faces _).1]
    exact map_of_face (f := PlacedNode.id) (fun _ => rfl) hfaces ▸ hsorted
  case edges =>
    have hlength := congrArg List.length hlinks
    rw [List.length_map, List.length_map] at hlength
    rw [(normalize_faces _).2.1]
    exact map_face_drawEdge _ (by rw [length_routeEdges, List.length_map, hlength])
  case blocks =>
    rw [(normalize_faces _).2.2, frame_placeEmpty, hsettled.frames, List.map_map]
    rfl

/-- The connections of a layout show those between nodes, in their order. -/
theorem layered_edges (h : layered (ω := ω) theme options m g = .ok l) :
    List.Forall₂ (ShowsEdge theme options m g) (keptEdges g) l.edges := by
  obtain ⟨-, -, hedges, -⟩ := layered_faces h
  exact (map_eq_map_iff_forall₂.mp hedges.symm).imp fun e p hp => showsEdge_of_face hp.symm

/-- The ids of a layout are those of its diagram. -/
theorem Shows.ids_perm (h : Shows theme options m g l) :
    (l.nodes.map PlacedNode.id).Perm (g.nodes.map Node.id) := by
  obtain ⟨shown, hperm, hshown⟩ := h.nodes
  have hids : shown.map Node.id = l.nodes.map PlacedNode.id :=
    map_eq_map_iff_forall₂.mpr (hshown.imp fun _ _ h => h.id.symm)
  exact hids ▸ hperm.map Node.id

/-- **Layouts show their diagrams.** Every layout of a diagram no two nodes of which have the same
id has the nodes of the diagram, each once, its connections between nodes in their order, loops and
repetitions included, and its blocks in their order. It tells about each of them what the diagram
tells, whatever cycles were broken and whatever ids the nodes have. -/
theorem layered_shows (hids : (g.nodes.map Node.id).Nodup)
    (h : layered (ω := ω) theme options m g = .ok l) : Shows theme options m g l := by
  obtain ⟨hnodes, hsorted, -, hblocks⟩ := layered_faces h
  constructor
  case nodes =>
    have hsized : List.Forall₂ (fun p n => p = sizeNode theme options m g n)
        (g.nodes.map (sizeNode theme options m g)) g.nodes :=
      List.forall₂_map_left_iff.mpr (List.forall₂_same.mpr fun _ _ => rfl)
    obtain ⟨shown, hshown, hperm⟩ := List.perm_comp_forall₂ hnodes hsized
    refine ⟨shown, hperm, (List.forall₂_map_left_iff.mp hshown).flip.imp fun n p hp => ?_⟩
    exact showsNode_of_face hp
  case sorted =>
    have hperm : (l.nodes.map PlacedNode.id).Perm (g.nodes.map Node.id) := by
      have hmap := hnodes.map PlacedNode.id
      rwa [List.map_map, List.map_map] at hmap
    exact hsorted.imp₂ (fun _ _ hle hne => lt_of_le_of_ne hle hne) (hperm.nodup_iff.mpr hids)
  case edges => exact keptEdges_eq g ▸ layered_edges h
  case blocks =>
    exact (map_eq_map_iff_forall₂.mp hblocks.symm).imp fun b p hp => showsBlock_of_frame hp.symm

/-- A cycle, a loop, two connections between the same nodes and one to an unknown node. The third
node has the name that the passage of the second connection gets when the cycle is laid out. -/
def tangle : Diagram Float32 where
  nodes := ["c", "a", "_dummy_1_1", "b"].map fun id => { id := id }
  edges := [("a", "b"), ("b", "c"), ("c", "a"), ("a", "a"), ("a", "b"), ("a", "x"),
    ("c", "_dummy_1_1")].map fun (s, t) => { source := s, target := t }
  blocks := [.mk "p" none none ["b", "x", "a"] [.mk "q" none none ["a"] []]]

/-- A diagram with a loop, with repeated connections and a cycle, and with ids that are not in
order, is laid out with all of its parts. -/
theorem layered_shows_tangle : (tangle.nodes.map Node.id).Nodup ∧
    ∃ l, layered (ω := Float) .modern .standard .estimated tangle = .ok l ∧
      Shows .modern .standard .estimated tangle l ∧
      l.nodes.map PlacedNode.id = ["_dummy_1_1", "a", "b", "c"] ∧
      l.edges.map (fun p => (p.source, p.target)) =
        [("a", "b"), ("b", "c"), ("c", "a"), ("a", "a"), ("a", "b"), ("c", "_dummy_1_1")] ∧
      l.blocks.map (fun p => (p.id, p.members, p.parent)) =
        [("p", ["b", "a"], none), ("q", ["a"], some 0)] := by
  have hids : (tangle.nodes.map Node.id).Nodup := by decide
  obtain ⟨l, hl⟩ : ∃ l, layered (ω := Float) .modern .standard .estimated tangle = .ok l :=
    exists_layered (by decide) (by decide)
  have hshows := layered_shows hids hl
  refine ⟨hids, l, hl, hshows, ?_, ?_, ?_⟩
  · have hsorted : ["_dummy_1_1", "a", "b", "c"].Pairwise (· ≤ ·) := by decide
    exact (hshows.ids_perm.trans (by decide)).eq_of_pairwise' (hshows.sorted.imp le_of_lt) hsorted
  · have hends := map_eq_map_iff_forall₂.mpr
      (hshows.edges.imp fun e p h => (congrArg₂ Prod.mk h.source h.target).symm)
    exact hends.symm.trans (by decide +kernel)
  · have hlisted := map_eq_map_iff_forall₂.mpr (hshows.blocks.imp fun b p h =>
      (congrArg₂ Prod.mk h.id (congrArg₂ Prod.mk h.members h.parent)).symm)
    exact hlisted.symm.trans (by decide +kernel)

end Layout

/-! ## Algorithms by name -/

section

variable {ω : Type} [Scalar ω] [Widening α ω] [Trigonometry ω] {theme : Theme α}
  {options : LayoutOptions α} {m : Measurer α} {g : Diagram α} {l : Layout α}

/-- Every algorithm is the layered one with some options. -/
theorem exists_layered_of_computeLayout (h : computeLayout (ω := ω) theme options m g = .ok l) :
    ∃ options', Layout.layered (ω := ω) theme options' m g = .ok l := by
  rw [computeLayout] at h
  split at h
  · exact ⟨_, h⟩
  · cases h

/-- A diagram that is not too large is laid out by every algorithm that has a name. -/
theorem exists_computeLayout {e : Engine} (he : Engine.ofName? options.engine = some e)
    (hnodes : g.nodes.length ≤ options.maxNodes) (hedges : g.edges.length ≤ options.maxEdges) :
    ∃ l, computeLayout (ω := ω) theme options m g = .ok l := by
  rw [computeLayout, he]
  cases e <;> exact Layout.exists_layered hnodes hedges

end

end Flowchart
