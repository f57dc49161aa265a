import Flowchart.Proofs.Document.Closed
import Flowchart.Proofs.Layout.Conservation

/-!
# Styles follow their links

A text numbers its links in the order in which its statements enter them and gives styles to these
numbers. At the end the links that lead to blocks without nodes are dropped and the others take new
numbers, and so do the styles: a link that stays is looked up under its new number as it was under
the old one, `lookup_renumberStyles`. The layout shows the links that stay in their order. So each
of them has the style that the text gives to the number under which it was entered,
`computeLayout_linkStyles`.

What a text says about styles is a function of its statements, `linkStyleIn`; a builder into which
some statements were entered holds just this, `Styled`.
-/

namespace Flowchart

/-! ## What statements say about links -/

namespace Statement

/-- The links that a statement enters; only chains enter some. -/
def links : Statement → List Edge
  | .chain c => Builder.chainEdges c.first c.rest
  | _ => []

/-- The style that a statement gives to all links. -/
def styleOfAll? : Statement → Option (EdgeStyle Float32)
  | .styleLinks (some (.all, style)) => some style
  | _ => none

/-- The style that a statement gives to the link with a number. -/
def styleOf? (k : Nat) : Statement → Option (EdgeStyle Float32)
  | .styleLinks (some (.numbered indices, style)) => if indices.contains k then some style else none
  | _ => none

end Statement

/-- The links that a text enters; their positions are their numbers. -/
def linksIn (text : String) : List Edge :=
  (statementsOf text).flatMap fun s => s.2.links

/-- What statements give last. -/
def lastGiven {β : Type} (give : Statement → Option β) (l : List (Nat × Statement)) : Option β :=
  (l.filterMap fun s => give s.2).getLast?

/-- The style that a text gives to the link with a number: the last one that it gives to all links,
overwritten by the last one that it gives to the number. -/
def linkStyleIn (text : String) (k : Nat) : EdgeStyle Float32 :=
  ((lastGiven Statement.styleOfAll? (statementsOf text)).getD {}).merge
    ((lastGiven (Statement.styleOf? k) (statementsOf text)).getD {})

theorem lastGiven_concat {β : Type} (give : Statement → Option β) (l : List (Nat × Statement))
    (s : Nat × Statement) : lastGiven give (l ++ [s]) = (give s.2).or (lastGiven give l) := by
  rw [lastGiven, lastGiven, List.filterMap_append, List.getLast?_append]
  cases hs : give s.2 <;> simp [hs]

namespace Builder

variable {b : Builder} {l : List (Nat × Statement)} {text : String} {k : Nat}

/-! ## What statements enter -/

/-- What a diagram says about links. -/
def linkData (g : Diagram Float32) :
    List Edge × Option (EdgeStyle Float32) × List (Nat × EdgeStyle Float32) :=
  (g.edges, g.edgeStyleDefault, g.edgeStyles)

theorem linkData_foldl_mention (refs : List NodeRef) (b : Builder) :
    linkData (refs.foldl mention b).diagram = linkData b.diagram := by
  induction refs generalizing b with
  | nil => rfl
  | cons r refs ih =>
    rw [List.foldl_cons, ih, diagram_mention]
    rfl

theorem lookup_foldl_setKey (indices : List Nat) (style : EdgeStyle Float32)
    (styles : List (Nat × EdgeStyle Float32)) (k : Nat) :
    (indices.foldl (fun es i => setKey i style es) styles).lookup k =
      if indices.contains k then some style else styles.lookup k := by
  induction indices generalizing styles with
  | nil => rfl
  | cons i indices ih =>
    rw [List.foldl_cons, ih, lookup_setKey, List.contains_cons]
    cases k == i <;> simp

/-- One statement enters its links at the end, and the styles it gives replace earlier ones. -/
theorem run_links (b : Builder) (line : Nat) (s : Statement) :
    (b.run line s).diagram.edges = b.diagram.edges ++ s.links ∧
      (b.run line s).diagram.edgeStyleDefault = s.styleOfAll?.or b.diagram.edgeStyleDefault ∧
      ∀ k, (b.run line s).diagram.edgeStyles.lookup k =
        (s.styleOf? k).or (b.diagram.edgeStyles.lookup k) := by
  have hnone : b.diagram.edges = b.diagram.edges ++ [] := (List.append_nil _).symm
  cases s with
  | closeBlock =>
    rw [run, closeBlock]
    split <;> exact ⟨hnone, rfl, fun _ => rfl⟩
  | openBlock header =>
    rw [run, openBlock]
    cases header.id <;> exact ⟨hnone, rfl, fun _ => rfl⟩
  | direction d =>
    rw [run, setDirection]
    split <;> exact ⟨hnone, rfl, fun _ => rfl⟩
  | defineClasses style => cases style <;> exact ⟨hnone, rfl, fun _ => rfl⟩
  | assignClasses pairs => exact ⟨hnone, rfl, fun _ => rfl⟩
  | styleNodes style => cases style <;> exact ⟨hnone, rfl, fun _ => rfl⟩
  | styleLinks style =>
    cases style with
    | none => exact ⟨hnone, rfl, fun _ => rfl⟩
    | some style =>
      obtain ⟨selection, style⟩ := style
      cases selection with
      | all => exact ⟨hnone, rfl, fun _ => rfl⟩
      | numbered indices =>
        refine ⟨hnone, rfl, fun k => (lookup_foldl_setKey indices style _ k).trans ?_⟩
        rw [Statement.styleOf?]
        split <;> rfl
  | ignored => exact ⟨hnone, rfl, fun _ => rfl⟩
  | chain c =>
    obtain ⟨hedges, hstyles⟩ := Prod.mk.inj (linkData_foldl_mention c.references b)
    obtain ⟨hdefault, hstyles⟩ := Prod.mk.inj hstyles
    exact ⟨congrArg (· ++ chainEdges c.first c.rest) hedges, hdefault,
      fun k => congrArg (List.lookup k) hstyles⟩
  | rejected reason => exact ⟨hnone, rfl, fun _ => rfl⟩

/-- A builder that holds the links and the styles of links of some statements. -/
structure Styled (l : List (Nat × Statement)) (b : Builder) : Prop where
  edges : b.diagram.edges = l.flatMap fun s => s.2.links
  all : b.diagram.edgeStyleDefault = lastGiven Statement.styleOfAll? l
  numbered : ∀ k, b.diagram.edgeStyles.lookup k = lastGiven (Statement.styleOf? k) l

theorem Styled.run (hb : b.Styled l) (s : Nat × Statement) : (b.run s.1 s.2).Styled (l ++ [s]) := by
  obtain ⟨hedges, hall, hnumbered⟩ := b.run_links s.1 s.2
  constructor
  case edges => rw [hedges, hb.edges, List.flatMap_append, List.flatMap_singleton]
  case all => rw [hall, hb.all, lastGiven_concat]
  case numbered => exact fun k => by rw [hnumbered, hb.numbered, lastGiven_concat]

theorem Styled.runAll (hb : b.Styled []) (l : List (Nat × Statement)) : (b.runAll l).Styled l := by
  induction l using List.reverseRecOn with
  | nil => exact hb
  | append_singleton l s ih =>
    rw [runAll_append]
    exact ih.run s

/-- The builder of a text holds its links and the styles it gives to them. -/
theorem styled_buildText (h : buildText text = .ok b) : b.Styled (statementsOf text) := by
  obtain ⟨d, rfl⟩ := buildText_runAll h
  exact Styled.runAll ⟨rfl, rfl, fun _ => rfl⟩ _

/-! ## New numbers -/

/-- The links that stay, each between the nodes that its ends mean and with the number under which
it was entered. -/
def keptLinks (b : Builder) : List (Edge × Nat) :=
  b.diagram.edges.zipIdx.filterMap fun e => (b.edgeMeaning? e.1).map fun e' => (e', e.2)

theorem mem_keptLinks {e : Edge} : (e, k) ∈ b.keptLinks ↔
    ∃ e', b.diagram.edges[k]? = some e' ∧ b.edgeMeaning? e' = some e := by
  simp only [keptLinks, List.mem_filterMap, Option.map_eq_some_iff, Prod.mk.injEq, Prod.exists,
    List.mem_zipIdx_iff_getElem?]
  constructor
  · rintro ⟨e', k', hat, e, hmeaning, rfl, rfl⟩
    exact ⟨e', hat, hmeaning⟩
  · rintro ⟨e', hat, hmeaning⟩
    exact ⟨e', k, hat, e, hmeaning, rfl, rfl⟩

/-- The number that the link with a number has after the others were dropped: how many of those
before it stay. -/
def newNumber (b : Builder) (k : Nat) : Nat :=
  (b.diagram.edges.take k).countP fun e => (b.edgeMeaning? e).isSome

/-- What stays of a list, with its new positions. -/
theorem zipIdx_filterMap {β γ : Type} (f : β → Option γ) (l : List β) : (l.filterMap f).zipIdx =
    (l.zipIdx.filterMap fun p => (f p.1).map fun c => (c, p.2)).map fun q =>
      (q.1, (l.take q.2).countP fun a => (f a).isSome) := by
  induction l using List.reverseRecOn with
  | nil => rfl
  | append_singleton l a ih =>
    have hbefore : ∀ q ∈ l.zipIdx.filterMap (fun p => (f p.1).map fun c => (c, p.2)),
        (q.1, (l.take q.2).countP fun a => (f a).isSome) =
          (q.1, ((l ++ [a]).take q.2).countP fun a => (f a).isSome) := by
      intro q hq
      obtain ⟨p, hp, hq⟩ := List.mem_filterMap.mp hq
      obtain ⟨c, -, rfl⟩ := Option.map_eq_some_iff.mp hq
      rw [List.take_append_of_le_length (List.snd_lt_of_mem_zipIdx hp).le]
    rw [List.filterMap_append, List.zipIdx_append, ih, List.map_congr_left hbefore,
      List.zipIdx_append, List.filterMap_append, List.map_append]
    refine congrArg _ ?_
    cases ha : f a with
    | none => simp [ha]
    | some c => simp [ha, List.length_filterMap_eq_countP]

/-- The links of the finished diagram with their positions there. -/
theorem zipIdx_edges_finish (b : Builder) :
    b.finish.edges.zipIdx = b.keptLinks.map fun e => (e.1, b.newNumber e.2) := by
  rw [edges_finish, zipIdx_filterMap]
  rfl

/-- The ends of all of them are nodes, so the layout drops no more links. -/
theorem Orderly.keptEdges_finish (hb : b.Orderly) :
    Layout.keptEdges b.finish = b.keptLinks.map fun e => (e.1, b.newNumber e.2) := by
  rw [← zipIdx_edges_finish]
  refine List.filter_eq_self.mpr fun ⟨e, i⟩ he => ?_
  exact Bool.and_eq_true_iff.mpr (hb.hasNode_ends (List.fst_mem_of_mem_zipIdx he))

/-- A style is found under the new number of a link that stays as under the old one, because
different links that stay get different numbers. -/
theorem lookup_renumberStyles {kept : List Bool} (hk : kept.getD k false = true)
    (styles : List (Nat × EdgeStyle Float32)) :
    (renumberStyles kept styles).lookup ((kept.take k).count true) = styles.lookup k := by
  induction styles with
  | nil => rfl
  | cons s styles ih =>
    obtain ⟨i, style⟩ := s
    by_cases hi : kept.getD i false = true
    · have hcons : renumberStyles kept ((i, style) :: styles) =
          ((kept.take i).count true, style) :: renumberStyles kept styles :=
        List.filterMap_cons_some (if_pos hi)
      have hsame : ((kept.take k).count true == (kept.take i).count true) = (k == i) := by
        rw [Bool.eq_iff_iff, beq_iff_eq, beq_iff_eq]
        refine ⟨fun hcount => ?_, fun h => h ▸ rfl⟩
        by_contra hne
        rcases Nat.lt_or_gt_of_ne hne with hlt | hlt
        · exact (count_take_lt hk hlt).ne hcount
        · exact (count_take_lt hi hlt).ne' hcount
      rw [hcons, List.lookup_cons, List.lookup_cons, ih, hsame]
    · have hcons : renumberStyles kept ((i, style) :: styles) = renumberStyles kept styles :=
        List.filterMap_cons_none (if_neg hi)
      have hne : (k == i) = false := beq_eq_false_iff_ne.mpr fun h => hi (h ▸ hk)
      rw [hcons, ih, List.lookup_cons, hne]

/-- **A link that stays keeps its style.** Under its new number it has the style that was given to
it under the old one, over the default style. -/
theorem edgeStyle_finish {e : Edge} (he : (e, k) ∈ b.keptLinks) :
    b.finish.edgeStyle (b.newNumber k) =
      (b.diagram.edgeStyleDefault.getD {}).merge ((b.diagram.edgeStyles.lookup k).getD {}) := by
  let kept := (b.diagram.edges.map b.edgeMeaning?).map Option.isSome
  have hdata : linkData b.applyRequests = linkData b.diagram :=
    applyRequests_keeps (fun _ _ _ => rfl) (fun _ _ _ => rfl) b
  obtain ⟨hedges, hstyles⟩ := Prod.mk.inj hdata
  obtain ⟨hdefault, hstyles⟩ := Prod.mk.inj hstyles
  have hfinish : b.finish.edgeStyles = renumberStyles kept b.diagram.edgeStyles := by
    have hrenumber : b.finish.edgeStyles = renumberStyles
      ((b.applyRequests.edges.map b.edgeMeaning?).map Option.isSome) b.applyRequests.edgeStyles := rfl
    rw [hrenumber, hedges, hstyles]
  have hnumber : b.newNumber k = (kept.take k).count true := by
    rw [newNumber]
    simp only [kept, ← List.map_take, List.count, List.countP_map]
    refine List.countP_congr fun e _ => ?_
    simp
  have hkept : kept.getD k false = true := by
    obtain ⟨e', hat, hmeaning⟩ := mem_keptLinks.mp he
    simp only [kept, List.getD_eq_getElem?_getD, List.getElem?_map, hat, Option.map_some, hmeaning,
      Option.isSome_some, Option.getD_some]
  have hlookup := lookup_renumberStyles hkept b.diagram.edgeStyles
  rw [Diagram.edgeStyle, hfinish, hnumber, hlookup]
  exact congrArg (fun style => EdgeStyle.merge (Option.getD style {}) _) hdefault

end Builder

/-! ## Styles in the layout -/

/-- A connection of a layout is a link of a text in the style that the text gives to its number. -/
structure FollowsLink (text : String) (e : Edge × Nat) (p : PlacedEdge Float32) : Prop where
  source : p.source = e.1.source
  target : p.target = e.1.target
  kind : p.kind = e.1.kind
  line : p.line = e.1.line
  style : p.style = linkStyleIn text e.2

section

variable {ω : Type} [Scalar ω] [Widening Float32 ω] [Trigonometry ω] {theme : Theme Float32}
  {options : LayoutOptions Float32} {m : Measurer Float32} {l : Layout Float32}

/-- **Styles follow their links.** The connections of the layout of a text are the links that the
text enters, in their order, without those one end of which means nothing and each between the nodes
that its ends mean. Each has the style that the text gives to the number under which it was entered:
the last one for all links, overwritten by the last one for this number, whatever links were dropped
before it. -/
theorem computeLayout_linkStyles {text : String} {doc : Document}
    (hdoc : parseDocument text = .ok doc)
    (hlayout : computeLayout (ω := ω) theme options m doc.diagram = .ok l) :
    ∃ b, buildText text = .ok b ∧ b.diagram.edges = linksIn text ∧
      List.Forall₂ (FollowsLink text) b.keptLinks l.edges := by
  obtain ⟨b, hbuild, hfinish⟩ := exists_buildText hdoc
  obtain ⟨options', hlayered⟩ := exists_layered_of_computeLayout hlayout
  have hstyled := Builder.styled_buildText hbuild
  rw [hfinish] at hlayered
  have hstyles : ∀ e ∈ b.keptLinks,
      b.finish.edgeStyle (b.newNumber e.2) = linkStyleIn text e.2 := by
    intro e he
    rw [Builder.edgeStyle_finish he, hstyled.all, hstyled.numbered, linkStyleIn]
  have hshows := Layout.layered_edges hlayered
  rw [(Builder.orderly_buildText hbuild).keptEdges_finish, List.forall₂_map_left_iff] at hshows
  refine ⟨b, hbuild, hstyled.edges, ?_⟩
  refine ((List.forall₂_and_left _ _).mpr ⟨hstyles, hshows⟩).imp fun e p hp => ?_
  obtain ⟨hstyle, hp⟩ := hp
  exact ⟨hp.source, hp.target, hp.kind, hp.line, hp.style.trans hstyle⟩

end

/-- Two of the links that are entered at once lead to an empty block, and so does the first link of
all. -/
def styledLinks : String :=
  "graph TD\na --> q\nsubgraph q\nend\na & b --> c & q\nlinkStyle default stroke:gray\n" ++
  "linkStyle 0,1,3 stroke:red,stroke-width:2.5px\n" ++
  "linkStyle 3 color:black,stroke-dasharray:5 2\nc --> d\n" ++
  "linkStyle default stroke:blue,stroke-width:4px"

/-- The styles of the links of the text that stay: the first one was styled, the second one twice,
and the last one never. -/
def keptStyles : List (String × String × EdgeStyle Float32) :=
  [("a", "c", { stroke := some "red", strokeWidth := some 2.5 }),
    ("b", "c",
      { stroke := some "blue", strokeWidth := some 4.0, dashes := some "5 2",
        labelColor := some "black" }),
    ("c", "d", { stroke := some "blue", strokeWidth := some 4.0 })]

set_option synthInstance.maxSize 512 in
/-- The three links that stay were entered under the numbers 1, 3 and 5. -/
theorem computeLayout_linkStyles_dropped : ∃ doc l, parseDocument styledLinks = .ok doc ∧
    computeLayout (ω := Float) .modern .standard .estimated doc.diagram = .ok l ∧
    (∃ b, buildText styledLinks = .ok b ∧ b.diagram.edges = linksIn styledLinks ∧
      List.Forall₂ (FollowsLink styledLinks) b.keptLinks l.edges) ∧
    l.edges.map (fun p => (p.source, p.target, p.style)) = keptStyles := by
  have hread : (buildText styledLinks).toOption.map (fun b =>
      (b.finish.nodes.length, b.finish.edges.length, b.keptLinks.map fun e =>
        (e.1.source, e.1.target, linkStyleIn styledLinks e.2))) =
      some (4, 3, keptStyles) := by decide +kernel
  obtain ⟨b, hb, hread⟩ := exists_ok_of_map hread
  obtain ⟨hnodes, hread⟩ := Prod.mk.inj hread
  obtain ⟨hedges, hstyles⟩ := Prod.mk.inj hread
  obtain ⟨doc, hdoc, hfinish⟩ : ∃ doc, parseDocument styledLinks = .ok doc ∧
      doc.diagram = b.finish := by
    rw [parseDocument_eq, hb]
    exact ⟨_, rfl, rfl⟩
  obtain ⟨l, hl⟩ : ∃ l,
      computeLayout (ω := Float) .modern .standard .estimated doc.diagram = .ok l :=
    exists_computeLayout (e := .layered) (by decide) (by rw [hfinish, hnodes]; decide)
      (by rw [hfinish, hedges]; decide)
  obtain ⟨b', hb', hlinks, hshows⟩ := computeLayout_linkStyles hdoc hl
  obtain rfl := Except.ok.inj (hb.symm.trans hb')
  refine ⟨doc, l, hdoc, hl, ⟨b, hb, hlinks, hshows⟩, ?_⟩
  have hmap := map_eq_map_iff_forall₂.mpr (hshows.imp fun e p h => by
    have hsame : (e.1.source, e.1.target, linkStyleIn styledLinks e.2) =
        (p.source, p.target, p.style) := by
      rw [h.source, h.target, h.style]
    exact hsame)
  exact hmap.symm.trans hstyles

end Flowchart
