import Flowchart.Drawing.Svg
import Flowchart.Proofs.Drawing.Numbers
import Flowchart.Proofs.Drawing.Tags

/-!
# Reading a drawing back

The text of a drawing is read as the tags of its frame, of the three symbols and of its primitives,
`toSvg_reads`: colours, dash patterns, fonts and lines of text come back as they were given,
whatever characters they hold, and every `<` of the text begins one of these tags. Which text of the
layout or the theme an attribute was written from is said twice, for the elements that hold text by
`Layout.shownLines` and for those that paint by `Layout.shownPaints`.

Settings and labels are escaped, numbers and path texts are not. The latter are plain, so that every
attribute is one that was written from a text, and the reader of such attributes applies to all.
-/

namespace Flowchart

/-- An attribute with a plain value is the same as the escaped one, so the two ways to write
attributes agree on it. -/
theorem IsPlain.attribute_eq {value : String} (h : IsPlain value) (name : String) :
    (⟨name, value⟩ : Attribute) = .escaped name value := by
  rw [Attribute.escaped, h.escapeMarkup_eq]

namespace Svg

/-- The name and value of a number. -/
def numberField (name : String) (x : Float32) : String × String := (name, places x)

/-- The name and value of a setting that may be missing. -/
def optionalField (name : String) (value : Option String) : List (String × String) :=
  value.toList.map (name, ·)

/-- What the attributes of a paint say. -/
def paintFields (p : Paint) : List (String × String) :=
  ("fill", p.fill.getD "none")
    :: (p.stroke.toList.flatMap fun stroke =>
      [("stroke", stroke), numberField "stroke-width" p.strokeWidth])
    ++ optionalField "stroke-dasharray" p.dashes

/-- What the reference to a symbol says. -/
def markerField (name : String) (m : Option Marker) : List (String × String) :=
  m.toList.map fun m => (name, "url(#" ++ markerId m ++ ")")

/-- What the attributes of a box say. -/
def boxFields (r : Rect Float32) (radius : Float32) : List (String × String) :=
  [numberField "x" r.x, numberField "y" r.y, numberField "width" r.width,
      numberField "height" r.height]
    ++ if 0.0 < radius then [numberField "rx" radius, numberField "ry" radius] else []

/-- What the attributes of a line of text say. -/
def textFields (t : TextRun) : List (String × String) :=
  [numberField "x" t.position.x, numberField "y" t.position.y, ("text-anchor", anchorName t.anchor),
    ("dominant-baseline", baselineName t.baseline), ("font-family", t.family),
    ("font-size", Decimal.text32 t.size), ("fill", t.fill)] ++ optionalField "font-weight" t.weight

/-- What the attributes of a path say. -/
def pathFields (data : String) (p : Paint) (startMarker stopMarker : Option Marker) :
    List (String × String) :=
  ("d", Text.trim data) :: paintFields p ++ markerField "marker-start" startMarker
    ++ markerField "marker-end" stopMarker

/-- The tags of a primitive. -/
def elementTags : Primitive → List Tag
  | .rect box radius p => [⟨"rect", boxFields box radius ++ paintFields p, true, ""⟩]
  | .path data p startMarker stopMarker =>
    [⟨"path", pathFields data p startMarker stopMarker, true, ""⟩]
  | .text run => [⟨"text", textFields run, false, run.content⟩, ⟨"/text", [], false, ""⟩]

/-- What the attributes of the definition of a symbol say. -/
def markerFields (m : Marker) (refX size orient : String) : List (String × String) :=
  [("id", markerId m), ("viewBox", "0 0 10 10"), ("refX", refX), ("refY", "5"),
    ("markerWidth", size), ("markerHeight", size), ("orient", orient)]

/-- The tags of the definition of a symbol, around those of its drawing. -/
def markerTags (m : Marker) (refX size orient : String) (content : List Tag) : List Tag :=
  ⟨"marker", markerFields m refX size orient, false, ""⟩
    :: content ++ [⟨"/marker", [], false, ""⟩]

/-- The tags of the definitions of all symbols. -/
def definitionTags (color : String) : List Tag :=
  ⟨"defs", [], false, ""⟩
    :: markerTags .arrow "9" "8" "auto-start-reverse"
      [⟨"path", [("d", "M0,0 L10,5 L0,10 z"), ("fill", color)], true, ""⟩]
    ++ markerTags .circle "5" "8" "auto"
      [⟨"circle", [("cx", "5"), ("cy", "5"), ("r", "4"), ("fill", color)], true, ""⟩]
    ++ markerTags .cross "5" "9" "auto"
      [⟨"path", [("d", "M1,1 L9,9 M9,1 L1,9"), ("stroke", color), ("stroke-width", "1.5")], true, ""⟩]
    ++ [⟨"/defs", [], false, ""⟩]

/-- The tags of a picture. -/
def pictureTags (p : Picture) : List Tag :=
  ⟨"svg", [("xmlns", "http://www.w3.org/2000/svg"), numberField "width" p.width,
      numberField "height" p.height,
      ("viewBox", "0 0 " ++ (places p.width ++ " " ++ places p.height))], false, ""⟩
    :: definitionTags p.lineColor
    ++ ⟨"rect", [("width", "100%"), ("height", "100%"), ("fill", p.background)], true, ""⟩
    :: p.elements.flatMap elementTags ++ [⟨"/svg", [], false, ""⟩]

/-! ## Attributes are written from what they say -/

/-- A number with two places is digits, a point and perhaps a sign, so nothing in it has to be
escaped. -/
theorem isPlain_places (x : Float32) : IsPlain (places x) := isPlain_twoPlaces _

theorem number_eq (name : String) (x : Float32) : number name x = .escaped name (places x) :=
  (isPlain_places x).attribute_eq name

/-- A setting that may be absent is written as the attribute of its field, or as nothing at all. -/
theorem optional_eq (name : String) (value : Option String) :
    optional name value = written (optionalField name value) := by
  cases value <;> rfl

/-- The attributes of a paint are its fields with the texts escaped: a number among them is plain,
so that escaping it changes nothing. -/
theorem paint_eq (p : Paint) : paint p = written (paintFields p) := by
  rw [paint, paintFields, optional_eq]
  cases p.stroke with
  | none => rfl
  | some stroke =>
    rw [number_eq]
    rfl

theorem isPlain_markerId (m : Marker) : IsPlain (markerId m) := by
  cases m <;> decide

/-- A reference to an arrow head is the plain id of its symbol, or it is absent. -/
theorem markerRef_eq (name : String) (m : Option Marker) :
    markerRef name m = written (markerField name m) := by
  cases m with
  | none => rfl
  | some m =>
    have hplain : IsPlain ("url(#" ++ markerId m ++ ")") :=
      (IsPlain.append (by decide) (isPlain_markerId m)).append (by decide)
    exact congrArg (fun a => [a]) (hplain.attribute_eq name)

theorem boxAttributes_eq (r : Rect Float32) (radius : Float32) :
    boxAttributes r radius = written (boxFields r radius) := by
  rw [boxAttributes, boxFields, written_append]
  split_ifs <;> simp only [number_eq] <;> rfl

/-- The attributes of a line of text are its fields, its place among them as plain numbers and the
font and colour as escaped texts. -/
theorem textAttributes_eq (t : TextRun) : textAttributes t = written (textFields t) := by
  have hanchor : IsPlain (anchorName t.anchor) := by cases t.anchor <;> decide
  have hbaseline : IsPlain (baselineName t.baseline) := by cases t.baseline <;> decide
  have hsize : IsPlain (Decimal.text32 t.size) := isPlain_positionalText _
  rw [textAttributes, textFields, optional_eq, hanchor.attribute_eq, hbaseline.attribute_eq,
    hsize.attribute_eq, number_eq, number_eq, written_append]
  rfl

/-- The attributes of a path are its fields whenever its data is plain text, since the data is
written as it is. -/
theorem pathAttributes_eq {data : String} (h : IsPlain data) (p : Paint)
    (startMarker stopMarker : Option Marker) :
    ⟨"d", Text.trim data⟩ :: paint p ++ markerRef "marker-start" startMarker
      ++ markerRef "marker-end" stopMarker = written (pathFields data p startMarker stopMarker) := by
  rw [markerRef_eq, markerRef_eq, paint_eq, h.trim.attribute_eq, pathFields, written_append,
    written_append]
  rfl

/-! ## Names -/

theorem isTagName_optional {name : String} (h : IsTagName name) (value : Option String) :
    ∀ f ∈ optionalField name value, IsTagName f.1 := by
  intro f hf
  obtain ⟨v, -, rfl⟩ := List.mem_map.mp hf
  exact h

theorem isTagName_paint (p : Paint) : ∀ f ∈ paintFields p, IsTagName f.1 := by
  have hstroke : ∀ f ∈ p.stroke.toList.flatMap fun stroke =>
      [("stroke", stroke), numberField "stroke-width" p.strokeWidth], IsTagName f.1 := by
    cases p.stroke <;> simp [numberField, IsTagName, isTagChar]
  exact List.forall_mem_append.mpr
    ⟨List.forall_mem_cons.mpr ⟨(by decide : IsTagName "fill"), hstroke⟩,
      isTagName_optional (by decide) _⟩

theorem isTagName_box (r : Rect Float32) (radius : Float32) :
    ∀ f ∈ boxFields r radius, IsTagName f.1 := by
  rw [boxFields]
  split_ifs <;> simp [numberField, IsTagName, isTagChar]

theorem isTagName_text (t : TextRun) : ∀ f ∈ textFields t, IsTagName f.1 := by
  refine List.forall_mem_append.mpr ⟨?_, isTagName_optional (by decide) _⟩
  simp [numberField, IsTagName, isTagChar]

theorem isTagName_marker {name : String} (hname : IsTagName name) (m : Option Marker) :
    ∀ f ∈ markerField name m, IsTagName f.1 := by
  intro f hf
  obtain ⟨m, -, rfl⟩ := List.mem_map.mp hf
  exact hname

/-- Every attribute of a path has a name that the reader takes for one. -/
theorem isTagName_path (data : String) (p : Paint) (startMarker stopMarker : Option Marker) :
    ∀ f ∈ pathFields data p startMarker stopMarker, IsTagName f.1 :=
  List.forall_mem_append.mpr ⟨List.forall_mem_append.mpr
    ⟨List.forall_mem_cons.mpr ⟨(by decide : IsTagName "d"), isTagName_paint p⟩,
      isTagName_marker (by decide) _⟩, isTagName_marker (by decide) _⟩

/-! ## The tags of a drawing -/

open Markup

/-- The path text of a primitive, if it has one, is plain. -/
def PlainPath : Primitive → Prop
  | .path data _ _ _ => IsPlain data
  | _ => True

/-- The markup of a primitive has the tags of the primitive, each with its fields as attributes. -/
theorem hasTags_element {e : Primitive} (he : PlainPath e) : (element e).HasTags (elementTags e) := by
  cases e with
  | rect box radius p =>
    have hattributes : boxAttributes box radius ++ paint p =
        written (boxFields box radius ++ paintFields p) := by
      rw [boxAttributes_eq, paint_eq, written_append]
    exact hasTags_void hattributes (by decide)
      (List.forall_mem_append.mpr ⟨isTagName_box box radius, isTagName_paint p⟩)
  | path data p startMarker stopMarker =>
    exact hasTags_void (pathAttributes_eq he p startMarker stopMarker) (by decide)
      (isTagName_path data p startMarker stopMarker)
  | text run =>
    exact hasTags_label (textAttributes_eq run) (by decide) (isTagName_text run) run.content

/-- The markup of a row of primitives has their tags one after the other. -/
theorem allHaveTags_elements {es : List Primitive} (hes : ∀ e ∈ es, PlainPath e) :
    AllHaveTags (es.map element) (es.flatMap elementTags) := by
  induction es with
  | nil => exact allHaveTags_nil
  | cons e es ih =>
    obtain ⟨he, hrest⟩ := List.forall_mem_cons.mp hes
    exact (hasTags_element he).cons (ih hrest)

/-- The symbol of an arrow head is a tag of its own around the tags of what it draws. -/
theorem hasTags_marker (m : Marker) (refX size orient : String) {content : Markup} {tags : List Tag}
    (hcontent : content.HasTags tags)
    (hplain : IsPlain refX ∧ IsPlain size ∧ IsPlain orient) :
    (marker m refX size orient content).HasTags (markerTags m refX size orient tags) := by
  have hbox : IsPlain "0 0 10 10" := by decide
  have hrefY : IsPlain "5" := by decide
  obtain ⟨hrefX, hsize, horient⟩ := hplain
  refine hcontent.singleton.node ?_ (by decide) (by simp [markerFields, IsTagName, isTagChar])
  rw [(isPlain_markerId m).attribute_eq, hrefX.attribute_eq, hsize.attribute_eq,
    hsize.attribute_eq, horient.attribute_eq, hbox.attribute_eq, hrefY.attribute_eq]
  rfl

/-- The definitions at the top of a drawing have the tags of the three symbols, in the colour of the
lines. -/
theorem hasTags_definitions (color : String) :
    (definitions color).HasTags (definitionTags color) := by
  have harrow : HasTags (.void "path" [⟨"d", "M0,0 L10,5 L0,10 z"⟩, .escaped "fill" color])
      [⟨"path", [("d", "M0,0 L10,5 L0,10 z"), ("fill", color)], true, ""⟩] := by
    have hdata : IsPlain "M0,0 L10,5 L0,10 z" := by decide
    refine hasTags_void ?_ (by decide) (by simp [IsTagName, isTagChar])
    rw [hdata.attribute_eq]
    rfl
  have hcircle : HasTags (.void "circle" [⟨"cx", "5"⟩, ⟨"cy", "5"⟩, ⟨"r", "4"⟩,
      .escaped "fill" color])
      [⟨"circle", [("cx", "5"), ("cy", "5"), ("r", "4"), ("fill", color)], true, ""⟩] := by
    have hcenter : IsPlain "5" := by decide
    have hradius : IsPlain "4" := by decide
    refine hasTags_void ?_ (by decide) (by simp [IsTagName, isTagChar])
    rw [hcenter.attribute_eq, hcenter.attribute_eq, hradius.attribute_eq]
    rfl
  have hcross : HasTags (.void "path" [⟨"d", "M1,1 L9,9 M9,1 L1,9"⟩, .escaped "stroke" color,
      ⟨"stroke-width", "1.5"⟩])
      [⟨"path", [("d", "M1,1 L9,9 M9,1 L1,9"), ("stroke", color), ("stroke-width", "1.5")],
        true, ""⟩] := by
    have hdata : IsPlain "M1,1 L9,9 M9,1 L1,9" := by decide
    have hwidth : IsPlain "1.5" := by decide
    refine hasTags_void ?_ (by decide) (by simp [IsTagName, isTagChar])
    rw [hdata.attribute_eq, hwidth.attribute_eq]
    rfl
  have hmarkers := (hasTags_marker .arrow "9" "8" "auto-start-reverse" harrow (by decide)).cons
    ((hasTags_marker .circle "5" "8" "auto" hcircle (by decide)).cons
      (hasTags_marker .cross "5" "9" "auto" hcross (by decide)).singleton)
  have hdefs := hmarkers.node (rfl : [] = written []) (by decide : IsTagName "defs" ∧ "defs" ≠ "")
    (List.forall_mem_nil _)
  rw [← List.append_assoc] at hdefs
  exact hdefs

/-- **The document of a picture has the tags of the picture.** -/
theorem hasTags_document {p : Picture} (hp : ∀ e ∈ p.elements, PlainPath e) :
    (document p).HasTags (pictureTags p) := by
  have hground : HasTags (.void "rect" [⟨"width", "100%"⟩, ⟨"height", "100%"⟩,
      .escaped "fill" p.background])
      [⟨"rect", [("width", "100%"), ("height", "100%"), ("fill", p.background)], true, ""⟩] := by
    have hfull : IsPlain "100%" := by decide
    refine hasTags_void ?_ (by decide) (by simp [IsTagName, isTagChar])
    rw [hfull.attribute_eq, hfull.attribute_eq]
    rfl
  have hsize : IsPlain ("0 0 " ++ (places p.width ++ " " ++ places p.height)) :=
    IsPlain.append (by decide)
      (((isPlain_places p.width).append (by decide)).append (isPlain_places p.height))
  have hspace : IsPlain "http://www.w3.org/2000/svg" := by decide
  have hinner := (hasTags_definitions p.lineColor).cons
    (hground.cons (allHaveTags_elements hp))
  rw [document]
  refine hinner.node ?_ (by decide) (by simp [numberField, IsTagName, isTagChar])
  rw [number_eq, number_eq, hspace.attribute_eq, hsize.attribute_eq]
  rfl

end Svg

/-! ## Drawings of layouts -/

open Svg

/-- A point is written as two numbers with a comma between them, none of which has to be escaped. -/
theorem isPlain_placesText (p : Point Float32) : IsPlain (placesText p) :=
  ((isPlain_twoPlaces _).append (by decide)).append (isPlain_twoPlaces _)

/-- What is drawn over a shape is a path of numbers and letters, whatever the shape and wherever its
box lies. -/
theorem isPlain_shapeDetail {b : Rect Float32} {shape : Shape} {data : String}
    (h : shapeDetail? b shape = some data) : IsPlain data := by
  have hbar (p q : Point Float32) : IsPlain ("M" ++ placesText p ++ " L" ++ placesText q) :=
    ((IsPlain.append (by decide) (isPlain_placesText p)).append (by decide)).append
      (isPlain_placesText q)
  cases shape with
  | subroutine =>
    obtain rfl := Option.some.inj h
    exact ((hbar _ _).append (by decide)).append (hbar _ _)
  | doubleCircle =>
    obtain rfl := Option.some.inj h
    exact isPlain_pathText _
  | cylinder =>
    obtain rfl := Option.some.inj h
    exact isPlain_pathText _
  | _ => cases h

/-- The lines of a text are no paths, so nothing is asked of their data. -/
theorem plainPath_centredLines (b : TextBlock Float32) (style : TextRun) :
    ∀ e ∈ centredLines b style, PlainPath e := by
  intro e he
  obtain ⟨run, -, rfl⟩ := List.mem_map.mp he
  trivial

/-- A block is drawn as a rectangle and lines of text, so it has no path that could fail to be
plain. -/
theorem plainPath_drawBlock (theme : Theme Float32) (pad : Float32) (b : PlacedBlock Float32) :
    ∀ e ∈ drawBlock theme pad b, PlainPath e := by
  rw [drawBlock]
  dsimp only
  split_ifs
  · exact List.forall_mem_singleton.mpr trivial
  · refine List.forall_mem_cons.mpr ⟨trivial, fun e he => ?_⟩
    obtain ⟨run, -, rfl⟩ := List.mem_map.mp he
    trivial

/-- The path of a connection is made of the points of its route. -/
theorem plainPath_drawEdgeLine (theme : Theme Float32) (pad : Float32) (e : PlacedEdge Float32) :
    ∀ x ∈ drawEdgeLine theme pad e, PlainPath x := by
  rw [drawEdgeLine]
  split_ifs
  · exact List.forall_mem_nil _
  · exact List.forall_mem_singleton.mpr (isPlain_pathText _)

theorem plainPath_drawEdgeLabel (theme : Theme Float32) (pad : Float32) (e : PlacedEdge Float32) :
    ∀ x ∈ drawEdgeLabel theme pad e, PlainPath x := by
  rw [drawEdgeLabel]
  split
  · exact List.forall_mem_cons.mpr ⟨trivial, plainPath_centredLines _ _⟩
  · exact List.forall_mem_nil _

/-- A shape is drawn as a box, a polygon or an ellipse, and the path over it is plain by
`isPlain_shapeDetail`. -/
theorem plainPath_drawShape (shape : Shape) (box : Rect Float32) (paint : Paint) :
    ∀ x ∈ drawShape shape box paint, PlainPath x := by
  rw [drawShape]
  split_ifs
  · exact List.forall_mem_singleton.mpr trivial
  · refine List.forall_mem_cons.mpr ⟨(isPlain_pathText _).append (by decide), fun x hx => ?_⟩
    obtain ⟨data, hdata, rfl⟩ := Option.map_eq_some_iff.mp (Option.mem_toList.mp hx)
    exact isPlain_shapeDetail hdata

/-- **Every path of a drawing is plain text.** -/
theorem Layout.plainPath_draw (l : Layout Float32) (theme : Theme Float32)
    (options : DrawingOptions Float32) : ∀ e ∈ (l.draw theme options).elements, PlainPath e := by
  intro e he
  simp only [Layout.draw, List.mem_append, List.mem_flatMap] at he
  rcases he with ((⟨b, -, he⟩ | ⟨c, -, he⟩) | ⟨n, -, he⟩) | ⟨c, -, he⟩
  · exact plainPath_drawBlock theme _ b e he
  · exact plainPath_drawEdgeLine theme _ c e he
  · rcases List.mem_append.mp he with he | he
    · exact plainPath_drawShape n.shape _ _ e he
    · exact plainPath_centredLines _ _ e he
  · exact plainPath_drawEdgeLabel theme _ c e he

/-! ## The lines of text of a drawing -/

/-- A line of text with the settings that stand with it. -/
structure ShownLine where
  /-- the line itself -/
  text : String
  /-- its font -/
  family : Option String
  /-- its colour -/
  color : Option String
  /-- its font weight -/
  weight : Option String
  deriving Repr, DecidableEq

/-- What is read from an element that holds text. -/
def Tag.shownLine (t : Tag) : ShownLine where
  text := t.text
  family := t.attributes.lookup "font-family"
  color := t.attributes.lookup "fill"
  weight := t.attributes.lookup "font-weight"

/-- The elements that hold text, in the order in which they are read. -/
def linesRead (tags : List Tag) : List ShownLine :=
  (tags.filter (·.name == "text")).map Tag.shownLine

/-- The lines of the title of a block. -/
def PlacedBlock.shownLines (theme : Theme Float32) (b : PlacedBlock Float32) : List ShownLine :=
  if Text.isBlankText b.label then []
  else b.title.lines.map fun line => ⟨line, some theme.fontFamily, some theme.text, none⟩

/-- The lines of the label of a node. -/
def PlacedNode.shownLines (theme : Theme Float32) (n : PlacedNode Float32) : List ShownLine :=
  (n.label.lines.filter (!·.isEmpty)).map fun line =>
    ⟨line, some (n.style.fontFamily.getD theme.fontFamily),
      some (n.style.textColor.getD theme.nodeText), n.style.fontWeight⟩

/-- The lines of the label of a connection. -/
def PlacedEdge.shownLines (theme : Theme Float32) (e : PlacedEdge Float32) : List ShownLine :=
  match e.label, e.labelAnchor with
  | some label, some _ => (label.lines.filter (!·.isEmpty)).map fun line =>
    ⟨line, some theme.fontFamily, some (e.style.labelColor.getD theme.text), none⟩
  | _, _ => []

/-- The lines of text that a layout shows: the titles of the blocks that have a box, the labels of
the nodes and those of the connections. -/
def Layout.shownLines (l : Layout Float32) (theme : Theme Float32) : List ShownLine :=
  (l.blocks.filter PlacedBlock.hasBox).flatMap (PlacedBlock.shownLines theme)
    ++ l.nodes.flatMap (PlacedNode.shownLines theme)
    ++ l.edges.flatMap (PlacedEdge.shownLines theme)

/-- The line of text that a text run shows. -/
def TextRun.shownLine (t : TextRun) : ShownLine :=
  ⟨t.content, some t.family, some t.fill, t.weight⟩

/-- The line of text of a primitive. -/
def Primitive.shownLines : Primitive → List ShownLine
  | .text run => [run.shownLine]
  | _ => []

theorem linesRead_append (tags others : List Tag) :
    linesRead (tags ++ others) = linesRead tags ++ linesRead others := by
  rw [linesRead, List.filter_append, List.map_append]
  rfl

/-- The lines of text read from the tags of a primitive are those that the primitive shows. -/
theorem linesRead_elementTags (e : Primitive) : linesRead (elementTags e) = e.shownLines := by
  cases e with
  | rect box radius p => rfl
  | path data p startMarker stopMarker => rfl
  | text run =>
    have hweight : (textFields run).lookup "font-weight" = run.weight := by
      cases h : run.weight <;> simp [textFields, optionalField, numberField, List.lookup_cons, h]
    have hline : Tag.shownLine ⟨"text", textFields run, false, run.content⟩ = run.shownLine := by
      rw [Tag.shownLine, hweight]
      rfl
    exact congrArg (fun line => [line]) hline

theorem linesRead_elements (es : List Primitive) :
    linesRead (es.flatMap elementTags) = es.flatMap Primitive.shownLines := by
  induction es with
  | nil => rfl
  | cons e es ih =>
    rw [List.flatMap_cons, linesRead_append, ih, linesRead_elementTags, List.flatMap_cons]

/-- The frame and the symbols of a picture hold no text, so all lines that are read from its tags
are those of its primitives. -/
theorem linesRead_pictureTags (p : Picture) :
    linesRead (pictureTags p) = p.elements.flatMap Primitive.shownLines := by
  have hframe (fields : List (String × String)) :
      linesRead (⟨"svg", fields, false, ""⟩ :: definitionTags p.lineColor) = [] := rfl
  have hground (fields : List (String × String)) (tags : List Tag) :
      linesRead (⟨"rect", fields, true, ""⟩ :: tags) = linesRead tags := rfl
  rw [pictureTags, linesRead_append, linesRead_append, hframe, hground, linesRead_elements]
  exact List.append_nil _

/-- The line that a copy of a text run shows. -/
def TextRun.shows (style : TextRun) (line : String) : ShownLine :=
  ⟨line, some style.family, some style.fill, style.weight⟩

theorem shownLines_text (runs : List TextRun) :
    (runs.map Primitive.text).flatMap Primitive.shownLines = runs.map TextRun.shownLine := by
  rw [List.flatMap_map]
  exact List.map_eq_flatMap.symm

/-- Lines that are stacked show the lines of their label in order, in one style. -/
theorem shownLine_stackLines (b : TextBlock Float32) (style : TextRun) (top : Float32) :
    (stackLines b style top).map TextRun.shownLine = b.lines.map style.shows := by
  have hlines := List.zipIdx_map_fst 0 b.lines
  conv_rhs => rw [← hlines]
  rw [stackLines, List.map_map, List.map_map]
  rfl

/-- A label shows its lines in order, less the empty ones, for which nothing is drawn. -/
theorem shownLines_centredLines (b : TextBlock Float32) (style : TextRun) :
    (centredLines b style).flatMap Primitive.shownLines =
      (b.lines.filter (!·.isEmpty)).map style.shows := by
  rw [centredLines, shownLines_text]
  have hstack := shownLine_stackLines b style (style.position.y - b.height / 2.0)
  have hfilter := congrArg (List.filter fun line => !line.text.isEmpty) hstack
  rwa [List.filter_map, List.filter_map] at hfilter

/-- A block shows its title and nothing else. -/
theorem shownLines_drawBlock (theme : Theme Float32) (pad : Float32) (b : PlacedBlock Float32) :
    (drawBlock theme pad b).flatMap Primitive.shownLines = b.shownLines theme := by
  rw [drawBlock, PlacedBlock.shownLines]
  dsimp only
  split_ifs
  · rfl
  · rw [List.flatMap_cons, shownLines_text, shownLine_stackLines]
    rfl

/-- The line of a connection shows no text. -/
theorem shownLines_drawEdgeLine (theme : Theme Float32) (pad : Float32) (e : PlacedEdge Float32) :
    (drawEdgeLine theme pad e).flatMap Primitive.shownLines = [] := by
  rw [drawEdgeLine]
  split_ifs <;> rfl

/-- A connection shows its label if it has one with a place, and otherwise no text. -/
theorem shownLines_drawEdgeLabel (theme : Theme Float32) (pad : Float32) (e : PlacedEdge Float32) :
    (drawEdgeLabel theme pad e).flatMap Primitive.shownLines = e.shownLines theme := by
  rw [drawEdgeLabel, PlacedEdge.shownLines]
  cases e.label with
  | none => rfl
  | some label =>
    cases e.labelAnchor with
    | none => rfl
    | some anchor =>
      dsimp only
      rw [List.flatMap_cons, shownLines_centredLines]
      rfl

/-- A node shows the lines of its label, over whichever shape it has. -/
theorem shownLines_drawNode (theme : Theme Float32) (pad : Float32) (n : PlacedNode Float32) :
    (drawNode theme pad n).flatMap Primitive.shownLines = n.shownLines theme := by
  have hshape (box : Rect Float32) (paint : Paint) :
      (drawShape n.shape box paint).flatMap Primitive.shownLines = [] := by
    rw [drawShape]
    split_ifs
    · rfl
    · cases shapeDetail? box n.shape <;> rfl
  rw [drawNode, List.flatMap_append, hshape, shownLines_centredLines]
  rfl

/-- **What a drawing shows as text are the titles and labels of the layout**, with their
settings. -/
theorem Layout.shownLines_draw (l : Layout Float32) (theme : Theme Float32)
    (options : DrawingOptions Float32) :
    (l.draw theme options).elements.flatMap Primitive.shownLines = l.shownLines theme := by
  simp only [Layout.draw, Layout.shownLines, List.flatMap_append, List.flatMap_assoc,
    shownLines_drawBlock, shownLines_drawEdgeLine, shownLines_drawNode, shownLines_drawEdgeLabel]
  simp

/-! ## The paints of a drawing -/

/-- How an area or a line is painted, as it is read. -/
structure ShownPaint where
  /-- the colour of the interior -/
  fill : Option String := none
  /-- the colour of the line -/
  stroke : Option String := none
  /-- the width of the line -/
  strokeWidth : Option String := none
  /-- the dash pattern of the line -/
  dashes : Option String := none
  deriving Repr, DecidableEq

/-- What is read from an element that paints. -/
def Tag.shownPaint (t : Tag) : ShownPaint where
  fill := t.attributes.lookup "fill"
  stroke := t.attributes.lookup "stroke"
  strokeWidth := t.attributes.lookup "stroke-width"
  dashes := t.attributes.lookup "stroke-dasharray"

/-- The paints of the elements that are no text, in the order in which they are read. -/
def paintsRead (tags : List Tag) : List ShownPaint :=
  (tags.filter fun t => ["rect", "path", "circle"].contains t.name).map Tag.shownPaint

/-- The paints of the three symbols, which have one colour, and of the background. -/
def framePaints (line background : String) : List ShownPaint :=
  [{ fill := some line }, { fill := some line },
    { stroke := some line, strokeWidth := some "1.5" }, { fill := some background }]

/-- The box of a block has the colours of the theme. -/
def blockPaint (theme : Theme Float32) : ShownPaint where
  fill := some theme.blockFill
  stroke := some theme.blockStroke
  strokeWidth := some (places 1.0)

/-- A connection has its own colour, width and dashes, or else those of the theme and of its kind of
line. -/
def PlacedEdge.shownPaint (theme : Theme Float32) (e : PlacedEdge Float32) : ShownPaint where
  fill := some "none"
  stroke := some (e.style.stroke.getD theme.line)
  strokeWidth := some (places (e.style.strokeWidth.getD (defaultStrokeWidth e.line)))
  dashes := e.style.dashes <|> defaultDashes e.line

/-- A node has its own colours, width and dashes, or else those of the theme. -/
def PlacedNode.shownPaint (theme : Theme Float32) (n : PlacedNode Float32) : ShownPaint where
  fill := some (n.style.fill.getD theme.nodeFill)
  stroke := some (n.style.stroke.getD theme.nodeStroke)
  strokeWidth := some (places (n.style.strokeWidth.getD 1.4))
  dashes := n.style.dashes

/-- The shape has lines inside its outline, which are painted like it. -/
def Shape.hasDetail : Shape → Bool
  | .subroutine | .doubleCircle | .cylinder => true
  | _ => false

/-- The paints of a node. -/
def PlacedNode.shownPaints (theme : Theme Float32) (n : PlacedNode Float32) : List ShownPaint :=
  n.shownPaint theme ::
    if n.shape.hasDetail then [{ n.shownPaint theme with fill := some "none" }] else []

/-- The paints that a layout shows: those of the blocks that have a box, of the lines of the
connections that have one, of the nodes, and of the patches under the labels of connections. -/
def Layout.shownPaints (l : Layout Float32) (theme : Theme Float32) : List ShownPaint :=
  (l.blocks.filter PlacedBlock.hasBox).map (fun _ => blockPaint theme)
    ++ (l.edges.filter fun e => 2 ≤ e.points.length).map (PlacedEdge.shownPaint theme)
    ++ l.nodes.flatMap (PlacedNode.shownPaints theme)
    ++ (l.edges.filter fun e => e.label.isSome && e.labelAnchor.isSome).map
      fun _ => { fill := some theme.labelBackground }

/-- What is read of a paint. The width of a line is only written with its colour. -/
def Paint.shown (p : Paint) : ShownPaint where
  fill := some (p.fill.getD "none")
  stroke := p.stroke
  strokeWidth := p.stroke.map fun _ => places p.strokeWidth
  dashes := p.dashes

/-- The paint of a primitive. -/
def Primitive.shownPaints : Primitive → List ShownPaint
  | .rect _ _ p => [p.shown]
  | .path _ p _ _ => [p.shown]
  | .text _ => []

theorem paintsRead_append (tags others : List Tag) :
    paintsRead (tags ++ others) = paintsRead tags ++ paintsRead others := by
  rw [paintsRead, List.filter_append, List.map_append]
  rfl

/-- The paints read from the tags of a primitive are those that the primitive has. -/
theorem paintsRead_elementTags (e : Primitive) : paintsRead (elementTags e) = e.shownPaints := by
  cases e with
  | rect box radius p =>
    have hpaint : Tag.shownPaint ⟨"rect", boxFields box radius ++ paintFields p, true, ""⟩ =
        p.shown := by
      rw [Tag.shownPaint, Paint.shown, boxFields, paintFields]
      split_ifs <;> cases p.stroke <;> cases p.dashes <;>
        simp [numberField, optionalField, List.lookup_cons]
    exact congrArg (fun paint => [paint]) hpaint
  | path data p startMarker stopMarker =>
    have hpaint : Tag.shownPaint ⟨"path", pathFields data p startMarker stopMarker, true, ""⟩ =
        p.shown := by
      rw [Tag.shownPaint, Paint.shown, pathFields, paintFields]
      cases startMarker <;> cases stopMarker <;> cases p.stroke <;> cases p.dashes <;>
        simp [numberField, optionalField, markerField, List.lookup_cons]
    exact congrArg (fun paint => [paint]) hpaint
  | text run => rfl

theorem paintsRead_elements (es : List Primitive) :
    paintsRead (es.flatMap elementTags) = es.flatMap Primitive.shownPaints := by
  induction es with
  | nil => rfl
  | cons e es ih =>
    rw [List.flatMap_cons, paintsRead_append, ih, paintsRead_elementTags, List.flatMap_cons]

/-- The paints read from the tags of a picture are those of its frame and then those of its
primitives, in order. -/
theorem paintsRead_pictureTags (p : Picture) : paintsRead (pictureTags p) =
    framePaints p.lineColor p.background ++ p.elements.flatMap Primitive.shownPaints := by
  have hframe (fields : List (String × String)) (tags : List Tag) :
      paintsRead (⟨"svg", fields, false, ""⟩ :: definitionTags p.lineColor
        ++ ⟨"rect", [("width", "100%"), ("height", "100%"), ("fill", p.background)], true, ""⟩
        :: tags) = framePaints p.lineColor p.background ++ paintsRead tags := rfl
  rw [pictureTags, paintsRead_append, hframe, paintsRead_elements]
  exact List.append_nil _

theorem shownPaints_text (runs : List TextRun) :
    (runs.map Primitive.text).flatMap Primitive.shownPaints = [] := by
  rw [List.flatMap_map]
  exact List.flatMap_eq_nil_iff.mpr fun _ _ => rfl

/-- A block paints one box, in the colours of the theme. -/
theorem shownPaints_drawBlock (theme : Theme Float32) (pad : Float32) (b : PlacedBlock Float32) :
    (drawBlock theme pad b).flatMap Primitive.shownPaints = [blockPaint theme] := by
  rw [drawBlock]
  dsimp only
  split_ifs
  · rfl
  · rw [List.flatMap_cons, shownPaints_text]
    rfl

/-- A connection paints its line once if it has at least two points, and otherwise nothing is
drawn. -/
theorem shownPaints_drawEdgeLine (theme : Theme Float32) (pad : Float32) (e : PlacedEdge Float32) :
    (drawEdgeLine theme pad e).flatMap Primitive.shownPaints =
      if decide (2 ≤ e.points.length) then [e.shownPaint theme] else [] := by
  rw [drawEdgeLine]
  by_cases h : e.points.length < 2
  · rw [if_pos h, if_neg (by simpa using h)]
    rfl
  · rw [if_neg h, if_pos (decide_eq_true (Nat.le_of_not_lt h))]
    rfl

/-- A connection whose label has a place paints the patch behind the label. -/
theorem shownPaints_drawEdgeLabel (theme : Theme Float32) (pad : Float32)
    (e : PlacedEdge Float32) : (drawEdgeLabel theme pad e).flatMap Primitive.shownPaints =
      if e.label.isSome && e.labelAnchor.isSome then [{ fill := some theme.labelBackground }]
      else [] := by
  rw [drawEdgeLabel]
  cases e.label with
  | none => rfl
  | some label =>
    cases e.labelAnchor with
    | none => rfl
    | some anchor =>
      dsimp only
      rw [List.flatMap_cons, centredLines, shownPaints_text]
      rfl

/-- Whether something is drawn over a shape depends on the kind of the shape alone. -/
theorem isSome_shapeDetail (b : Rect Float32) (shape : Shape) :
    (shapeDetail? b shape).isSome = shape.hasDetail := by
  cases shape <;> rfl

/-- A shape paints its outline, and over it perhaps a path in the same paint that fills nothing. -/
theorem shownPaints_drawShape (shape : Shape) (box : Rect Float32) (p : Paint) :
    (drawShape shape box p).flatMap Primitive.shownPaints =
      p.shown :: if shape.hasDetail then [{ p.shown with fill := some "none" }] else [] := by
  rw [drawShape]
  split_ifs with hrectangle hdetail hdetail
  · obtain rfl := eq_of_beq hrectangle
    cases hdetail
  · rfl
  all_goals
    rw [← isSome_shapeDetail box] at hdetail
    rw [List.flatMap_cons]
    cases h : shapeDetail? box shape <;> simp_all
    rfl

/-- A node paints its shape with what its own style or else the theme says. -/
theorem shownPaints_drawNode (theme : Theme Float32) (pad : Float32) (n : PlacedNode Float32) :
    (drawNode theme pad n).flatMap Primitive.shownPaints = n.shownPaints theme := by
  rw [drawNode, List.flatMap_append, shownPaints_drawShape, centredLines, shownPaints_text,
    List.append_nil]
  rfl

theorem flatMap_singleton_if {β γ : Type} (q : β → Bool) (f : β → γ) (l : List β) :
    (l.flatMap fun x => if q x then [f x] else []) = (l.filter q).map f := by
  induction l with
  | nil => rfl
  | cons x l ih => cases h : q x <;> simp [h, ih]

/-- **What a drawing paints are the boxes, lines, shapes and patches of the layout**, with the
colours, widths and dash patterns of the layout or of the theme. -/
theorem Layout.shownPaints_draw (l : Layout Float32) (theme : Theme Float32)
    (options : DrawingOptions Float32) :
    (l.draw theme options).elements.flatMap Primitive.shownPaints = l.shownPaints theme := by
  simp only [Layout.draw, Layout.shownPaints, List.flatMap_append, List.flatMap_assoc,
    shownPaints_drawBlock, shownPaints_drawEdgeLine, shownPaints_drawNode,
    shownPaints_drawEdgeLabel, flatMap_singleton_if, ← List.map_eq_flatMap]

/-! ## The main result -/

/-- **Nothing in a drawing can break out of its place.** The written text is read as the tags of the
picture, each of which begins at one `<` of the text and no other `<` is left. The elements that
hold text are the titles and labels of the layout with their fonts and colours, in order. Those that
paint are the symbols, the background and the parts of the layout, in order, each with the colours,
width and dash pattern that the layout or else the theme gives it. Escaped text reads back as it was
and holds no angle bracket and no quote. -/
theorem Layout.toSvg_reads (l : Layout Float32) (theme : Theme Float32)
    (options : DrawingOptions Float32) :
    readMarkup? (l.toSvg theme options) = some (pictureTags (l.draw theme options)) ∧
    (l.toSvg theme options).toList.count '<' = (pictureTags (l.draw theme options)).length ∧
    linesRead (pictureTags (l.draw theme options)) = l.shownLines theme ∧
    paintsRead (pictureTags (l.draw theme options)) =
      framePaints theme.line options.background ++ l.shownPaints theme ∧
    ∀ s, unescapeMarkup (escapeMarkup s) = s ∧
      '<' ∉ (escapeMarkup s).toList ∧ '>' ∉ (escapeMarkup s).toList ∧
      '"' ∉ (escapeMarkup s).toList ∧ '\'' ∉ (escapeMarkup s).toList := by
  have hread : readMarkup? (l.toSvg theme options) = some (pictureTags (l.draw theme options)) :=
    (hasTags_document (l.plainPath_draw theme options)).readMarkup?
  refine ⟨hread, (length_of_readMarkup? hread).symm, ?_, ?_, fun s => ⟨unescapeMarkup_escapeMarkup s,
    ?_, ?_, ?_, ?_⟩⟩
  · rw [linesRead_pictureTags, l.shownLines_draw theme options]
  · rw [paintsRead_pictureTags, l.shownPaints_draw theme options]
    rfl
  all_goals exact not_mem_escapeMarkup rfl (by decide) s

/-- A node whose label and colours try to end their element, with a dotted line beside it. -/
def hostile : Layout Float32 where
  direction := .topDown
  nodes := [
    { id := "a", box := ⟨0.0, 0.0, 80.0, 40.0⟩, shape := .rectangle
      label := ⟨["</text><script>", "", "\"&'"], 60.0, 30.0⟩
      style :=
        { fill := some "red\"/><script x='", textColor := some "&lt;", fontWeight := some "'" } }]
  edges := [
    { source := "a", target := "a", label := none, points := [⟨90.0, 0.0⟩, ⟨90.0, 40.0⟩]
      curved := false, kind := .plain, line := .dotted, arrowStart := false, arrowEnd := false
      startMarker := none, endMarker := none }]
  blocks := []
  width := 90.0
  height := 40.0
  stats := default

/-- Labels and colours that would end their attribute or their element are read back from the
drawing as they are, next to what the theme gives for all else. -/
theorem Layout.toSvg_reads_hostile : ∃ tags,
    readMarkup? (hostile.toSvg .modern ⟨8.0, "white"⟩) = some tags ∧
    linesRead tags = [
      ⟨"</text><script>", some "Inter, Segoe UI, system-ui, -apple-system, sans-serif", some "&lt;",
        some "'"⟩,
      ⟨"\"&'", some "Inter, Segoe UI, system-ui, -apple-system, sans-serif", some "&lt;", some "'"⟩] ∧
    paintsRead tags = framePaints "#7A8AA6" "white" ++
      [⟨some "none", some "#7A8AA6", some "1.40", some "3 3"⟩,
        ⟨some "red\"/><script x='", some "#C7D2E5", some "1.40", none⟩] := by
  obtain ⟨hread, -, hlines, hpaints, -⟩ := hostile.toSvg_reads .modern ⟨8.0, "white"⟩
  exact ⟨_, hread, hlines.trans (by decide +kernel), hpaints.trans (by decide +kernel)⟩

end Flowchart
