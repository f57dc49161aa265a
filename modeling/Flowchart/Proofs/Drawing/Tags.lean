import Flowchart.Proofs.Drawing.Escaping

/-!
# Reading markup back

A reader that knows nothing about what was written: a text is cut at every `<`, and each part after
the first one has to be a tag up to the next `>`, with text after it. Inside a tag, attribute values
stand between double quotes. Entities are read in values and in text.

What is read from a written tree are the tags of the tree, the values of its attributes and its
texts as they were before they were escaped, `reads_render`. Since the reader takes every `<` for
the beginning of a tag, no tag begins in a text or a value.
-/

namespace Flowchart

/-! ## The reader -/

/-- A tag with the text after it. -/
structure Tag where
  /-- its name; that of a closing tag begins with a slash -/
  name : String
  /-- its attributes with their values -/
  attributes : List (String × String) := []
  /-- it stands for an element without content -/
  void : Bool := false
  /-- the text between this tag and the next one -/
  text : String := ""
  deriving Repr, DecidableEq

/-- The character may stand in the name of a tag or an attribute. -/
def isTagChar (c : Char) : Bool := c.isAlphanum || c == '-'

/-- Reads what stands before the value of an attribute: a blank, the name and an equals sign. -/
def readAttributeName? (cs : List Char) : Option String :=
  match cs with
  | ' ' :: rest =>
    let name := rest.takeWhile isTagChar
    if rest.dropWhile isTagChar == ['='] then some (String.ofList name) else none
  | _ => none

/-- Reads the attributes of a tag, which is cut at its quotes, and whether it ends in a slash. -/
def readAttributes? : List (List Char) → Option (List (String × String) × Bool)
  | [] => none
  | [last] =>
    if last.isEmpty then some ([], false) else if last == ['/'] then some ([], true) else none
  | before :: value :: rest =>
    match readAttributeName? before, readAttributes? rest with
    | some name, some (attributes, void) =>
      some ((name, String.ofList (unescapeChars value)) :: attributes, void)
    | _, _ => none

/-- Reads the name of a tag, to which a slash may belong, its attributes, and the text after it. -/
def readTagFrom? (slash : String) (cs : List Char) : Option Tag :=
  let name := cs.takeWhile isTagChar
  let rest := cs.dropWhile isTagChar
  match rest.dropWhile (· != '>') with
  | [] => none
  | _ :: text =>
    (readAttributes? ((rest.takeWhile (· != '>')).splitOnP (· == '"'))).map
      fun (attributes, void) =>
        ⟨slash ++ String.ofList name, attributes, void, String.ofList (unescapeChars text)⟩

/-- Reads what follows a `<`. -/
def readTag? : List Char → Option Tag
  | '/' :: cs => readTagFrom? "/" cs
  | cs => readTagFrom? "" cs

/-- Reads a text that is made of tags: nothing stands before the first one. -/
def readMarkup? (s : String) : Option (List Tag) :=
  match s.toList.splitOnP (· == '<') with
  | [] :: tags => tags.mapM readTag?
  | _ => none

/-- A text that is cut at a sign has one part more than it has such signs. -/
theorem length_splitOnP_eq_count (cs : List Char) :
    (cs.splitOnP (· == '<')).length = cs.count '<' + 1 := by
  induction cs with
  | nil => rfl
  | cons c cs ih =>
    rw [List.splitOnP_cons_eq_if_modifyHead, List.count_cons, ← Nat.add_right_comm, ← ih]
    split_ifs
    · rfl
    · exact List.length_modifyHead

/-- Every part is read as one tag, or nothing is. -/
theorem length_mapM_readTag? {parts : List (List Char)} {tags : List Tag}
    (h : parts.mapM readTag? = some tags) : tags.length = parts.length := by
  induction parts generalizing tags with
  | nil =>
    obtain rfl : [] = tags := Option.some.inj h
    rfl
  | cons part parts ih =>
    rw [List.mapM_cons] at h
    obtain ⟨tag, -, h⟩ := Option.bind_eq_some_iff.mp h
    obtain ⟨rest, hrest, h⟩ := Option.bind_eq_some_iff.mp h
    obtain rfl : tag :: rest = tags := Option.some.inj h
    rw [List.length_cons, List.length_cons, ih hrest]

/-- **Every `<` of a text that is read begins one of its tags.** -/
theorem length_of_readMarkup? {s : String} {tags : List Tag} (h : readMarkup? s = some tags) :
    tags.length = s.toList.count '<' := by
  unfold readMarkup? at h
  split at h
  · next parts hparts =>
    have hcount := length_splitOnP_eq_count s.toList
    rw [hparts, List.length_cons] at hcount
    rw [length_mapM_readTag? h, Nat.succ.inj hcount]
  · cases h

/-! ## Tags and attributes -/

/-- The name of a tag or an attribute. -/
def IsTagName (name : String) : Prop := ∀ c ∈ name.toList, isTagChar c = true

instance (name : String) : Decidable (IsTagName name) :=
  List.decidableBAll (fun c => isTagChar c = true) name.toList

/-- The attribute has a name and was written from a text. -/
def Attribute.Proper (a : Attribute) : Prop :=
  IsTagName a.name ∧ ∃ s, a.value = escapeMarkup s

/-- The name of an attribute with the text that it was written from. -/
def Attribute.field (a : Attribute) : String × String := (a.name, unescapeMarkup a.value)

/-- The characters of written attributes. -/
def attributeChars (attributes : List Attribute) : List Char :=
  attributes.flatMap fun a => ' ' :: (a.name.toList ++ '=' :: '"' :: (a.value.toList ++ ['"']))

/-- The attributes of a tag are written one after the other, each behind a blank. -/
theorem toList_attributesText (attributes : List Attribute) :
    (Markup.attributesText attributes).toList = attributeChars attributes := by
  rw [Markup.attributesText, String.toList_join, List.flatMap_map]
  refine List.flatMap_congr fun a _ => ?_
  simp

/-- A character of a name is none of those that end it. -/
theorem ne_of_isTagChar {c d : Char} (h : isTagChar c = true) (hd : isTagChar d = false) :
    c ≠ d := by
  rintro rfl
  rw [h] at hd
  cases hd

/-- A written value holds no reserved character but ampersands. -/
theorem Attribute.Proper.not_mem {a : Attribute} (h : a.Proper) {c : Char}
    (hc : isReserved c = true) (hamp : c ≠ '&') : c ∉ a.value.toList := by
  obtain ⟨-, s, hs⟩ := h
  rw [hs]
  exact not_mem_escapeMarkup hc hamp s

/-- A character that ends a tag or begins one stands in no written attribute. -/
theorem not_mem_attributeChars {attributes : List Attribute} (h : ∀ a ∈ attributes, a.Proper)
    {c : Char} (hc : c = '<' ∨ c = '>') : c ∉ attributeChars attributes := by
  intro hmem
  obtain ⟨a, ha, hmem⟩ := List.mem_flatMap.mp hmem
  have hvalue := (h a ha).not_mem (c := c) (by rcases hc with rfl | rfl <;> rfl)
    (by rcases hc with rfl | rfl <;> decide)
  have hname : c ∉ a.name.toList := fun hname =>
    ne_of_isTagChar ((h a ha).1 c hname) (by rcases hc with rfl | rfl <;> rfl) rfl
  simp only [List.mem_cons, List.mem_append, List.not_mem_nil, hvalue, hname] at hmem
  rcases hc with rfl | rfl <;> simp at hmem

/-- A name is read up to the first character that cannot belong to it. -/
theorem takeWhile_isTagChar {name : List Char} (h : ∀ c ∈ name, isTagChar c = true) {c : Char}
    (hc : isTagChar c = false) (rest : List Char) :
    (name ++ c :: rest).takeWhile isTagChar = name ∧
      (name ++ c :: rest).dropWhile isTagChar = c :: rest := by
  rw [List.takeWhile_append_of_pos h, List.dropWhile_append_of_pos h,
    List.takeWhile_cons_of_neg (by simp [hc]), List.dropWhile_cons_of_neg (by simp [hc]),
    List.append_nil]
  exact ⟨rfl, rfl⟩

/-- The name of an attribute is what stands between a blank and an equals sign. -/
theorem readAttributeName?_written {a : Attribute} (h : a.Proper) :
    readAttributeName? (' ' :: (a.name.toList ++ ['='])) = some a.name := by
  obtain ⟨htake, hdrop⟩ := takeWhile_isTagChar h.1 (c := '=') rfl []
  simp [readAttributeName?, htake, hdrop]

/-- **Attributes are read as they were before they were written.** -/
theorem readAttributes?_written {attributes : List Attribute} (h : ∀ a ∈ attributes, a.Proper)
    (void : Bool) :
    readAttributes? ((attributeChars attributes ++ if void then ['/'] else []).splitOnP (· == '"')) =
      some (attributes.map Attribute.field, void) := by
  generalize htail : (if void then ['/'] else []) = tail
  induction attributes with
  | nil =>
    subst htail
    cases void <;> decide
  | cons a attributes ih =>
    obtain ⟨ha, hrest⟩ := List.forall_mem_cons.mp h
    have hbefore : ∀ c ∈ ' ' :: (a.name.toList ++ ['=']), (c == '"') = false := by
      intro c hc
      rw [List.mem_cons, List.mem_append, List.mem_singleton] at hc
      rcases hc with rfl | hc | rfl
      · rfl
      · exact beq_eq_false_iff_ne.mpr (ne_of_isTagChar (ha.1 c hc) rfl)
      · rfl
    have hvalue : ∀ c ∈ a.value.toList, (c == '"') = false := fun c hc =>
      beq_eq_false_iff_ne.mpr fun he => ha.not_mem (c := '"') rfl (by decide) (he ▸ hc)
    have hchars : attributeChars (a :: attributes) ++ tail =
        (' ' :: (a.name.toList ++ ['='])) ++ '"' :: (a.value.toList ++ '"' ::
          (attributeChars attributes ++ tail)) := by
      simp [attributeChars]
    rw [hchars, List.splitOnP_append_cons_of_forall_mem hbefore '"' rfl,
      List.splitOnP_append_cons_of_forall_mem hvalue '"' rfl, readAttributes?,
      readAttributeName?_written ha, ih hrest]
    rfl

/-! ## Reading what was written -/

/-- A text is read as some text and tags after it. -/
def Reads (cs : List Char) (text : String) (tags : List Tag) : Prop :=
  ∃ first parts, cs.splitOnP (· == '<') = first :: parts ∧
    String.ofList (unescapeChars first) = text ∧ parts.mapM readTag? = some tags

variable {cs : List Char} {t : String} {tags : List Tag}

/-- What is put before the first cut joins the first part. -/
theorem splitOnP_append {p : Char → Bool} {xs ys first : List Char} {parts : List (List Char)}
    (hxs : ∀ c ∈ xs, p c = false) (hys : ys.splitOnP p = first :: parts) :
    (xs ++ ys).splitOnP p = (xs ++ first) :: parts := by
  induction xs with
  | nil => exact hys
  | cons x xs ih =>
    obtain ⟨hx, hxs⟩ := List.forall_mem_cons.mp hxs
    rw [List.cons_append, List.splitOnP_cons_eq_if_modifyHead, hx, if_neg Bool.false_ne_true, ih hxs]
    rfl

theorem reads_nil : Reads [] "" [] := ⟨[], [], rfl, rfl, rfl⟩

/-- Escaped text is read as the text that it was. -/
theorem Reads.text (h : Reads cs t tags) (s : String) :
    Reads ((escapeMarkup s).toList ++ cs) (s ++ t) tags := by
  obtain ⟨first, parts, hcut, htext, htags⟩ := h
  have hfree : ∀ c ∈ (escapeMarkup s).toList, (c == '<') = false := fun c hc =>
    beq_eq_false_iff_ne.mpr fun he => not_mem_escapeMarkup rfl (by decide) s (he ▸ hc)
  refine ⟨(escapeMarkup s).toList ++ first, parts, splitOnP_append hfree hcut, ?_, htags⟩
  rw [escapeMarkup, String.toList_ofList, unescapeChars_escape_append, String.ofList_append,
    String.ofList_toList, htext]

/-- The characters of a tag after its name. -/
def tagTail (void : Bool) (attributes : List Attribute) : List Char :=
  attributeChars attributes ++ if void then ['/'] else []

/-- What follows the name of a written tag holds no angle bracket, so the tag ends at the first one
after it. -/
theorem not_mem_tagTail {attributes : List Attribute} (h : ∀ a ∈ attributes, a.Proper) (void : Bool)
    {c : Char} (hc : c = '<' ∨ c = '>') : c ∉ tagTail void attributes := by
  rw [tagTail, List.mem_append, not_or]
  refine ⟨not_mem_attributeChars h hc, ?_⟩
  rcases hc with rfl | rfl <;> cases void <;> decide

/-- The name of a tag ends before its attributes. -/
theorem exists_tagTail_append (void : Bool) (attributes : List Attribute) (rest : List Char) :
    ∃ c cs, tagTail void attributes ++ '>' :: rest = c :: cs ∧ isTagChar c = false := by
  cases attributes with
  | nil => cases void <;> exact ⟨_, _, rfl, rfl⟩
  | cons a attributes => exact ⟨_, _, rfl, rfl⟩

/-- A written tag is read with its name and with the attributes that were written, and the text
after it is read with its entities resolved. -/
theorem readTagFrom?_written (slash : String) (void : Bool) {name : String}
    {attributes : List Attribute} (hname : IsTagName name)
    (hattributes : ∀ a ∈ attributes, a.Proper) (rest : List Char) :
    readTagFrom? slash (name.toList ++ (tagTail void attributes ++ '>' :: rest)) =
      some ⟨slash ++ name, attributes.map Attribute.field, void,
        String.ofList (unescapeChars rest)⟩ := by
  obtain ⟨c, cs, hcs, hc⟩ := exists_tagTail_append void attributes rest
  have hinside : ∀ d ∈ tagTail void attributes, (d != '>') = true := fun d hd =>
    bne_iff_ne.mpr fun he => not_mem_tagTail hattributes void (.inr rfl) (he ▸ hd)
  obtain ⟨htake, hdrop⟩ := takeWhile_isTagChar hname hc cs
  have hattrs := readAttributes?_written hattributes void
  rw [← hcs] at htake hdrop
  rw [readTagFrom?, htake, hdrop, List.dropWhile_append_of_pos hinside,
    List.takeWhile_append_of_pos hinside, List.dropWhile_cons_of_neg (by decide),
    List.takeWhile_cons_of_neg (by decide), List.append_nil]
  simp only [tagTail, hattrs, Option.map_some, String.ofList_toList]

/-- The characters of a tag between its angle brackets. -/
def tagChars (slash void : Bool) (name : String) (attributes : List Attribute) : List Char :=
  (if slash then ['/'] else []) ++ (name.toList ++ tagTail void attributes)

/-- This holds of opening and closing tags, as the reader keeps the slash as a part of the name. -/
theorem readTag?_written {slash void : Bool} {name : String} {attributes : List Attribute}
    (hname : IsTagName name) (hne : name ≠ "") (hattributes : ∀ a ∈ attributes, a.Proper)
    (rest : List Char) :
    readTag? (tagChars slash void name attributes ++ '>' :: rest) =
      some ⟨(if slash then "/" else "") ++ name, attributes.map Attribute.field, void,
        String.ofList (unescapeChars rest)⟩ := by
  have hfrom := fun s => readTagFrom?_written s void hname hattributes rest
  cases slash with
  | true =>
    rw [tagChars, if_pos rfl, if_pos rfl, List.append_assoc, List.append_assoc]
    exact hfrom "/"
  | false =>
    obtain ⟨c, cs, hcs⟩ : ∃ c cs, name.toList = c :: cs :=
      List.exists_cons_of_ne_nil fun hnil => hne (String.toList_eq_nil_iff.mp hnil)
    have hc : c ≠ '/' := ne_of_isTagChar (hname c (hcs ▸ List.mem_cons_self)) rfl
    rw [tagChars, if_neg Bool.false_ne_true, if_neg Bool.false_ne_true, List.nil_append,
      List.append_assoc, ← hfrom "", hcs, List.cons_append, readTag?]
    exact fun _ he => hc (List.cons.inj he).1

/-- A written tag is read as itself, with the text that is read after it. -/
theorem Reads.tag (h : Reads cs t tags) (slash void : Bool) {name : String}
    {attributes : List Attribute} (hname : IsTagName name) (hne : name ≠ "")
    (hattributes : ∀ a ∈ attributes, a.Proper) :
    Reads ('<' :: (tagChars slash void name attributes ++ '>' :: cs)) ""
      (⟨(if slash then "/" else "") ++ name, attributes.map Attribute.field, void, t⟩ :: tags) := by
  obtain ⟨first, parts, hcut, rfl, htags⟩ := h
  have hfree : ∀ c ∈ tagChars slash void name attributes ++ ['>'], (c == '<') = false := by
    intro c hc
    refine beq_eq_false_iff_ne.mpr ?_
    rintro rfl
    simp only [tagChars, List.mem_append, List.mem_singleton] at hc
    rcases hc with (hc | hc | hc) | hc
    · cases slash <;> simp at hc
    · exact ne_of_isTagChar (hname _ hc) rfl rfl
    · exact not_mem_tagTail hattributes void (.inl rfl) hc
    · exact absurd hc (by decide)
  refine ⟨[], (tagChars slash void name attributes ++ '>' :: first) :: parts, ?_, rfl, ?_⟩
  · have hrest := splitOnP_append hfree hcut
    rw [List.splitOnP_cons_eq_if_modifyHead, if_pos (beq_self_eq_true '<')]
    rw [List.append_assoc, List.append_assoc] at hrest
    exact congrArg ([] :: ·) hrest
  · rw [List.mapM_cons, readTag?_written hname hne hattributes, htags]
    rfl

namespace Markup

/-! ## Whole trees -/

mutual

/-- Tags and attributes have names, and every value was written from a text. -/
def Proper : Markup → Prop
  | void name attributes => (IsTagName name ∧ name ≠ "") ∧ ∀ a ∈ attributes, a.Proper
  | node name attributes children =>
    ((IsTagName name ∧ name ≠ "") ∧ ∀ a ∈ attributes, a.Proper) ∧ AllProper children
  | text _ => True

/-- All pieces are proper. -/
def AllProper : List Markup → Prop
  | [] => True
  | m :: rest => Proper m ∧ AllProper rest

end

mutual

/-- The tags of a piece of a document, and the text before them, if a text and tags follow it. -/
def tagsBefore : Markup → String × List Tag → String × List Tag
  | void name attributes, (t, tags) =>
    ("", ⟨name, attributes.map Attribute.field, true, t⟩ :: tags)
  | node name attributes children, (t, tags) =>
    let inner := allTagsBefore children ("", ⟨"/" ++ name, [], false, t⟩ :: tags)
    ("", ⟨name, attributes.map Attribute.field, false, inner.1⟩ :: inner.2)
  | text content, (t, tags) => (content ++ t, tags)

/-- The tags of pieces one after the other. -/
def allTagsBefore : List Markup → String × List Tag → String × List Tag
  | [], after => after
  | m :: rest, after => tagsBefore m (allTagsBefore rest after)

end

mutual

/-- **A written tree is read as its tags**, with values and texts as they were. -/
theorem reads_render (m : Markup) (hm : m.Proper) {cs : List Char} {t : String} {tags : List Tag}
    (h : Reads cs t tags) :
    Reads (m.render.toList ++ cs) (m.tagsBefore (t, tags)).1 (m.tagsBefore (t, tags)).2 := by
  cases m with
  | void name attributes =>
    obtain ⟨⟨hname, hne⟩, hattributes⟩ := hm
    have htag := h.tag false true hname hne hattributes
    have hchars : (render (.void name attributes)).toList ++ cs =
        '<' :: (tagChars false true name attributes ++ '>' :: cs) := by
      simp [render, tagChars, tagTail, toList_attributesText]
    rw [hchars]
    exact htag
  | node name attributes children =>
    obtain ⟨⟨⟨hname, hne⟩, hattributes⟩, hchildren⟩ := hm
    have hclose := h.tag true false hname hne (List.forall_mem_nil Attribute.Proper)
    have hinner := reads_renderAll children hchildren hclose
    have hopen := hinner.tag false false hname hne hattributes
    have hchars : (render (.node name attributes children)).toList ++ cs =
        '<' :: (tagChars false false name attributes ++ '>' :: ((renderAll children).toList ++
          '<' :: (tagChars true false name [] ++ '>' :: cs))) := by
      simp [render, tagChars, tagTail, toList_attributesText, attributeChars]
    rw [hchars]
    exact hopen
  | text content => exact h.text content

/-- Trees that are written one after the other are read as the tags of all of them. -/
theorem reads_renderAll (ms : List Markup) (hms : AllProper ms) {cs : List Char} {t : String}
    {tags : List Tag} (h : Reads cs t tags) :
    Reads ((renderAll ms).toList ++ cs) (allTagsBefore ms (t, tags)).1
      (allTagsBefore ms (t, tags)).2 := by
  cases ms with
  | nil => exact h
  | cons m ms =>
    have hfirst := reads_render m hms.1 (reads_renderAll ms hms.2 h)
    rwa [← List.append_assoc, ← String.toList_append] at hfirst

end

/-- A document that begins with a tag is read as its tags. -/
theorem readMarkup?_render {m : Markup} (hm : m.Proper) {tags : List Tag}
    (htags : m.tagsBefore ("", []) = ("", tags)) : readMarkup? m.render = some tags := by
  obtain ⟨first, parts, hcut, hfirst, hparts⟩ := reads_render m hm reads_nil
  rw [htags] at hfirst hparts
  obtain rfl : first = [] := unescapeChars_eq_nil (String.ofList_eq_empty_iff.mp hfirst)
  rw [List.append_nil] at hcut
  rw [readMarkup?, hcut]
  exact hparts

end Markup

/-! ## Trees with written attributes -/

/-- Attributes written from names and values. -/
def written (fields : List (String × String)) : List Attribute :=
  fields.map fun f => .escaped f.1 f.2

/-- Fields that are written in two parts are written in one. -/
theorem written_append (fields others : List (String × String)) :
    written (fields ++ others) = written fields ++ written others :=
  List.map_append

/-- Written fields are the fields of the attributes they are written as. -/
theorem map_field_written (fields : List (String × String)) :
    (written fields).map Attribute.field = fields := by
  have hid : (Attribute.field ∘ fun f : String × String => .escaped f.1 f.2) = id :=
    funext fun f => congrArg (f.1, ·) (unescapeMarkup_escapeMarkup f.2)
  rw [written, List.map_map, hid, List.map_id]

/-- An attribute that is written from a field with a proper name is proper, whatever the text of the
field is. -/
theorem proper_written {fields : List (String × String)} (h : ∀ f ∈ fields, IsTagName f.1) :
    ∀ a ∈ written fields, a.Proper := by
  intro a ha
  obtain ⟨f, hf, rfl⟩ := List.mem_map.mp ha
  exact ⟨h f hf, f.2, rfl⟩

namespace Markup

/-- The piece is proper and has the given tags, with no text before them. -/
def HasTags (m : Markup) (tags : List Tag) : Prop :=
  m.Proper ∧ ∀ after, m.tagsBefore ("", after) = ("", tags ++ after)

/-- All pieces are proper, and together they have the given tags. -/
def AllHaveTags (ms : List Markup) (tags : List Tag) : Prop :=
  AllProper ms ∧ ∀ after, allTagsBefore ms ("", after) = ("", tags ++ after)

theorem allHaveTags_nil : AllHaveTags [] [] := ⟨trivial, fun _ => rfl⟩

/-- Trees next to each other have the tags of the first one and then those of the others. -/
theorem HasTags.cons {m : Markup} {ms : List Markup} {tags rest : List Tag} (hm : m.HasTags tags)
    (hms : AllHaveTags ms rest) : AllHaveTags (m :: ms) (tags ++ rest) := by
  refine ⟨⟨hm.1, hms.1⟩, fun after => ?_⟩
  rw [allTagsBefore, hms.2, hm.2, List.append_assoc]

theorem HasTags.singleton {m : Markup} {tags : List Tag} (h : m.HasTags tags) :
    AllHaveTags [m] tags := by
  have hone := h.cons allHaveTags_nil
  rwa [List.append_nil] at hone

variable {name : String} {attributes : List Attribute} {fields : List (String × String)}

/-- An element without content is read as one tag that closes itself, with its attributes in
order. -/
theorem hasTags_void (hattributes : attributes = written fields) (hname : IsTagName name ∧ name ≠ "")
    (hfields : ∀ f ∈ fields, IsTagName f.1) :
    HasTags (.void name attributes) [⟨name, fields, true, ""⟩] := by
  subst hattributes
  refine ⟨⟨hname, proper_written hfields⟩, fun after => ?_⟩
  rw [tagsBefore, map_field_written]
  rfl

/-- An element has an opening tag, the tags of its content and a closing tag. -/
theorem AllHaveTags.node {children : List Markup} {tags : List Tag}
    (hchildren : AllHaveTags children tags) (hattributes : attributes = written fields)
    (hname : IsTagName name ∧ name ≠ "") (hfields : ∀ f ∈ fields, IsTagName f.1) :
    HasTags (.node name attributes children)
      (⟨name, fields, false, ""⟩ :: tags ++ [⟨"/" ++ name, [], false, ""⟩]) := by
  subst hattributes
  refine ⟨⟨⟨hname, proper_written hfields⟩, hchildren.1⟩, fun after => ?_⟩
  rw [tagsBefore, map_field_written, hchildren.2, List.append_assoc]
  rfl

/-- An element that holds a text has the text with its opening tag. -/
theorem hasTags_label (hattributes : attributes = written fields)
    (hname : IsTagName name ∧ name ≠ "") (hfields : ∀ f ∈ fields, IsTagName f.1)
    (content : String) :
    HasTags (.node name attributes [.text content])
      [⟨name, fields, false, content⟩, ⟨"/" ++ name, [], false, ""⟩] := by
  subst hattributes
  refine ⟨⟨⟨hname, proper_written hfields⟩, trivial, trivial⟩, fun after => ?_⟩
  simp [tagsBefore, allTagsBefore, map_field_written]

/-- A document is read as its tags, from the first character to the last with nothing left over. -/
theorem HasTags.readMarkup? {m : Markup} {tags : List Tag} (h : m.HasTags tags) :
    readMarkup? m.render = some tags := by
  refine readMarkup?_render h.1 ?_
  rw [h.2, List.append_nil]

end Markup

end Flowchart
