import Flowchart.Proofs.Document.Noise
import Flowchart.Proofs.Printing.BareLabels

/-!
# Lines with one labelled node

A line is cut into statements before anything of it is read, so a label must not be cut. The cut
counts brackets, and inside of them no semicolon ends a statement. But one shape is opened by a sign
that is no bracket: the label of a flag is cut at its semicolons although its text is hidden later
on, and what stands before the first one is a shape that is never closed. With this exception, and
that of ids that begin with a keyword of skipped statements, a line with a node and a bare label is
this node: `parseDocument_labelLine`.
-/

namespace Flowchart

/-! ## Cutting a line -/

section Cutting

variable {s : SplitState} {cs rest : List Char}

theorem cutStatements_ne_nil (s : SplitState) (cs : List Char) : cutStatements s cs ≠ [] := by
  cases cs with
  | nil => exact List.cons_ne_nil _ _
  | cons c cs =>
    rw [cutStatements]
    split
    · exact List.cons_ne_nil _ _
    · split <;> exact List.cons_ne_nil _ _

/-- A character that ends no statement belongs to the first one. -/
theorem cutStatements_cons {c : Char} (h : c = ';' → s.isFree = false) (cs : List Char) :
    cutStatements s (c :: cs) = (cutStatements (s.step c) cs).modifyHead (c :: ·) := by
  have hkept : ¬ (c == ';' && s.isFree) = true := by
    rw [Bool.and_eq_true, beq_iff_eq]
    rintro ⟨hc, hfree⟩
    rw [h hc] at hfree
    cases hfree
  rw [cutStatements, if_neg hkept]
  cases hcut : cutStatements (s.step c) cs with
  | nil => exact absurd hcut (cutStatements_ne_nil _ _)
  | cons part parts => rfl

/-- Text without semicolons is not cut, whatever stands in it, and what follows is cut in the state
it leaves. -/
theorem cutStatements_plain (h : ';' ∉ cs) : cutStatements s (cs ++ rest) =
    (cutStatements (cs.foldl SplitState.step s) rest).modifyHead (cs ++ ·) := by
  induction cs generalizing s with
  | nil => exact (congrFun List.modifyHead_id _).symm
  | cons c cs ih =>
    rw [List.cons_append, cutStatements_cons fun hc => absurd (hc ▸ List.mem_cons_self) h,
      ih fun hmem => h (List.mem_cons_of_mem c hmem), List.modifyHead_modifyHead]
    rfl

theorem step_bare {c : Char} (hc : c ∉ labelSigns) (s : SplitState) : s.step c = s := by
  simp only [SplitState.step, isOpening_of_bare hc, isClosing_of_bare hc,
    ne_of_bare hc (show '"' ∈ labelSigns by decide),
    ne_of_bare hc (show '|' ∈ labelSigns by decide), Bool.false_eq_true, if_false, Bool.false_and,
    ite_self]

theorem foldl_step_bare (h : ∀ c ∈ cs, c ∉ labelSigns) (s : SplitState) :
    cs.foldl SplitState.step s = s := by
  induction cs with
  | nil => rfl
  | cons c cs ih =>
    rw [List.foldl_cons, step_bare (h c List.mem_cons_self)]
    exact ih fun d hd => h d (List.mem_cons_of_mem c hd)

/-- Bare text is not cut where nothing is. -/
theorem cutStatements_bare (h : ∀ c ∈ cs, c ∉ labelSigns) (hkept : ';' ∈ cs → s.isFree = false) :
    cutStatements s (cs ++ rest) = (cutStatements s rest).modifyHead (cs ++ ·) := by
  induction cs with
  | nil => exact (congrFun List.modifyHead_id _).symm
  | cons c cs ih =>
    rw [List.cons_append, cutStatements_cons fun hc => hkept (hc ▸ List.mem_cons_self),
      step_bare (h c List.mem_cons_self), ih (fun d hd => h d (List.mem_cons_of_mem c hd))
        fun hmem => hkept (List.mem_cons_of_mem c hmem), List.modifyHead_modifyHead]
    rfl

end Cutting

/-! ## Lines with a node -/

/-- A word is bare text without semicolons, since it is made of letters and digits. -/
theorem Word.bare (w : Word) : ∀ c ∈ w.chars, c ∉ labelSigns ∧ c ≠ ';' := by
  intro c hc
  have hsigns : (';' :: labelSigns).all (fun d => !Text.isIdentifierChar d) = true := by
    decide +kernel
  have hnot : c ∉ ';' :: labelSigns := fun hmem => by
    have hid := List.all_eq_true.mp hsigns c hmem
    rw [w.identifier c hc] at hid
    cases hid
  exact ⟨fun hmem => hnot (List.mem_cons_of_mem _ hmem), fun heq => hnot (heq ▸ List.mem_cons_self)⟩

namespace BareNode

variable (n : BareNode)

/-- The label is cut: it has a semicolon, and its shape is opened by a sign that is no bracket. -/
def IsCut : Prop := n.shape = .asymmetric ∧ ';' ∈ n.label.chars

/-- The brackets that a word and an opening delimiter leave open. -/
theorem foldl_step_opening (w : Word) (s : Shape) :
    (w.chars ++ s.opening).foldl SplitState.step {} = s.opening.foldl SplitState.step {} := by
  rw [List.foldl_append, foldl_step_bare fun c hc => (w.bare c hc).1]

theorem cutStatements_print (hn : ¬ n.IsCut) : cutStatements {} n.print = [n.print] := by
  have hopening : ';' ∉ n.id.chars ++ n.shape.opening := by
    have hshape : ';' ∉ n.shape.opening := by cases n.shape <;> decide
    exact fun hmem => (List.mem_append.mp hmem).elim (fun h => (n.id.bare _ h).2 rfl) hshape
  have hclosing : ';' ∉ n.shape.closing := by cases n.shape <;> decide
  have hfree : n.shape ≠ .asymmetric →
      (n.shape.opening.foldl SplitState.step {}).isFree = false := by
    cases n.shape <;> first | exact fun _ => rfl | exact fun h => absurd rfl h
  have hlast (s : SplitState) : cutStatements s n.shape.closing = [n.shape.closing] := by
    have h : cutStatements s (n.shape.closing ++ []) = _ := cutStatements_plain hclosing
    rw [List.append_nil] at h
    rw [h]
    simp [cutStatements]
  rw [print, ← List.append_assoc, cutStatements_plain hopening, foldl_step_opening,
    cutStatements_bare n.label.bare fun hmem => hfree fun hshape => hn ⟨hshape, hmem⟩, hlast]
  simp

/-- What stands before the first cut of a flag. -/
theorem cutStatements_flag (hn : n.IsCut) : ∃ before after more,
    n.label.chars = before ++ ';' :: after ∧ ';' ∉ before ∧
    cutStatements {} n.print = (n.id.chars ++ '>' :: before) :: more := by
  obtain ⟨hshape, hmem⟩ := hn
  obtain ⟨before, after, hlabel, hfirst⟩ := List.eq_append_cons_of_mem hmem
  have hbare : ∀ c ∈ before, c ∉ labelSigns := fun c hc =>
    n.label.bare c (hlabel ▸ List.mem_append_left _ hc)
  have hopening : ';' ∉ n.id.chars ++ Shape.asymmetric.opening := fun hmem =>
    (List.mem_append.mp hmem).elim (fun h => (n.id.bare _ h).2 rfl) (by decide)
  have hprint : n.print = n.id.chars ++ Shape.asymmetric.opening ++
      (before ++ ';' :: (after ++ n.shape.closing)) := by
    rw [print, hshape, hlabel]
    simp
  refine ⟨before, after, cutStatements {} (after ++ n.shape.closing), hlabel, hfirst, ?_⟩
  rw [hprint, cutStatements_plain hopening, foldl_step_opening,
    cutStatements_bare hbare fun h => absurd h hfirst]
  have hcut : cutStatements (Shape.asymmetric.opening.foldl SplitState.step {})
      (';' :: (after ++ n.shape.closing)) =
      [] :: cutStatements {} (after ++ n.shape.closing) := rfl
  rw [hcut]
  simp [Shape.opening, shapeDelimiters]

/-! ### Statements -/

theorem not_mem_print {c : Char} (hid : Text.isIdentifierChar c = false) (hc : c ∈ labelSigns)
    (hshape : ∀ d ∈ shapeDelimiters, c ∉ d.1 ∧ c ∉ d.2.1) : c ∉ n.print := by
  have hdelimiters : (n.shape.opening, n.shape.closing, n.shape) ∈ shapeDelimiters := by
    cases n.shape <;> decide
  rw [print, List.mem_append, List.mem_append, List.mem_append]
  rintro (hmem | hmem | hmem | hmem)
  · have hword := n.id.identifier c hmem
    rw [hid] at hword
    cases hword
  · exact (hshape _ hdelimiters).1 hmem
  · exact n.label.bare c hmem hc
  · exact (hshape _ hdelimiters).2 hmem

theorem lineStatements_print_eq : lineStatements n.print = splitStatements n.print := by
  have hpercent : '%' ∉ n.print := n.not_mem_print (by decide +kernel) (by decide) (by decide)
  have hcomment : "%%".toList.isPrefixOf n.print = false := by
    rw [← Bool.not_eq_true, List.isPrefixOf_iff_prefix]
    exact fun h => hpercent (h.subset (by decide))
  have hbefore : ∀ {cs : List Char} (quoted : Bool), '%' ∉ cs → beforeComment quoted cs = cs := by
    intro cs
    induction cs with
    | nil => exact fun _ _ => rfl
    | cons c cs ih =>
      intro quoted h
      have hne : (c == '%') = false := beq_eq_false_iff_ne.mpr fun h' => h (h' ▸ List.mem_cons_self)
      rw [beforeComment_cons, hne, Bool.and_false, Bool.false_and, if_neg Bool.false_ne_true,
        ih _ fun h' => h (List.mem_cons_of_mem c h')]
  rw [lineStatements_eq, n.trimChars_print, hcomment, stripComment, hbefore false hpercent,
    n.trimChars_print]
  rfl

/-- A line that is not cut is one statement. -/
theorem lineStatements_print (hn : ¬ n.IsCut) : lineStatements n.print = [n.print] := by
  have hne : n.print.isEmpty = false := List.isEmpty_eq_false_iff.mpr n.print_ne_nil
  rw [lineStatements_print_eq, splitStatements, n.cutStatements_print hn, List.map_singleton,
    n.trimChars_print, List.filter_cons_of_pos (by rw [hne]; rfl)]
  rfl

/-- A flag that is cut leaves a shape open that cannot be read. -/
theorem lineStatements_flag (hn : n.IsCut) : ∃ before after first more,
    n.label.chars = before ++ ';' :: after ∧ ';' ∉ before ∧
    lineStatements n.print = first :: more ∧ (¬ n.id.IsPassedOver → readStatement first =
      .rejected (.openShape (String.ofList ('>' :: Text.dropBack Text.isBlank before)))) := by
  obtain ⟨before, after, more, hlabel, hfirst, hcut⟩ := n.cutStatements_flag hn
  obtain ⟨kept, hkept⟩ : ∃ kept, Text.dropBack Text.isBlank before = kept := ⟨_, rfl⟩
  have hsub : kept ⊆ before := by
    rw [← hkept, Text.dropBack]
    exact fun c hc => List.mem_reverse.mp
      ((List.dropWhile_suffix _).subset (List.mem_reverse.mp hc))
  have hbare : ∀ c ∈ kept, c ∉ labelSigns := fun c hc =>
    n.label.bare c (hlabel ▸ List.mem_append_left _ (hsub hc))
  have hlast : ∀ c ∈ (Shape.asymmetric.opening ++ kept).getLast?, Text.isBlank c = false := by
    refine getLast?_append_of (fun c hc => Option.some.inj hc ▸ rfl) fun c hc => ?_
    rw [← hkept, Text.dropBack, List.getLast?_reverse] at hc
    exact Text.head?_dropFront Text.isBlank before.reverse c hc
  have hopened := opened_unclosed n.id .asymmetric hbare hlast
  have htrim : Text.trimChars (n.id.chars ++ '>' :: before) = n.id.chars ++ '>' :: kept := by
    obtain ⟨c, cs, hword⟩ := List.exists_cons_of_ne_nil n.id.nonempty
    have hfront : Text.dropFront Text.isBlank (n.id.chars ++ '>' :: before) =
        n.id.chars ++ '>' :: before := by
      have hc := Text.isBlank_of_isIdentifierChar (n.id.identifier c (by rw [hword]; simp))
      rw [hword, List.cons_append, Text.dropFront, List.dropWhile_cons_of_neg (by simp [hc])]
    have hsolid : ∀ c ∈ (n.id.chars ++ ['>']).getLast?, Text.isBlank c = false := fun c hc => by
      rw [List.getLast?_concat] at hc
      exact Option.some.inj hc ▸ rfl
    have hback := Text.dropBack_append hsolid before
    rw [List.append_assoc, List.append_assoc, hkept] at hback
    rw [Text.trimChars, hfront]
    exact hback
  have hstatements : lineStatements n.print = (n.id.chars ++ '>' :: kept) ::
      (more.map Text.trimChars).filter (!·.isEmpty) := by
    rw [lineStatements_print_eq, splitStatements, hcut, List.map_cons, htrim,
      List.filter_cons_of_pos (by simp)]
  refine ⟨before, after, _, _, hlabel, hfirst, hstatements, fun hword => ?_⟩
  have hread := hopened.readStatement_of_word hword
  rw [readShape?_unclosed] at hread
  · rw [hkept]
    exact hread
  · intro c hc
    rcases List.mem_cons.mp hc with rfl | hc
    · rfl
    · exact isClosing_of_bare (hbare c hc)

end BareNode

/-! ## Texts -/

/-- The header names the direction, or none where it is the usual one. -/
def Header.Names (h : Header) (d : Direction) : Prop :=
  if h.token.isEmpty then d = .topDown else Direction.ofToken? (String.ofList h.token) = some d

/-- A line that is a header and nothing else. -/
structure HeaderLine (line : List Char) (d : Direction) : Prop where
  unbroken : '\n' ∉ line
  /-- a carriage return at the end would belong to the line break -/
  ended : line.getLast? ≠ some '\r'
  reads : ∃ first h, lineStatements line = [first] ∧ readHeader? first = some h ∧
    h.statement = [] ∧ h.Names d

/-- Either keyword with any direction makes such a line. -/
theorem headerLine_keyword {keyword : String} (h : keyword ∈ ["flowchart", "graph"])
    (d : Direction) : HeaderLine (keyword ++ " " ++ d.token).toList d := by
  refine ⟨?_, ?_, (keyword ++ " " ++ d.token).toList, ⟨keyword, d.token.toList, []⟩, ?_, ?_, rfl, ?_⟩
  all_goals
    simp only [List.mem_cons, List.not_mem_nil, or_false] at h
    rcases h with rfl | rfl <;> cases d <;> first | rfl | decide +kernel

/-- A text of a header line and one more line. -/
def twoLines (header line : List Char) : String := String.ofList (header ++ '\n' :: line)

theorem linesOf_twoLines {header line : List Char} (hheader : '\n' ∉ header)
    (hended : header.getLast? ≠ some '\r') (hline : '\n' ∉ line) (hne : line ≠ []) :
    linesOf (twoLines header line) = [header, line] := by
  have hbreak : ∀ {cs : List Char}, '\n' ∉ cs → ∀ c ∈ cs, (c == '\n') = false := fun h c hc =>
    beq_eq_false_iff_ne.mpr fun heq => h (heq ▸ hc)
  have hsplit : (header ++ '\n' :: line).splitOnP (· == '\n') = [header, line] := by
    rw [List.splitOnP_append_cons_of_forall_mem (hbreak hheader) _ rfl,
      List.splitOnP_eq_singleton (hbreak hline)]
  obtain ⟨c, cs, rfl⟩ := List.exists_cons_of_ne_nil hne
  have hreturn : Text.dropOneReturn header = header :=
    if_neg fun h => hended (beq_iff_eq.mp h)
  rw [linesOf, twoLines, Text.lines, String.toList_ofList, hsplit]
  simp [hreturn]

/-- The statements of the second line are carried out on an empty diagram. -/
theorem parseDocument_twoLines {header line : List Char} {d : Direction}
    (hheader : HeaderLine header d) (hline : '\n' ∉ line) (hne : line ≠ []) :
    ∃ doc, parseDocument (twoLines header line) = .ok doc ∧
      doc.diagram = (Builder.runAll { diagram := { direction := d } }
        ((lineStatements line).map fun s => (2, readStatement s))).finish ∧
      doc.warnings = (Builder.runAll { diagram := { direction := d } }
        ((lineStatements line).map fun s => (2, readStatement s))).warnings := by
  obtain ⟨first, h, hfirst, hread, hstatement, hnames⟩ := hheader.reads
  have hlines := linesOf_twoLines hheader.unbroken hheader.ended hline hne
  have hnumbered : numberedStatements [header, line] =
      (1, first) :: (lineStatements line).map fun s => (2, s) := by
    rw [numberedStatements_eq]
    simp [hfirst]
  have hstart : ∀ lines, startDiagram lines 1 h = .ok { diagram := { direction := d } } := by
    intro lines
    unfold Header.Names at hnames
    unfold startDiagram
    split at hnames
    next htoken =>
      rw [if_pos htoken, hnames]
    next htoken =>
      rw [if_neg htoken, hnames]
      simp [hstatement]
  have hparse : parseDocument (twoLines header line) = parseLines readSettings? [header, line] := by
    rw [← hlines]
    rfl
  refine ⟨⟨_, lastSettings? readSettings? [header, line], _⟩, ?_, rfl, rfl⟩
  rw [hparse, parseLines, hnumbered]
  dsimp only
  rw [hread]
  dsimp only
  rw [hstart]
  dsimp only
  rw [runStatements_eq, List.map_map]
  rfl

/-- The document is one node with its label, and nothing was skipped. -/
structure Document.ShowsOnly (doc : Document) (n : BareNode) : Prop where
  quiet : doc.warnings = []
  nodes : doc.diagram.nodes = [{ id := String.ofList n.id.chars
                                 label := some (String.ofList n.label.chars)
                                 shape := n.shape }]
  edges : doc.diagram.edges = []

/-- **A line with a node and a bare label** below a header is read as this node alone, whatever the
label holds, with two exceptions. A flag is cut at the first semicolon of its label, and what stands
before it is reported as a shape that is not closed. An id that begins with a keyword of skipped
statements is skipped with its line. -/
theorem parseDocument_labelLine {header : List Char} {d : Direction}
    (hheader : HeaderLine header d) (n : BareNode) :
    ∃ doc, parseDocument (twoLines header n.print) = .ok doc ∧
      (¬ n.id.IsPassedOver → ¬ n.IsCut → doc.ShowsOnly n) ∧
      (¬ n.id.IsPassedOver → n.IsCut → ∃ before after, n.label.chars = before ++ ';' :: after ∧
        ';' ∉ before ∧ doc.warnings.head? =
          some ⟨2, .openShape (String.ofList ('>' :: Text.dropBack Text.isBlank before))⟩) ∧
      (n.id.IsPassedOver → ¬ n.IsCut → doc.warnings = [] ∧ doc.diagram.nodes = []) := by
  have hline : '\n' ∉ n.print := n.not_mem_print (by decide +kernel) (by decide) (by decide)
  obtain ⟨doc, hdoc, hdiagram, hwarnings⟩ := parseDocument_twoLines hheader hline n.print_ne_nil
  refine ⟨doc, hdoc, fun hword hcut => ?_, fun hword hcut => ?_, fun hword hcut => ?_⟩
  · have hstatements := n.lineStatements_print hcut
    rw [hstatements, List.map_singleton, n.readStatement_print hword] at hdiagram hwarnings
    exact ⟨hwarnings, by rw [hdiagram]; rfl, by rw [hdiagram]; rfl⟩
  · obtain ⟨before, after, first, more, hlabel, hfirst, hstatements, hread⟩ :=
      n.lineStatements_flag hcut
    refine ⟨before, after, hlabel, hfirst, ?_⟩
    rw [hwarnings, hstatements, List.map_cons, hread hword, Builder.warnings_runAll]
    rfl
  · have hstatements := n.lineStatements_print hcut
    rw [hstatements, List.map_singleton, n.readStatement_passedOver hword] at hdiagram hwarnings
    exact ⟨hwarnings, by rw [hdiagram]; rfl⟩

/-- The text of a label is checked character by character. -/
def BareLabel.ofString (s : String) (nonempty : s.toList ≠ [])
    (bare : s.toList.all (fun c => !labelSigns.contains c) = true)
    (first : s.toList.head?.all Text.isIdentifierChar = true)
    (last : s.toList.getLast?.all Text.isIdentifierChar = true) : BareLabel where
  chars := s.toList
  nonempty := nonempty
  bare := by simpa using bare
  first := Option.all_eq_true _ _ |>.mp first
  last := Option.all_eq_true _ _ |>.mp last

/-- A decision whose label holds all that separates or links nodes elsewhere. -/
def crowded : BareNode where
  id := ⟨['a'], by decide, List.all_eq_true.mp (by decide +kernel)⟩
  shape := .diamond
  label := .ofString "x; y --> z ::: w & <v" (by decide) (by decide) (by decide +kernel)
    (by decide +kernel)

/-- A decision whose label has an arrow, a class mark, a semicolon and an opening in it is read with
exactly this label. -/
theorem parseDocument_labelLine_crowded : ∃ doc,
    twoLines "graph TB".toList crowded.print = "graph TB\na\x7bx; y --> z ::: w & <v\x7d" ∧
    parseDocument (twoLines "graph TB".toList crowded.print) = .ok doc ∧ doc.ShowsOnly crowded := by
  have hgraph : "graph" ∈ ["flowchart", "graph"] := by decide
  have hheader : HeaderLine "graph TB".toList .topDown := headerLine_keyword hgraph .topDown
  obtain ⟨doc, hdoc, hshows, -⟩ := parseDocument_labelLine hheader crowded
  have hword : ¬ crowded.id.IsPassedOver := by
    rw [Word.isPassedOver_iff]
    decide +kernel
  exact ⟨doc, by decide +kernel, hdoc, hshows hword fun hcut => Shape.noConfusion hcut.1⟩

/-- A flag with a semicolon in its label. -/
def cutFlag : BareNode where
  id := ⟨['a'], by decide, List.all_eq_true.mp (by decide +kernel)⟩
  shape := .asymmetric
  label := .ofString "x;y" (by decide) (by decide) (by decide +kernel) (by decide +kernel)

/-- Of a flag with a semicolon in its label nothing is left: both halves are warned about, and the
diagram has no nodes. -/
theorem parseDocument_labelLine_flag : ∃ doc,
    twoLines "graph TD".toList cutFlag.print = "graph TD\na>x;y]" ∧
    parseDocument (twoLines "graph TD".toList cutFlag.print) = .ok doc ∧
    doc.warnings.map Diagnostic.message = ["line 2: unterminated shape `>x`",
      "line 2: invalid node reference `y]`"] ∧
    doc.diagram.nodes.length = 0 ∧ ¬ doc.ShowsOnly cutFlag := by
  have hread : (parseDocument (twoLines "graph TD".toList cutFlag.print)).toOption.map (fun doc =>
      (doc.warnings.map Diagnostic.message, doc.diagram.nodes.length)) =
      some (["line 2: unterminated shape `>x`", "line 2: invalid node reference `y]`"], 0) := by
    decide +kernel
  obtain ⟨doc, hdoc, hseen⟩ := exists_ok_of_map hread
  obtain ⟨hwarnings, hnodes⟩ := Prod.mk.inj hseen
  refine ⟨doc, by decide +kernel, hdoc, hwarnings, hnodes, fun hshows => ?_⟩
  rw [hshows.nodes] at hnodes
  cases hnodes

/-- A superscript does not continue a keyword, so the line of this id is skipped. -/
example : (parseDocument "graph TD\nclick²[x]").toOption.map (fun doc =>
    (doc.diagram.nodes.length, doc.warnings.length)) = some (0, 0) := by decide +kernel

end Flowchart
