import Flowchart.Proofs.Document.Noise

/-!
# Directives commute with the rest

Class definitions, styles of nodes and styles of links may stand anywhere after the header: moving a
line with one of them changes nothing in the diagram, as long as it passes no other statement of its
kind, `parseDocument_directive_moved`.

What directives write is the *style sheet* of a builder. No other statement reads or writes it, so
that other statements can be carried out as if it were a different one, `run_withSheet`, and
directives of different kinds write different parts of it. Hence a directive changes places with any
statement of another kind, and with a whole run of them by induction.
-/

namespace Flowchart

/-! ## Kinds of directives -/

/-- A kind of directive. -/
inductive DirectiveKind where
  /-- defines style classes -/
  | classes
  /-- gives a style to nodes -/
  | nodeStyles
  /-- gives a style to links -/
  | linkStyles
  deriving Repr, DecidableEq

/-- What directives of a kind begin with. -/
def DirectiveKind.keyword : DirectiveKind → String
  | classes => "classDef "
  | nodeStyles => "style "
  | linkStyles => "linkStyle "

/-- The line holds one statement, a directive of the given kind. -/
def IsDirectiveLine (k : DirectiveKind) (line : List Char) : Prop :=
  ∃ cs, lineStatements line = [cs] ∧ startsWith k.keyword cs = true

/-- The kind of a statement, if it is a directive. -/
def Statement.kind? : Statement → Option DirectiveKind
  | .defineClasses _ => some .classes
  | .styleNodes _ => some .nodeStyles
  | .styleLinks _ => some .linkStyles
  | _ => none

/-- A text that begins with another letter sets no direction. -/
theorem readDirectionLine?_cons {c : Char} (hblank : Text.isBlank c = false) (hc : c ≠ 'd')
    (cs : List Char) : readDirectionLine? (c :: cs) = none := by
  obtain ⟨first, parts, hparts⟩ := List.exists_cons_of_ne_nil (List.splitOnP_ne_nil Text.isBlank cs)
  have hcut : Text.runsOutside Text.isBlank (c :: cs) =
      (c :: first) :: parts.filter (!·.isEmpty) := by
    rw [Text.runsOutside, List.splitOnP_cons_eq_if_modifyHead, hblank, hparts]
    rfl
  have hword : (c :: first == "direction".toList) = false :=
    beq_eq_false_iff_ne.mpr fun he => hc (List.cons.inj he).1
  rw [readDirectionLine?, hcut]
  cases parts.filter (!·.isEmpty) with
  | nil => rfl
  | cons token rest =>
    cases rest with
    | nil => exact if_neg (Bool.eq_false_iff.mp hword)
    | cons _ _ => rfl

/-- **The kind of a statement is told by its beginning**: only three branches of the reader make a
directive, each behind its keyword. -/
theorem kind?_readStatement (cs : List Char) (k : DirectiveKind) :
    (readStatement cs).kind? = some k ↔ startsWith k.keyword cs = true := by
  constructor
  · intro h
    unfold readStatement at h
    repeat' split at h
    all_goals cases h
    all_goals assumption
  · intro h
    obtain ⟨rest, rfl⟩ := List.isPrefixOf_iff_prefix.mp h
    have hend : (k.keyword.toList ++ rest == "end".toList) = false := by cases k <;> rfl
    have hblock : afterKeyword? "subgraph" (k.keyword.toList ++ rest) = none := by cases k <;> rfl
    have hdirection : readDirectionLine? (k.keyword.toList ++ rest) = none := by
      cases k <;> exact readDirectionLine?_cons (by decide) (by decide) _
    rw [readStatement, hend, hblock, hdirection]
    cases k <;> rfl

namespace Builder

variable {b : Builder} {s t : Statement} {k : DirectiveKind}

/-! ## Style sheets -/

/-- What directives write. -/
structure StyleSheet where
  /-- style classes -/
  classes : List (String × NodeStyle Float32)
  /-- styles given to nodes -/
  requests : List (String × NodeStyle Float32)
  /-- styles given to single links -/
  edgeStyles : List (Nat × EdgeStyle Float32)
  /-- style given to all links -/
  edgeStyleDefault : Option (EdgeStyle Float32)

/-- The style sheet of a builder. -/
def sheet (b : Builder) : StyleSheet :=
  ⟨b.diagram.classes, b.styleRequests, b.diagram.edgeStyles, b.diagram.edgeStyleDefault⟩

/-- The builder with another style sheet. -/
def withSheet (b : Builder) (σ : StyleSheet) : Builder :=
  { b with
    diagram := { b.diagram with
      classes := σ.classes, edgeStyles := σ.edgeStyles, edgeStyleDefault := σ.edgeStyleDefault }
    styleRequests := σ.requests }

@[simp] theorem sheet_withSheet (b : Builder) (σ : StyleSheet) : (b.withSheet σ).sheet = σ := rfl

@[simp] theorem withSheet_sheet (b : Builder) : b.withSheet b.sheet = b := rfl

/-- Of two style sheets that are put into a builder the second one stays. -/
@[simp] theorem withSheet_withSheet (b : Builder) (σ τ : StyleSheet) :
    (b.withSheet σ).withSheet τ = b.withSheet τ := rfl

/-- What a statement writes into a style sheet. -/
def StyleSheet.write (σ : StyleSheet) (s : Statement) : StyleSheet :=
  (({} : Builder).withSheet σ |>.run 0 s).sheet

/-- A directive does nothing but write into the style sheet. -/
theorem run_directive (hs : s.kind? = some k) (b : Builder) (line : Nat) :
    b.run line s = b.withSheet (b.sheet.write s) := by
  cases s with
  | defineClasses style => cases style <;> rfl
  | styleNodes style => cases style <;> rfl
  | styleLinks style =>
    cases style with
    | none => rfl
    | some style => obtain ⟨selection | indices, style⟩ := style <;> rfl
  | _ => cases hs

/-- Classes and styles of nodes are written into different parts. -/
theorem StyleSheet.write_classes_comm (σ : StyleSheet)
    (c n : Option (NamedStyle (NodeStyle Float32))) :
    (σ.write (.defineClasses c)).write (.styleNodes n) =
      (σ.write (.styleNodes n)).write (.defineClasses c) := by
  cases c <;> cases n <;> rfl

/-- Styles of links are written into a part of their own. -/
theorem StyleSheet.write_links_comm (σ : StyleSheet)
    (hs : s.kind? = some .classes ∨ s.kind? = some .nodeStyles)
    (l : Option (LinkSelection × EdgeStyle Float32)) :
    (σ.write s).write (.styleLinks l) = (σ.write (.styleLinks l)).write s := by
  obtain _ | ⟨selection | indices, style⟩ := l <;>
  cases s with
  | defineClasses c => cases c <;> rfl
  | styleNodes n => cases n <;> rfl
  | _ => simp [Statement.kind?] at hs

/-- Directives of different kinds write different parts of a style sheet. -/
theorem StyleSheet.write_comm (σ : StyleSheet) {k' : DirectiveKind} (hs : s.kind? = some k)
    (ht : t.kind? = some k') (hne : k ≠ k') : (σ.write s).write t = (σ.write t).write s := by
  cases s with
  | defineClasses c =>
    cases t with
    | defineClasses c' => exact absurd (Option.some.inj (hs.symm.trans ht)) hne
    | styleNodes n => exact σ.write_classes_comm c n
    | styleLinks l => exact σ.write_links_comm (.inl rfl) l
    | _ => cases ht
  | styleNodes n =>
    cases t with
    | defineClasses c => exact (σ.write_classes_comm c n).symm
    | styleNodes n' => exact absurd (Option.some.inj (hs.symm.trans ht)) hne
    | styleLinks l => exact σ.write_links_comm (.inr rfl) l
    | _ => cases ht
  | styleLinks l =>
    cases t with
    | defineClasses c => exact (σ.write_links_comm (.inl rfl) l).symm
    | styleNodes n => exact (σ.write_links_comm (.inr rfl) l).symm
    | styleLinks l' => exact absurd (Option.some.inj (hs.symm.trans ht)) hne
    | _ => cases ht
  | _ => cases hs

/-- The search for a free id looks at blocks and nodes only. -/
theorem freeAutoId_withSheet (b : Builder) (σ : StyleSheet) (fuel n : Nat) :
    (b.withSheet σ).freeAutoId fuel n = b.freeAutoId fuel n := by
  induction fuel generalizing n with
  | zero => rfl
  | succ fuel ih =>
    have htaken : (b.withSheet σ).isTaken = b.isTaken := rfl
    rw [freeAutoId, freeAutoId, htaken, ih]

/-- Mentioning a node leaves the style sheet alone, and what is in the style sheet makes no
difference to it. -/
theorem mention_withSheet (b : Builder) (σ : StyleSheet) (r : NodeRef) :
    (b.withSheet σ).mention r = (b.mention r).withSheet σ := by
  have hnode : (b.withSheet σ).diagram.hasNode r.id = b.diagram.hasNode r.id := rfl
  rw [mention, mention, register, register]
  simp only [Diagram.mention, hnode]
  cases hopen : b.openBlocks <;> split_ifs <;> simp [withSheet, hopen, Diagram.updateNode]

theorem foldl_mention_withSheet (refs : List NodeRef) (b : Builder) (σ : StyleSheet) :
    refs.foldl mention (b.withSheet σ) = (refs.foldl mention b).withSheet σ := by
  induction refs generalizing b with
  | nil => rfl
  | cons r refs ih => rw [List.foldl_cons, mention_withSheet, ih, List.foldl_cons]

/-- **Other statements neither read nor write the style sheet.** -/
theorem run_withSheet (hs : s.kind? = none) (b : Builder) (line : Nat) (σ : StyleSheet) :
    (b.withSheet σ).run line s = (b.run line s).withSheet σ := by
  cases s with
  | closeBlock =>
    rw [run, run, closeBlock, closeBlock]
    cases hopen : b.openBlocks <;> simp [withSheet, hopen]
  | openBlock header =>
    rw [run, run, openBlock, openBlock]
    cases header.id with
    | none =>
      dsimp only
      rw [freeAutoId_withSheet]
      rfl
    | some id => rfl
  | direction d =>
    rw [run, run, setDirection, setDirection]
    cases hopen : b.openBlocks <;> simp [withSheet, hopen]
  | assignClasses pairs => rfl
  | ignored => rfl
  | chain c =>
    rw [run, addChain, foldl_mention_withSheet]
    rfl
  | rejected reason => rfl
  | _ => cases hs

/-- Statements that are no directives leave the style sheet alone. -/
theorem sheet_run (hs : s.kind? = none) (b : Builder) (line : Nat) :
    (b.run line s).sheet = b.sheet := by
  have h := run_withSheet hs b line b.sheet
  rw [withSheet_sheet] at h
  rw [h, sheet_withSheet]

/-- **A directive changes places with a statement of another kind.** -/
theorem run_comm (hs : s.kind? = some k) (ht : t.kind? ≠ some k) (b : Builder) (i j : Nat) :
    (b.run i s).run j t = (b.run j t).run i s := by
  cases hkind : t.kind? with
  | none =>
    rw [run_directive hs, run_withSheet hkind, run_directive hs, sheet_run hkind]
  | some k' =>
    have hne : k ≠ k' := fun he => ht (he ▸ hkind)
    simp only [run_directive hs, run_directive hkind, sheet_withSheet, withSheet_withSheet,
      StyleSheet.write_comm b.sheet hs hkind hne]

/-- **A directive may be moved** behind a run of statements of other kinds. -/
theorem runAll_moved {l : List (Nat × Statement)} (hs : s.kind? = some k)
    (hl : ∀ t ∈ l, t.2.kind? ≠ some k) (b : Builder) (i : Nat) :
    b.runAll ((i, s) :: l) = b.runAll (l ++ [(i, s)]) := by
  induction l generalizing b with
  | nil => rfl
  | cons t l ih =>
    obtain ⟨ht, hrest⟩ := List.forall_mem_cons.mp hl
    calc b.runAll ((i, s) :: t :: l)
        = ((b.run i s).run t.1 t.2).runAll l := rfl
      _ = (b.run t.1 t.2).runAll ((i, s) :: l) := by rw [run_comm hs ht, runAll_cons]
      _ = b.runAll (t :: l ++ [(i, s)]) := by rw [ih hrest]; rfl

end Builder

/-! ## Lines -/

/-- The statements of some lines, wherever the lines stand. -/
def statementsOn (lines : List (List Char)) : List (Nat × Statement) :=
  (lines.flatMap lineStatements).map fun cs => (0, readStatement cs)

/-- The statements of two runs of lines are those of the first and then those of the second,
renumbered. -/
theorem statementsOn_append (lines more : List (List Char)) :
    statementsOn (lines ++ more) = statementsOn lines ++ statementsOn more := by
  rw [statementsOn, List.flatMap_append, List.map_append]
  rfl

/-- Lines at the end of a text come with their statements. -/
theorem exists_numberedStatements_append (lines more : List (List Char)) :
    ∃ rest, numberedStatements (lines ++ more) = numberedStatements lines ++ rest ∧
      rest.map (fun s => readStatement s.2) = (statementsOn more).map Prod.snd := by
  refine ⟨_, by rw [numberedStatements_eq, List.zipIdx_append, List.flatMap_append,
    ← numberedStatements_eq], ?_⟩
  conv_rhs => rw [statementsOn, ← List.zipIdx_map_fst (0 + lines.length) more]
  simp only [List.map_flatMap, List.flatMap_map, List.map_map]
  rfl

/-- The start of a diagram depends on the line of its header only. -/
theorem startDiagram_congr {lines lines' : List (List Char)} {line : Nat}
    (hline : lines[line - 1]? = lines'[line - 1]?) (h : Header) :
    startDiagram lines line h = startDiagram lines' line h := by
  have hcolumn : tokenColumn lines line = tokenColumn lines' line := by
    funext keyword token
    rw [tokenColumn, tokenColumn, hline]
  rw [startDiagram, startDiagram, hcolumn]

/-- The first statement of lines that hold one, and where it stands. -/
theorem exists_first_statement {lines : List (List Char)}
    (h : ∃ l ∈ lines, lineStatements l ≠ []) :
    ∃ line first pieces, numberedStatements lines = (line, first) :: pieces ∧
      line - 1 < lines.length := by
  cases hpieces : numberedStatements lines with
  | nil =>
    obtain ⟨l, hl, hne⟩ := h
    obtain ⟨i, hi⟩ := List.mem_iff_getElem?.mp hl
    rw [numberedStatements_eq, List.flatMap_eq_nil_iff] at hpieces
    have hnone := hpieces (l, i) (List.mem_zipIdx_iff_getElem?.mpr hi)
    exact absurd (List.map_eq_nil_iff.mp hnone) hne
  | cons s pieces =>
    refine ⟨s.1, s.2, pieces, rfl, ?_⟩
    have hs : s ∈ numberedStatements lines := hpieces ▸ List.mem_cons_self
    rw [numberedStatements_eq] at hs
    obtain ⟨l, hl, hs⟩ := List.mem_flatMap.mp hs
    obtain ⟨cs, -, rfl⟩ := List.mem_map.mp hs
    exact (List.getElem?_eq_some_iff.mp (List.mem_zipIdx_iff_getElem?.mp hl)).1

/-- Statements may be carried out in two parts, the second one from wherever it stands. -/
theorem quiet_runStatements_append (b : Builder) (pieces : List (Nat × List Char))
    {rest : List (Nat × List Char)} {lines : List (List Char)}
    (h : rest.map (fun s => readStatement s.2) = (statementsOn lines).map Prod.snd) :
    (runStatements b (pieces ++ rest)).quiet =
      ((runStatements b pieces).runAll (statementsOn lines)).quiet := by
  rw [runStatements_eq, runStatements_eq, List.map_append, Builder.runAll_append]
  refine Builder.quiet_runAll rfl ?_
  rw [List.map_map, ← h]
  rfl

/-- The lines after the header may be replaced by others that do the same to every builder. -/
theorem buildLines_append {before more more' : List (List Char)}
    (hheader : ∃ l ∈ before, lineStatements l ≠ [])
    (h : ∀ b : Builder,
      (b.runAll (statementsOn more')).quiet = (b.runAll (statementsOn more)).quiet) :
    (buildLines (before ++ more')).map Builder.quiet =
      (buildLines (before ++ more)).map Builder.quiet := by
  obtain ⟨line, first, pieces, hbefore, hlt⟩ := exists_first_statement hheader
  obtain ⟨rest, hrest, hon⟩ := exists_numberedStatements_append before more
  obtain ⟨rest', hrest', hon'⟩ := exists_numberedStatements_append before more'
  have hline : (before ++ more')[line - 1]? = (before ++ more)[line - 1]? := by
    rw [List.getElem?_append_left hlt, List.getElem?_append_left hlt]
  rw [hbefore, List.cons_append] at hrest hrest'
  rw [buildLines, buildLines, hrest, hrest']
  dsimp only
  cases readHeader? first with
  | none => rfl
  | some header =>
    dsimp only
    rw [startDiagram_congr hline]
    cases startDiagram (before ++ more) line header with
    | error e => rfl
    | ok b =>
      refine congrArg Except.ok ?_
      rw [quiet_runStatements_append b pieces hon, quiet_runStatements_append b pieces hon', h]

/-! ## Moving a line -/

/-- In the lines of a text a directive was moved to another place after the header, past lines
without directives of its kind. -/
inductive DirectiveMoved (k : DirectiveKind) : List (List Char) → List (List Char) → Prop
  | down {before passed after : List (List Char)} {line : List Char}
      (hheader : ∃ l ∈ before, lineStatements l ≠ []) (hline : IsDirectiveLine k line)
      (hpassed : ∀ l ∈ passed, ∀ cs ∈ lineStatements l, startsWith k.keyword cs = false) :
      DirectiveMoved k (before ++ line :: (passed ++ after)) (before ++ (passed ++ line :: after))
  | up {before passed after : List (List Char)} {line : List Char}
      (hheader : ∃ l ∈ before, lineStatements l ≠ []) (hline : IsDirectiveLine k line)
      (hpassed : ∀ l ∈ passed, ∀ cs ∈ lineStatements l, startsWith k.keyword cs = false) :
      DirectiveMoved k (before ++ (passed ++ line :: after)) (before ++ line :: (passed ++ after))

section Moving

variable {k : DirectiveKind} {passed after : List (List Char)} {line : List Char}

/-- Wherever the line stands, the same is done to every builder. -/
theorem runAll_statementsOn_moved (hline : IsDirectiveLine k line)
    (hpassed : ∀ l ∈ passed, ∀ cs ∈ lineStatements l, startsWith k.keyword cs = false)
    (b : Builder) :
    b.runAll (statementsOn (line :: (passed ++ after))) =
      b.runAll (statementsOn (passed ++ line :: after)) := by
  obtain ⟨cs, hcs, hkeyword⟩ := hline
  have hone (lines : List (List Char)) :
      statementsOn (line :: lines) = (0, readStatement cs) :: statementsOn lines := by
    rw [statementsOn, List.flatMap_cons, hcs]
    rfl
  have hkinds : ∀ t ∈ statementsOn passed, t.2.kind? ≠ some k := by
    intro t ht hkind
    obtain ⟨cs', hcs', rfl⟩ := List.mem_map.mp ht
    obtain ⟨l, hl, hcs'⟩ := List.mem_flatMap.mp hcs'
    rw [kind?_readStatement, hpassed l hl cs' hcs'] at hkind
    cases hkind
  have hmoved := Builder.runAll_moved ((kind?_readStatement cs k).mpr hkeyword) hkinds b 0
  calc b.runAll (statementsOn (line :: (passed ++ after)))
      = (b.runAll ((0, readStatement cs) :: statementsOn passed)).runAll (statementsOn after) := by
        rw [hone, statementsOn_append, ← List.cons_append, Builder.runAll_append]
    _ = (b.runAll (statementsOn passed ++ [(0, readStatement cs)])).runAll (statementsOn after) := by
        rw [hmoved]
    _ = b.runAll (statementsOn (passed ++ line :: after)) := by
        rw [← Builder.runAll_append, List.append_assoc, statementsOn_append, hone,
          List.singleton_append]

/-- A line with a directive of one of the three kinds gives no settings, whichever reader the
settings have. -/
theorem IsDirectiveLine.settings (read : SettingsReader) (hline : IsDirectiveLine k line) :
    lineSettings? read line = none := by
  obtain ⟨cs, hcs, -⟩ := hline
  cases hread : readLine line with
  | text rest => rw [lineSettings?, hread]
  | nothing => rw [lineSettings?, hread]
  | settings value =>
    rw [lineStatements, hread] at hcs
    cases hcs

end Moving

namespace DirectiveMoved

variable {k : DirectiveKind} {lines lines' : List (List Char)}

/-- Moving the line changes nothing in what is built, apart from the numbers of the lines in
warnings. -/
theorem buildLines_eq (h : DirectiveMoved k lines lines') :
    (buildLines lines').map Builder.quiet = (buildLines lines).map Builder.quiet := by
  cases h with
  | down hheader hline hpassed =>
    exact buildLines_append hheader fun b => by rw [runAll_statementsOn_moved hline hpassed]
  | up hheader hline hpassed =>
    exact buildLines_append hheader fun b => by rw [runAll_statementsOn_moved hline hpassed]

theorem settings_eq (read : SettingsReader) (h : DirectiveMoved k lines lines') :
    lastSettings? read lines' = lastSettings? read lines := by
  have hall : lines'.filterMap (lineSettings? read) = lines.filterMap (lineSettings? read) := by
    cases h with
    | down hheader hline hpassed => simp [hline.settings read]
    | up hheader hline hpassed => simp [hline.settings read]
  rw [lastSettings?_eq, lastSettings?_eq, hall]

end DirectiveMoved

/-- The diagram of a text is made from the builder without its warnings. -/
theorem parseDocument_quiet (text : String) (read : SettingsReader) :
    (parseDocument text read).map (fun doc => (doc.diagram, doc.settings)) =
      ((buildLines (linesOf text)).map Builder.quiet).map fun b =>
        (b.finish, lastSettings? read (linesOf text)) := by
  rw [parseDocument_eq, buildText, linesOf]
  cases buildLines ((Text.lines text).map String.toList) <;> rfl

/-- **Directives commute with the rest**: moving a line that holds one to another place after the
header, past no other directive of its kind, changes neither the diagram nor the settings, nor the
error if the text cannot be read. The settings may be in any notation. -/
theorem parseDocument_directive_moved {k : DirectiveKind} {text text' : String}
    (read : SettingsReader) (h : DirectiveMoved k (linesOf text) (linesOf text')) :
    (parseDocument text' read).map (fun doc => (doc.diagram, doc.settings)) =
      (parseDocument text read).map (fun doc => (doc.diagram, doc.settings)) := by
  rw [parseDocument_quiet, parseDocument_quiet, h.buildLines_eq, h.settings_eq read]

/-- A style that comes before the node it is meant for. -/
def earlyStyle : String :=
  "graph TD\nstyle A fill:red\nclassDef c stroke:blue\nsubgraph s\nA:::c --> B\nend"

/-- The same style in the block of the node. -/
def lateStyle : String :=
  "graph TD\nclassDef c stroke:blue\nsubgraph s\nA:::c --> B\nstyle A fill:red\nend"

theorem parseDocument_directive_moved_style : DirectiveMoved .nodeStyles (linesOf earlyStyle)
    (linesOf lateStyle) ∧ ∃ doc doc', parseDocument earlyStyle = .ok doc ∧
      parseDocument lateStyle = .ok doc' ∧ doc'.diagram = doc.diagram ∧
      (doc.diagram.nodeStyle "A").fill = some "red" ∧
      (doc.diagram.nodeStyle "A").stroke = some "blue" := by
  have hlines : linesOf earlyStyle = ["graph TD".toList] ++ "style A fill:red".toList ::
      (["classDef c stroke:blue".toList, "subgraph s".toList, "A:::c --> B".toList] ++
        ["end".toList]) := by decide +kernel
  have hlines' : linesOf lateStyle = ["graph TD".toList] ++
      (["classDef c stroke:blue".toList, "subgraph s".toList, "A:::c --> B".toList] ++
        "style A fill:red".toList :: ["end".toList]) := by decide +kernel
  have hmoved : DirectiveMoved .nodeStyles (linesOf earlyStyle) (linesOf lateStyle) := by
    rw [hlines, hlines']
    refine .down ⟨_, List.mem_singleton_self _, by decide +kernel⟩
      ⟨"style A fill:red".toList, by decide +kernel, by decide +kernel⟩ (by decide +kernel)
  have hread : (parseDocument earlyStyle).toOption.map (fun doc =>
      ((doc.diagram.nodeStyle "A").fill, (doc.diagram.nodeStyle "A").stroke)) =
        some (some "red", some "blue") := by decide +kernel
  have hread' : (parseDocument lateStyle).toOption.map (fun _ => ()) = some () := by decide +kernel
  obtain ⟨doc, h, hdoc⟩ := exists_ok_of_map hread
  obtain ⟨doc', h', -⟩ := exists_ok_of_map hread'
  obtain ⟨hfill, hstroke⟩ := Prod.mk.inj hdoc
  have hsame := parseDocument_directive_moved readSettings? hmoved
  rw [h, h'] at hsame
  exact ⟨hmoved, doc, doc', h, h', congrArg Prod.fst (Except.ok.inj hsame), hfill, hstroke⟩

end Flowchart
