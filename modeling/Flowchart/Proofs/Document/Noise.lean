import Flowchart.Proofs.Document.Remarks
import Flowchart.Proofs.Document.Warnings

/-!
# Noise

A text may be given blank lines, comments and statements that cannot be read after its header, and
remarks on all its lines: the diagram and the settings stay the same, the old warnings move with
their lines, and there is one more warning for each statement that was put in,
`parseDocument_noise`. Which reader the settings have makes no difference.

Lines are marked by whether they were put in. The statements of the lines that were there before are
the old ones on new lines, and the others are all skipped, so the main theorem follows from what
leaving out skipped statements does to a run of statements.
-/

namespace Flowchart

/-- The lines of a text. -/
def linesOf (text : String) : List (List Char) := (Text.lines text).map String.toList

/-- A line that may be put in: nothing on it has a meaning. -/
inductive Idle (line : List Char) : Prop
  /-- it is empty -/
  | blank (hblank : ∀ c ∈ line, Text.isBlank c = true)
  /-- it is a comment -/
  | comment (hcomment : "%%".toList <+: Text.trimChars line) (hdirective : isDirective line = false)
  /-- none of its statements can be read -/
  | rejected (hdirective : isDirective line = false)
      (hstatements : ∀ s ∈ lineStatements line, ∃ reason, readStatement s = .rejected reason)

/-- A line that may be given a remark: no quotes are open at its end, and with the remark it does
not become a directive that can be read. -/
structure TakesRemark (read : SettingsReader) (line rest : List Char) : Prop where
  not_directive : isDirective line = false
  closed : Even (line.count '"')
  unread : lineSettings? read (withRemark line rest) = none

/-- The lines of a text after noise was added to it, each marked by whether it was put in; `started`
tells whether the header was met before. -/
inductive Disturbed (read : SettingsReader) : Bool → List (List Char) → List (List Char × Bool) → Prop
  | nil {started : Bool} : Disturbed read started [] []
  | keep {started : Bool} {line : List Char} {lines : List (List Char)}
      {marked : List (List Char × Bool)}
      (hrest : Disturbed read (started || !(lineStatements line).isEmpty) lines marked) :
      Disturbed read started (line :: lines) ((line, false) :: marked)
  | remark {started : Bool} {line rest : List Char} {lines : List (List Char)}
      {marked : List (List Char × Bool)} (hline : TakesRemark read line rest)
      (hrest : Disturbed read (started || !(lineStatements line).isEmpty) lines marked) :
      Disturbed read started (line :: lines) ((withRemark line rest, false) :: marked)
  | insert {line : List Char} {lines : List (List Char)} {marked : List (List Char × Bool)}
      (hline : Idle line) (hrest : Disturbed read true lines marked) :
      Disturbed read true lines ((line, true) :: marked)

/-! ## Lines -/

section Lines

variable {read : SettingsReader} {started : Bool} {lines : List (List Char)}
  {marked : List (List Char × Bool)}

theorem Idle.statements {line : List Char} (h : Idle line) :
    ∀ s ∈ lineStatements line, ∃ reason, readStatement s = .rejected reason := by
  cases h with
  | blank hblank =>
    rw [lineStatements_eq, Text.trimChars_blanks hblank]
    exact fun s hs => absurd hs List.not_mem_nil
  | comment hcomment hdirective =>
    rw [lineStatements_eq, if_pos (List.isPrefixOf_iff_prefix.mpr hcomment)]
    exact fun s hs => absurd hs List.not_mem_nil
  | rejected hdirective hstatements => exact hstatements

theorem Idle.settings {line : List Char} (h : Idle line) : lineSettings? read line = none := by
  refine lineSettings?_eq_none ?_
  cases h with
  | blank hblank =>
    rw [isDirective, Text.trimChars_blanks hblank]
    rfl
  | comment hcomment hdirective => exact hdirective
  | rejected hdirective hstatements => exact hdirective

namespace Disturbed

/-- The lines that were there before have the statements that they had. -/
theorem statements_eq (h : Disturbed read started lines marked) :
    (marked.filter (!·.2)).map (fun m => lineStatements m.1) = lines.map lineStatements := by
  induction h with
  | nil => rfl
  | keep hrest ih => exact congrArg (lineStatements _ :: ·) ih
  | remark hline hrest ih =>
    rw [List.filter_cons_of_pos rfl, List.map_cons, List.map_cons, ih,
      lineStatements_withRemark hline.closed]
  | insert hline hrest ih => exact ih

/-- No line gives settings that was not there before. -/
theorem settings_eq (h : Disturbed read started lines marked) :
    lastSettings? read (marked.map Prod.fst) = lastSettings? read lines := by
  have hall : (marked.map Prod.fst).filterMap (lineSettings? read) =
      lines.filterMap (lineSettings? read) := by
    induction h with
    | nil => rfl
    | keep hrest ih => rw [List.map_cons, List.filterMap_cons, List.filterMap_cons, ih]
    | remark hline hrest ih =>
      rw [List.map_cons, List.filterMap_cons, List.filterMap_cons, ih, hline.unread,
        lineSettings?_eq_none hline.not_directive]
    | insert hline hrest ih => rw [List.map_cons, List.filterMap_cons, hline.settings, ih]
  rw [lastSettings?_eq, lastSettings?_eq, hall]

/-- Nothing on a line that was put in has a meaning. -/
theorem idle (h : Disturbed read started lines marked) : ∀ m ∈ marked, m.2 = true → Idle m.1 := by
  induction h with
  | nil => exact fun m hm => absurd hm List.not_mem_nil
  | keep hrest ih =>
    rintro m hm hput
    rcases List.mem_cons.mp hm with rfl | hm
    · cases hput
    · exact ih m hm hput
  | remark hline hrest ih =>
    rintro m hm hput
    rcases List.mem_cons.mp hm with rfl | hm
    · cases hput
    · exact ih m hm hput
  | insert hline hrest ih =>
    rintro m hm hput
    rcases List.mem_cons.mp hm with rfl | hm
    · exact hline
    · exact ih m hm hput

/-- The first statement, which is the header, was there before. -/
theorem first_kept (h : Disturbed read started lines marked) (hstarted : started = false) :
    ∀ t ∈ (marked.flatMap fun m => (lineStatements m.1).map (·, m.2)).head?, t.2 = false := by
  have hkept : ∀ (statements : List (List Char)) (later : List (List Char × Bool)),
      (statements.isEmpty = true → ∀ t ∈ later.head?, t.2 = false) →
      ∀ t ∈ (statements.map (·, false) ++ later).head?, t.2 = false := by
    rintro (_ | ⟨s, statements⟩) later hlater t ht
    · exact hlater rfl t ht
    · obtain rfl := Option.some.inj ht
      rfl
  induction h with
  | nil => exact fun t ht => by cases ht
  | keep hrest ih =>
    rw [List.flatMap_cons]
    refine hkept _ _ fun hempty => ih ?_
    rw [hstarted, hempty]
    rfl
  | remark hline hrest ih =>
    rw [List.flatMap_cons, lineStatements_withRemark hline.closed]
    refine hkept _ _ fun hempty => ih ?_
    rw [hstarted, hempty]
    rfl
  | insert hline hrest ih => cases hstarted

end Disturbed

end Lines

/-! ## Numbers of lines -/

/-- The line with a given number was put in. -/
def isPutIn (marked : List (List Char × Bool)) (n : Nat) : Bool :=
  (marked[n - 1]?).any Prod.snd

/-- The numbers that the old lines have now. -/
def oldPlaces (marked : List (List Char × Bool)) : List Nat :=
  (marked.zipIdx.filter fun m => !m.1.2).map fun m => m.2 + 1

/-- The number that the `n`-th of the old lines has now. -/
def placeOf (marked : List (List Char × Bool)) (n : Nat) : Nat := (oldPlaces marked).getD (n - 1) 0

/-- The statements that were put in, each with the number of its line. -/
def statementsPutIn (marked : List (List Char × Bool)) : List (Nat × Statement) :=
  (marked.zipIdx.filter fun m => m.1.2).flatMap fun m =>
    (lineStatements m.1.1).map fun s => (m.2 + 1, readStatement s)

section Numbers

variable {read : SettingsReader} {started : Bool} {lines : List (List Char)}
  {marked : List (List Char × Bool)}

theorem isPutIn_of_mem {m : (List Char × Bool) × Nat} (hm : m ∈ marked.zipIdx) :
    isPutIn marked (m.2 + 1) = m.1.2 := by
  rw [isPutIn, Nat.add_sub_cancel, List.mem_zipIdx_iff_getElem?.mp hm]
  rfl

/-- The statements of marked lines are those of the lines, each with the number of its line. -/
theorem numberedStatements_marked (marked : List (List Char × Bool)) :
    numberedStatements (marked.map Prod.fst) = marked.zipIdx.flatMap fun m =>
      (lineStatements m.1.1).map fun s => (m.2 + 1, s) := by
  rw [numberedStatements_eq, List.zipIdx_map, List.flatMap_map]
  rfl

/-- What is kept of joined lists, if each is kept as a whole or left out. -/
theorem filter_flatMap_of {β γ : Type} {f : β → List γ} {p : γ → Bool} {q : β → Bool} {l : List β}
    (h : ∀ x ∈ l, ∀ y ∈ f x, p y = q x) : (l.flatMap f).filter p = (l.filter q).flatMap f := by
  induction l with
  | nil => rfl
  | cons x l ih =>
    rw [List.flatMap_cons, List.filter_append, ih fun y hy => h y (List.mem_cons_of_mem x hy),
      List.filter_cons]
    have hx := h x List.mem_cons_self
    cases hq : q x with
    | true =>
      rw [List.filter_eq_self.mpr fun y hy => (hx y hy).trans hq]
      rfl
    | false =>
      rw [List.filter_eq_nil_iff.mpr fun y hy => by rw [hx y hy, hq]; exact Bool.false_ne_true]
      rfl

/-- The statements on the lines that were put in, or on the others. -/
theorem filter_numberedStatements (p : Bool → Bool) (marked : List (List Char × Bool)) :
    (numberedStatements (marked.map Prod.fst)).filter (fun s => p (isPutIn marked s.1)) =
      (marked.zipIdx.filter fun m => p m.1.2).flatMap fun m =>
        (lineStatements m.1.1).map fun s => (m.2 + 1, s) := by
  rw [numberedStatements_marked]
  refine filter_flatMap_of fun m hm s hs => ?_
  obtain ⟨cs, -, rfl⟩ := List.mem_map.mp hs
  exact congrArg p (isPutIn_of_mem hm)

/-- **The old lines** hold the old statements, at the places that the lines have now. -/
theorem Disturbed.old_statements (h : Disturbed read started lines marked) :
    (numberedStatements (marked.map Prod.fst)).filter (fun s => !isPutIn marked s.1) =
      (numberedStatements lines).map fun s => (placeOf marked s.1, s.2) := by
  rw [filter_numberedStatements, numberedStatements_eq, List.map_flatMap, List.flatMap_def,
    List.flatMap_def]
  refine congrArg List.flatten (List.ext_getElem? fun j => ?_)
  have hstatements : ((marked.zipIdx.filter fun m => !m.1.2).map fun m => lineStatements m.1.1) =
      lines.map lineStatements := by
    rw [← h.statements_eq, ← List.zipIdx_map_fst 0 marked, List.filter_map, List.map_map,
      List.zipIdx_map_fst]
    rfl
  have hplace : ∀ m, (marked.zipIdx.filter fun m => !m.1.2)[j]? = some m →
      placeOf marked (j + 1) = m.2 + 1 := by
    intro m hm
    rw [placeOf, oldPlaces, List.getD_eq_getElem?_getD, Nat.add_sub_cancel, List.getElem?_map, hm]
    rfl
  have hj := congrArg (·[j]?) hstatements
  simp only [List.getElem?_map] at hj
  rw [List.getElem?_map, List.getElem?_map, List.getElem?_zipIdx]
  generalize (marked.zipIdx.filter fun m => !m.1.2)[j]? = m at hj hplace ⊢
  cases m with
  | none =>
    cases hline : lines[j]? with
    | none => rfl
    | some line =>
      rw [hline] at hj
      cases hj
  | some m =>
    cases hline : lines[j]? with
    | none =>
      rw [hline] at hj
      cases hj
    | some line =>
      rw [hline] at hj
      simp only [Option.map_some, Option.some_inj] at hj ⊢
      rw [List.map_map, hj, Nat.zero_add]
      simp only [Function.comp_def, hplace m rfl]

/-- The first statement stands on a line that was there before. -/
theorem Disturbed.first_statement (h : Disturbed read false lines marked) :
    ∀ s ∈ (numberedStatements (marked.map Prod.fst)).head?, isPutIn marked s.1 = false := by
  intro s hs
  have htagged : (numberedStatements (marked.map Prod.fst)).map (fun s => (s.2, isPutIn marked s.1)) =
      marked.flatMap fun m => (lineStatements m.1).map (·, m.2) := by
    rw [numberedStatements_marked, List.map_flatMap]
    conv_rhs => rw [← List.zipIdx_map_fst 0 marked, List.flatMap_map]
    rw [List.flatMap_def, List.flatMap_def]
    refine congrArg List.flatten (List.map_congr_left fun m hm => ?_)
    rw [List.map_map, ← isPutIn_of_mem hm]
    rfl
  refine h.first_kept rfl (s.2, isPutIn marked s.1) ?_
  rw [← htagged, List.head?_map, hs]
  rfl

/-- Statements come in the order of their lines. -/
theorem sorted_numberedStatements (lines : List (List Char)) :
    ((numberedStatements lines).map Prod.fst).Pairwise (· ≤ ·) := by
  have hindices : lines.zipIdx.Pairwise fun l l' => l.2 < l'.2 := by
    rw [← List.pairwise_map (f := Prod.snd), List.zipIdx_map_snd]
    exact List.pairwise_lt_range'
  rw [numberedStatements_eq, List.pairwise_map, List.pairwise_flatMap]
  refine ⟨fun l _ => ?_, hindices.imp fun hlt s hs s' hs' => ?_⟩
  · rw [List.pairwise_map]
    exact List.pairwise_of_forall fun _ _ => le_rfl
  · obtain ⟨cs, -, rfl⟩ := List.mem_map.mp hs
    obtain ⟨cs', -, rfl⟩ := List.mem_map.mp hs'
    exact Nat.succ_le_succ (Nat.le_of_lt hlt)

end Numbers

/-! ## Statements -/

/-- The statements that numbered pieces of text are read as, the first one being the header. -/
def statementsFrom : List (Nat × List Char) → List (Nat × Statement)
  | [] => []
  | (line, first) :: rest =>
    ((readHeader? first).bind headerStatement?).toList.map (Prod.mk line) ++
      rest.map fun s => (s.1, readStatement s.2)

theorem statementsOf_eq (text : String) :
    statementsOf text = statementsFrom (numberedStatements (linesOf text)) := by
  rw [statementsOf, linesOf]
  cases numberedStatements ((Text.lines text).map String.toList) <;> rfl

section Statements

variable {pieces : List (Nat × List Char)}

theorem statementsFrom_map (f : Nat → Nat) (pieces : List (Nat × List Char)) :
    statementsFrom (pieces.map fun s => (f s.1, s.2)) =
      (statementsFrom pieces).map fun s => (f s.1, s.2) := by
  cases pieces with
  | nil => rfl
  | cons s rest => simp [statementsFrom, Function.comp_def]

/-- Lines after the header may be left out before or after the header is looked for, as long as the
first statement is kept. -/
theorem statementsFrom_filter (kept : Nat → Bool) (hfirst : ∀ s ∈ pieces.head?, kept s.1 = true) :
    statementsFrom (pieces.filter fun s => kept s.1) =
      (statementsFrom pieces).filter fun s => kept s.1 := by
  cases pieces with
  | nil => rfl
  | cons s rest =>
    obtain ⟨line, first⟩ := s
    have hline : kept line = true := hfirst _ rfl
    have hheader : ((((readHeader? first).bind headerStatement?).toList.map (Prod.mk line)).filter
        fun s => kept s.1) = ((readHeader? first).bind headerStatement?).toList.map (Prod.mk line) := by
      refine List.filter_eq_self.mpr fun s hs => ?_
      obtain ⟨t, -, rfl⟩ := List.mem_map.mp hs
      exact hline
    rw [List.filter_cons, if_pos hline, statementsFrom, statementsFrom, List.filter_append, hheader,
      List.filter_map]
    rfl

/-- On other lines than the one of the header, all statements are read by themselves. -/
theorem statementsFrom_filter_not (kept : Nat → Bool)
    (hfirst : ∀ s ∈ pieces.head?, kept s.1 = true) :
    (statementsFrom pieces).filter (fun s => !kept s.1) =
      (pieces.filter fun s => !kept s.1).map fun s => (s.1, readStatement s.2) := by
  cases pieces with
  | nil => rfl
  | cons s rest =>
    obtain ⟨line, first⟩ := s
    have hline : kept line = true := hfirst _ rfl
    rw [statementsFrom, List.filter_append, List.filter_map, List.filter_map,
      List.filter_cons_of_neg (by simp [hline])]
    have hnone : (((readHeader? first).bind headerStatement?).toList.filter
        ((fun s : Nat × Statement => !kept s.1) ∘ Prod.mk line)) = [] :=
      List.filter_eq_nil_iff.mpr fun _ _ => by simp [hline]
    rw [hnone]
    rfl

theorem lines_statementsFrom (pieces : List (Nat × List Char)) :
    ((statementsFrom pieces).map Prod.fst).Sublist (pieces.map Prod.fst) := by
  cases pieces with
  | nil => exact List.Sublist.slnil
  | cons s rest =>
    rw [statementsFrom, List.map_append, List.map_map, List.map_map, List.map_cons]
    cases (readHeader? s.2).bind headerStatement? with
    | none => exact List.sublist_cons_self _ _
    | some header => exact List.Sublist.refl _

end Statements

/-! ## Documents -/

/-- What a document is like after noise was added to its text. -/
structure Document.SameUpToNoise (marked : List (List Char × Bool)) (doc doc' : Document) : Prop where
  diagram_eq : doc'.diagram = doc.diagram
  settings_eq : doc'.settings = doc.settings
  /-- warnings come in the order of their lines -/
  sorted : (doc'.warnings.map Diagnostic.line).Pairwise (· ≤ ·)
  /-- those on old lines are the old warnings -/
  old : doc'.warnings.filter (fun w => !isPutIn marked w.line) =
    doc.warnings.map fun w => { w with line := placeOf marked w.line }
  /-- those on lines that were put in are one for each statement on them -/
  new : (doc'.warnings.filter fun w => isPutIn marked w.line).map
    (fun w => (w.line, .rejected w.reason)) = statementsPutIn marked

section Disturbed

variable {read : SettingsReader} {lines : List (List Char)} {marked : List (List Char × Bool)}

/-- The old statements, on the lines where they are now. -/
theorem Disturbed.statements_kept (h : Disturbed read false lines marked) :
    (statementsFrom (numberedStatements (marked.map Prod.fst))).filter
        (fun s => !isPutIn marked s.1) =
      (statementsFrom (numberedStatements lines)).map fun s => (placeOf marked s.1, s.2) := by
  rw [← statementsFrom_map, ← h.old_statements]
  refine (statementsFrom_filter (fun n => !isPutIn marked n) fun s hs => ?_).symm
  rw [h.first_statement s hs]
  rfl

/-- The other statements are those that were put in. -/
theorem Disturbed.statements_putIn (h : Disturbed read false lines marked) :
    (statementsFrom (numberedStatements (marked.map Prod.fst))).filter
        (fun s => !!isPutIn marked s.1) = statementsPutIn marked := by
  rw [statementsFrom_filter_not (fun n => !isPutIn marked n) fun s hs => by
    rw [h.first_statement s hs]
    rfl]
  rw [filter_numberedStatements (fun b => !!b), List.map_flatMap]
  simp only [Bool.not_not, List.map_map]
  rfl

theorem Disturbed.rejected_putIn (h : Disturbed read false lines marked) :
    ∀ s ∈ statementsPutIn marked, ∃ reason, s.2 = .rejected reason := by
  intro s hs
  obtain ⟨m, hm, hs⟩ := List.mem_flatMap.mp hs
  obtain ⟨cs, hcs, rfl⟩ := List.mem_map.mp hs
  obtain ⟨hm, hput⟩ := List.mem_filter.mp hm
  have hmem : m.1 ∈ marked := List.mem_of_getElem? (List.mem_zipIdx_iff_getElem?.mp hm)
  exact (h.idle m.1 hmem hput).statements cs hcs

/-- The text begins with the statement that it began with. -/
theorem Disturbed.head?_eq (h : Disturbed read false lines marked) :
    (numberedStatements (marked.map Prod.fst)).head?.map Prod.snd =
      (numberedStatements lines).head?.map Prod.snd := by
  have hold := congrArg (fun l => l.head?.map Prod.snd) h.old_statements
  have hfirst := h.first_statement
  cases hstatements : numberedStatements (marked.map Prod.fst) with
  | nil =>
    rw [hstatements] at hold
    simpa using hold
  | cons s rest =>
    have hs : isPutIn marked s.1 = false := hfirst s (by rw [hstatements]; rfl)
    rw [hstatements, List.filter_cons_of_pos (by simp [hs])] at hold
    simpa using hold

/-- What noise does to a run of all statements from a builder without warnings. -/
theorem Disturbed.runAll (h : Disturbed read false lines marked) {start : Builder}
    (hstart : start.warnings = []) {settings settings' : Option Json}
    (hsettings : settings' = settings) :
    Document.SameUpToNoise marked
      ⟨(start.runAll (statementsFrom (numberedStatements lines))).finish, settings,
        (start.runAll (statementsFrom (numberedStatements lines))).warnings⟩
      ⟨(start.runAll (statementsFrom (numberedStatements (marked.map Prod.fst)))).finish, settings',
        (start.runAll (statementsFrom (numberedStatements (marked.map Prod.fst)))).warnings⟩ := by
  have hrejected : ∀ s ∈ statementsFrom (numberedStatements (marked.map Prod.fst)),
      (!isPutIn marked s.1) = false → ∃ reason, s.2 = .rejected reason := fun s hs hput =>
    h.rejected_putIn s (h.statements_putIn ▸ List.mem_filter.mpr ⟨hs, by rw [hput]; rfl⟩)
  have hquiet := Builder.quiet_runAll_filter (fun n => !isPutIn marked n) hrejected start
  obtain ⟨hold, hnew⟩ := Builder.notes_filter (fun n => !isPutIn marked n) hrejected start
  rw [h.statements_kept] at hquiet hold
  rw [h.statements_putIn] at hnew
  constructor
  case diagram_eq =>
    refine Builder.finish_congr (hquiet.symm.trans (Builder.quiet_runAll rfl ?_))
    rw [List.map_map]
    rfl
  case settings_eq => exact hsettings
  case sorted =>
    rw [Builder.warnings_runAll, hstart, List.nil_append]
    exact (sorted_numberedStatements _).sublist
      ((Builder.lines_notes start _).trans (lines_statementsFrom _))
  case old =>
    rw [Builder.warnings_runAll, Builder.warnings_runAll, hstart, List.nil_append, List.nil_append,
      hold, Builder.notes_renumber]
  case new =>
    rw [Builder.warnings_runAll, hstart, List.nil_append, ← hnew]
    simp only [Bool.not_not]

end Disturbed

/-- **Noise.** Blank lines, comments and statements that cannot be read, put in after the header,
and remarks on lines without open quotes change neither the diagram nor the settings, as long as no
remark makes a directive out of a comment; the warnings are the old ones, on the lines where these
are now, and one for each statement that was put in. -/
theorem parseDocument_noise {read : SettingsReader} {text text' : String} {doc : Document}
    {marked : List (List Char × Bool)} (h : parseDocument text read = .ok doc)
    (hmarked : Disturbed read false (linesOf text) marked)
    (htext : linesOf text' = marked.map Prod.fst) :
    ∃ doc', parseDocument text' read = .ok doc' ∧ doc.SameUpToNoise marked doc' := by
  obtain ⟨b, hbuild, rfl⟩ := exists_buildText_eq h
  obtain ⟨d, hd⟩ := buildText_moved hbuild
  obtain rfl := Except.ok.inj (hbuild.symm.trans (hd text rfl))
  have hfirst : (numberedStatements (linesOf text')).head?.map Prod.snd =
      (numberedStatements (linesOf text)).head?.map Prod.snd := htext ▸ hmarked.head?_eq
  refine ⟨_, by rw [parseDocument_eq, hd text' hfirst]; rfl, ?_⟩
  have hsettings : lastSettings? read (linesOf text') = lastSettings? read (linesOf text) :=
    htext ▸ hmarked.settings_eq
  rw [statementsOf_eq, statementsOf_eq, htext]
  exact hmarked.runAll rfl hsettings

/-- A block with a link in it and a statement that cannot be read. -/
def plainText : String := "graph TD\nsubgraph s\nA --> B\nbad ->\nend"

/-- The same with remarks on two lines, and after the header with an empty line, a comment and two
more statements that cannot be read. -/
def noisyText : String :=
  "graph TD %% x\n\n%% note\nsubgraph s\nx -->; a b\nA --> B %% \"open\nbad ->\nend"

/-- Its lines, each with whether it was put in. -/
def noisyLines : List (List Char × Bool) :=
  [(withRemark "graph TD".toList ['x'], false), ([], true), ("%% note".toList, true),
    ("subgraph s".toList, false), ("x -->; a b".toList, true),
    (withRemark "A --> B".toList "\"open".toList, false), ("bad ->".toList, false),
    ("end".toList, false)]

theorem disturbed_noisyLines : Disturbed readSettings? false (linesOf plainText) noisyLines := by
  have hlines : linesOf plainText = ["graph TD".toList, "subgraph s".toList, "A --> B".toList,
      "bad ->".toList, "end".toList] := by decide +kernel
  have hall : ∀ s ∈ lineStatements "x -->; a b".toList,
      (match readStatement s with
        | .rejected _ => true
        | _ => false) = true := by decide +kernel
  have hrejected : ∀ s ∈ lineStatements "x -->; a b".toList,
      ∃ reason, readStatement s = .rejected reason := by
    intro s hs
    have h := hall s hs
    split at h
    · exact ⟨_, by assumption⟩
    · cases h
  have hremark : ∀ line rest, isDirective line = false → (line.count '"') % 2 = 0 →
      isDirective (withRemark line rest) = false → TakesRemark readSettings? line rest :=
    fun line rest h h' h'' =>
    ⟨h, Nat.even_iff.mpr h', lineSettings?_eq_none h''⟩
  rw [hlines]
  exact .remark (hremark _ _ (by decide +kernel) (by decide) (by decide +kernel)) <|
    .insert (.blank (by simp)) <|
    .insert (.comment ⟨" note".toList, rfl⟩ (by decide +kernel)) <|
    .keep <| .insert (.rejected (by decide +kernel) hrejected) <|
    .remark (hremark _ _ (by decide +kernel) (by decide) (by decide +kernel)) <| .keep <| .keep .nil

theorem parseDocument_noise_noisy : ∃ doc doc', parseDocument plainText = .ok doc ∧
    parseDocument noisyText = .ok doc' ∧ linesOf noisyText = noisyLines.map Prod.fst ∧
    doc.SameUpToNoise noisyLines doc' ∧ doc.warnings.map Diagnostic.line = [4] ∧
    doc'.warnings.map Diagnostic.line = [5, 5, 7] := by
  have hread : (parseDocument plainText).toOption.map (·.warnings.map Diagnostic.line) =
      some [4] := by decide +kernel
  have hread' : (parseDocument noisyText).toOption.map (·.warnings.map Diagnostic.line) =
      some [5, 5, 7] := by decide +kernel
  have hlines : linesOf noisyText = noisyLines.map Prod.fst := by decide +kernel
  obtain ⟨doc, h, hdoc⟩ := exists_ok_of_map hread
  obtain ⟨doc', h', hdoc'⟩ := exists_ok_of_map hread'
  obtain ⟨doc'', h'', hquiet⟩ := parseDocument_noise h disturbed_noisyLines hlines
  obtain rfl := Except.ok.inj (h'.symm.trans h'')
  exact ⟨doc, doc', h, h', hlines, hquiet, hdoc, hdoc'⟩

/-- The beginning of a directive, which is a comment. -/
def openDirective : String := "graph TD\n%%\x7binit: \x7btheme:\x27"

/-- The comment with a remark at its end. -/
def closedDirective : String := "graph TD\n%%\x7binit: \x7btheme:\x27 %% \x27\x7d\x7d%%"

/-- **Not every remark is noise.** A remark can make a directive out of a comment, and then it gives
settings. -/
theorem parseDocument_noise_directive : ∃ line rest, isDirective line = false ∧
    Even (line.count '"') ∧ linesOf openDirective = ["graph TD".toList, line] ∧
    linesOf closedDirective = ["graph TD".toList, withRemark line rest] ∧
    ∃ doc doc', parseDocument openDirective = .ok doc ∧ parseDocument closedDirective = .ok doc' ∧
      doc.settings.isSome = false ∧ doc'.settings.isSome = true := by
  have hread : (parseDocument openDirective).toOption.map (·.settings.isSome) = some false := by
    decide +kernel
  have hread' : (parseDocument closedDirective).toOption.map (·.settings.isSome) = some true := by
    decide +kernel
  obtain ⟨doc, h, hdoc⟩ := exists_ok_of_map hread
  obtain ⟨doc', h', hdoc'⟩ := exists_ok_of_map hread'
  exact ⟨"%%\x7binit: \x7btheme:\x27".toList, "\x27\x7d\x7d%%".toList, by decide +kernel,
    Nat.even_iff.mpr (by decide), by decide +kernel, by decide +kernel, doc, doc', h, h', hdoc, hdoc'⟩

end Flowchart
