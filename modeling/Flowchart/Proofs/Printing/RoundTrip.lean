import Flowchart.Proofs.Printing.Arrows
import Flowchart.Proofs.Printing.References

/-!
# Reading printed chains

A printed chain is cut at its arrows into its groups, each with a blank before and after it.
Openings are joined with the arrows after them, texts between bars are taken from the front of the
groups after the arrows, and what is left of a group is cut at its separators. So a chain is read
back as what it was printed for, `readChain_print`, whatever stands in its labels.
-/

namespace Flowchart

/-- A visible blank. -/
def blankMark : Marked := ⟨' ', true⟩

/-! ## Labels of links -/

/-- A trimmed text without bars and quotes is a label as it is. -/
theorem cleanLabel?_of_trimmed {cs text : List Char} (hcs : Text.trimChars cs = text)
    (htext : Text.trimChars text = text) (hne : text ≠ []) (hbar : '|' ∉ text)
    (hquote : '"' ∉ text) : cleanLabel? cs = some (String.ofList text) := by
  have hnobar : ∀ c ∈ text, (c == '|') = false := fun c hc =>
    beq_eq_false_iff_ne.mpr fun h => hbar (h ▸ hc)
  have hnone : ∀ c ∈ ([] : List Char), (c == '|') = true := by simp
  have hfront : Text.dropFront (fun c => c == '|') text = text :=
    Text.dropFront_pad hnone fun c hc => hnobar c (List.mem_of_mem_head? hc)
  have hback : Text.dropBack (fun c => c == '|') text = text := by
    have h := Text.dropBack_pad hnone fun c hc => hnobar c (List.mem_of_getLast? hc)
    rwa [List.append_nil] at h
  have hstrip : stripQuotes text = text := by
    have hhead : (text.head? == some '"') = false := beq_eq_false_iff_ne.mpr fun h =>
      hquote (List.mem_of_mem_head? h)
    rw [stripQuotes, htext, hhead, Bool.and_false, Bool.false_and]
    rfl
  have hinner : (text.isEmpty) = false := List.isEmpty_eq_false_iff.mpr hne
  simp only [cleanLabel?, hcs, hfront, hback, hstrip, hinner, if_neg Bool.false_ne_true]

/-- A text between bars is trimmed and holds neither bars nor quotes, so it is the label as it
stands. -/
theorem BarredText.cleanLabel? (t : BarredText) :
    cleanLabel? t.chars = some (String.ofList t.chars) :=
  cleanLabel?_of_trimmed t.trimmed t.trimmed t.nonempty t.unbarred t.unquoted

/-- No sign of the language stands in a text of words, apart from the blanks between them. -/
theorem not_mem_printWords {first : Word} {more : List Word} {c : Char} (hc : c ∈ Text.signs)
    (hblank : c ≠ ' ') : c ∉ printWords first more := fun h =>
  (mem_printWords h).elim (fun h => Text.ne_of_isIdentifierChar h hc rfl) hblank

/-- A text of words between two blanks is the label without these blanks. -/
theorem cleanLabel?_words (first : Word) (more : List Word) :
    cleanLabel? (' ' :: (printWords first more ++ [' '])) =
      some (String.ofList (printWords first more)) := by
  have hne : printWords first more ≠ [] := List.append_ne_nil_of_left_ne_nil first.nonempty _
  have hfirst : ∀ c ∈ (printWords first more).head?, isSolid c = true := by
    obtain ⟨c, rest, h⟩ := List.exists_cons_of_ne_nil first.nonempty
    have hhead : (printWords first more).head? = first.chars.head? := by
      rw [printWords, h]
      rfl
    exact hhead ▸ first.head?_solid
  have hlast : ∀ c ∈ (printWords first more).getLast?, isSolid c = true := by
    refine getLast?_append_of first.getLast?_solid (getLast?_flatMap_of fun w => ?_)
    obtain ⟨c, rest, h⟩ := List.exists_cons_of_ne_nil w.nonempty
    rw [h, List.getLast?_cons_cons, ← h]
    exact w.getLast?_solid
  have hblank : ∀ c ∈ [' '], Text.isBlank c = true := List.all_eq_true.mp rfl
  exact cleanLabel?_of_trimmed (trimChars_of_solid hblank hblank hne hfirst hlast)
    (trimChars_self hne hfirst hlast) hne
    (not_mem_printWords (by decide) (by decide)) (not_mem_printWords (by decide) (by decide))

/-! ## Cutting at arrows -/

theorem shownChars_visible (cs : List Char) : Marked.shownChars (visible cs) = cs := by
  rw [Marked.shownChars, visible, List.map_map]
  exact List.map_id cs

/-- What shows a character of an id, an ampersand, a bar or a delimiter of a shape begins no
arrow. -/
theorem quiet_of_shown {m : Marked} (h : Text.isIdentifierChar m.shown = true ∨
    m.shown ∈ '&' :: '|' :: nodeSigns) : m.quiet = true := by
  rcases h with h | h
  · have hsign : ['<', '-', '=', '.'] ⊆ Text.signs := by simp [Text.signs]
    rw [Marked.quiet, Bool.not_eq_true', ← Bool.not_eq_true, List.contains_iff_mem]
    exact fun hc => Text.ne_of_isIdentifierChar h (hsign hc) rfl
  · have hquiet : ('&' :: '|' :: nodeSigns).all
        (fun c => !(['<', '-', '=', '.'].contains c)) = true := rfl
    exact List.all_eq_true.mp hquiet _ h

theorem quiet_marks (n : PrintedNode) : ∀ m ∈ n.marks, m.quiet = true := fun _ hm =>
  quiet_of_shown ((shown_of_mem_marks hm).imp id fun h =>
    List.mem_cons_of_mem _ (List.mem_cons_of_mem _ h))

/-- No arrow begins in a group: its labels are hidden, and what is seen of it is quiet. -/
theorem quiet_group (g : PrintedGroup) : ∀ m ∈ g.marks, m.quiet = true := by
  have hsep : ∀ m ∈ visible [' ', '&', ' '], m.quiet = true := List.all_eq_true.mp rfl
  intro m hm
  rcases List.mem_append.mp hm with hm | hm
  · exact quiet_marks g.first m hm
  · obtain ⟨n, -, hn⟩ := List.mem_flatMap.mp hm
    exact (List.mem_append.mp hn).elim (hsep m) (quiet_marks n m)

/-- No arrow begins in the text between bars that may follow an arrow. -/
theorem quiet_afterMarks (t : LinkText) : ∀ m ∈ PrintedLink.afterMarks t, m.quiet = true := by
  intro m hm
  cases t with
  | bare => cases hm
  | worded opener first more => cases hm
  | barred text =>
    rw [PrintedLink.afterMarks, barMarks, List.mem_cons, List.mem_append, List.mem_singleton] at hm
    rcases hm with rfl | hm | rfl
    · rfl
    · exact quiet_of_shown (.inr (by rw [shown_of_mem_hidden hm]; decide))
    · rfl

/-- No arrow begins in the text that stands inside a line. -/
theorem quiet_words (first : Word) (more : List Word) :
    ∀ m ∈ visible (' ' :: (printWords first more ++ [' '])), m.quiet = true := by
  intro m hm
  have hshown := shown_of_mem_visible hm
  rw [List.mem_cons, List.mem_append, List.mem_singleton] at hshown
  have hcases : Text.isIdentifierChar m.shown = true ∨ m.shown = ' ' :=
    hshown.elim .inr fun h => h.elim mem_printWords .inr
  exact quiet_of_shown (hcases.imp id fun h => by rw [h]; decide)

/-- The arrows of a link with the texts after them, the last one up to the next link. -/
def PrintedLink.tokens (l : PrintedLink) (text : List Marked) : List (ArrowToken × List Marked) :=
  match l.text with
  | .worded _ first more =>
    [(.labelOpen, visible (' ' :: (printWords first more ++ [' ']))),
      (.link l.arrow.kind l.arrow.line, text)]
  | t => [(.link l.arrow.kind l.arrow.line, afterMarks t ++ text)]

/-- A printed arrow is cut out where a blank or a bar follows it, and classified as the arrow that
was printed. -/
theorem splitArrows_print (a : PrintedArrow) {m : Marked} {ms : List Marked}
    (hm : m.shown ∈ [' ', '|']) : splitArrows (visible a.print ++ m :: ms) =
      ⟨[], (.link a.kind a.line, (splitArrows (m :: ms)).first) :: (splitArrows (m :: ms)).rest⟩ := by
  have hne : visible a.print ≠ [] := by
    obtain ⟨body, c, hstroke, -⟩ := PrintedArrow.stroke_eq_concat a.line a.kind a.extra
    rw [PrintedArrow.print, hstroke]
    simp [visible]
  have hlength : settledLength (Marked.shownChars (visible a.print ++ m :: ms)) =
      (visible a.print).length := by
    have hshown : Marked.shownChars (visible a.print ++ m :: ms) =
        a.print ++ m.shown :: Marked.shownChars ms := by
      rw [Marked.shownChars, List.map_append, List.map_cons]
      exact congrArg (· ++ _) (shownChars_visible a.print)
    rw [hshown, a.settledLength_print hm, visible, List.length_map]
  rw [splitArrows_arrow hne hlength, shownChars_visible, a.classifyArrow_print]

/-- A printed opening is cut out as the start of a label, and what follows the blank is cut on its
own. -/
theorem splitArrows_opener (line : LineStyle) (ms : List Marked) :
    splitArrows (visible line.opener ++ blankMark :: ms) =
      ⟨[], (.labelOpen, (splitArrows (blankMark :: ms)).first) ::
        (splitArrows (blankMark :: ms)).rest⟩ := by
  have hne : visible line.opener ≠ [] := by cases line <;> simp [visible, LineStyle.opener]
  have hlength : settledLength (Marked.shownChars (visible line.opener ++ blankMark :: ms)) =
      (visible line.opener).length := by
    have hshown : Marked.shownChars (visible line.opener ++ blankMark :: ms) =
        line.opener ++ ' ' :: Marked.shownChars ms := by
      rw [Marked.shownChars, List.map_append, List.map_cons]
      exact congrArg (· ++ _) (shownChars_visible line.opener)
    rw [hshown, settledLength_opener]
    cases line <;> rfl
  rw [splitArrows_arrow hne hlength, shownChars_visible, classifyArrow_opener]

/-- A printed link is cut into its arrows. -/
theorem splitArrows_link (l : PrintedLink) (ms : List Marked) :
    splitArrows (l.marks ++ blankMark :: ms) =
      ⟨[], l.tokens (blankMark :: (splitArrows ms).first) ++ (splitArrows ms).rest⟩ := by
  have hblank : splitArrows (blankMark :: ms) =
      ⟨blankMark :: (splitArrows ms).first, (splitArrows ms).rest⟩ := splitArrows_cons rfl
  obtain ⟨arrow, text⟩ := l
  cases text with
  | bare =>
    have hmarks : PrintedLink.marks ⟨arrow, .bare⟩ ++ blankMark :: ms =
        visible arrow.print ++ blankMark :: ms := by
      simp [PrintedLink.marks, PrintedLink.before, PrintedLink.afterMarks, visible]
    rw [hmarks, splitArrows_print arrow (by decide), hblank]
    rfl
  | barred t =>
    have hmarks : PrintedLink.marks ⟨arrow, .barred t⟩ ++ blankMark :: ms =
        visible arrow.print ++ (barMarks t.chars ++ blankMark :: ms) := by
      simp [PrintedLink.marks, PrintedLink.before, PrintedLink.afterMarks, visible]
    have hbars : splitArrows (barMarks t.chars ++ blankMark :: ms) =
        ⟨barMarks t.chars ++ (splitArrows (blankMark :: ms)).first,
          (splitArrows (blankMark :: ms)).rest⟩ := splitArrows_append (quiet_afterMarks (.barred t))
    rw [hmarks, barMarks, List.cons_append, splitArrows_print arrow (by decide), ← List.cons_append,
      ← barMarks, hbars, hblank]
    rfl
  | worded opener first more =>
    have hmarks : PrintedLink.marks ⟨arrow, .worded opener first more⟩ ++ blankMark :: ms =
        visible opener.opener ++ (visible (' ' :: (printWords first more ++ [' '])) ++
          (visible arrow.print ++ blankMark :: ms)) := by
      simp [PrintedLink.marks, PrintedLink.before, PrintedLink.afterMarks, visible]
    have hopener : splitArrows (visible opener.opener ++
        (visible (' ' :: (printWords first more ++ [' '])) ++
          (visible arrow.print ++ blankMark :: ms))) =
        ⟨[], (.labelOpen, (splitArrows (visible (' ' :: (printWords first more ++ [' '])) ++
          (visible arrow.print ++ blankMark :: ms))).first) ::
          (splitArrows (visible (' ' :: (printWords first more ++ [' '])) ++
            (visible arrow.print ++ blankMark :: ms))).rest⟩ := splitArrows_opener opener _
    rw [hmarks, hopener, splitArrows_append (quiet_words first more),
      splitArrows_print arrow (by decide), hblank, List.append_nil]
    rfl

namespace PrintedChain

/-- The blank that stands after a group if a link follows. -/
def gap : List (PrintedLink × PrintedGroup) → List Marked
  | [] => []
  | _ :: _ => [blankMark]

/-- The arrows of all links with the texts after them. -/
def tokens : List (PrintedLink × PrintedGroup) → List (ArrowToken × List Marked)
  | [] => []
  | (l, g) :: rest => l.tokens (blankMark :: (g.marks ++ gap rest)) ++ tokens rest

/-- The links and groups after the first group are cut at the arrows, each link giving one arrow or
two, by induction on the links. -/
theorem splitArrows_restMarks (rest : List (PrintedLink × PrintedGroup)) :
    splitArrows (restMarks rest) = ⟨gap rest, tokens rest⟩ := by
  induction rest with
  | nil => rfl
  | cons e rest ih =>
    obtain ⟨l, g⟩ := e
    have hmarks : restMarks ((l, g) :: rest) =
        blankMark :: (l.marks ++ blankMark :: (g.marks ++ restMarks rest)) := by
      simp [restMarks, blankMark]
    have hgroup : splitArrows (g.marks ++ restMarks rest) = ⟨g.marks ++ gap rest, tokens rest⟩ := by
      rw [splitArrows_append (quiet_group g), ih]
    rw [hmarks, splitArrows_cons rfl, splitArrows_link, hgroup]
    rfl

/-- **A printed chain is cut at its links.** -/
theorem splitArrows_marks (c : PrintedChain) :
    splitArrows c.marks = ⟨c.first.marks ++ gap c.rest, tokens c.rest⟩ := by
  rw [marks, splitArrows_append (quiet_group c.first), splitArrows_restMarks]

end PrintedChain

/-! ## Joining arrows -/

/-- The label that is known from the arrows of a link. -/
def PrintedLink.inlineLabel : LinkText → Option String
  | .worded _ first more => some (String.ofList (printWords first more))
  | _ => none

/-- The links with their labels in the line, each with the text after it. -/
def PrintedChain.joined :
    List (PrintedLink × PrintedGroup) → List (Link × List Marked)
  | [] => []
  | (l, g) :: rest =>
    (⟨l.arrow.kind, l.arrow.line, PrintedLink.inlineLabel l.text⟩,
      PrintedLink.afterMarks l.text ++ blankMark :: (g.marks ++ gap rest)) :: joined rest

/-- Openings are joined with the arrows behind them, and the text between the two becomes the label
of the link. -/
theorem joinArrows_tokens (rest : List (PrintedLink × PrintedGroup)) :
    joinArrows (PrintedChain.tokens rest) = .ok (PrintedChain.joined rest) := by
  induction rest with
  | nil => rfl
  | cons e rest ih =>
    obtain ⟨⟨arrow, text⟩, g⟩ := e
    rw [PrintedChain.tokens, PrintedChain.joined]
    cases text with
    | bare =>
      rw [PrintedLink.tokens, List.singleton_append, joinArrows, ih]
      rfl
    | barred t =>
      rw [PrintedLink.tokens, List.singleton_append, joinArrows, ih]
      rfl
    | worded opener first more =>
      rw [PrintedLink.tokens, List.cons_append, List.singleton_append, joinArrows, ih, chars_visible,
        cleanLabel?_words]
      rfl

/-! ## Labels between bars -/

/-- A group begins with the first character of its first id. -/
theorem exists_marks_group (g : PrintedGroup) : ∃ c ms, g.marks = ⟨c, true⟩ :: ms ∧
    isSolid c = true := by
  obtain ⟨c, cs, h⟩ := List.exists_cons_of_ne_nil g.first.id.nonempty
  refine ⟨c, visible cs ++ (bodyMarks g.first.body ++
    visible (PrintedNode.printClasses g.first.classes)) ++
    g.more.flatMap fun n => visible [' ', '&', ' '] ++ n.marks, ?_,
    g.first.id.head?_solid c (by rw [h]; rfl)⟩
  rw [PrintedGroup.marks, PrintedNode.marks, h]
  rfl

theorem chars_group (g : PrintedGroup) : Marked.chars g.marks = g.print := (settles_group g).chars

/-- A group ends with its last node, and so with a solid character. -/
theorem getLast?_group (g : PrintedGroup) : ∀ c ∈ g.print.getLast?, isSolid c = true := by
  refine getLast?_append_of g.first.getLast?_print (getLast?_flatMap_of fun n => ?_)
  obtain ⟨c, cs, h⟩ := List.exists_cons_of_ne_nil n.print_ne_nil
  rw [h, List.getLast?_cons_cons, List.getLast?_cons_cons, List.getLast?_cons_cons, ← h]
  exact n.getLast?_print

/-- The text between bars that was printed for a link. -/
def PrintedLink.frontLabel : LinkText → Option (Option String)
  | .barred text => some (some (String.ofList text.chars))
  | _ => none

/-- Bars at the front of a group hold the label of the link before it. -/
theorem takeFrontLabel_bars (t : BarredText) (ms : List Marked) :
    takeFrontLabel (barMarks t.chars ++ ms) = ⟨some (some (String.ofList t.chars)), ms⟩ := by
  have hdrop : (barMarks t.chars ++ ms).dropWhile (fun m => Text.isBlank m.char) =
      ⟨'|', true⟩ :: (hidden t.chars ++ ⟨'|', true⟩ :: ms) := by
    simp [barMarks, show Text.isBlank '|' = false from rfl]
  have hhidden : ∀ m ∈ hidden t.chars, (m.char != '|') = true := by
    intro m hm
    obtain ⟨c, hc, rfl⟩ := List.mem_map.mp hm
    exact bne_iff_ne.mpr fun h => t.unbarred (h ▸ hc)
  have hlabel : (hidden t.chars ++ ⟨'|', true⟩ :: ms).takeWhile (fun m => m.char != '|') =
      hidden t.chars := by
    rw [List.takeWhile_append_of_pos hhidden, List.takeWhile_cons_of_neg (by simp),
      List.append_nil]
  have hchars : Marked.chars (hidden t.chars) = t.chars := by
    rw [Marked.chars, hidden, List.map_map]
    exact List.map_id _
  rw [takeFrontLabel, hdrop]
  simp only [beq_self_eq_true, if_true, hlabel, List.drop_left, hchars, t.cleanLabel?]

/-- The text between bars is taken from the front of a group, and nothing else is. -/
theorem takeFrontLabel_group (t : LinkText) (g : PrintedGroup) (ms : List Marked) :
    takeFrontLabel (PrintedLink.afterMarks t ++ blankMark :: (g.marks ++ ms)) =
      ⟨PrintedLink.frontLabel t, blankMark :: (g.marks ++ ms)⟩ := by
  have hplain : takeFrontLabel (blankMark :: (g.marks ++ ms)) =
      ⟨none, blankMark :: (g.marks ++ ms)⟩ := by
    obtain ⟨c, rest, hmarks, hc⟩ := exists_marks_group g
    have hbar : (c == '|') = false := by
      simpa using ((Bool.and_eq_true _ _).mp hc).2
    have hdrop : (blankMark :: (g.marks ++ ms)).dropWhile (fun m => Text.isBlank m.char) =
        ⟨c, true⟩ :: (rest ++ ms) := by
      rw [hmarks]
      simp [blankMark, isBlank_of_isSolid hc, show Text.isBlank ' ' = true from rfl]
    rw [takeFrontLabel, hdrop]
    simp [hbar]
  cases t with
  | bare => exact hplain
  | worded opener first more => exact hplain
  | barred text => exact takeFrontLabel_bars text _

/-- No label stands at the back of a group. -/
theorem takeBackLabel_group (pre : List Marked) (g : PrintedGroup) :
    takeBackLabel (pre ++ (g.marks ++ [blankMark])) = ⟨none, pre ++ (g.marks ++ [blankMark])⟩ := by
  have hne : g.marks ≠ [] := by
    obtain ⟨c, ms, h, -⟩ := exists_marks_group g
    rw [h]
    exact List.cons_ne_nil _ _
  have hsolid : isSolid (g.marks.getLast hne).char = true := by
    refine getLast?_group g _ ?_
    rw [← chars_group, Marked.chars, List.getLast?_map, List.getLast?_eq_some_getLast hne]
    rfl
  have hbar : ((g.marks.getLast hne).char == '|') = false := by
    simpa using ((Bool.and_eq_true _ _).mp hsolid).2
  have hdrop : (pre ++ (g.marks ++ [blankMark])).reverse.dropWhile
      (fun m => Text.isBlank m.char) = g.marks.getLast hne :: (g.marks.dropLast.reverse ++
        pre.reverse) := by
    have hreverse : (pre ++ (g.marks ++ [blankMark])).reverse = blankMark ::
        g.marks.getLast hne :: (g.marks.dropLast.reverse ++ pre.reverse) := by
      have hlast : g.marks.reverse = g.marks.getLast hne :: g.marks.dropLast.reverse := by
        rw [← List.reverse_concat, List.dropLast_concat_getLast]
      rw [List.reverse_append, List.reverse_append, hlast]
      rfl
    rw [hreverse]
    simp [blankMark, isBlank_of_isSolid hsolid, show Text.isBlank ' ' = true from rfl]
  rw [takeBackLabel, hdrop]
  simp [hbar]

/-! ## Groups -/

/-- What is seen of a node separates no nodes. -/
theorem not_separator (n : PrintedNode) : ∀ m ∈ n.marks, (m.visible && m.char == '&') = false := by
  intro m hm
  have hne : m.shown ≠ '&' := by
    rcases shown_of_mem_marks hm with h | h
    · exact Text.ne_of_isIdentifierChar h (by decide)
    · rintro h'
      rw [h'] at h
      exact absurd h (by decide)
  cases hv : m.visible with
  | false => rfl
  | true =>
    rw [Marked.shown, if_pos hv] at hne
    exact beq_eq_false_iff_ne.mpr hne

section Blanks

variable {pre post : List Marked} (hpre : ∀ m ∈ pre, m = blankMark)
  (hpost : ∀ m ∈ post, m = blankMark)

include hpre hpost

/-- Nothing separates a node from the blanks around it. -/
theorem not_separator_padded (n : PrintedNode) :
    ∀ m ∈ pre ++ (n.marks ++ post), (m.visible && m.char == '&') = false := by
  intro m hm
  rcases List.mem_append.mp hm with hm | hm
  · exact hpre m hm ▸ rfl
  · rcases List.mem_append.mp hm with hm | hm
    · exact not_separator n m hm
    · exact hpost m hm ▸ rfl

/-- Between two arrows a node is read without the blanks around it. -/
theorem trimChars_padded (n : PrintedNode) :
    Text.trimChars (Marked.chars (pre ++ (n.marks ++ post))) = n.print := by
  have hblank : ∀ {ms : List Marked}, (∀ m ∈ ms, m = blankMark) →
      ∀ c ∈ Marked.chars ms, Text.isBlank c = true := by
    intro ms h c hc
    obtain ⟨m, hm, rfl⟩ := List.mem_map.mp hc
    exact h m hm ▸ rfl
  rw [chars_append, chars_append, (settles_node n).chars]
  exact n.trimChars_print (hblank hpre) (hblank hpost)

/-- A group is cut into its nodes. The separator is an ampersand between the blank after one node
and the one before the next, and none stands inside a node. -/
theorem splitReferences_group (n : PrintedNode) (more : List PrintedNode) :
    (splitReferences (pre ++ (n.marks ++ (more.flatMap (fun n => visible [' ', '&', ' '] ++ n.marks)
      ++ post)))).map (fun part => Text.trimChars (Marked.chars part)) =
      (n :: more).map PrintedNode.print := by
  have hone : ∀ m ∈ [blankMark], m = blankMark := fun m hm => List.mem_singleton.mp hm
  rw [splitReferences]
  induction more generalizing n pre with
  | nil =>
    rw [List.flatMap_nil, List.nil_append,
      List.splitOnP_eq_singleton (not_separator_padded hpre hpost n), List.map_singleton,
      trimChars_padded hpre hpost]
    rfl
  | cons n' more ih =>
    have hcut : pre ++ (n.marks ++ ((n' :: more).flatMap (fun n => visible [' ', '&', ' '] ++ n.marks)
        ++ post)) = pre ++ (n.marks ++ [blankMark]) ++ ⟨'&', true⟩ :: ([blankMark] ++ (n'.marks ++
          (more.flatMap (fun n => visible [' ', '&', ' '] ++ n.marks) ++ post))) := by
      simp [visible, blankMark]
    rw [hcut, List.splitOnP_append_cons_of_forall_mem (not_separator_padded hpre hone n) _ rfl,
      List.map_cons, trimChars_padded hpre hone, ih hone n']
    rfl

end Blanks

/-- Printed nodes are read as what they were printed for, one after the other. -/
theorem readParts_print (blank : Bool) (ns : List PrintedNode) :
    readParts blank (ns.map PrintedNode.print) = .ok (ns.map PrintedNode.ref) := by
  induction ns with
  | nil => rfl
  | cons n ns ih =>
    have hne : n.print.isEmpty = false := List.isEmpty_eq_false_iff.mpr n.print_ne_nil
    rw [List.map_cons, readParts, hne, if_neg Bool.false_ne_true, readReference_print, ih]
    rfl

/-- **A printed group is read** with blanks around it. -/
theorem readFullGroup_group (g : PrintedGroup) (whenEmpty : Rejection) {pre post : List Marked}
    (hpre : ∀ m ∈ pre, m = blankMark) (hpost : ∀ m ∈ post, m = blankMark) :
    readFullGroup (pre ++ (g.marks ++ post)) whenEmpty = .ok g.refs := by
  have hsplit := splitReferences_group hpre hpost g.first g.more
  rw [← List.append_assoc g.first.marks] at hsplit
  rw [readFullGroup, readGroup, PrintedGroup.marks, hsplit, readParts_print]
  rfl

/-- Between a group and the next arrow, or the end of the chain, stands at most a blank. -/
theorem PrintedChain.gap_blank (rest : List (PrintedLink × PrintedGroup)) :
    ∀ m ∈ gap rest, m = blankMark := by
  cases rest with
  | nil => exact fun m hm => by cases hm
  | cons e rest => exact fun m hm => List.mem_singleton.mp hm

/-- Before another link no label is taken from the back of a group, and at the end of the chain none
is looked for. -/
theorem backLabel_group (pre : List Marked) (g : PrintedGroup)
    (rest : List (PrintedLink × PrintedGroup)) :
    (if (PrintedChain.joined rest).isEmpty then
        (⟨none, pre ++ (g.marks ++ PrintedChain.gap rest)⟩ : Unbarred)
      else takeBackLabel (pre ++ (g.marks ++ PrintedChain.gap rest))) =
      ⟨none, pre ++ (g.marks ++ PrintedChain.gap rest)⟩ := by
  cases rest with
  | nil => rfl
  | cons e rest => exact takeBackLabel_group pre g

/-! ## Chains -/

theorem Link.withLabel_none (l : Link) : l.withLabel none = l := by
  obtain ⟨kind, line, label⟩ := l
  cases label <;> rfl

/-- The label of a link comes from its line or from between bars. -/
theorem withLabel_front (l : PrintedLink) :
    (⟨l.arrow.kind, l.arrow.line, PrintedLink.inlineLabel l.text⟩ : Link).withLabel
      (PrintedLink.frontLabel l.text) = l.link := by
  obtain ⟨arrow, text⟩ := l
  cases text <;> rfl

/-- Links and groups are read one after the other: the label is taken from between bars at the front
of a group or from the line of its link, and what is left is the group. -/
theorem readLinks_joined (rest : List (PrintedLink × PrintedGroup)) :
    readLinks none (PrintedChain.joined rest) =
      .ok (rest.map fun e => (e.1.link, e.2.refs)) := by
  induction rest with
  | nil => rfl
  | cons e rest ih =>
    obtain ⟨l, g⟩ := e
    rw [PrintedChain.joined, readLinks]
    have hback := backLabel_group [blankMark] g rest
    rw [List.singleton_append] at hback
    rw [takeFrontLabel_group, Link.withLabel_none]
    dsimp only
    rw [withLabel_front, hback]
    dsimp only
    have hgroup : readFullGroup ([blankMark] ++ (g.marks ++ PrintedChain.gap rest)) .noTarget =
        .ok g.refs := readFullGroup_group g .noTarget (fun m hm => List.mem_singleton.mp hm)
      (PrintedChain.gap_blank rest)
    rw [List.singleton_append] at hgroup
    rw [hgroup, ih]
    rfl

/-- **A printed chain is read back**: its groups with the labels character for character, and its
links with their labels, whatever the labels hold, whichever shapes and arrows are used and however
long the arrows are. -/
theorem readChain_print (c : PrintedChain) : readChain c.print = .ok c.chain := by
  have hback := backLabel_group [] c.first c.rest
  have hgroup : readFullGroup ([] ++ (c.first.marks ++ PrintedChain.gap c.rest)) .noSource =
      .ok c.first.refs := readFullGroup_group c.first .noSource (by simp)
    (PrintedChain.gap_blank c.rest)
  rw [List.nil_append] at hback hgroup
  rw [readChain, markLabels_print, c.splitArrows_marks]
  dsimp only
  rw [joinArrows_tokens]
  dsimp only [bind, Except.bind]
  rw [hback]
  dsimp only
  rw [hgroup, readLinks_joined]
  rfl

/-- A label that holds an arrow, a separator and a class, and a link whose label holds another
arrow. -/
def quotedArrow : PrintedChain where
  first :=
    { first :=
        { id := .letter 'a' rfl
          body := some (.hexagon, ⟨"b --> c & d:::e".toList, by decide⟩)
          classes := [.letter 'f' rfl] }
      more := [{ id := .letter 'g' rfl, body := none, classes := [] }] }
  rest := [
    ({ arrow := { line := .dotted, kind := .bidirectional, extra := 1 }
       text := .barred ⟨"x --- y".toList, by decide, by decide, by decide, by decide⟩ },
      { first := { id := .letter 'h' rfl, body := none, classes := [] }
        more := [] })]

/-- Written out for one chain: the arrow, the separator and the colons in the label of its first
node stay there, and so does the arrow between the bars. -/
theorem readChain_print_quotedArrow :
    String.ofList quotedArrow.print = "a\x7b\x7b\"b --> c & d:::e\"\x7d\x7d:::f & g <-..->|x --- y| h" ∧
    readChain quotedArrow.print = .ok
      ⟨[⟨"a", some "b --> c & d:::e", some .hexagon, ["f"]⟩, { id := "g" }],
        [(⟨.bidirectional, .dotted, some "x --- y"⟩, [{ id := "h" }])]⟩ :=
  ⟨by decide +kernel, readChain_print quotedArrow⟩

end Flowchart
