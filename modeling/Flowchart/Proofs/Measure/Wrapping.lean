import Mathlib.Data.List.Chain
import Mathlib.Data.List.TakeWhile
import Flowchart.Layout.Sizing
import Flowchart.Proofs.Scalar.Nonneg

/-!
# Wrapped lines

Wrapping puts the words of a line on lines one after the other and looks at nothing but the width of
the line that the next word would make. So whatever the widths are, every word comes out once and in
its place, a line of several words is one that was found to fit, and a line ends only where the next
word was found not to fit, `wrapLine_greedy`. A label is broken at its written line breaks before
its lines are wrapped, and has the words of its text, `flatMap_words_labelBlock`.

Widths need not grow with the text, and need not be numbers that compare.
-/

namespace Flowchart

/-! ## Words -/

namespace Text

variable {s t w : String} {p q : Char → Bool} {xs ys : List Char}

/-- **Words split at a blank.** No word reaches across one. -/
theorem runsOutside_append_cons {p : Char → Bool} {c : Char} (hc : p c) (xs ys : List Char) :
    runsOutside p (xs ++ c :: ys) = runsOutside p xs ++ runsOutside p ys := by
  rw [runsOutside, List.splitOnP_append_cons xs ys hc, List.filter_append, runsOutside, runsOutside]

@[simp] theorem words_append_blank (s t : String) : words (s ++ " " ++ t) = words s ++ words t := by
  have hchars : (s ++ " " ++ t).toList = s.toList ++ ' ' :: t.toList := by simp
  rw [words, hchars, runsOutside_append_cons rfl, List.map_append, words, words]

@[simp] theorem words_empty : words "" = [] := by
  simp [words, runsOutside, List.splitOnP_nil]

/-- Between blanks only there are no words, so a line of blanks has none. -/
theorem runsOutside_of_forall (h : ∀ c ∈ xs, p c) : runsOutside p xs = [] := by
  induction xs with
  | nil => rfl
  | cons c xs ih =>
    obtain ⟨hc, hxs⟩ := List.forall_mem_cons.mp h
    have hsplit := runsOutside_append_cons hc [] xs
    rw [ih hxs] at hsplit
    exact hsplit

/-- Blanks at the front of a text are not part of its words. -/
theorem runsOutside_append_of_forall_left (h : ∀ c ∈ xs, p c) :
    runsOutside p (xs ++ ys) = runsOutside p ys := by
  induction xs with
  | nil => rfl
  | cons c xs ih =>
    obtain ⟨hc, hxs⟩ := List.forall_mem_cons.mp h
    exact (runsOutside_append_cons hc [] (xs ++ ys)).trans (ih hxs)

/-- Blanks at the end of a text are not part of its words either. -/
theorem runsOutside_append_of_forall_right (h : ∀ c ∈ ys, p c) :
    runsOutside p (xs ++ ys) = runsOutside p xs := by
  cases ys with
  | nil => rw [List.append_nil]
  | cons c ys =>
    obtain ⟨hc, hys⟩ := List.forall_mem_cons.mp h
    rw [runsOutside_append_cons hc, runsOutside_of_forall hys, List.append_nil]

/-- Trimming takes no words away, since it drops blanks at both ends only. -/
theorem runsOutside_trimChars (cs : List Char) :
    runsOutside isBlank (trimChars cs) = runsOutside isBlank cs := by
  have hfront : runsOutside isBlank (dropFront isBlank cs) = runsOutside isBlank cs := by
    conv_rhs => rw [← List.takeWhile_append_dropWhile (p := isBlank) (l := cs)]
    exact (runsOutside_append_of_forall_left fun c hc => List.mem_takeWhile_imp hc).symm
  have hback : ∀ ds, runsOutside isBlank (dropBack isBlank ds) = runsOutside isBlank ds := by
    intro ds
    have hsplit : ds = dropBack isBlank ds ++ (ds.reverse.takeWhile isBlank).reverse := by
      rw [dropBack, ← List.reverse_append, List.takeWhile_append_dropWhile, List.reverse_reverse]
    conv_rhs => rw [hsplit]
    refine (runsOutside_append_of_forall_right fun c hc => ?_).symm
    exact List.mem_takeWhile_imp (List.mem_reverse.mp hc)
  rw [trimChars, hback, hfront]

/-- Cutting at some of the blanks cuts through no word. The proof looks at one character after the
other; those before the first cut belong to the first piece anyway. -/
theorem flatMap_runsOutside_splitOnP (hq : ∀ c, q c = true → p c = true) (xs : List Char) :
    (xs.splitOnP q).flatMap (runsOutside p) = runsOutside p xs := by
  -- by the characters after those that belong to the first piece anyway
  have hpieces : ∀ pre first rest, xs.splitOnP q = first :: rest →
      runsOutside p (pre ++ first) ++ rest.flatMap (runsOutside p) = runsOutside p (pre ++ xs) := by
    induction xs with
    | nil =>
      intro pre first rest h
      rw [List.splitOnP_nil, List.cons.injEq] at h
      obtain ⟨rfl, rfl⟩ := h
      rw [List.flatMap_nil, List.append_nil]
    | cons c xs ih =>
      intro pre first rest h
      obtain ⟨next, more, hcut⟩ := List.exists_cons_of_ne_nil (List.splitOnP_ne_nil q xs)
      rw [List.splitOnP_cons_eq_if_modifyHead, hcut] at h
      split at h
      next hc =>
        obtain ⟨rfl, rfl⟩ := List.cons.inj h
        rw [runsOutside_append_cons (hq c hc), List.append_nil, List.flatMap_cons]
        exact congrArg (runsOutside p pre ++ ·) (ih [] next more hcut)
      next =>
        obtain ⟨rfl, rfl⟩ := List.cons.inj h
        simpa using ih (pre ++ [c]) next more hcut
  obtain ⟨first, rest, hcut⟩ := List.exists_cons_of_ne_nil (List.splitOnP_ne_nil q xs)
  rw [hcut]
  exact hpieces [] first rest hcut

/-- What stands between two cuts holds no member of the class. -/
theorem not_of_mem_splitOnP {p : Char → Bool} {xs run : List Char} (h : run ∈ xs.splitOnP p) :
    ∀ c ∈ run, p c = false := by
  induction xs generalizing run with
  | nil => simp_all [List.splitOnP_nil]
  | cons x xs ih =>
    obtain ⟨first, rest, hcut⟩ := List.exists_cons_of_ne_nil (List.splitOnP_ne_nil p xs)
    rw [List.splitOnP_cons_eq_if_modifyHead, hcut] at h
    rw [hcut] at ih
    split at h
    next =>
      rcases List.mem_cons.mp h with rfl | h
      · simp
      · exact ih h
    next hx =>
      rw [List.modifyHead_cons] at h
      rcases List.mem_cons.mp h with rfl | h
      · intro c hc
        rcases List.mem_cons.mp hc with rfl | hc
        · simpa using hx
        · exact ih List.mem_cons_self c hc
      · exact ih (List.mem_cons_of_mem first h)

/-- A word of a text is one word. -/
theorem words_of_mem (h : w ∈ words s) : words w = [w] := by
  obtain ⟨run, hrun, rfl⟩ := List.mem_map.mp h
  obtain ⟨hcut, hne⟩ := List.mem_filter.mp hrun
  have hsolid := not_of_mem_splitOnP hcut
  rw [words, runsOutside, String.toList_ofList,
    List.splitOnP_eq_singleton fun c hc => by simpa using hsolid c hc]
  simp_all

end Text

/-! ## Lines -/

namespace Measurer

open Text

variable {α : Type} [Scalar α] {m : Measurer α} {limit size : α} {current : String}
  {ws lines : List String}

/-- Behind the one line there is no room for the first word of the other. -/
def NoRoom (m : Measurer α) (limit size : α) (line next : String) : Prop :=
  ∃ w, (words next).head? = some w ∧ limit < m.lineWidth (line ++ " " ++ w) size

/-- The lines hold the words in order, each line as many as there is room for. -/
structure Wrapped (m : Measurer α) (limit size : α) (lines ws : List String) : Prop where
  /-- no word is lost, none comes twice -/
  words_eq : lines.flatMap words = ws
  /-- every line has a word -/
  filled : ∀ l ∈ lines, words l ≠ []
  /-- a line of several words was found to fit -/
  fits : ∀ l ∈ lines, 2 ≤ (words l).length → ¬ limit < m.lineWidth l size
  /-- a line ends where the next word does not fit -/
  greedy : lines.IsChain (m.NoRoom limit size)

/-- The first line starts with the words that were on it before. -/
theorem exists_wrapWords_eq_cons (m : Measurer α) (limit size : α) (current : String)
    (ws : List String) : ∃ first rest,
      m.wrapWords limit size current ws = first :: rest ∧ words current <+: words first := by
  induction ws generalizing current with
  | nil => exact ⟨current, [], rfl, List.prefix_rfl⟩
  | cons w ws ih =>
    rw [wrapWords]
    split
    next => exact ⟨current, _, rfl, List.prefix_rfl⟩
    next =>
      obtain ⟨first, rest, heq, hstart⟩ := ih (current ++ " " ++ w)
      rw [words_append_blank] at hstart
      exact ⟨first, rest, heq, (List.prefix_append _ _).trans hstart⟩

/-- A line that is closed goes in front of the lines of the word that had no room on it. -/
theorem Wrapped.cons {w : String} (h : m.Wrapped limit size (m.wrapWords limit size w ws) (w :: ws))
    (hw : words w = [w]) (hcurrent : words current ≠ [])
    (hfits : 2 ≤ (words current).length → ¬ limit < m.lineWidth current size)
    (hfull : limit < m.lineWidth (current ++ " " ++ w) size) :
    m.Wrapped limit size (current :: m.wrapWords limit size w ws) (words current ++ w :: ws) := by
  obtain ⟨first, rest, heq, hstart⟩ := exists_wrapWords_eq_cons m limit size w ws
  rw [heq] at h ⊢
  have hhead : (words first).head? = some w := by
    obtain ⟨more, hmore⟩ := hstart
    rw [← hmore, hw]
    rfl
  exact
    { words_eq := by rw [List.flatMap_cons, h.words_eq]
      filled := List.forall_mem_cons.mpr ⟨hcurrent, h.filled⟩
      fits := List.forall_mem_cons.mpr ⟨hfits, h.fits⟩
      greedy := List.isChain_cons_cons.mpr ⟨⟨w, hhead, hfull⟩, h.greedy⟩ }

/-- **Wrapping from a started line on.** A word that does not fit starts a line of its own, which
may be too wide. -/
theorem wrapped_wrapWords (hws : ∀ w ∈ ws, words w = [w]) (hcurrent : words current ≠ [])
    (hfits : 2 ≤ (words current).length → ¬ limit < m.lineWidth current size) :
    m.Wrapped limit size (m.wrapWords limit size current ws) (words current ++ ws) := by
  induction ws generalizing current with
  | nil =>
    exact
      { words_eq := by simp [wrapWords]
        filled := by simpa [wrapWords] using hcurrent
        fits := by simpa [wrapWords] using hfits
        greedy := List.isChain_singleton current }
  | cons w ws ih =>
    obtain ⟨hw, hws⟩ := List.forall_mem_cons.mp hws
    rw [wrapWords]
    split
    next hfull =>
      have hrest := @ih w hws (by simp [hw]) (by simp [hw])
      rw [hw, List.singleton_append] at hrest
      exact hrest.cons hw hcurrent hfits hfull
    next hroom =>
      have hrest := @ih (current ++ " " ++ w) hws (by simp [hw]) fun _ => hroom
      rwa [words_append_blank, hw, List.append_assoc, List.singleton_append] at hrest

/-- A line that does not fit is wrapped. -/
theorem wrapped_wrapLine {line : String} (h : ¬ m.lineWidth line size ≤ limit) :
    m.Wrapped limit size (m.wrapLine line limit size) (words line) := by
  rw [wrapLine, if_neg h]
  cases hwords : words line with
  | nil => exact ⟨rfl, by simp, by simp, List.isChain_nil⟩
  | cons w ws =>
    have hsingle : ∀ v ∈ w :: ws, words v = [v] := fun v hv => words_of_mem (hwords ▸ hv)
    obtain ⟨hw, hws⟩ := List.forall_mem_cons.mp hsingle
    have hwrapped : m.Wrapped limit size (m.wrapWords limit size w ws) (words w ++ ws) :=
      wrapped_wrapWords hws (by simp [hw]) (by simp [hw])
    rwa [hw, List.singleton_append] at hwrapped

/-- Wrapping loses no words: the lines have the words of the text, in their order. -/
theorem flatMap_words_wrapLine (m : Measurer α) (line : String) (limit size : α) :
    (m.wrapLine line limit size).flatMap words = words line := by
  by_cases hline : m.lineWidth line size ≤ limit
  · rw [wrapLine, if_pos hline, List.flatMap_singleton]
  · exact (wrapped_wrapLine hline).words_eq

/-- **Wrapping is greedy and loses nothing.** Whatever the measurer says, the words of the lines are
the words of the text in order, and no line of several words is too wide. If the text had to be
wrapped, no line is empty, and behind no line there is room for the first word of the next. -/
theorem wrapLine_greedy (m : Measurer Float32) (line : String) (limit size : Float32) :
    (m.wrapLine line limit size).flatMap words = words line ∧
      (∀ l ∈ m.wrapLine line limit size,
        2 ≤ (words l).length → ¬ limit < m.lineWidth l size) ∧
      (¬ m.lineWidth line size ≤ limit →
        (∀ l ∈ m.wrapLine line limit size, l ≠ "") ∧
          (m.wrapLine line limit size).IsChain (m.NoRoom limit size)) := by
  refine ⟨m.flatMap_words_wrapLine line limit size, ?_⟩
  by_cases hline : m.lineWidth line size ≤ limit
  · rw [wrapLine, if_pos hline]
    refine ⟨fun l hl _ => ?_, fun h => absurd hline h⟩
    obtain rfl := List.mem_singleton.mp hl
    exact Single.not_lt_of_le hline
  · have hwrapped := wrapped_wrapLine hline
    refine ⟨hwrapped.fits, fun _ => ⟨fun l hl => ?_, hwrapped.greedy⟩⟩
    rintro rfl
    exact hwrapped.filled "" hl words_empty

/-- Every character is as wide as it is high. -/
def squareLetters : Measurer α := ⟨fun line fontSize => Scalar.ofNat line.length * fontSize⟩

/-- Two words that fit on one line, one that does not fit behind them, and one that fits nowhere. -/
def fourWords : String := "to be  or characteristic"

theorem wrapLine_greedy_fourWords :
    let lines := squareLetters.wrapLine fourWords (6 : Float32) 1
    lines = ["to be", "or", "characteristic"] ∧
      lines.flatMap words = ["to", "be", "or", "characteristic"] ∧
      lines.IsChain (squareLetters.NoRoom (6 : Float32) 1) := by
  obtain ⟨hwords, -, hwrapped⟩ := wrapLine_greedy squareLetters fourWords 6 1
  have hwide : ¬ squareLetters.lineWidth fourWords (1 : Float32) ≤ 6 := by decide +kernel
  exact ⟨by decide +kernel, hwords.trans (by decide +kernel), (hwrapped hwide).2⟩

end Measurer

/-! ## Labels -/

open Text

/-- The words of a label: those of its text with every written line break taken for a blank. -/
def labelWords (text : String) : List String := words (String.ofList (breakTags text.toList))

theorem flatMap_words_labelLines (text : String) :
    (labelLines text).flatMap words = labelWords text := by
  have hline : ∀ l : List Char, words (String.ofList (trimChars l)) =
      (runsOutside isBlank l).map String.ofList := fun l => by
    rw [words, String.toList_ofList, runsOutside_trimChars]
  rw [labelLines, List.flatMap_map, labelWords, words, String.toList_ofList,
    ← flatMap_runsOutside_splitOnP (q := (· == '\n')) (fun c hc => beq_iff_eq.mp hc ▸ rfl),
    List.map_flatMap]
  exact List.flatMap_congr fun l _ => hline l

/-- **A measured label has the words of its text**, each once and in their order. A label without
lines gets an empty line, which has no words either. -/
theorem flatMap_words_labelBlock {α : Type} [Scalar α] (m : Measurer α)
    (options : LayoutOptions α) (fontSize : α) (text : String) :
    (labelBlock m options fontSize text).lines.flatMap words = labelWords text := by
  let limit := Scalar.ofNat options.maxLabelChars * averageCharWidth fontSize
  have hlines : ((labelLines text).flatMap fun line => m.wrapLine line limit fontSize).flatMap words =
      labelWords text := by
    rw [List.flatMap_assoc, ← flatMap_words_labelLines]
    exact List.flatMap_congr fun line _ => m.flatMap_words_wrapLine line limit fontSize
  change (wrappedLines m options fontSize text).flatMap words = _
  rw [wrappedLines]
  split
  next hnil =>
    rw [← hlines, hnil]
    simp
  next => exact hlines

end Flowchart
