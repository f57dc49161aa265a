import Flowchart.Grammar.Statement
import Flowchart.Proofs.Printing.Arrows
import Flowchart.Proofs.Printing.References

/-!
# Nodes with bare labels

A label without quotes may hold whatever does not end it: arrows, separators, colons, semicolons. As
long as the statement is not cut inside of it, only the id and the outer delimiters of the shape are
seen, and the statement is that node, `BareNode.readStatement_print`.

What is used of it holds of every statement in which a word opens a shape and nothing else is seen
but closing brackets, `Opened`. No keyword fits such a statement except those that only ask for the
end of a word, and they fit it if they fit the word alone. So it is the node of the word, or the
shape is not closed.
-/

namespace Flowchart

/-! ## Forms -/

/-- What a bare label does not hold. -/
def labelSigns : List Char := ['"', '[', ']', '(', ')', '{', '}', '|', '%', '\n']

/-- The mention of a node by a word with a label in a shape. -/
def Word.labelled (w : Word) (label : String) (shape : Shape) : NodeRef :=
  { id := String.ofList w.chars, label := some label, shape := some shape }

/-- A label that is written without quotes. -/
structure BareLabel where
  /-- its characters -/
  chars : List Char
  nonempty : chars ≠ []
  bare : ∀ c ∈ chars, c ∉ labelSigns
  /-- it begins with a letter, number or underscore -/
  first : ∀ c ∈ chars.head?, Text.isIdentifierChar c = true
  /-- it ends with a letter, number or underscore -/
  last : ∀ c ∈ chars.getLast?, Text.isIdentifierChar c = true

/-- A node that is written with a bare label. -/
structure BareNode where
  /-- its name -/
  id : Word
  /-- its shape -/
  shape : Shape
  /-- its label -/
  label : BareLabel

namespace BareNode

/-- The text of a node. -/
def print (n : BareNode) : List Char :=
  n.id.chars ++ (n.shape.opening ++ (n.label.chars ++ n.shape.closing))

/-- What a node is to be read as. -/
def ref (n : BareNode) : NodeRef := n.id.labelled (String.ofList n.label.chars) n.shape

end BareNode

/-- The word is a keyword of statements that are passed over, or begins with one that does not run
on in it. That happens before numbers that are neither digits nor letters, such as superscripts. -/
def Word.IsPassedOver (w : Word) : Prop :=
  ∃ k ∈ ignoredKeywords, w.chars = k.toList ∨
    ∃ c more, w.chars = k.toList ++ c :: more ∧ Text.isWordChar c = false

/-- Whether a statement with this word is passed over is decided by the ignored keywords. -/
theorem Word.isPassedOver_iff (w : Word) :
    w.IsPassedOver ↔ (ignoredKeywords.any fun k => startsWithWord k w.chars) = true := by
  rw [List.any_eq_true]
  refine exists_congr fun k => and_congr_right fun _ => ?_
  rw [startsWithWord, startsWith, Bool.and_eq_true, List.isPrefixOf_iff_prefix]
  constructor
  · rintro (h | ⟨c, more, h, hc⟩)
    · rw [h, ← String.length_toList, List.drop_length]
      exact ⟨List.prefix_refl _, rfl⟩
    · rw [h, ← String.length_toList, List.drop_left]
      exact ⟨List.prefix_append _ _, by simp [hc]⟩
  · rintro ⟨⟨more, hmore⟩, hend⟩
    rw [← hmore, ← String.length_toList, List.drop_left] at hend
    cases more with
    | nil => exact .inl (by rw [← hmore, List.append_nil])
    | cons c more => exact .inr ⟨c, more, hmore.symm, by simpa using hend⟩

/-! ## Statements that open a shape -/

/-- A word opens a shape, and nothing else of the statement is seen but closing brackets. -/
structure Opened (w : Word) (o : Char) (rest : List Char) : Prop where
  opens : opensShape o = true
  seen : ∃ ms, markLabels (w.chars ++ o :: rest) = visible w.chars ++ ⟨o, true⟩ :: ms ∧
    ∀ m ∈ ms, m.shown = ' ' ∨ isClosing m.shown = true
  trimmed : ∀ c ∈ (o :: rest).getLast?, Text.isBlank c = false

section Openings

variable {w : Word} {o : Char} {rest : List Char}

/-- A shape is opened by one of four characters. -/
theorem opener_cases (h : opensShape o = true) : o = '[' ∨ o = '(' ∨ o = '{' ∨ o = '>' := by
  simpa [opensShape, isOpening, or_assoc] using h

/-- A shape is closed by one of three characters. -/
theorem closer_cases (h : isClosing o = true) : o = ']' ∨ o = ')' ∨ o = '}' := by
  simpa [isClosing, or_assoc] using h

theorem isBlank_of_opensShape (h : opensShape o = true) : Text.isBlank o = false := by
  rcases opener_cases h with rfl | rfl | rfl | rfl <;> rfl

/-- A statement that opens a shape is not empty. -/
theorem opened_ne_nil (w : Word) (o : Char) (rest : List Char) : w.chars ++ o :: rest ≠ [] :=
  List.append_ne_nil_of_right_ne_nil _ (List.cons_ne_nil _ _)

/-! ### Keywords -/

/-- A text with a sign is no beginning of a statement whose first sign is another one. -/
theorem startsWith_opened {k : String} {c : Char} (hc : c ∈ k.toList) (hsign : c ∈ Text.signs)
    (ho : o ∉ k.toList) (w : Word) (rest : List Char) :
    startsWith k (w.chars ++ o :: rest) = false := by
  rw [startsWith, isPrefixOf_append_of_not_mem ho, ← Bool.not_eq_true, List.isPrefixOf_iff_prefix]
  exact fun h => w.not_mem_of_sign hsign (h.subset hc)

/-- A keyword is followed by a character of the word or by the opening of the shape. -/
theorem drop_opened {k : String} (ho : o ∉ k.toList)
    (h : k.toList.isPrefixOf (w.chars ++ o :: rest) = true) : ∃ more,
    w.chars = k.toList ++ more ∧ (w.chars ++ o :: rest).drop k.length = more ++ o :: rest := by
  rw [isPrefixOf_append_of_not_mem ho] at h
  obtain ⟨more, hmore⟩ := List.isPrefixOf_iff_prefix.mp h
  refine ⟨more, hmore.symm, ?_⟩
  rw [← hmore, List.append_assoc, ← String.length_toList, List.drop_left]

/-- No keyword is found that has to be followed by a blank, for the word is followed by the opening
of a shape. -/
theorem afterKeyword?_opened (hopens : opensShape o = true) {k : String} (ho : o ∉ k.toList)
    (w : Word) (rest : List Char) : afterKeyword? k (w.chars ++ o :: rest) = none := by
  rw [afterKeyword?]
  split
  next hk =>
    obtain ⟨more, hword, hdrop⟩ := drop_opened ho hk
    rw [hdrop]
    cases more with
    | nil => exact if_neg (by rw [isBlank_of_opensShape hopens]; exact Bool.false_ne_true)
    | cons c more =>
      have hc : Text.isBlank c = false :=
        Text.isBlank_of_isIdentifierChar (w.identifier c (by rw [hword]; simp))
      exact if_neg (by rw [hc]; exact Bool.false_ne_true)
  next => rfl

/-- Whether the statement begins with a keyword that needs no blank is decided by its word alone. -/
theorem startsWithWord_opened (hopens : opensShape o = true) {k : String} (ho : o ∉ k.toList)
    (w : Word) (rest : List Char) :
    startsWithWord k (w.chars ++ o :: rest) = startsWithWord k w.chars := by
  have hword : Text.isWordChar o = false := by
    rcases opener_cases hopens with rfl | rfl | rfl | rfl <;> decide +kernel
  rw [startsWithWord, startsWithWord, startsWith, startsWith]
  cases hk : k.toList.isPrefixOf w.chars with
  | false => rw [isPrefixOf_append_of_not_mem ho, hk]; rfl
  | true =>
    have hwhole : k.toList.isPrefixOf (w.chars ++ o :: rest) = true :=
      (isPrefixOf_append_of_not_mem ho).trans hk
    obtain ⟨more, hmore, hdrop⟩ := drop_opened ho hwhole
    have hdrop' : w.chars.drop k.length = more := by
      rw [hmore, ← String.length_toList, List.drop_left]
    rw [hwhole, hdrop, hdrop']
    cases more with
    | nil => simp [hword]
    | cons c more => rfl

/-- A statement that opens a shape gives no direction. -/
theorem readDirectionLine?_opened (hopens : opensShape o = true) (w : Word) (rest : List Char) :
    readDirectionLine? (w.chars ++ o :: rest) = none := by
  have hsplit : ∀ {cs : List Char}, (∀ c ∈ cs, Text.isBlank c = false) → ∀ rest,
      ∃ first parts, (cs ++ o :: rest).splitOnP Text.isBlank = (cs ++ o :: first) :: parts := by
    intro cs hcs rest
    induction cs with
    | nil =>
      obtain ⟨first, parts, h⟩ :=
        List.exists_cons_of_ne_nil (List.splitOnP_ne_nil Text.isBlank rest)
      refine ⟨first, parts, ?_⟩
      rw [List.nil_append, List.splitOnP_cons_eq_if_modifyHead, isBlank_of_opensShape hopens, h]
      rfl
    | cons c cs ih =>
      obtain ⟨first, parts, h⟩ := ih fun d hd => hcs d (List.mem_cons_of_mem c hd)
      refine ⟨first, parts, ?_⟩
      rw [List.cons_append, List.splitOnP_cons_eq_if_modifyHead, hcs c List.mem_cons_self, h]
      rfl
  obtain ⟨first, parts, h⟩ :=
    hsplit (fun c hc => Text.isBlank_of_isIdentifierChar (w.identifier c hc)) rest
  have hkeyword : (w.chars ++ o :: first == "direction".toList) = false := by
    refine beq_eq_false_iff_ne.mpr fun heq => ?_
    have ho : o ∈ "direction".toList := heq ▸ List.mem_append_right _ List.mem_cons_self
    rcases opener_cases hopens with rfl | rfl | rfl | rfl <;> revert ho <;> decide
  have hfirst : (!(w.chars ++ o :: first).isEmpty) = true := by simp
  rw [readDirectionLine?, Text.runsOutside, h,
    List.filter_cons_of_pos (p := fun cs : List Char => !cs.isEmpty) hfirst]
  split
  next heq =>
    obtain ⟨hword, -⟩ := List.cons.inj heq
    rw [← hword, hkeyword]
    rfl
  next => rfl

end Openings

namespace Opened

variable {w : Word} {o : Char} {rest : List Char} (h : Opened w o rest)

include h

/-- Only the keywords that need not be followed by a blank can be found. -/
theorem readStatement_eq : readStatement (w.chars ++ o :: rest) =
    if ignoredKeywords.any fun k => startsWithWord k w.chars then .ignored
    else match readChain (w.chars ++ o :: rest) with
      | .ok c => .chain c
      | .error reason => .rejected reason := by
  have hnot : ∀ k ∈ ["end", "subgraph", "classDef ", "class ", "style ", "linkStyle "] ++
      ignoredKeywords, o ∉ k.toList := by
    rcases opener_cases h.opens with rfl | rfl | rfl | rfl <;> decide
  have hend : (w.chars ++ o :: rest == "end".toList) = false :=
    beq_eq_false_iff_ne.mpr fun heq => hnot "end" (by decide)
      (heq ▸ List.mem_append_right _ List.mem_cons_self)
  have hspaced : ∀ k ∈ ["classDef ", "class ", "style ", "linkStyle "],
      startsWith k (w.chars ++ o :: rest) = false := by
    intro k hk
    have hblank : ∀ k ∈ ["classDef ", "class ", "style ", "linkStyle "], ' ' ∈ k.toList := by decide
    refine startsWith_opened (hblank k hk) (by decide) (hnot k ?_) w rest
    have hsub : ["classDef ", "class ", "style ", "linkStyle "] ⊆ ["end", "subgraph", "classDef ",
      "class ", "style ", "linkStyle "] ++ ignoredKeywords := by decide
    exact hsub hk
  have hpassed : (ignoredKeywords.any fun k => startsWithWord k (w.chars ++ o :: rest)) =
      ignoredKeywords.any fun k => startsWithWord k w.chars := by
    rw [Bool.eq_iff_iff, List.any_eq_true, List.any_eq_true]
    refine exists_congr fun k => and_congr_right fun hk => ?_
    rw [startsWithWord_opened h.opens (hnot k (List.mem_append_right _ hk))]
  rw [readStatement, hend, afterKeyword?_opened h.opens (hnot "subgraph" (by decide)),
    readDirectionLine?_opened h.opens, hspaced "classDef " (by decide),
    hspaced "class " (by decide), hspaced "style " (by decide), hspaced "linkStyle " (by decide),
    hpassed]
  rfl

/-! ### Nodes -/

/-- Such a statement begins with a word, and it is taken to end with a solid character. -/
theorem trimChars_eq : Text.trimChars (w.chars ++ o :: rest) = w.chars ++ o :: rest := by
  have hpad : Text.trimChars ([] ++ ((w.chars ++ o :: rest) ++ [])) = w.chars ++ o :: rest := by
    refine Text.trimChars_pad (by simp) (by simp) (opened_ne_nil w o rest) (fun c hc => ?_)
      fun c hc => ?_
    · obtain ⟨d, more, hw⟩ := List.exists_cons_of_ne_nil w.nonempty
      rw [hw, List.cons_append, List.head?_cons] at hc
      exact Option.some.inj hc ▸
        Text.isBlank_of_isIdentifierChar (w.identifier d (by rw [hw]; simp))
    · rw [List.getLast?_append, List.getLast?_cons, Option.some_or] at hc
      exact h.trimmed c (by rw [List.getLast?_cons]; exact hc)
  simpa using hpad

/-- In the shape that was opened nothing that is seen means anything, since the label hides whatever
it holds. -/
theorem unseen : ∃ ms, markLabels (w.chars ++ o :: rest) = ms ∧
    ∀ m ∈ ms, m.shown ∉ [':', '&', '<', '-', '=', '.'] := by
  obtain ⟨ms, hms, hseen⟩ := h.seen
  refine ⟨_, hms, fun m hm => ?_⟩
  rcases List.mem_append.mp hm with hm | hm
  · have hid := w.identifier _ (shown_of_mem_visible hm)
    have hsigns : [':', '&', '<', '-', '=', '.'] ⊆ Text.signs := by decide
    exact fun hmem => Text.ne_of_isIdentifierChar hid (hsigns hmem) rfl
  rcases List.mem_cons.mp hm with rfl | hm
  · rcases opener_cases h.opens with rfl | rfl | rfl | rfl <;> decide
  · rcases hseen m hm with hblank | hclosing
    · rw [hblank]
      decide
    · rcases closer_cases hclosing with heq | heq | heq <;> rw [heq] <;> decide

/-- The statement is cut neither at arrows nor at separators. -/
theorem readChain_eq : readChain (w.chars ++ o :: rest) =
    (readReference (w.chars ++ o :: rest)).map fun r => ⟨[r], []⟩ := by
  obtain ⟨ms, hms, hunseen⟩ := h.unseen
  have hquiet : ∀ m ∈ ms, m.quiet = true := by
    intro m hm
    rw [Marked.quiet, Bool.not_eq_true', ← Bool.not_eq_true, List.contains_iff_mem]
    have hsub : ['<', '-', '=', '.'] ⊆ [':', '&', '<', '-', '=', '.'] := by decide
    exact fun hmem => hunseen m hm (hsub hmem)
  have hwhole : ∀ m ∈ ms, (m.visible && m.char == '&') = false := by
    intro m hm
    have hne := hunseen m hm
    cases hv : m.visible with
    | false => rfl
    | true =>
      rw [Marked.shown, if_pos hv] at hne
      exact beq_eq_false_iff_ne.mpr fun heq => hne (by rw [heq]; decide)
  have hcut : splitArrows ms = ⟨ms, []⟩ := by
    have happend : splitArrows (ms ++ []) = ⟨ms ++ [], []⟩ := splitArrows_append hquiet
    rwa [List.append_nil] at happend
  have hchars : Marked.chars ms = w.chars ++ o :: rest := by
    rw [← hms, markLabels, chars_markFrom]
  have hgroup : readFullGroup ms .noSource =
      (readReference (w.chars ++ o :: rest)).map fun r => [r] := by
    rw [readFullGroup, readGroup, splitReferences, List.splitOnP_eq_singleton hwhole,
      List.map_singleton, hchars, h.trimChars_eq, readParts,
      List.isEmpty_eq_false_iff.mpr (opened_ne_nil w o rest)]
    cases readReference (w.chars ++ o :: rest) <;> rfl
  have hchain : readChain (w.chars ++ o :: rest) = (readFullGroup ms .noSource >>= fun first =>
      .ok ⟨first, []⟩) := by
    rw [readChain, hms, hcut]
    rfl
  rw [hchain, hgroup]
  cases readReference (w.chars ++ o :: rest) <;> rfl

/-- The statement is read as its word with the shape that follows. -/
theorem readReference_eq : readReference (w.chars ++ o :: rest) =
    match readShape? (o :: rest) with
    | none => .error (.openShape (String.ofList (o :: rest)))
    | some (label, shape) => .ok (w.labelled label shape) := by
  obtain ⟨ms, hms, hunseen⟩ := h.unseen
  have hclasses : splitClasses (w.chars ++ o :: rest) = (w.chars ++ o :: rest, []) := by
    have hcolons : ∀ m ∈ ms, m.shown ≠ ':' := fun m hm heq => hunseen m hm (by rw [heq]; decide)
    have hnone : splitAtColons? ms = none := by
      have happend : splitAtColons? (ms ++ []) = none := splitAtColons?_append hcolons
      rwa [List.append_nil] at happend
    rw [splitClasses, hms, hnone]
    exact congrArg (·, []) h.trimChars_eq
  have hsplit : Text.splitBefore? opensShape (w.chars ++ o :: rest) =
      some (w.chars, o :: rest) := by
    rw [Text.splitBefore?, List.dropWhile_append_of_pos w.not_opensShape,
      List.takeWhile_append_of_pos w.not_opensShape]
    simp [h.opens]
  have htrim : Text.trimChars (o :: rest) = o :: rest := by
    have hpad : Text.trimChars ([] ++ ((o :: rest) ++ [])) = o :: rest :=
      Text.trimChars_pad (by simp) (by simp) (by simp)
        (fun c hc => Option.some.inj hc ▸ isBlank_of_opensShape h.opens) h.trimmed
    simpa using hpad
  rw [readReference, hclasses]
  dsimp only
  rw [hsplit]
  dsimp only
  rw [htrim]
  cases readShape? (o :: rest) with
  | none => rfl
  | some shaped =>
    simp only [w.trimChars_eq, w.isIdentifier, if_true]
    rfl

/-- **A statement that opens a shape** is the node of its word, unless a keyword is found or the
shape is not closed. -/
theorem readStatement_of_word (hw : ¬ w.IsPassedOver) :
    readStatement (w.chars ++ o :: rest) = match readShape? (o :: rest) with
      | none => .rejected (.openShape (String.ofList (o :: rest)))
      | some (label, shape) => .chain ⟨[w.labelled label shape], []⟩ := by
  rw [h.readStatement_eq, if_neg (mt w.isPassedOver_iff.mpr hw), h.readChain_eq,
    h.readReference_eq]
  cases readShape? (o :: rest) <;> rfl

end Opened

/-! ## What is hidden of a label -/

/-- A character of a bare label is none of the signs that could end it. -/
theorem ne_of_bare {c d : Char} (hc : c ∉ labelSigns) (hd : d ∈ labelSigns) : (c == d) = false :=
  beq_eq_false_iff_ne.mpr fun h => hc (h ▸ hd)

/-- A bare character closes no shape, because the closing characters are among the signs that a bare
label does without. -/
theorem isClosing_of_bare {c : Char} (hc : c ∉ labelSigns) : isClosing c = false := by
  rw [isClosing, ne_of_bare hc (by decide), ne_of_bare hc (by decide), ne_of_bare hc (by decide)]
  rfl

/-- A bare character opens no shape either. -/
theorem isOpening_of_bare {c : Char} (hc : c ∉ labelSigns) : isOpening c = false := by
  rw [isOpening, ne_of_bare hc (by decide), ne_of_bare hc (by decide), ne_of_bare hc (by decide)]
  rfl

section Labels

variable {s : Shape} {cs : List Char}

/-- Inside a shape a bare text is hidden. -/
theorem marks_bare (s : Shape) (h : ∀ c ∈ cs, c ∉ labelSigns) : Marks s.inside cs (hidden cs)
    { s.inside with previous := cs.getLastD s.inside.previous } := by
  refine marks_hidden fun c hc q => ?_
  have hstate : (s.inside.depth == 0) = false ∧ s.inside.quoted = false ∧
      s.inside.barred = false := by cases s <;> exact ⟨rfl, rfl, rfl⟩
  obtain ⟨hdepth, hquoted, hbarred⟩ := hstate
  simp only [MaskState.step, hdepth, hquoted, hbarred, isOpening_of_bare (h c hc),
    isClosing_of_bare (h c hc), ne_of_bare (h c hc) (show '"' ∈ labelSigns by decide),
    Bool.false_eq_true, if_false, Bool.and_false, Bool.false_and]

/-- Of a word and a shape that is not closed the word and the outer opening are seen. -/
theorem marks_unclosed (w : Word) (s : Shape) (h : ∀ c ∈ cs, c ∉ labelSigns) : ∃ q,
    Marks {} (w.chars ++ (s.opening ++ cs))
      (visible w.chars ++ (⟨s.outerOpening, true⟩ :: hidden s.opening.tail ++ hidden cs))
      { s.inside with previous := q } := by
  have hlast : Text.isIdentifierChar (w.chars.getLastD '\x00') = true := by
    rw [List.getLastD_eq_getLast?, List.getLast?_eq_some_getLast w.nonempty]
    exact w.identifier _ (List.getLast_mem w.nonempty)
  have hword := marks_visible (p := '\x00') fun c hc =>
    isPlain_of_isIdentifierChar (w.identifier c hc)
  exact ⟨_, hword.append ((s.marks_opening hlast).append (marks_bare s h))⟩

theorem Shape.opening_append (s : Shape) (cs : List Char) :
    s.opening ++ cs = s.outerOpening :: (s.opening.tail ++ cs) :=
  congrArg (· ++ cs) s.opening_eq

/-- The outer delimiter of every shape opens it. -/
theorem Shape.opensShape (s : Shape) : Flowchart.opensShape s.outerOpening = true := by
  cases s <;> rfl

/-- A shape that is not closed is open to the end of the text, so all of its label is hidden. -/
theorem opened_unclosed (w : Word) (s : Shape) (h : ∀ c ∈ cs, c ∉ labelSigns)
    (htrimmed : ∀ c ∈ (s.opening ++ cs).getLast?, Text.isBlank c = false) :
    Opened w s.outerOpening (s.opening.tail ++ cs) := by
  obtain ⟨q, hq⟩ := marks_unclosed w s h
  refine ⟨s.opensShape, ⟨hidden s.opening.tail ++ hidden cs, ?_, fun m hm => ?_⟩, ?_⟩
  · rw [← s.opening_append]
    exact hq.marked
  · exact .inl ((List.mem_append.mp hm).elim shown_of_mem_hidden shown_of_mem_hidden)
  · rwa [← s.opening_append]

/-- A text in which nothing closes is read as no shape, since every shape ends with a closing
character. -/
theorem readShape?_unclosed (h : ∀ c ∈ cs, isClosing c = false) : readShape? cs = none := by
  have hclosing : ∀ d ∈ shapeDelimiters, d.2.1.any isClosing = true := by decide
  refine List.findSome?_eq_none_iff.mpr fun ⟨opening, closing, shape⟩ hd => ?_
  have hbetween : between? opening closing cs = none := by
    rw [between?, if_neg]
    intro hfits
    rw [Bool.and_eq_true, List.isSuffixOf_iff_suffix] at hfits
    obtain ⟨c, hc, hcloses⟩ := List.any_eq_true.mp (hclosing _ hd)
    rw [h c (hfits.2.subset hc)] at hcloses
    cases hcloses
  dsimp only
  rw [hbetween]
  rfl

end Labels

/-! ## Nodes -/

namespace BareNode

variable (n : BareNode)

/-- A node is its id, the outer delimiter of its shape, and the rest, of which only the last
delimiter is seen. -/
theorem print_eq : n.print = n.id.chars ++
    n.shape.outerOpening :: (n.shape.opening.tail ++ (n.label.chars ++ n.shape.closing)) := by
  rw [print, Shape.opening_append]

/-- Of a node only the id and the outer delimiters of the shape are seen. -/
theorem opened : Opened n.id n.shape.outerOpening
    (n.shape.opening.tail ++ (n.label.chars ++ n.shape.closing)) := by
  obtain ⟨q, hq⟩ := marks_unclosed n.id n.shape n.label.bare
  refine ⟨n.shape.opensShape, ⟨hidden n.shape.opening.tail ++ (hidden n.label.chars ++
    (hidden n.shape.closing.dropLast ++ [⟨n.shape.outerClosing, true⟩])), ?_, fun m hm => ?_⟩, ?_⟩
  · have hmarks := (hq.append (n.shape.marks_closing q)).marked
    rw [← n.shape.opening_append]
    simpa [markLabels] using hmarks
  · have hcloses : isClosing n.shape.outerClosing = true := by cases n.shape <;> rfl
    simp only [List.mem_append, List.mem_singleton] at hm
    rcases hm with hm | hm | hm | rfl
    · exact .inl (shown_of_mem_hidden hm)
    · exact .inl (shown_of_mem_hidden hm)
    · exact .inl (shown_of_mem_hidden hm)
    · exact .inr hcloses
  · have hsolid : Text.isBlank n.shape.outerClosing = false := by cases n.shape <;> rfl
    intro c hc
    rw [← n.shape.opening_append, n.shape.closing_eq, ← List.append_assoc, ← List.append_assoc,
      List.getLast?_concat] at hc
    exact Option.some.inj hc ▸ hsolid

theorem print_ne_nil : n.print ≠ [] := by
  rw [print_eq]
  exact opened_ne_nil _ _ _

/-- A node begins with its id and ends with a delimiter, so it is left alone by trimming. -/
theorem trimChars_print : Text.trimChars n.print = n.print := by
  rw [print_eq]
  exact n.opened.trimChars_eq

/-- A bare label is read as it stands. -/
theorem stripQuotes_label : stripQuotes n.label.chars = n.label.chars := by
  have htrim : Text.trimChars n.label.chars = n.label.chars :=
    trimChars_self n.label.nonempty
      (fun c hc => isSolid_of_isIdentifierChar (n.label.first c hc))
      fun c hc => isSolid_of_isIdentifierChar (n.label.last c hc)
  have hquote : (n.label.chars.head? == some '"') = false := by
    refine beq_eq_false_iff_ne.mpr fun h => ?_
    exact Text.ne_of_isIdentifierChar (n.label.first _ h) (by decide) rfl
  rw [stripQuotes, htrim, hquote, Bool.and_false, Bool.false_and]
  rfl

/-- A bare label in the delimiters of its shape is read as it stands. -/
theorem readShape?_label : readShape? (n.shape.opening ++ (n.label.chars ++ n.shape.closing)) =
    some (String.ofList n.label.chars, n.shape) := by
  have hsigns : ∀ d ∈ shapeDelimiters, d.1 ⊆ Text.signs ∧ d.2.1 ⊆ Text.signs := by decide
  rw [readShape?_enclosed n.shape n.label.nonempty fun d hd => ⟨fun c hc hmem => ?_,
    fun c hc hmem => ?_⟩, n.stripQuotes_label]
  · exact Text.ne_of_isIdentifierChar (n.label.first c hc) ((hsigns d hd).1 hmem) rfl
  · exact Text.ne_of_isIdentifierChar (n.label.last c hc) ((hsigns d hd).2 hmem) rfl

/-- **A node with a bare label is read** as a statement of its own, whatever the label holds. -/
theorem readStatement_print (hn : ¬ n.id.IsPassedOver) :
    readStatement n.print = .chain ⟨[n.ref], []⟩ := by
  rw [print_eq, n.opened.readStatement_of_word hn, ← n.shape.opening_append, n.readShape?_label]
  rfl

/-- A node whose id begins with a keyword is passed over. -/
theorem readStatement_passedOver (hn : n.id.IsPassedOver) :
    readStatement n.print = .ignored := by
  rw [print_eq, n.opened.readStatement_eq, if_pos (n.id.isPassedOver_iff.mp hn)]

end BareNode

end Flowchart
