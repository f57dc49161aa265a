import Flowchart.Proofs.Printing.Forms

/-!
# What is hidden in printed chains

The scan that hides labels is *at rest* outside of shapes, quotes and bars. Every printed form takes
it from rest to rest, so the marks of a chain are those of its parts one after the other. Of a node
only the outer delimiters of its shape stay visible, of a text between bars only the bars, and all
else of a chain is visible.
-/

namespace Flowchart

/-- All characters stay visible. -/
def visible (cs : List Char) : List Marked := cs.map fun c => ⟨c, true⟩

/-- All characters are hidden. -/
def hidden (cs : List Char) : List Marked := cs.map fun c => ⟨c, false⟩

/-- The state outside of shapes, quotes and bars, after a given character. -/
def MaskState.rest (previous : Char) : MaskState := { previous := previous }

/-- From one state a text gets the marks and leads to the other state. -/
structure Marks (s : MaskState) (cs : List Char) (ms : List Marked) (s' : MaskState) : Prop where
  marked : markFrom s cs = ms
  state : cs.foldl (fun s c => (s.step c).2) s = s'

/-- From rest a text gets the marks and leads back to rest. -/
def Settles (cs : List Char) (ms : List Marked) : Prop :=
  ∀ p, ∃ q, Marks (.rest p) cs ms (.rest q)

section

variable {s s' s'' : MaskState} {cs cs' : List Char} {ms ms' : List Marked} {c p : Char}

/-- Two texts that are marked one after the other are marked as one. -/
theorem Marks.append (h : Marks s cs ms s') (h' : Marks s' cs' ms' s'') :
    Marks s (cs ++ cs') (ms ++ ms') s'' := by
  have hmarked : ∀ (cs : List Char) (s : MaskState), markFrom s (cs ++ cs') =
      markFrom s cs ++ markFrom (cs.foldl (fun s c => (s.step c).2) s) cs' := by
    intro cs
    induction cs with
    | nil => exact fun s => rfl
    | cons c cs ih => exact fun s => congrArg _ (ih _)
  constructor
  · rw [hmarked, h.marked, h.state, h'.marked]
  · rw [List.foldl_append, h.state, h'.state]

/-- The first character is marked by one step of the scan, and the others from the state after
it. -/
theorem Marks.cons {v : Bool} (hstep : s.step c = (v, s')) (h : Marks s' cs ms s'') :
    Marks s (c :: cs) (⟨c, v⟩ :: ms) s'' := by
  constructor
  · rw [markFrom, hstep, h.marked]
  · rw [List.foldl_cons, hstep, h.state]

theorem Marks.nil (s : MaskState) : Marks s [] [] s := ⟨rfl, rfl⟩

/-- What takes the scan from rest to rest can be put together. -/
theorem Settles.append (h : Settles cs ms) (h' : Settles cs' ms') :
    Settles (cs ++ cs') (ms ++ ms') := by
  intro p
  obtain ⟨q, hq⟩ := h p
  obtain ⟨r, hr⟩ := h' q
  exact ⟨r, hq.append hr⟩

theorem Settles.nil : Settles [] [] := fun p => ⟨p, .nil _⟩

/-- A row of such texts takes the scan from rest to rest, by induction on the row. -/
theorem Settles.flatMap {β : Type} {f : β → List Char} {g : β → List Marked}
    (h : ∀ x, Settles (f x) (g x)) (l : List β) : Settles (l.flatMap f) (l.flatMap g) := by
  induction l with
  | nil => exact .nil
  | cons x l ih => exact (h x).append ih

/-- The scan of a whole text begins at rest. -/
theorem Settles.markLabels (h : Settles cs ms) : markLabels cs = ms := by
  obtain ⟨q, hq⟩ := h '\x00'
  exact hq.marked

/-! ## Plain text -/

/-- The character opens nothing outside of shapes, quotes and bars. -/
def isPlain (c : Char) : Bool :=
  !(c == '"') && !isOpening c && !(c == '>') && !(c == '|')

/-- A plain character is visible and leaves the scan at rest. -/
theorem step_rest (h : isPlain c = true) : (MaskState.rest p).step c = (true, .rest c) := by
  simp only [isPlain, Bool.and_eq_true, Bool.not_eq_true'] at h
  obtain ⟨⟨⟨hquote, hopening⟩, hhead⟩, hbar⟩ := h
  simp [MaskState.step, MaskState.rest, hquote, hopening, hhead, hbar]

/-- Plain text is visible: outside of labels every plain character shows as it is. -/
theorem marks_visible (h : ∀ c ∈ cs, isPlain c = true) :
    Marks (.rest p) cs (visible cs) (.rest (cs.getLastD p)) := by
  induction cs generalizing p with
  | nil => exact .nil _
  | cons c cs ih =>
    rw [List.getLastD_cons]
    exact .cons (step_rest (h c List.mem_cons_self)) (ih fun d hd => h d (List.mem_cons_of_mem c hd))

/-- A text of plain characters is visible from its first character to its last. -/
theorem settles_visible (h : ∀ c ∈ cs, isPlain c = true) : Settles cs (visible cs) :=
  fun p => ⟨cs.getLastD p, marks_visible h⟩

/-- No character of an id opens a shape, a quote or a bar. -/
theorem isPlain_of_isIdentifierChar (hc : Text.isIdentifierChar c = true) : isPlain c = true := by
  have hne : ∀ d ∈ Text.signs, (c == d) = false := fun d hd =>
    beq_eq_false_iff_ne.mpr (Text.ne_of_isIdentifierChar hc hd)
  simp [isPlain, isOpening, hne _ (show '"' ∈ Text.signs by decide),
    hne _ (show '[' ∈ Text.signs by decide), hne _ (show '(' ∈ Text.signs by decide),
    hne _ (show '{' ∈ Text.signs by decide), hne _ (show '>' ∈ Text.signs by decide),
    hne _ (show '|' ∈ Text.signs by decide)]

/-! ## Hidden text -/

/-- Text is hidden of which no character opens, closes or shows anything. -/
theorem marks_hidden (h : ∀ c ∈ cs, ∀ q, ({ s with previous := q } : MaskState).step c =
    (false, { s with previous := c })) :
    Marks s cs (hidden cs) { s with previous := cs.getLastD s.previous } := by
  have hfrom : ∀ q, Marks { s with previous := q } cs (hidden cs)
      { s with previous := cs.getLastD q } := by
    induction cs with
    | nil => exact fun q => .nil _
    | cons c cs ih =>
      intro q
      rw [List.getLastD_cons]
      exact .cons (h c List.mem_cons_self q) (ih (fun d hd => h d (List.mem_cons_of_mem c hd)) c)
  exact hfrom s.previous

/-- Up to the closing quote everything is hidden. -/
theorem marks_quoted (h : '"' ∉ cs) (hs : s.quoted = true) :
    Marks s cs (hidden cs) { s with previous := cs.getLastD s.previous } := by
  refine marks_hidden fun c hc q => ?_
  have hne : (c == '"') = false := beq_eq_false_iff_ne.mpr fun h' => h (h' ▸ hc)
  simp [MaskState.step, hs, hne]

/-- Up to the closing bar everything is hidden. -/
theorem marks_barred (h : '|' ∉ cs) (hs : s.quoted = false) (hb : s.barred = true) :
    Marks s cs (hidden cs) { s with previous := cs.getLastD s.previous } := by
  refine marks_hidden fun c hc q => ?_
  have hne : (c == '|') = false := beq_eq_false_iff_ne.mpr fun h' => h (h' ▸ hc)
  simp [MaskState.step, hs, hb, hne]

/-- The marks of a text between bars. -/
def barMarks (cs : List Char) : List Marked := ⟨'|', true⟩ :: (hidden cs ++ [⟨'|', true⟩])

/-- Of a text between bars only the bars are visible, and after the second one the scan is at
rest. -/
theorem settles_bars (h : '|' ∉ cs) : Settles ('|' :: (cs ++ ['|'])) (barMarks cs) := by
  intro p
  have hopen : (MaskState.rest p).step '|' = (true, { barred := true, previous := '|' }) := rfl
  have hclose : ∀ q, ({ barred := true, previous := q } : MaskState).step '|' =
      (true, .rest '|') := fun q => rfl
  exact ⟨'|', .cons hopen ((marks_barred h rfl rfl).append (.cons (hclose _) (.nil _)))⟩

end

/-! ## Nodes -/

namespace Shape

/-- The first character of the opening delimiter. -/
def outerOpening (s : Shape) : Char := s.opening.headD ' '

/-- The last character of the closing delimiter. -/
def outerClosing (s : Shape) : Char := s.closing.getLastD ' '

theorem opening_eq (s : Shape) : s.opening = s.outerOpening :: s.opening.tail := by
  cases s <;> rfl

theorem closing_eq (s : Shape) : s.closing = s.closing.dropLast ++ [s.outerClosing] := by
  cases s <;> rfl

/-- The state inside the delimiters of a shape. -/
def inside (s : Shape) : MaskState where
  depth := s.opening.countP fun c => isOpening c || c == '>'
  previous := s.opening.getLastD ' '

/-- Of the opening delimiter the first character stays visible. -/
theorem marks_opening (s : Shape) {p : Char} (hp : Text.isIdentifierChar p = true) :
    Marks (.rest p) s.opening (⟨s.outerOpening, true⟩ :: hidden s.opening.tail) s.inside := by
  have hasymmetric : (MaskState.rest p).step '>' = (true, inside .asymmetric) := by
    simp only [MaskState.step, MaskState.rest, hp]
    rfl
  cases s
  case asymmetric => exact .cons hasymmetric (.nil _)
  all_goals exact ⟨rfl, rfl⟩

/-- Of the closing delimiter the last character stays visible. -/
theorem marks_closing (s : Shape) (q : Char) :
    Marks { s.inside with previous := q } s.closing
      (hidden s.closing.dropLast ++ [⟨s.outerClosing, true⟩]) (.rest s.outerClosing) := by
  cases s <;> exact ⟨rfl, rfl⟩

end Shape

/-- The marks of a label in the delimiters of a shape. -/
def bodyMarks : Option (Shape × QuotedText) → List Marked
  | none => []
  | some (s, label) => ⟨s.outerOpening, true⟩ :: (hidden (s.opening.tail ++
      '"' :: (label.chars ++ '"' :: s.closing.dropLast)) ++ [⟨s.outerClosing, true⟩])

/-- The marks of a node. -/
def PrintedNode.marks (n : PrintedNode) : List Marked :=
  visible n.id.chars ++ (bodyMarks n.body ++ visible (printClasses n.classes))

/-- Of a label in its shape the outer delimiters are visible: the other delimiters stand inside
them, and quotes do not change the depth. What stands before the shape is the last character of an
id, so that its delimiter opens a shape. -/
theorem marks_body (s : Shape) (label : QuotedText) {p : Char}
    (hp : Text.isIdentifierChar p = true) :
    Marks (.rest p) (PrintedNode.printBody (some (s, label))) (bodyMarks (some (s, label)))
      (.rest s.outerClosing) := by
  have hdepth : (s.inside.depth == 0) = false := by cases s <;> rfl
  have hopen : s.inside.step '"' = (false, { s.inside with previous := '"', quoted := true }) := by
    simp only [MaskState.step, hdepth]
    rfl
  have hclose : ∀ q, ({ s.inside with previous := q, quoted := true } : MaskState).step '"' =
      (false, { s.inside with previous := '"' }) := by
    intro q
    simp only [MaskState.step, hdepth]
    rfl
  have hquoted : Marks { s.inside with previous := '"', quoted := true } label.chars
      (hidden label.chars)
      { s.inside with previous := label.chars.getLastD '"', quoted := true } :=
    marks_quoted label.unquoted rfl
  have h := (s.marks_opening hp).append
    (.cons hopen (hquoted.append (.cons (hclose _) (s.marks_closing '"'))))
  have hmarks : bodyMarks (some (s, label)) =
      ⟨s.outerOpening, true⟩ :: hidden s.opening.tail ++ ⟨'"', false⟩ :: (hidden label.chars ++
        ⟨'"', false⟩ :: (hidden s.closing.dropLast ++ [⟨s.outerClosing, true⟩])) := by
    simp [bodyMarks, hidden]
  rw [hmarks]
  exact h

/-- Classes are written with colons and words, and all of these are plain. -/
theorem isPlain_printClasses {classes : List Word} {c : Char}
    (hc : c ∈ PrintedNode.printClasses classes) : isPlain c = true := by
  obtain ⟨w, -, hw⟩ := List.mem_flatMap.mp hc
  simp only [List.mem_cons] at hw
  rcases hw with rfl | rfl | rfl | hw
  · rfl
  · rfl
  · rfl
  · exact isPlain_of_isIdentifierChar (w.identifier c hw)

/-- Of a node only the outer delimiters of its shape are visible beside the id and the classes. The
scan comes to the shape from the last character of the id. -/
theorem settles_node (n : PrintedNode) : Settles n.print n.marks := by
  intro p
  have hid := marks_visible (p := p) fun c hc =>
    isPlain_of_isIdentifierChar (n.id.identifier c hc)
  have hclasses := settles_visible fun c (hc : c ∈ PrintedNode.printClasses n.classes) =>
    isPlain_printClasses hc
  cases hbody : n.body with
  | none =>
    obtain ⟨q, hq⟩ := hclasses (n.id.chars.getLastD p)
    refine ⟨q, ?_⟩
    rw [PrintedNode.print, PrintedNode.marks, hbody]
    exact hid.append hq
  | some b =>
    obtain ⟨s, label⟩ := b
    have hlast : Text.isIdentifierChar (n.id.chars.getLastD p) = true := by
      rw [List.getLastD_eq_getLast?, List.getLast?_eq_some_getLast n.id.nonempty]
      exact n.id.identifier _ (List.getLast_mem n.id.nonempty)
    obtain ⟨q, hq⟩ := hclasses s.outerClosing
    refine ⟨q, ?_⟩
    rw [PrintedNode.print, PrintedNode.marks, hbody]
    exact hid.append ((marks_body s label hlast).append hq)

/-! ## Groups and links -/

/-- The marks of a group. -/
def PrintedGroup.marks (g : PrintedGroup) : List Marked :=
  g.first.marks ++ g.more.flatMap fun n => visible [' ', '&', ' '] ++ n.marks

/-- Nodes of a group are separated by visible characters. -/
theorem settles_group (g : PrintedGroup) : Settles g.print g.marks := by
  have hsep : Settles [' ', '&', ' '] (visible [' ', '&', ' ']) :=
    settles_visible (List.all_eq_true.mp rfl)
  exact (settles_node g.first).append (.flatMap (fun n => hsep.append (settles_node n)) g.more)

namespace PrintedArrow

/-- A line ends with a dash or an equals sign. -/
theorem stroke_eq_concat (line : LineStyle) (kind : LinkKind) (extra : Nat) :
    ∃ body c, stroke line kind extra = body ++ [c] ∧ c ∈ ['-', '='] := by
  obtain ⟨m, hm⟩ : ∃ m, (if kind = .plain then extra + 3 else extra + 2) = m + 1 := by
    split
    · exact ⟨extra + 2, rfl⟩
    · exact ⟨extra + 1, rfl⟩
  cases line with
  | solid => exact ⟨List.replicate m '-', '-', by rw [stroke, hm, List.replicate_succ'], by decide⟩
  | thick => exact ⟨List.replicate m '=', '=', by rw [stroke, hm, List.replicate_succ'], by decide⟩
  | dotted => exact ⟨'-' :: List.replicate (extra + 1) '.', '-', rfl, by decide⟩

/-- An arrow is drawn with dashes, dots and equals signs, none of which opens anything. -/
theorem isPlain_stroke {line : LineStyle} {kind : LinkKind} {extra : Nat} {c : Char}
    (hc : c ∈ stroke line kind extra) : isPlain c = true := by
  cases line <;> simp only [stroke, List.mem_replicate, List.mem_cons, List.mem_append,
    List.not_mem_nil, or_false] at hc
  case solid => rw [hc.2]; rfl
  case thick => rw [hc.2]; rfl
  case dotted => rcases hc with rfl | ⟨-, rfl⟩ | rfl <;> rfl

/-- The head at the near end of an arrow is plain as well, if there is one. -/
theorem isPlain_tail {kind : LinkKind} {c : Char} (hc : c ∈ tail kind) : isPlain c = true := by
  cases kind
  case bidirectional => exact List.mem_singleton.mp hc ▸ rfl
  all_goals cases hc

end PrintedArrow

/-- An arrow is visible: its head follows the line, not an identifier. -/
theorem settles_arrow (a : PrintedArrow) : Settles a.print (visible a.print) := by
  intro p
  obtain ⟨body, c, hstroke, hc⟩ := PrintedArrow.stroke_eq_concat a.line a.kind a.extra
  have hplain : ∀ d ∈ PrintedArrow.tail a.kind ++ PrintedArrow.stroke a.line a.kind a.extra,
      isPlain d = true := fun d hd =>
    (List.mem_append.mp hd).elim PrintedArrow.isPlain_tail PrintedArrow.isPlain_stroke
  have hline := marks_visible (p := p) hplain
  rw [show (PrintedArrow.tail a.kind ++ PrintedArrow.stroke a.line a.kind a.extra).getLastD p = c by
    simp [hstroke]] at hline
  have hnotid : Text.isIdentifierChar c = false := by
    rcases List.mem_cons.mp hc with rfl | hc
    · decide +kernel
    · obtain rfl := List.mem_singleton.mp hc
      decide +kernel
  have hhead : ∃ q, Marks (.rest c) (PrintedArrow.head a.kind)
      (visible (PrintedArrow.head a.kind)) (.rest q) := by
    have harrow : (MaskState.rest c).step '>' = (true, .rest '>') := by
      simp only [MaskState.step, MaskState.rest, hnotid]
      rfl
    cases a.kind
    case arrow => exact ⟨'>', .cons harrow (.nil _)⟩
    case bidirectional => exact ⟨'>', .cons harrow (.nil _)⟩
    case plain => exact ⟨c, .nil _⟩
    case circleEnd => exact ⟨'o', marks_visible (List.all_eq_true.mp rfl)⟩
    case crossEnd => exact ⟨'x', marks_visible (List.all_eq_true.mp rfl)⟩
  obtain ⟨q, hq⟩ := hhead
  refine ⟨q, ?_⟩
  rw [PrintedArrow.print, ← List.append_assoc, visible, List.map_append]
  exact hline.append hq

/-- A text of words is made of the characters of ids and of blanks. -/
theorem mem_printWords {first : Word} {more : List Word} {c : Char}
    (hc : c ∈ printWords first more) : Text.isIdentifierChar c = true ∨ c = ' ' := by
  rcases List.mem_append.mp hc with hc | hc
  · exact .inl (first.identifier c hc)
  · obtain ⟨w, -, hw⟩ := List.mem_flatMap.mp hc
    exact (List.mem_cons.mp hw).elim .inr fun hw => .inl (w.identifier c hw)

/-- Words and the blanks between them are plain, so all of a label without quotes is visible. -/
theorem isPlain_printWords {first : Word} {more : List Word} {c : Char}
    (hc : c ∈ printWords first more) : isPlain c = true :=
  (mem_printWords hc).elim isPlain_of_isIdentifierChar fun h => h ▸ rfl

/-- The marks of what stands after an arrow. -/
def PrintedLink.afterMarks : LinkText → List Marked
  | .barred text => barMarks text.chars
  | _ => []

/-- The marks of a link. -/
def PrintedLink.marks (l : PrintedLink) : List Marked :=
  visible (before l.text) ++ (visible l.arrow.print ++ afterMarks l.text)

/-- Of a link only a text between bars is hidden. -/
theorem settles_link (l : PrintedLink) : Settles l.print l.marks := by
  have hbefore : Settles (PrintedLink.before l.text) (visible (PrintedLink.before l.text)) := by
    refine settles_visible fun c hc => ?_
    cases htext : l.text with
    | bare => rw [htext] at hc; cases hc
    | barred text => rw [htext] at hc; cases hc
    | worded opener first more =>
      rw [htext, PrintedLink.before] at hc
      have hopener : opener.opener.all isPlain = true := by cases opener <;> rfl
      rcases List.mem_append.mp hc with hc | hc
      · exact List.all_eq_true.mp hopener c hc
      · rcases List.mem_cons.mp hc with rfl | hc
        · rfl
        · rcases List.mem_append.mp hc with hc | hc
          · exact isPlain_printWords hc
          · obtain rfl := List.mem_singleton.mp hc
            rfl
  have hafter : Settles (PrintedLink.after l.text) (PrintedLink.afterMarks l.text) := by
    cases l.text with
    | bare => exact .nil
    | barred text => exact settles_bars text.unbarred
    | worded opener first more => exact .nil
  exact hbefore.append ((settles_arrow l.arrow).append hafter)

/-! ## Chains -/

/-- The marks of links and of the groups after them. -/
def PrintedChain.restMarks (rest : List (PrintedLink × PrintedGroup)) : List Marked :=
  rest.flatMap fun e => ⟨' ', true⟩ :: (e.1.marks ++ ⟨' ', true⟩ :: e.2.marks)

/-- The marks of a chain. -/
def PrintedChain.marks (c : PrintedChain) : List Marked := c.first.marks ++ restMarks c.rest

/-- **The marks of a chain** are those of its parts one after the other. -/
theorem markLabels_print (c : PrintedChain) : markLabels c.print = c.marks := by
  have hblank : Settles [' '] [⟨' ', true⟩] := settles_visible (List.all_eq_true.mp rfl)
  exact ((settles_group c.first).append (.flatMap (fun e => hblank.append
    ((settles_link e.1).append (hblank.append (settles_group e.2)))) c.rest)).markLabels

end Flowchart
