import Flowchart.Proofs.Document.Separators
import Flowchart.Proofs.Measure.Wrapping

/-!
# Where warnings and errors point

A statement is a piece of the line it stands on: trimming, comments and semicolons only take away
what is around it. So the number that goes with it through the whole reading is that of a line which
contains it, and every warning and every error names such a line.

The column of an unknown direction is found by a second look at the line. That look finds the first
place of the keyword, and there is none before the header, since only blanks and semicolons stand
there; behind the keyword it finds the first place of the token, and only blanks stand before that.
`parseDocument_locates` puts the two together.
-/

namespace Flowchart

/-! ## Statements are pieces of lines -/

section Pieces

variable {s : SplitState} {cs line first : List Char} {parts more : List (List Char)}

/-- A line is its parts with semicolons between them. -/
theorem intercalate_cutStatements (s : SplitState) (cs : List Char) :
    List.intercalate [';'] (cutStatements s cs) = cs := by
  induction cs generalizing s with
  | nil => rfl
  | cons c cs ih =>
    rw [cutStatements]
    split
    next hcut =>
      simp only [Bool.and_eq_true, beq_iff_eq] at hcut
      obtain ⟨part, rest, hparts⟩ := List.exists_cons_of_ne_nil (cutStatements_ne_nil s cs)
      have hcs := ih s
      rw [hparts] at hcs ⊢
      rw [List.intercalate_cons_cons, hcs, hcut.1]
      rfl
    next =>
      obtain ⟨part, rest, hparts⟩ := List.exists_cons_of_ne_nil (cutStatements_ne_nil (s.step c) cs)
      have hcs := ih (s.step c)
      rw [hparts] at hcs ⊢
      cases rest with
      | nil => simpa using hcs
      | cons q rest =>
        rw [List.intercalate_cons_cons] at hcs ⊢
        exact congrArg (c :: ·) hcs

/-- The character may stand before the first statement of a line. -/
def isBetween (c : Char) : Bool := Text.isBlank c || c == ';'

/-- A text of which trimming leaves nothing is blank. -/
theorem blank_of_trimChars_eq_nil (h : Text.trimChars cs = []) : ∀ c ∈ cs, Text.isBlank c = true := by
  obtain ⟨pre, post, hpad, hpre, hpost, -⟩ := Text.exists_pad cs
  rw [h, List.nil_append] at hpad
  rw [hpad]
  exact List.forall_mem_append.mpr ⟨hpre, hpost⟩

/-- What trimming leaves is a piece of the text. -/
theorem infix_trimChars (cs : List Char) : Text.trimChars cs <:+: cs := by
  obtain ⟨pre, post, hpad, -⟩ := Text.exists_pad cs
  exact ⟨pre, post, by rw [List.append_assoc, ← hpad]⟩

/-- Before the first part that is not blank there are only blanks and semicolons. -/
theorem first_of_parts (h : (parts.map Text.trimChars).filter (!·.isEmpty) = first :: more) :
    ∃ pre post, List.intercalate [';'] parts = pre ++ (first ++ post) ∧
      ∀ c ∈ pre, isBetween c = true := by
  induction parts with
  | nil => cases h
  | cons part parts ih =>
    rw [List.map_cons, List.filter_cons] at h
    obtain ⟨pad, pad', hpad, hblank, -⟩ := Text.exists_pad part
    have hsep {cs : List Char} (hcs : ∀ c ∈ cs, Text.isBlank c = true) :
        ∀ c ∈ cs, isBetween c = true := fun c hc => by rw [isBetween, hcs c hc, Bool.true_or]
    split at h
    next =>
      obtain ⟨rfl, -⟩ := List.cons.inj h
      obtain ⟨tail, htail⟩ : ∃ tail, List.intercalate [';'] (part :: parts) = part ++ tail := by
        cases parts with
        | nil => exact ⟨[], by simp⟩
        | cons q parts => exact ⟨_, by rw [List.intercalate_cons_cons, List.append_assoc]⟩
      refine ⟨pad, pad' ++ tail, ?_, hsep hblank⟩
      rw [htail, ← List.append_assoc _ pad', ← List.append_assoc, ← hpad]
    next hempty =>
      obtain ⟨pre, post, hrest, hpre⟩ := ih h
      have hnil : Text.trimChars part = [] := by simpa using hempty
      cases parts with
      | nil => cases h
      | cons q parts =>
        refine ⟨part ++ ';' :: pre, post, ?_, List.forall_mem_append.mpr
          ⟨hsep (blank_of_trimChars_eq_nil hnil), List.forall_mem_cons.mpr ⟨by decide, hpre⟩⟩⟩
        rw [List.intercalate_cons_cons, hrest]
        simp

/-- Each part is a piece of the whole. -/
theorem infix_intercalate {sep part : List Char} (h : part ∈ parts) :
    part <:+: List.intercalate sep parts := by
  induction parts with
  | nil => cases h
  | cons q parts ih =>
    cases parts with
    | nil => simpa using (List.mem_singleton.mp h ▸ List.infix_rfl : part <:+: q)
    | cons r parts =>
      rw [List.intercalate_cons_cons]
      rcases List.mem_cons.mp h with rfl | h
      · exact (List.prefix_append _ _).isInfix.trans (List.prefix_append _ _).isInfix
      · exact (ih h).trans (List.suffix_append _ _).isInfix

/-- What is left of a line without its comment stands on it behind blanks. -/
theorem exists_of_stripComment (line : List Char) :
    ∃ pre post, line = pre ++ (stripComment (Text.trimChars line) ++ post) ∧
      ∀ c ∈ pre, Text.isBlank c = true := by
  obtain ⟨pre, post, hline, hpre, -⟩ := Text.exists_pad line
  obtain ⟨cut, hcut, -⟩ := exists_comment false (Text.trimChars line)
  obtain ⟨pre', post', hkept, hpre', -⟩ := Text.exists_pad (beforeComment false (Text.trimChars line))
  refine ⟨pre ++ pre', post' ++ (cut ++ post), ?_, List.forall_mem_append.mpr ⟨hpre, hpre'⟩⟩
  calc line = pre ++ (beforeComment false (Text.trimChars line) ++ cut ++ post) := by
        rw [← hcut]
        exact hline
    _ = pre ++ (pre' ++ (stripComment (Text.trimChars line) ++ post') ++ cut ++ post) := by
        rw [stripComment, ← hkept]
    _ = _ := by simp

/-- **A statement is a piece of its line.** -/
theorem infix_of_mem_lineStatements (h : cs ∈ lineStatements line) : cs <:+: line := by
  rw [lineStatements_eq] at h
  split at h
  · cases h
  · obtain ⟨pre, post, hline, -⟩ := exists_of_stripComment line
    obtain ⟨part, hpart, rfl⟩ := List.mem_map.mp (List.mem_filter.mp h).1
    have hstrip : part <:+: stripComment (Text.trimChars line) := by
      rw [← intercalate_cutStatements {} (stripComment (Text.trimChars line))]
      exact infix_intercalate hpart
    refine (infix_trimChars part).trans (hstrip.trans ⟨pre, post, ?_⟩)
    rw [List.append_assoc, ← hline]

/-- **Only blanks and semicolons** stand before the first statement of a line. -/
theorem exists_of_lineStatements (h : lineStatements line = first :: more) :
    ∃ pre post, line = pre ++ (first ++ post) ∧ ∀ c ∈ pre, isBetween c = true := by
  rw [lineStatements_eq] at h
  split at h
  · cases h
  · obtain ⟨pre, post, hline, hpre⟩ := exists_of_stripComment line
    obtain ⟨pre', post', hstrip, hpre'⟩ := first_of_parts h
    rw [intercalate_cutStatements] at hstrip
    refine ⟨pre ++ pre', post' ++ post, ?_, List.forall_mem_append.mpr ⟨fun c hc => ?_, hpre'⟩⟩
    · rw [hline, hstrip]
      simp
    · rw [isBetween, hpre c hc, Bool.true_or]

end Pieces

/-! ## Numbers of lines -/

/-- The line with a number, counted from one, contains a text. -/
def StandsOn (lines : List (List Char)) (line : Nat) (cs : List Char) : Prop :=
  1 ≤ line ∧ ∃ raw, lines[line - 1]? = some raw ∧ cs <:+: raw

/-- Whatever is a piece of a statement stands on the line of the statement. -/
theorem StandsOn.mono {lines : List (List Char)} {line : Nat} {cs cs' : List Char}
    (h : StandsOn lines line cs) (hcs : cs' <:+: cs) : StandsOn lines line cs' := by
  obtain ⟨hline, raw, hraw, hinfix⟩ := h
  exact ⟨hline, raw, hraw, hcs.trans hinfix⟩

variable {lines : List (List Char)} {line : Nat} {first : List Char}

/-- Every statement stands on the line whose number goes with it. -/
theorem standsOn_of_mem {p : Nat × List Char} (h : p ∈ numberedStatements lines) :
    StandsOn lines p.1 p.2 := by
  rw [numberedStatements_eq] at h
  obtain ⟨⟨raw, i⟩, hraw, hp⟩ := List.mem_flatMap.mp h
  obtain ⟨cs, hcs, rfl⟩ := List.mem_map.mp hp
  exact ⟨Nat.succ_pos i, raw, List.mem_zipIdx_iff_getElem?.mp hraw, infix_of_mem_lineStatements hcs⟩

theorem exists_of_flatMap_eq_cons {β γ : Type} {f : β → List γ} {l : List β} {y : γ} {ys : List γ}
    (h : l.flatMap f = y :: ys) : ∃ x ∈ l, ∃ zs, f x = y :: zs := by
  induction l with
  | nil => cases h
  | cons x l ih =>
    rw [List.flatMap_cons] at h
    cases hx : f x with
    | nil =>
      rw [hx, List.nil_append] at h
      obtain ⟨x', hmem, hx'⟩ := ih h
      exact ⟨x', List.mem_cons_of_mem x hmem, hx'⟩
    | cons z zs =>
      rw [hx, List.cons_append] at h
      obtain ⟨rfl, -⟩ := List.cons.inj h
      exact ⟨x, List.mem_cons_self, zs, hx⟩

/-- The first statement of a text is the first one of its line. -/
theorem exists_line_of_first {rest : List (Nat × List Char)}
    (h : numberedStatements lines = (line, first) :: rest) :
    ∃ raw, 1 ≤ line ∧ lines[line - 1]? = some raw ∧ ∃ more, lineStatements raw = first :: more := by
  rw [numberedStatements_eq] at h
  obtain ⟨⟨raw, i⟩, hraw, zs, hcons⟩ := exists_of_flatMap_eq_cons h
  obtain ⟨cs, more, hmore, hcs, -⟩ := List.map_eq_cons_iff.mp hcons
  obtain ⟨rfl, rfl⟩ := Prod.mk.inj hcs
  exact ⟨raw, Nat.succ_pos i, List.mem_zipIdx_iff_getElem?.mp hraw, more, hmore⟩

/-! ## Warnings -/

/-- The text of the statement on the line of the header, if there is one. -/
def headerText? (h : Header) : Option (List Char) :=
  if h.token.isEmpty || h.statement.isEmpty then none else some h.statement

/-- If a header has a statement behind it, that statement is read from the rest of its text. -/
theorem headerStatement?_eq (h : Header) : headerStatement? h = (headerText? h).map readStatement := by
  rw [headerStatement?, headerText?]
  split <;> rfl

/-- The texts of the statements behind the header, each with the number of its line. -/
def bodyOf : List (Nat × List Char) → List (Nat × List Char)
  | [] => []
  | (line, first) :: rest =>
    ((readHeader? first).bind headerText?).toList.map (Prod.mk line) ++ rest

/-- The statements behind the header are read from the texts of the body, each with its line. -/
theorem statementsFrom_eq (pieces : List (Nat × List Char)) :
    statementsFrom pieces = (bodyOf pieces).map fun p => (p.1, readStatement p.2) := by
  cases pieces with
  | nil => rfl
  | cons p rest =>
    rw [statementsFrom, bodyOf, List.map_append]
    congr 1
    cases readHeader? p.2 with
    | none => rfl
    | some h =>
      rw [Option.bind_some, Option.bind_some, headerStatement?_eq]
      cases headerText? h <;> rfl

/-- The texts of the body are pieces of the lines with their numbers. -/
theorem standsOn_of_mem_bodyOf {p : Nat × List Char} (h : p ∈ bodyOf (numberedStatements lines)) :
    StandsOn lines p.1 p.2 := by
  cases hpieces : numberedStatements lines with
  | nil =>
    rw [hpieces] at h
    cases h
  | cons q rest =>
    have hmem : ∀ p ∈ q :: rest, StandsOn lines p.1 p.2 := fun p hp => standsOn_of_mem (hpieces ▸ hp)
    rw [hpieces, bodyOf] at h
    rcases List.mem_append.mp h with h | h
    · obtain ⟨cs, hcs, rfl⟩ := List.mem_map.mp h
      obtain ⟨header, hheader, hcs⟩ := Option.bind_eq_some_iff.mp (Option.mem_toList.mp hcs)
      obtain ⟨-, gap, more, hwritten⟩ := exists_of_readHeader? hheader
      have hfirst := hwritten.eq
      have hstatement : cs = header.statement := by
        rw [headerText?] at hcs
        split at hcs
        · cases hcs
        · exact (Option.some.inj hcs).symm
      refine (hmem q List.mem_cons_self).mono (hstatement ▸ hwritten.statement.trans ?_)
      rw [hfirst, ← List.append_assoc, ← List.append_assoc]
      exact (List.suffix_append _ _).isInfix
    · exact hmem p (List.mem_cons_of_mem q h)

/-- The warning is about a statement: it has its line, and the reason for which the statement is
skipped. -/
def Concerns (w : Diagnostic) (p : Nat × List Char) : Prop :=
  w.line = p.1 ∧ (readStatement p.2 = .rejected w.reason ∨
    p.2 = "end".toList ∧ w.reason = .endWithoutBlock)

/-- Only the word for it closes a block. -/
theorem eq_of_readStatement_closeBlock {cs : List Char} (h : readStatement cs = .closeBlock) :
    cs = "end".toList := by
  unfold readStatement at h
  split at h
  next hend => exact beq_iff_eq.mp hend
  next =>
    repeat' split at h
    all_goals cases h

/-- **Every warning concerns a statement**, and warnings come in the order of their statements. -/
theorem Builder.exists_skipped (b : Builder) (pieces : List (Nat × List Char)) :
    ∃ skipped, List.Sublist skipped pieces ∧
      List.Forall₂ Concerns (b.notes (pieces.map fun p => (p.1, readStatement p.2))) skipped := by
  induction pieces generalizing b with
  | nil => exact ⟨[], .slnil, .nil⟩
  | cons p pieces ih =>
    obtain ⟨skipped, hsub, hconcern⟩ := ih (b.run p.1 (readStatement p.2))
    rw [List.map_cons, notes, note]
    cases hreason : b.objection? (readStatement p.2) with
    | none => exact ⟨skipped, hsub.cons p, hconcern⟩
    | some reason =>
      refine ⟨p :: skipped, hsub.cons_cons p, .cons ⟨rfl, ?_⟩ hconcern⟩
      cases hs : readStatement p.2 with
      | rejected reason' =>
        rw [hs] at hreason
        obtain rfl := Option.some.inj hreason
        exact .inl rfl
      | closeBlock =>
        rw [hs, objection?] at hreason
        split at hreason
        · obtain rfl := Option.some.inj hreason
          exact .inr ⟨eq_of_readStatement_closeBlock hs, rfl⟩
        · cases hreason
      | _ =>
        rw [hs] at hreason
        cases hreason

/-! ## The column of an unknown direction -/

/-- A header's token stands at a column of a line, counted from one, and it is the first word behind
the keyword of the header. -/
structure TokenAt (raw first : List Char) (keyword : String) (column : Nat) (token : String) :
    Prop where
  pos : 1 ≤ column
  /-- the characters from the column on are the token -/
  chars : (raw.drop (column - 1)).take token.length = token.toList
  /-- before it stand separators, the keyword and blanks -/
  before : ∃ pre gap, raw.take (column - 1) = pre ++ (keyword.toList ++ gap) ∧
    (∀ c ∈ pre, isBetween c = true) ∧ ∀ c ∈ gap, Text.isBlank c = true
  /-- it is the word behind the keyword -/
  word : ∃ more, Text.words (String.ofList first) = keyword :: token :: more

section Column

variable {h : Header} {raw gap pre post more : List Char}

/-- Blanks before a text begin no word of their own. -/
theorem runsOutside_blanks (hgap : ∀ c ∈ gap, Text.isBlank c = true) (cs : List Char) :
    Text.runsOutside Text.isBlank (gap ++ cs) = Text.runsOutside Text.isBlank cs := by
  induction gap with
  | nil => rfl
  | cons c gap ih =>
    obtain ⟨hc, hgap⟩ := List.forall_mem_cons.mp hgap
    have hsplit := Text.runsOutside_append_cons hc [] (gap ++ cs)
    rw [List.nil_append] at hsplit
    rw [List.cons_append, hsplit, ih hgap]
    rfl

/-- A word is cut off where a blank or the end follows it. -/
theorem runsOutside_word {word : List Char} (hne : word ≠ [])
    (hword : ∀ c ∈ word, Text.isBlank c = false) (hmore : ∀ c ∈ more.head?, Text.isBlank c = true) :
    ∃ runs, Text.runsOutside Text.isBlank (word ++ more) = word :: runs := by
  have hone : Text.runsOutside Text.isBlank word = [word] := by
    rw [Text.runsOutside, List.splitOnP_eq_singleton fun c hc => by simpa using hword c hc]
    simpa using hne
  cases more with
  | nil => exact ⟨[], by rw [List.append_nil, hone]⟩
  | cons c more =>
    exact ⟨_, by rw [Text.runsOutside_append_cons (hmore c rfl), hone, List.singleton_append]⟩

/-- No character of a keyword may stand before a statement. -/
theorem keyword_solid : ∀ keyword ∈ ["flowchart", "graph"], keyword.toList ≠ [] ∧
    ∀ c ∈ keyword.toList, isBetween c = false := by
  have hall : ∀ keyword ∈ ["flowchart", "graph"], keyword.toList ≠ [] ∧
      keyword.toList.all (!isBetween ·) = true := by decide +kernel
  intro keyword hkeyword
  obtain ⟨hne, hchars⟩ := hall keyword hkeyword
  exact ⟨hne, fun c hc => by simpa using List.all_eq_true.mp hchars c hc⟩

/-- The first two words of a header are its keyword and its token. -/
theorem Header.Written.words (hw : h.Written first gap more)
    (hkeyword : h.keyword ∈ ["flowchart", "graph"]) (htoken : h.token ≠ []) :
    ∃ words, Text.words (String.ofList first) =
      h.keyword :: String.ofList h.token :: words := by
  obtain ⟨hne, hsolid⟩ := keyword_solid _ hkeyword
  have hkeysolid : ∀ c ∈ h.keyword.toList, Text.isBlank c = false := fun c hc =>
    (Bool.or_eq_false_iff.mp (hsolid c hc)).1
  obtain ⟨b, gap', rfl⟩ := List.exists_cons_of_ne_nil (hw.gap_ne_nil htoken)
  obtain ⟨hb, hgap⟩ := List.forall_mem_cons.mp hw.gap_blank
  obtain ⟨runs, hruns⟩ := runsOutside_word htoken hw.token_solid hw.rest_blank
  have hkey : Text.runsOutside Text.isBlank h.keyword.toList = [h.keyword.toList] := by
    rw [Text.runsOutside, List.splitOnP_eq_singleton fun c hc => by simpa using hkeysolid c hc]
    simpa using hne
  refine ⟨runs.map String.ofList, ?_⟩
  rw [Text.words, String.toList_ofList, hw.eq, List.cons_append, Text.runsOutside_append_cons hb, hkey,
    runsOutside_blanks hgap, hruns]
  simp

/-- **The second look finds the token** of the header: neither the keyword nor the token begins in
what stands before it, which is blanks and semicolons only. -/
theorem Header.Written.tokenColumn_eq (hw : h.Written first gap more)
    (hkeyword : h.keyword ∈ ["flowchart", "graph"]) (htoken : h.token ≠ [])
    (hraw : lines[line - 1]? = some (pre ++ (first ++ post)))
    (hpre : ∀ c ∈ pre, isBetween c = true) :
    tokenColumn lines line h.keyword h.token =
      (pre ++ (h.keyword.toList ++ gap)).length + 1 := by
  have hkeyhead : ∃ c word, h.keyword.toList = c :: word ∧ c ∉ pre := by
    obtain ⟨hne, hsolid⟩ := keyword_solid _ hkeyword
    obtain ⟨c, word, hword⟩ := List.exists_cons_of_ne_nil hne
    refine ⟨c, word, hword, fun hmem => ?_⟩
    have hc := hsolid c (hword ▸ List.mem_cons_self)
    rw [hpre c hmem] at hc
    cases hc
  have htokenhead : ∃ c word, h.token = c :: word ∧ c ∉ gap := by
    obtain ⟨c, word, hword⟩ := List.exists_cons_of_ne_nil htoken
    refine ⟨c, word, hword, fun hmem => ?_⟩
    have hc := hw.token_solid c (hword ▸ List.mem_cons_self)
    rw [hw.gap_blank c hmem] at hc
    cases hc
  obtain ⟨c, word, hword, hc⟩ := hkeyhead
  obtain ⟨d, word', hword', hd⟩ := htokenhead
  have hline : pre ++ (first ++ post) =
      pre ++ (h.keyword.toList ++ (gap ++ (h.token ++ (more ++ post)))) := by
    rw [hw.eq]
    simp
  have hfound : Text.splitAtWord? h.keyword.toList (pre ++ (first ++ post)) =
      some (pre, gap ++ (h.token ++ (more ++ post))) := by
    rw [hline, hword]
    exact splitAtWord?_append hc
  have hfound' : Text.splitAtWord? h.token (gap ++ (h.token ++ (more ++ post))) =
      some (gap, more ++ post) := by
    rw [hword']
    exact splitAtWord?_append hd
  rw [tokenColumn, hraw]
  simp only [hfound, hfound']
  rw [hline]
  simp only [List.length_append]
  omega

/-- So the column that is reported is where the token stands on its line. -/
theorem Header.Written.tokenAt (hw : h.Written first gap more)
    (hkeyword : h.keyword ∈ ["flowchart", "graph"]) (htoken : h.token ≠ [])
    (hraw : lines[line - 1]? = some (pre ++ (first ++ post)))
    (hpre : ∀ c ∈ pre, isBetween c = true) :
    TokenAt (pre ++ (first ++ post)) first h.keyword (tokenColumn lines line h.keyword h.token)
      (String.ofList h.token) := by
  have hline : pre ++ (first ++ post) =
      pre ++ (h.keyword.toList ++ gap) ++ (h.token ++ (more ++ post)) := by
    rw [hw.eq]
    simp
  rw [hw.tokenColumn_eq hkeyword htoken hraw hpre, hline]
  refine ⟨Nat.succ_pos _, ?_, ⟨pre, gap, ?_, hpre, hw.gap_blank⟩, hw.words hkeyword htoken⟩
  · rw [Nat.add_sub_cancel, List.drop_left, String.length_ofList, List.take_left,
      String.toList_ofList]
  · rw [Nat.add_sub_cancel, List.take_left]

end Column

/-! ## Reading a text -/

/-- What the outcome of reading a text says about lines and columns is true of the text. -/
def Locates (lines : List (List Char)) : Except ParseError Document → Prop
  | .ok doc => ∃ skipped, List.Sublist skipped (bodyOf (numberedStatements lines)) ∧
      List.Forall₂ Concerns doc.warnings skipped ∧ ∀ p ∈ skipped, StandsOn lines p.1 p.2
  | .error .emptyInput => numberedStatements lines = []
  | .error (.missingHeader line) => ∃ first rest, numberedStatements lines = (line, first) :: rest ∧
      readHeader? first = none ∧ StandsOn lines line first
  | .error (.invalidDirection line column token) => ∃ raw first rest,
      ∃ keyword ∈ ["flowchart", "graph"],
      numberedStatements lines = (line, first) :: rest ∧ Direction.ofToken? token = none ∧
      1 ≤ line ∧ lines[line - 1]? = some raw ∧ first <:+: raw ∧
      TokenAt raw first keyword column token

/-- A header is rejected only for its token, which is then no direction. -/
theorem startDiagram_error {h : Header} {e : ParseError}
    (herror : startDiagram lines line h = .error e) :
    e = .invalidDirection line (tokenColumn lines line h.keyword h.token) (String.ofList h.token) ∧
      h.token ≠ [] ∧ Direction.ofToken? (String.ofList h.token) = none := by
  rw [startDiagram] at herror
  split at herror
  next => cases herror
  next hne =>
    split at herror
    next hnone => exact ⟨(Except.error.inj herror).symm, by simpa using hne, hnone⟩
    next => split at herror <;> cases herror

/-- **Warnings and errors point at the source.** The warnings about a text that was read concern,
one after the other, statements behind its header, and each has the number of a line that contains
its statement. If the header is missing, the line contains the first statement of the text, which is
none. If the direction is unknown, the line contains the header, and the token, the word behind the
keyword of the header, is what stands in the line from the column on. -/
theorem parseDocument_locates (text : String) (read : SettingsReader) :
    Locates (linesOf text) (parseDocument text read) := by
  cases hparse : parseDocument text read with
  | ok doc =>
    obtain ⟨b, hb, rfl⟩ := exists_buildText_eq hparse
    obtain ⟨d, rfl⟩ := buildText_runAll hb
    rw [Locates, Builder.warnings_runAll, List.nil_append, statementsOf_eq, statementsFrom_eq]
    obtain ⟨skipped, hsub, hconcern⟩ := Builder.exists_skipped
      { diagram := { direction := d } } (bodyOf (numberedStatements (linesOf text)))
    exact ⟨skipped, hsub, hconcern, fun p hp => standsOn_of_mem_bodyOf (hsub.subset hp)⟩
  | error e =>
    have hlines : parseLines read (linesOf text) = .error e := hparse
    rw [parseLines] at hlines
    cases hpieces : numberedStatements (linesOf text) with
    | nil =>
      rw [hpieces] at hlines
      obtain rfl := Except.error.inj hlines
      exact hpieces
    | cons p rest =>
      obtain ⟨line, first⟩ := p
      rw [hpieces] at hlines
      dsimp only at hlines
      cases hheader : readHeader? first with
      | none =>
        rw [hheader] at hlines
        obtain rfl := Except.error.inj hlines
        exact ⟨first, rest, hpieces, hheader,
          standsOn_of_mem (p := (line, first)) (hpieces ▸ List.mem_cons_self)⟩
      | some h =>
        rw [hheader] at hlines
        dsimp only at hlines
        cases hstart : startDiagram (linesOf text) line h with
        | ok b =>
          rw [hstart] at hlines
          cases hlines
        | error e' =>
          rw [hstart] at hlines
          obtain rfl := Except.error.inj hlines
          obtain ⟨rfl, htoken, hnone⟩ := startDiagram_error hstart
          obtain ⟨hkeyword, gap, more, hwritten⟩ := exists_of_readHeader? hheader
          obtain ⟨raw, hline, hraw, more', hmore⟩ := exists_line_of_first hpieces
          obtain ⟨pre, post, rfl, hpre⟩ := exists_of_lineStatements hmore
          exact ⟨_, first, rest, h.keyword, hkeyword, hpieces, hnone, hline, hraw,
            ⟨pre, post, List.append_assoc _ _ _⟩, hwritten.tokenAt hkeyword htoken hraw hpre⟩

/-- A chain behind the header on its line, a closing that closes nothing, and two chains that are
not finished, the second one behind a semicolon. -/
def brokenChains : String := "graph TD; a --> b\nend\n\n--> c\nd --> e; f -->"

/-- A closing line without a block, a chain without a source and a chain without a target are each
warned about on their own line; the blank line counts, and so does the chain that precedes the last
one on its line. -/
theorem parseDocument_locates_broken : ∃ doc, parseDocument brokenChains = .ok doc ∧
    doc.warnings = [⟨2, .endWithoutBlock⟩, ⟨4, .noSource⟩, ⟨5, .noTarget⟩] ∧
    ∃ skipped,
      List.Sublist skipped (bodyOf (numberedStatements (linesOf brokenChains))) ∧
      List.Forall₂ Concerns doc.warnings skipped ∧
      ∀ p ∈ skipped, StandsOn (linesOf brokenChains) p.1 p.2 := by
  have hwarnings : (parseDocument brokenChains).toOption.map Document.warnings =
      some [⟨2, .endWithoutBlock⟩, ⟨4, .noSource⟩, ⟨5, .noTarget⟩] := by decide +kernel
  obtain ⟨doc, hdoc, hwarnings⟩ := exists_ok_of_map hwarnings
  have hlocates := parseDocument_locates brokenChains readSettings?
  rw [hdoc] at hlocates
  exact ⟨doc, hdoc, hwarnings, hlocates⟩

/-- The header is looked for behind a semicolon, and its token behind blanks. -/
example : parseDocument "\n ;flowchart \tXY ;A" = .error (.invalidDirection 2 14 "XY") := rfl

end Flowchart
