import Flowchart.Grammar.Lines
import Flowchart.Proofs.Printing.Words
import Mathlib.Algebra.Group.Nat.Even

/-!
# Remarks

A *remark* is a comment at the end of a line. On a line on which all quotes are closed it begins
outside of quotes, so what was written before it is read as if the remark were not there:
`lineStatements_withRemark`. The one thing it can bring about is that a comment, the beginning of a
settings directive, becomes a directive.
-/

namespace Flowchart

/-! ## What a line contributes -/

/-- The line is a settings directive. -/
def isDirective (line : List Char) : Bool := (settingsText? (Text.trimChars line)).isSome

/-- The statements that stand on a line. -/
def lineStatements (line : List Char) : List (List Char) :=
  match readLine line with
  | .text cs => splitStatements cs
  | _ => []

/-- The settings that a line gives, if they can be read. -/
def lineSettings? (read : SettingsReader) (line : List Char) : Option Json :=
  match readLine line with
  | .settings value => read value
  | _ => none

variable {read : SettingsReader} {line rest cs : List Char}

theorem prefix_of_settingsText? (h : (settingsText? cs).isSome) : "%%\x7b".toList <+: cs := by
  rw [settingsText?] at h
  split at h
  next hprefix => exact List.isPrefixOf_iff_prefix.mp hprefix
  next => cases h

theorem readLine_of_directive (h : isDirective line = true) :
    ∃ value, readLine line = .settings value := by
  obtain ⟨cs, hcs⟩ := Option.isSome_iff_exists.mp h
  exact ⟨cs, by rw [readLine, hcs]⟩

theorem readLine_of_not_directive (h : isDirective line = false) : readLine line =
    if "%%".toList.isPrefixOf (Text.trimChars line) then .nothing
    else if (stripComment (Text.trimChars line)).isEmpty then .nothing
    else .text (stripComment (Text.trimChars line)) := by
  rw [isDirective, Option.isSome_eq_false_iff, Option.isNone_iff_eq_none] at h
  rw [readLine, h]

/-- A line that begins with two percent signs holds no statements, and on any other line the
statements are cut out of what stands before its comment. -/
theorem lineStatements_eq (line : List Char) : lineStatements line =
    if "%%".toList.isPrefixOf (Text.trimChars line) then []
    else splitStatements (stripComment (Text.trimChars line)) := by
  cases hdirective : isDirective line with
  | true =>
    obtain ⟨value, hvalue⟩ := readLine_of_directive hdirective
    have hcomment : "%%".toList <+: Text.trimChars line :=
      .trans ⟨"\x7b".toList, rfl⟩ (prefix_of_settingsText? hdirective)
    rw [lineStatements, hvalue, if_pos (List.isPrefixOf_iff_prefix.mpr hcomment)]
  | false =>
    rw [lineStatements, readLine_of_not_directive hdirective]
    cases "%%".toList.isPrefixOf (Text.trimChars line) with
    | true => rfl
    | false => cases stripComment (Text.trimChars line) <;> rfl

theorem lineSettings?_eq_none (h : isDirective line = false) : lineSettings? read line = none := by
  rw [lineSettings?, readLine_of_not_directive h]
  cases "%%".toList.isPrefixOf (Text.trimChars line) with
  | true => rfl
  | false => cases stripComment (Text.trimChars line) <;> rfl

theorem numberedStatements_eq (lines : List (List Char)) : numberedStatements lines =
    lines.zipIdx.flatMap fun l => (lineStatements l.1).map fun s => (l.2 + 1, s) := by
  rw [numberedStatements]
  refine congrArg (List.flatMap · _) (funext fun (line, i) => ?_)
  dsimp only [lineStatements]
  cases readLine line <;> rfl

/-- Of all lines that give settings the last one decides, and it replaces the earlier ones as a
whole. -/
theorem lastSettings?_eq (read : SettingsReader) (lines : List (List Char)) :
    lastSettings? read lines = (lines.filterMap (lineSettings? read)).getLast? := by
  have hfold : ∀ (lines : List (List Char)) found,
      lines.foldl (fun found line => (lineSettings? read line).or found) found =
        (lines.filterMap (lineSettings? read)).getLast?.or found := by
    intro lines
    induction lines with
    | nil => exact fun found => rfl
    | cons line lines ih =>
      intro found
      rw [List.foldl_cons, ih, List.filterMap_cons]
      cases lineSettings? read line with
      | none => rfl
      | some value =>
        rw [List.getLast?_cons]
        cases (lines.filterMap (lineSettings? read)).getLast? <;> rfl
  have hstep : lastSettings? read lines =
      lines.foldl (fun found line => (lineSettings? read line).or found) none := by
    refine congrArg (List.foldl · none lines) (funext₂ fun found line => ?_)
    rw [lineSettings?]
    cases readLine line with
    | settings value =>
      dsimp only
      cases read value <;> rfl
    | _ => rfl
  rw [hstep, hfold, Option.or_none]

/-! ## Comments -/

/-- A quotation mark opens or closes quotes, and two percent signs outside of them end the text. -/
theorem beforeComment_cons (quoted : Bool) (c : Char) (cs : List Char) :
    beforeComment quoted (c :: cs) =
      if !(quoted ^^ (c == '"')) && c == '%' && cs.head? == some '%' then []
      else c :: beforeComment (quoted ^^ (c == '"')) cs := by
  rw [beforeComment]
  cases c == '"' <;> cases quoted <;> rfl

/-- If all quotes are closed at the end of a text, and no percent sign follows, then either a
comment begins in the text or it is passed unchanged. -/
theorem beforeComment_append {quoted : Bool} (hclosed : Even (cs.count '"' + quoted.toNat))
    (hrest : rest.head? ≠ some '%') :
    beforeComment quoted (cs ++ rest) = beforeComment quoted cs ∨
      beforeComment quoted cs = cs ∧
        beforeComment quoted (cs ++ rest) = cs ++ beforeComment false rest := by
  induction cs generalizing quoted with
  | nil =>
    cases quoted with
    | false => exact .inr ⟨rfl, rfl⟩
    | true => cases Nat.not_even_one hclosed
  | cons c cs ih =>
    have hhead : ((cs ++ rest).head? == some '%') = (cs.head? == some '%') := by
      cases cs with
      | nil => rw [List.nil_append, beq_eq_false_iff_ne.mpr hrest]; rfl
      | cons d cs => rfl
    have hclosed' : Even (cs.count '"' + (quoted ^^ (c == '"')).toNat) := by
      rw [Nat.even_iff, List.count_cons] at hclosed
      rw [Nat.even_iff]
      cases hc : c == '"' <;> cases quoted <;> rw [hc] at hclosed <;> simp at hclosed ⊢ <;> omega
    rw [List.cons_append, beforeComment_cons, beforeComment_cons, hhead]
    split
    · exact .inl rfl
    · rcases ih hclosed' with h | ⟨h, h'⟩
      · exact .inl (congrArg (c :: ·) h)
      · exact .inr ⟨congrArg (c :: ·) h, congrArg (c :: ·) h'⟩

theorem ne_of_isBlank {c d : Char} (hc : Text.isBlank c = true) (hd : Text.isBlank d = false) :
    c ≠ d := by
  rintro rfl
  rw [hc] at hd
  cases hd

/-- Blanks before a comment are passed, and nothing else stands in front of it. -/
theorem beforeComment_blanks {gap : List Char} (hgap : ∀ c ∈ gap, Text.isBlank c = true)
    (rest : List Char) : beforeComment false (gap ++ '%' :: '%' :: rest) = gap := by
  induction gap with
  | nil => rfl
  | cons c gap ih =>
    have hc := hgap c List.mem_cons_self
    have hquote : (c == '"') = false := beq_eq_false_iff_ne.mpr (ne_of_isBlank hc rfl)
    have hpercent : (c == '%') = false := beq_eq_false_iff_ne.mpr (ne_of_isBlank hc rfl)
    rw [List.cons_append, beforeComment, hquote, hpercent]
    exact congrArg (c :: ·) (ih fun d hd => hgap d (List.mem_cons_of_mem c hd))

/-! ## Remarks -/

/-- A line with a remark at its end. -/
def withRemark (line rest : List Char) : List Char := line ++ ' ' :: '%' :: '%' :: ' ' :: rest

/-- Trimming a line with a remark: blanks lie between what trimming leaves of the line, if anything,
and the remark. -/
theorem trimChars_withRemark (line rest : List Char) : ∃ gap rest',
    (∀ c ∈ gap, Text.isBlank c = true) ∧ (gap = [] ↔ Text.trimChars line = []) ∧
    Text.trimChars (withRemark line rest) = Text.trimChars line ++ (gap ++ '%' :: '%' :: rest') := by
  obtain ⟨pre, post, hline, hpre, hpost, hfirst, -⟩ := Text.exists_pad line
  have hspace : Text.isBlank ' ' = true := rfl
  have hback : ∀ front : List Char, Text.dropBack Text.isBlank (front ++ '%' :: '%' :: ' ' :: rest) =
      front ++ '%' :: '%' :: Text.dropBack Text.isBlank (' ' :: rest) := by
    intro front
    have hsign : ∀ c ∈ (front ++ ['%', '%']).getLast?, Text.isBlank c = false := by
      intro c hc
      rw [List.getLast?_append] at hc
      obtain rfl := Option.some.inj hc
      rfl
    simpa using Text.dropBack_append hsign (' ' :: rest)
  cases ht : Text.trimChars line with
  | nil =>
    refine ⟨[], Text.dropBack Text.isBlank (' ' :: rest), fun c hc => (by cases hc), by simp, ?_⟩
    have hblank : ∀ c ∈ line ++ [' '], Text.isBlank c = true := by
      rw [hline, ht]
      intro c hc
      simp only [List.nil_append, List.mem_append, List.mem_singleton] at hc
      rcases hc with (hc | hc) | rfl
      · exact hpre c hc
      · exact hpost c hc
      · exact hspace
    have hsplit : withRemark line rest = (line ++ [' ']) ++ '%' :: '%' :: ' ' :: rest := by
      simp [withRemark]
    rw [hsplit, Text.trimChars, Text.dropFront_pad hblank (fun c hc => by
      obtain rfl := Option.some.inj hc; rfl)]
    exact hback []
  | cons c t =>
    refine ⟨post ++ [' '], Text.dropBack Text.isBlank (' ' :: rest), ?_, by simp, ?_⟩
    · intro c hc
      rcases List.mem_append.mp hc with hc | hc
      · exact hpost c hc
      · exact List.mem_singleton.mp hc ▸ hspace
    · have hsplit : withRemark line rest =
          pre ++ ((c :: t) ++ (post ++ [' ']) ++ '%' :: '%' :: ' ' :: rest) := by
        rw [withRemark, ← ht]
        conv_lhs => rw [hline]
        simp
      rw [hsplit, Text.trimChars, Text.dropFront_pad hpre (fun d hd => by
        rw [ht] at hfirst; exact hfirst d hd), hback]
      simp

/-- What follows after blanks does not make a text a comment. -/
theorem isPrefixOf_percents {gap : List Char} (hcs : cs ≠ []) (hgap : gap ≠ [])
    (hblank : ∀ c ∈ gap, Text.isBlank c = true) (rest : List Char) :
    "%%".toList.isPrefixOf (cs ++ (gap ++ rest)) = "%%".toList.isPrefixOf cs := by
  obtain ⟨c, cs, rfl⟩ := List.exists_cons_of_ne_nil hcs
  obtain ⟨g, gap, rfl⟩ := List.exists_cons_of_ne_nil hgap
  have hg : ('%' == g) = false :=
    beq_eq_false_iff_ne.mpr (ne_of_isBlank (hblank g List.mem_cons_self) rfl).symm
  cases cs with
  | nil => simp [List.isPrefixOf, hg]
  | cons d cs => rfl

/-- **A remark on a line without open quotes** leaves the statements of the line as they are. -/
theorem lineStatements_withRemark (hclosed : Even (line.count '"')) (rest : List Char) :
    lineStatements (withRemark line rest) = lineStatements line := by
  obtain ⟨gap, rest', hgap, hnil, htrim⟩ := trimChars_withRemark line rest
  obtain ⟨pre, post, hline, hpre, hpost, hfirst, hlast⟩ := Text.exists_pad line
  rw [lineStatements_eq, lineStatements_eq, htrim]
  generalize Text.trimChars line = t at hline hfirst hlast hnil ⊢
  by_cases ht : t = []
  · obtain rfl := ht
    rw [hnil.mpr rfl]
    rfl
  · have hne : gap ≠ [] := fun h => ht (hnil.mp h)
    rw [isPrefixOf_percents ht hne hgap]
    congr 2
    have hcount : ∀ blanks : List Char, (∀ c ∈ blanks, Text.isBlank c = true) →
        blanks.count '"' = 0 := fun blanks hblanks =>
      List.count_eq_zero.mpr fun hc => ne_of_isBlank (hblanks _ hc) rfl rfl
    have hquotes : Even (t.count '"' + false.toNat) := by
      rw [hline, List.count_append, List.count_append, hcount pre hpre, hcount post hpost] at hclosed
      simpa using hclosed
    have hhead : (gap ++ '%' :: '%' :: rest').head? ≠ some '%' := by
      obtain ⟨g, gap, rfl⟩ := List.exists_cons_of_ne_nil hne
      exact fun h => ne_of_isBlank (hgap g List.mem_cons_self) rfl (Option.some.inj h)
    rw [stripComment, stripComment]
    rcases beforeComment_append hquotes hhead with h | ⟨h, h'⟩
    · rw [h]
    · rw [h, h', beforeComment_blanks hgap]
      have hnone : ∀ c ∈ ([] : List Char), Text.isBlank c = true := fun c hc => by cases hc
      have htrim : Text.trimChars ([] ++ (t ++ gap)) = t :=
        Text.trimChars_pad hnone hgap ht hfirst hlast
      have hself : Text.trimChars ([] ++ (t ++ [])) = t :=
        Text.trimChars_pad hnone hnone ht hfirst hlast
      simpa using htrim.trans hself.symm

end Flowchart
