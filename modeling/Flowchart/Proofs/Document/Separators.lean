import Mathlib.Algebra.GroupWithZero.Nat
import Mathlib.Algebra.Order.BigOperators.Group.List
import Mathlib.Algebra.Order.Group.Nat
import Flowchart.Proofs.Document.LabelLines

/-!
# Semicolons and line breaks

Statements are separated by semicolons or by line breaks. A line is scanned for both its statements
and its comment, and each scan has a state: the brackets, quotes and bars that are open for the cut,
the quotes alone for the comment. A statement that closes all it opens takes both scans back to
where they began. So it may stand on a line of its own or behind others, and the text says the same,
`parseDocument_joined`.
-/

namespace Flowchart

/-- Two percent signs stand next to each other in quotes only. -/
def NoRemark (cs : List Char) : Prop :=
  ∀ front back, cs = front ++ '%' :: '%' :: back → ¬ Even (front.count '"')

/-- A text that is one statement, closes all it opens and holds no comment. -/
structure Standalone (cs : List Char) : Prop where
  unbroken : '\n' ∉ cs
  no_remark : NoRemark cs
  /-- on a line of its own it is the only statement -/
  alone : splitStatements cs = [cs]
  /-- no bracket, quote or bar is open at its end -/
  closed : cs.foldl SplitState.step {} = {}

/-! ## Comments -/

section Comments

variable {quoted : Bool} {s : SplitState} {cs rest : List Char}

/-- One character more changes the parity of the quotes if it is a quote. -/
theorem even_count_cons (quoted : Bool) (c : Char) (cs : List Char) :
    Even ((c :: cs).count '"' + quoted.toNat) ↔
      Even (cs.count '"' + (quoted ^^ (c == '"')).toNat) := by
  rw [List.count_cons, Nat.even_iff, Nat.even_iff]
  cases c == '"' <;> cases quoted <;> simp
  omega

/-- No comment is cut off exactly if every pair of percent signs is in quotes. -/
theorem beforeComment_eq_self_iff : beforeComment quoted cs = cs ↔
    ∀ front back, cs = front ++ '%' :: '%' :: back → ¬ Even (front.count '"' + quoted.toNat) := by
  induction cs generalizing quoted with
  | nil => simp [beforeComment]
  | cons c cs ih =>
    rw [beforeComment_cons]
    split
    next hcut =>
      simp only [Bool.and_eq_true, Bool.not_eq_true', beq_iff_eq, List.head?_eq_some_iff] at hcut
      obtain ⟨⟨hquoted, rfl⟩, back, rfl⟩ := hcut
      obtain rfl : quoted = false := by simpa using hquoted
      exact iff_of_false (List.cons_ne_nil _ _).symm fun h => h [] back rfl (by simp)
    next hkept =>
      rw [List.cons.injEq, ih]
      simp only [true_and]
      refine ⟨fun h front back hsplit => ?_, fun h front back hsplit => ?_⟩
      · cases front with
        | nil =>
          obtain ⟨rfl, rfl⟩ := List.cons.inj hsplit
          cases quoted <;> simp at hkept ⊢
        | cons d front =>
          obtain ⟨rfl, rfl⟩ := List.cons.inj hsplit
          rw [even_count_cons]
          exact h front back rfl
      · rw [← even_count_cons]
        exact h (c :: front) back (congrArg (c :: ·) hsplit)

theorem noRemark_iff : NoRemark cs ↔ beforeComment false cs = cs := by
  rw [beforeComment_eq_self_iff]
  rfl

instance : Decidable (NoRemark cs) := decidable_of_iff _ noRemark_iff.symm

instance : Decidable (Standalone cs) :=
  decidable_of_iff ('\n' ∉ cs ∧ NoRemark cs ∧ splitStatements cs = [cs] ∧
    cs.foldl SplitState.step {} = {})
    ⟨fun ⟨hunbroken, hremark, halone, hclosed⟩ => ⟨hunbroken, hremark, halone, hclosed⟩,
      fun ⟨hunbroken, hremark, halone, hclosed⟩ => ⟨hunbroken, hremark, halone, hclosed⟩⟩

/-- What is cut off begins with a percent sign. -/
theorem exists_comment (quoted : Bool) (cs : List Char) :
    ∃ cut, cs = beforeComment quoted cs ++ cut ∧ (cut = [] ∨ cut.head? = some '%') := by
  induction cs generalizing quoted with
  | nil => exact ⟨[], rfl, .inl rfl⟩
  | cons c cs ih =>
    rw [beforeComment_cons]
    split
    next hcut =>
      simp only [Bool.and_eq_true, beq_iff_eq] at hcut
      exact ⟨c :: cs, rfl, .inr (congrArg some hcut.1.2)⟩
    next =>
      obtain ⟨cut, hcs, hcut⟩ := ih (quoted ^^ (c == '"'))
      exact ⟨cut, congrArg (c :: ·) hcs, hcut⟩

/-- Behind text that closes its quotes a line is passed as from its beginning. -/
theorem beforeComment_append_closed (hclosed : Even (cs.count '"' + quoted.toNat))
    (hkept : beforeComment quoted cs = cs) (hrest : rest.head? ≠ some '%') :
    beforeComment quoted (cs ++ rest) = cs ++ beforeComment false rest := by
  rcases beforeComment_append hclosed hrest with h | ⟨-, h⟩
  · -- nothing can have been cut off
    obtain ⟨cut, hsplit, hcut⟩ := exists_comment quoted (cs ++ rest)
    rw [h, hkept, List.append_cancel_left_eq] at hsplit
    subst hsplit
    obtain rfl := hcut.resolve_right hrest
    rw [h, hkept, beforeComment, List.append_nil]
  · exact h

/-- The cut and the comment count the same quotes. -/
theorem quoted_foldl_step : (cs.foldl SplitState.step s).quoted = false ↔
    Even (cs.count '"' + s.quoted.toNat) := by
  have hstep (s : SplitState) (c : Char) : (s.step c).quoted = (s.quoted ^^ (c == '"')) := by
    obtain ⟨depth, quoted, barred⟩ := s
    simp only [SplitState.step]
    cases quoted <;> cases c == '"' <;> simp
    repeat' split
    all_goals rfl
  induction cs generalizing s with
  | nil => cases hs : s.quoted <;> simp [hs]
  | cons c cs ih =>
    rw [List.foldl_cons, even_count_cons, ← hstep]
    exact ih

end Comments

/-! ## Cutting joined statements -/

section Cutting

variable {s : SplitState} {cs rest : List Char}

/-- Cutting takes the semicolons between the parts away and nothing else. -/
theorem sum_length_cutStatements (s : SplitState) (cs : List Char) :
    ((cutStatements s cs).map List.length).sum + (cutStatements s cs).length = cs.length + 1 := by
  induction cs generalizing s with
  | nil => rfl
  | cons c cs ih =>
    rw [cutStatements]
    split
    · have h := ih s
      simp only [List.map_cons, List.sum_cons, List.length_cons, List.length_nil]
      omega
    · have h := ih (s.step c)
      cases hcut : cutStatements (s.step c) cs with
      | nil =>
        rw [hcut] at h
        simp at h
      | cons part parts =>
        rw [hcut] at h
        simp only [List.map_cons, List.sum_cons, List.length_cons] at h ⊢
        omega

/-- A text that is a statement by itself is trimmed, and no semicolon in it ends a statement. -/
theorem cutStatements_of_alone (h : splitStatements cs = [cs]) :
    cutStatements {} cs = [cs] ∧ Text.trimChars cs = cs ∧ cs ≠ [] := by
  have hmem : cs ∈ ((cutStatements {} cs).map Text.trimChars).filter (!·.isEmpty) := by
    rw [← splitStatements, h]
    exact List.mem_singleton_self cs
  obtain ⟨hmem, hne⟩ := List.mem_filter.mp hmem
  obtain ⟨part, hpart, htrim⟩ := List.mem_map.mp hmem
  obtain ⟨pre, post, hpad, -⟩ := Text.exists_pad part
  have hsum := sum_length_cutStatements {} cs
  have hle : part.length ≤ ((cutStatements {} cs).map List.length).sum :=
    List.single_le_sum (fun _ _ => Nat.zero_le _) _ (List.mem_map_of_mem hpart)
  have hlength := congrArg List.length hpad
  simp only [List.length_append, htrim] at hlength
  -- the part that is left after trimming is as long as all of the text
  have hone : (cutStatements {} cs).length = 1 := by
    have := List.length_pos_of_mem hpart
    omega
  obtain ⟨part', hcut⟩ := List.length_eq_one_iff.mp hone
  rw [hcut, List.mem_singleton] at hpart
  subst hpart
  obtain rfl : pre = [] := List.length_eq_zero_iff.mp (by omega)
  obtain rfl : post = [] := List.length_eq_zero_iff.mp (by omega)
  rw [htrim, List.nil_append, List.append_nil] at hpad
  subst hpad
  exact ⟨hcut, htrim, by simpa using hne⟩

/-- Behind a text that is not cut the line is cut from the state that the text leaves. -/
theorem cutStatements_append (h : cutStatements s cs = [cs]) : cutStatements s (cs ++ rest) =
    (cutStatements (cs.foldl SplitState.step s) rest).modifyHead (cs ++ ·) := by
  induction cs generalizing s with
  | nil => exact (congrFun List.modifyHead_id _).symm
  | cons c cs ih =>
    have hkept : c = ';' → s.isFree = false := by
      rintro rfl
      by_contra hfree
      rw [Bool.not_eq_false] at hfree
      rw [cutStatements, hfree] at h
      cases h
    rw [cutStatements_cons hkept] at h
    have htail : cutStatements (s.step c) cs = [cs] := by
      obtain ⟨part, parts, hcut⟩ := List.exists_cons_of_ne_nil (cutStatements_ne_nil (s.step c) cs)
      rw [hcut] at h ⊢
      simpa using h
    rw [List.cons_append, cutStatements_cons hkept, ih htail, List.modifyHead_modifyHead]
    rfl

end Cutting

/-! ## Lines of statements -/

/-- A line on which some statements stand, and nothing else. -/
structure Carries (line : List Char) (parts : List (List Char)) : Prop where
  unbroken : '\n' ∉ line
  plain : beforeComment false line = line
  cut : cutStatements {} line = parts
  /-- no blank at either end -/
  first : ∀ c ∈ line.head?, Text.isBlank c = false
  last : ∀ c ∈ line.getLast?, Text.isBlank c = false
  nonempty : line ≠ []

section Lines

variable {cs line : List Char} {parts : List (List Char)}

namespace Standalone

theorem carries (h : Standalone cs) : Carries cs [cs] := by
  obtain ⟨hcut, htrim, hne⟩ := cutStatements_of_alone h.alone
  obtain ⟨-, -, -, -, -, hfirst, hlast⟩ := Text.exists_pad cs
  rw [htrim] at hfirst hlast
  exact ⟨h.unbroken, noRemark_iff.mp h.no_remark, hcut, hfirst, hlast, hne⟩

/-- One more statement in front of a line. -/
theorem cons_carries (h : Standalone cs) (hline : Carries line parts) :
    Carries (cs ++ ';' :: line) (cs :: parts) := by
  have hcs := h.carries
  constructor
  case unbroken => simp [h.unbroken, hline.unbroken]
  case plain =>
    have hquotes : Even (cs.count '"' + false.toNat) :=
      quoted_foldl_step.mp (congrArg SplitState.quoted h.closed)
    rw [beforeComment_append_closed hquotes hcs.plain (by simp), beforeComment_cons]
    exact congrArg (cs ++ ';' :: ·) hline.plain
  case cut =>
    have hsemicolon : cutStatements {} (';' :: line) = [] :: cutStatements {} line := rfl
    rw [cutStatements_append hcs.cut, h.closed, hsemicolon, hline.cut, List.modifyHead_cons,
      List.append_nil]
  case first =>
    obtain ⟨c, cs, rfl⟩ := List.exists_cons_of_ne_nil hcs.nonempty
    exact hcs.first
  case last =>
    rw [List.getLast?_append_of_ne_nil _ (List.cons_ne_nil _ _),
      List.getLast?_cons_of_ne_nil hline.nonempty]
    exact hline.last
  case nonempty => simp

/-- **Joined statements.** Statements with semicolons between them are those of the line. -/
theorem carries_intercalate {parts : List (List Char)} (h : Standalone cs)
    (hparts : ∀ p ∈ parts, Standalone p) :
    Carries (List.intercalate [';'] (cs :: parts)) (cs :: parts) := by
  induction parts generalizing cs with
  | nil =>
    rw [List.intercalate_singleton]
    exact h.carries
  | cons p parts ih =>
    obtain ⟨hp, hparts⟩ := List.forall_mem_cons.mp hparts
    rw [List.intercalate_cons_cons, List.append_assoc]
    exact h.cons_carries (ih hp hparts)

end Standalone

namespace Carries

variable (h : Carries line parts)
include h

theorem trimChars_eq : Text.trimChars line = line := by
  have hnone : ∀ c ∈ ([] : List Char), Text.isBlank c = true := List.forall_mem_nil _
  have htrim := Text.trimChars_pad hnone hnone h.nonempty h.first h.last
  rwa [List.nil_append, List.append_nil] at htrim

/-- The line does not begin as a comment. -/
theorem not_comment : "%%".toList.isPrefixOf line = false := by
  rw [← Bool.not_eq_true, List.isPrefixOf_iff_prefix]
  rintro ⟨rest, rfl⟩
  cases h.plain

/-- A statement that stands by itself gives no settings, whichever reader the settings have. -/
theorem settings_eq (read : SettingsReader) : lineSettings? read line = none := by
  refine lineSettings?_eq_none ?_
  rw [isDirective, h.trimChars_eq, ← Bool.not_eq_true]
  intro hdirective
  have hprefix : "%%".toList <+: line :=
    .trans ⟨"\x7b".toList, rfl⟩ (prefix_of_settingsText? hdirective)
  rw [← List.isPrefixOf_iff_prefix, h.not_comment] at hprefix
  cases hprefix

end Carries

/-- The statements of a line are those that stand on it. -/
theorem Standalone.lineStatements_eq (hline : Carries line parts)
    (hparts : ∀ p ∈ parts, Standalone p) : lineStatements line = parts := by
  have htrim : parts.map Text.trimChars = parts :=
    (List.map_congr_left fun p hp => (hparts p hp).carries.trimChars_eq).trans (List.map_id _)
  have hkept : parts.filter (!·.isEmpty) = parts := List.filter_eq_self.mpr fun p hp => by
    simpa using (hparts p hp).carries.nonempty
  rw [Flowchart.lineStatements_eq, hline.trimChars_eq, hline.not_comment, stripComment, hline.plain,
    hline.trimChars_eq, splitStatements, hline.cut, htrim, hkept]
  rfl

end Lines

/-! ## Texts -/

/-- Lines with a line feed after each but the last. -/
theorem linesOf_intercalate {lines : List (List Char)} {last : List Char}
    (hlines : ∀ l ∈ lines ++ [last], '\n' ∉ l ∧ l.getLast? ≠ some '\r') (hlast : last ≠ []) :
    linesOf (String.ofList (List.intercalate ['\n'] (lines ++ [last]))) = lines ++ [last] := by
  obtain ⟨c, cs, rfl⟩ := List.exists_cons_of_ne_nil hlast
  have hsplit : (List.intercalate ['\n'] (lines ++ [c :: cs])).splitOnP (· == '\n') =
      lines ++ [c :: cs] :=
    List.splitOn_intercalate '\n' (fun l hl => (hlines l hl).1) (by simp)
  have hreturns : lines.map Text.dropOneReturn = lines := by
    refine (List.map_congr_left fun l hl => ?_).trans (List.map_id _)
    have hend := (hlines l (List.mem_append_left _ hl)).2
    exact if_neg fun h => hend (beq_iff_eq.mp h)
  rw [linesOf, Text.lines, String.toList_ofList, hsplit]
  simp [hreturns]

/-! ## The column of an unknown direction -/

section Columns

variable {word cs : List Char}

theorem splitAtWord?_of_prefix (word rest : List Char) :
    Text.splitAtWord? word (word ++ rest) = some ([], rest) := by
  cases hcs : word ++ rest with
  | nil =>
    obtain ⟨rfl, rfl⟩ := List.append_eq_nil_iff.mp hcs
    rfl
  | cons c cs =>
    have hprefix : word.isPrefixOf (c :: cs) = true :=
      List.isPrefixOf_iff_prefix.mpr (hcs ▸ List.prefix_append word rest)
    rw [Text.splitAtWord?, if_pos hprefix, ← hcs, List.drop_left]

/-- A word that is in a text is found there first, whatever follows the text. -/
theorem splitAtWord?_append_of_infix (h : word <:+: cs) : ∃ before after, ∀ rest,
    Text.splitAtWord? word (cs ++ rest) = some (before, after ++ rest) := by
  induction cs with
  | nil =>
    obtain rfl := List.eq_nil_of_infix_nil h
    refine ⟨[], [], fun rest => ?_⟩
    exact splitAtWord?_of_prefix [] rest
  | cons c cs ih =>
    by_cases hprefix : word <+: c :: cs
    · obtain ⟨after, hafter⟩ := hprefix
      refine ⟨[], after, fun rest => ?_⟩
      rw [← hafter, List.append_assoc]
      exact splitAtWord?_of_prefix word (after ++ rest)
    · have hpart : word <:+: cs := (List.infix_cons_iff.mp h).resolve_left hprefix
      obtain ⟨before, after, htail⟩ := ih hpart
      refine ⟨c :: before, after, fun rest => ?_⟩
      have hnot : word.isPrefixOf (c :: (cs ++ rest)) = false := by
        rw [← Bool.not_eq_true, List.isPrefixOf_iff_prefix]
        exact fun hmore => hprefix (List.prefix_of_prefix_length_le hmore
          (List.prefix_append (c :: cs) rest) (hpart.length_le.trans (Nat.le_succ _)))
      rw [List.cons_append, Text.splitAtWord?, hnot, htail]
      rfl

/-- Where a text is cut, and that it is not cut before. -/
theorem splitAtChar?_spec {p : Char → Bool} {before after : List Char}
    (h : Text.splitAtChar? p cs = some (before, after)) :
    ∃ c, cs = before ++ c :: after ∧ p c = true ∧ ∀ d ∈ before, p d = false := by
  induction cs generalizing before with
  | nil => cases h
  | cons c cs ih =>
    rw [Text.splitAtChar?] at h
    split at h
    next hc =>
      obtain ⟨rfl, rfl⟩ := Prod.mk.inj (Option.some.inj h)
      exact ⟨c, rfl, hc, List.forall_mem_nil _⟩
    next hc =>
      obtain ⟨⟨before', after'⟩, htail, hpair⟩ := Option.map_eq_some_iff.mp h
      obtain ⟨rfl, rfl⟩ := Prod.mk.inj hpair
      obtain ⟨d, rfl, hd, hbefore⟩ := ih htail
      exact ⟨d, rfl, hd, List.forall_mem_cons.mpr ⟨Bool.eq_false_iff.mpr hc, hbefore⟩⟩

theorem splitAtChar?_eq_none {p : Char → Bool} (h : Text.splitAtChar? p cs = none) :
    ∀ c ∈ cs, p c = false := by
  induction cs with
  | nil => exact List.forall_mem_nil _
  | cons c cs ih =>
    rw [Text.splitAtChar?] at h
    split at h
    next => cases h
    next hc =>
      exact List.forall_mem_cons.mpr ⟨Bool.eq_false_iff.mpr hc, ih (Option.map_eq_none_iff.mp h)⟩

/-- Blanks stand between a keyword and what follows it. -/
theorem exists_of_afterKeyword? {keyword : String} {rest : List Char}
    (h : afterKeyword? keyword cs = some rest) :
    ∃ gap, cs = keyword.toList ++ (gap ++ rest) ∧ (∀ c ∈ gap, Text.isBlank c = true) ∧
      (rest ≠ [] → gap ≠ []) := by
  rw [afterKeyword?] at h
  split at h
  case isFalse => cases h
  case isTrue hprefix =>
    obtain ⟨tail, rfl⟩ := List.isPrefixOf_iff_prefix.mp hprefix
    rw [← String.length_toList, List.drop_left] at h
    cases tail with
    | nil =>
      obtain rfl := Option.some.inj h
      exact ⟨[], rfl, List.forall_mem_nil _, fun hne => absurd rfl hne⟩
    | cons c tail =>
      dsimp only at h
      split at h
      case isFalse => cases h
      case isTrue hc =>
        obtain rfl := Option.some.inj h
        refine ⟨c :: tail.takeWhile Text.isBlank, ?_, List.forall_mem_cons.mpr ⟨hc, ?_⟩,
          fun _ => List.cons_ne_nil _ _⟩
        · rw [Text.dropFront, List.cons_append, List.takeWhile_append_dropWhile]
        · exact List.all_eq_true.mp List.all_takeWhile

/-- The header made of a keyword and the text after it. -/
def headerAfter (keyword : String) (rest : List Char) : Header :=
  match Text.splitAtChar? Text.isBlank (Text.trimChars rest) with
  | some (token, statement) => ⟨keyword, token, Text.trimChars statement⟩
  | none => ⟨keyword, Text.trimChars rest, []⟩

/-- How a header is written: its keyword, blanks, its token, and at the next blank its statement. -/
structure Header.Written (h : Header) (cs gap rest : List Char) : Prop where
  eq : cs = h.keyword.toList ++ (gap ++ (h.token ++ rest))
  gap_blank : ∀ c ∈ gap, Text.isBlank c = true
  gap_ne_nil : h.token ≠ [] → gap ≠ []
  token_solid : ∀ c ∈ h.token, Text.isBlank c = false
  rest_blank : ∀ c ∈ rest.head?, Text.isBlank c = true
  statement : h.statement <:+: rest

/-- The token of a written header is found behind the blanks after its keyword; if there are none,
nothing follows the keyword at all. -/
theorem headerAfter_written {keyword : String} {rest : List Char}
    (h : afterKeyword? keyword cs = some rest) :
    ∃ gap more, (headerAfter keyword rest).Written cs gap more := by
  obtain ⟨gap, rfl, hgap, hne⟩ := exists_of_afterKeyword? h
  obtain ⟨pre, post, hpad, hpre, hpost, -, -⟩ := Text.exists_pad rest
  have hblank : ∀ c ∈ gap ++ pre, Text.isBlank c = true :=
    List.forall_mem_append.mpr ⟨hgap, hpre⟩
  have hnonempty {token more : List Char} (hrest : rest = pre ++ (token ++ more)) :
      token ≠ [] → gap ++ pre ≠ [] := by
    intro htoken
    have hrest : rest ≠ [] := by
      rw [hrest]
      simp [htoken]
    exact List.append_ne_nil_of_left_ne_nil (hne hrest) pre
  rw [headerAfter]
  cases hsplit : Text.splitAtChar? Text.isBlank (Text.trimChars rest) with
  | none =>
    have hsolid := splitAtChar?_eq_none hsplit
    refine ⟨gap ++ pre, post, ?_, hblank, hnonempty hpad, hsolid, fun c hc => ?_,
      List.nil_infix⟩
    · show keyword.toList ++ (gap ++ rest) =
        keyword.toList ++ (gap ++ pre ++ (Text.trimChars rest ++ post))
      rw [List.append_assoc gap, ← hpad]
    · exact hpost c (List.mem_of_head? hc)
  | some found =>
    obtain ⟨token, statement⟩ := found
    obtain ⟨c, htrim, hc, hsolid⟩ := splitAtChar?_spec hsplit
    have hrest : rest = pre ++ (token ++ (c :: statement ++ post)) := by
      rw [hpad, htrim, List.append_assoc]
    refine ⟨gap ++ pre, c :: statement ++ post, ?_, hblank, hnonempty hrest, hsolid, fun d hd => ?_,
      ?_⟩
    · rw [hrest, List.append_assoc]
    · obtain rfl := Option.some.inj hd
      exact hc
    · obtain ⟨pre', post', hpad', -⟩ := Text.exists_pad statement
      refine ⟨c :: pre', post' ++ post, ?_⟩
      show c :: pre' ++ Text.trimChars statement ++ (post' ++ post) = c :: statement ++ post
      rw [List.append_assoc, List.cons_append, List.cons_append, ← List.append_assoc _ post',
        ← List.append_assoc, ← hpad']

/-- A header begins with one of two keywords and has its token behind it. -/
theorem exists_of_readHeader? {h : Header} (hread : readHeader? cs = some h) :
    h.keyword ∈ ["flowchart", "graph"] ∧ ∃ gap rest, h.Written cs gap rest := by
  have hone (keyword : String) (hkeyword : keyword ∈ ["flowchart", "graph"])
      (hmap : (afterKeyword? keyword cs).map (headerAfter keyword) = some h) :
      h.keyword ∈ ["flowchart", "graph"] ∧ ∃ gap rest, h.Written cs gap rest := by
    obtain ⟨rest, hrest, rfl⟩ := Option.map_eq_some_iff.mp hmap
    refine ⟨?_, headerAfter_written hrest⟩
    rw [headerAfter]
    split <;> exact hkeyword
  rw [readHeader?] at hread
  dsimp only at hread
  split at hread
  next found hfound =>
    obtain rfl := Option.some.inj hread
    exact hone "flowchart" (by decide) hfound
  next => exact hone "graph" (by decide) hread

/-- What follows a header does not move the place of its token. -/
theorem tokenColumn_append {h : Header} (hread : readHeader? cs = some h)
    (rest : List Char) (lines lines' : List (List Char)) :
    tokenColumn ((cs ++ rest) :: lines) 1 h.keyword h.token =
      tokenColumn (cs :: lines') 1 h.keyword h.token := by
  obtain ⟨-, gap, more, hwritten⟩ := exists_of_readHeader? hread
  have htoken : h.token <:+: gap ++ (h.token ++ more) := ⟨gap, more, List.append_assoc _ _ _⟩
  have hcs := hwritten.eq
  generalize gap ++ (h.token ++ more) = tail at htoken hcs
  subst hcs
  obtain ⟨before, after, hfound⟩ := splitAtWord?_append_of_infix htoken
  have hfound' := hfound []
  rw [List.append_nil, List.append_nil] at hfound'
  simp only [tokenColumn, Nat.sub_self, List.getElem?_cons_zero, List.append_assoc,
    splitAtWord?_of_prefix, hfound, hfound', List.length_append]
  omega

end Columns

/-! ## The same said on one line and on many -/

/-- Statements with semicolons between them. -/
def onOneLine (statements : List (List Char)) : String :=
  String.ofList (List.intercalate [';'] statements)

/-- Statements with line breaks between them. -/
def onOwnLines (statements : List (List Char)) : String :=
  String.ofList (List.intercalate ['\n'] statements)

/-- What a document says, wherever its statements stand. -/
def Document.said (doc : Document) : Diagram Float32 × Option Json × List Rejection :=
  (doc.diagram, doc.settings, doc.warnings.map Diagnostic.reason)

/-- What is skipped in a run of statements, and why, does not depend on their lines. -/
theorem Builder.reasons_notes (b : Builder) {l l' : List (Nat × Statement)}
    (h : l.map Prod.snd = l'.map Prod.snd) :
    (b.notes l).map Diagnostic.reason = (b.notes l').map Diagnostic.reason := by
  have hone (l : List (Nat × Statement)) : (b.notes l).map Diagnostic.reason =
      (b.notes ((l.map Prod.snd).map (Prod.mk 1))).map Diagnostic.reason := by
    have hmoved := b.notes_renumber (fun _ => 1) l
    rw [List.map_map]
    simp only [Function.comp_def]
    rw [hmoved, List.map_map]
    rfl
  rw [hone, h, ← hone]

section Moved

variable {lines lines' : List (List Char)} {first : List Char} {rest rest' : List (Nat × List Char)}

theorem startDiagram_moved {h : Header} (hcolumn : tokenColumn lines 1 h.keyword h.token =
    tokenColumn lines' 1 h.keyword h.token) : startDiagram lines 1 h = startDiagram lines' 1 h := by
  rw [startDiagram, startDiagram, hcolumn]

/-- Texts with the same statements say the same if their headers begin the first line. -/
theorem parseLines_moved {read : SettingsReader} (h : numberedStatements lines = (1, first) :: rest)
    (h' : numberedStatements lines' = (1, first) :: rest')
    (hrest : rest.map Prod.snd = rest'.map Prod.snd)
    (hsettings : lastSettings? read lines = lastSettings? read lines')
    (hcolumn : ∀ header, readHeader? first = some header →
      tokenColumn lines 1 header.keyword header.token =
        tokenColumn lines' 1 header.keyword header.token) :
    (parseLines read lines).map Document.said = (parseLines read lines').map Document.said := by
  rw [parseLines, parseLines, h, h', hsettings]
  dsimp only
  cases hread : readHeader? first with
  | none => rfl
  | some header =>
    dsimp only
    rw [startDiagram_moved (hcolumn header hread)]
    cases startDiagram lines' 1 header with
    | error e => rfl
    | ok b =>
      have hmap (l : List (Nat × List Char)) :
          (l.map fun s => (s.1, readStatement s.2)).map Prod.snd =
            (l.map Prod.snd).map readStatement := by
        rw [List.map_map, List.map_map]
        rfl
      have hstatements : (rest.map fun s => (s.1, readStatement s.2)).map Prod.snd =
          (rest'.map fun s => (s.1, readStatement s.2)).map Prod.snd := by
        rw [hmap, hmap, hrest]
      refine congrArg Except.ok (Prod.ext ?_ (Prod.ext rfl ?_))
      · rw [runStatements_eq, runStatements_eq]
        exact Builder.finish_congr (Builder.quiet_runAll rfl hstatements)
      · dsimp only [Document.said]
        rw [runStatements_eq, runStatements_eq, Builder.warnings_runAll, Builder.warnings_runAll,
          List.map_append, List.map_append, Builder.reasons_notes b hstatements]

end Moved

section Joined

variable {header : List Char} {statements : List (List Char)}

/-- Statements that are joined with semicolons stand on one line, because none of them holds a line
break. -/
theorem linesOf_onOneLine (hheader : Standalone header) (h : ∀ s ∈ statements, Standalone s) :
    linesOf (onOneLine (header :: statements)) =
      [List.intercalate [';'] (header :: statements)] := by
  have hline := hheader.carries_intercalate h
  have hlast : ∀ l ∈ [] ++ [List.intercalate [';'] (header :: statements)],
      '\n' ∉ l ∧ l.getLast? ≠ some '\r' := by
    rw [List.nil_append, List.forall_mem_singleton]
    exact ⟨hline.unbroken, fun hreturn => by cases hline.last '\r' hreturn⟩
  have htext := linesOf_intercalate hlast hline.nonempty
  rwa [List.nil_append, List.intercalate_singleton] at htext

theorem linesOf_onOwnLines (h : ∀ s ∈ header :: statements, Standalone s) :
    linesOf (onOwnLines (header :: statements)) = header :: statements := by
  obtain ⟨lines, last, hlines⟩ : ∃ lines last, header :: statements = lines ++ [last] :=
    ⟨_, _, (List.dropLast_append_getLast (List.cons_ne_nil header statements)).symm⟩
  rw [hlines] at h ⊢
  refine linesOf_intercalate (fun l hl => ⟨(h l hl).unbroken, fun hlast => ?_⟩)
    (h last (by simp)).carries.nonempty
  cases (h l hl).carries.last '\r' hlast

/-- Statements on their own lines are numbered by these. -/
theorem numberedStatements_own (h : ∀ s ∈ statements, Standalone s) :
    numberedStatements statements = statements.zipIdx.map fun s => (s.2 + 1, s.1) := by
  have hone : ∀ s ∈ statements.zipIdx,
      ((lineStatements s.1).map fun t => (s.2 + 1, t)) = [(s.2 + 1, s.1)] := by
    intro s hs
    have halone := h s.1 (List.fst_mem_of_mem_zipIdx hs)
    rw [Standalone.lineStatements_eq halone.carries (List.forall_mem_singleton.mpr halone)]
    rfl
  rw [numberedStatements_eq, List.flatMap_congr hone, ← List.map_eq_flatMap]

/-- **Semicolons and line breaks** say the same between statements that close what they open: the
diagram, the settings and the reasons for skipping statements are equal, and if there is no diagram
the errors are. The settings may be in any notation. -/
theorem parseDocument_joined (read : SettingsReader) (hheader : Standalone header)
    (h : ∀ s ∈ statements, Standalone s) :
    (parseDocument (onOneLine (header :: statements)) read).map Document.said =
      (parseDocument (onOwnLines (header :: statements)) read).map Document.said := by
  have hall : ∀ s ∈ header :: statements, Standalone s := List.forall_mem_cons.mpr ⟨hheader, h⟩
  have hline := hheader.carries_intercalate h
  have hone : numberedStatements [List.intercalate [';'] (header :: statements)] =
      (1, header) :: statements.map (Prod.mk 1) := by
    rw [numberedStatements_eq, List.zipIdx_singleton, List.flatMap_singleton,
      Standalone.lineStatements_eq hline hall]
    rfl
  have hown := numberedStatements_own hall
  rw [List.zipIdx_cons, List.map_cons] at hown
  have hsettings : lastSettings? read (header :: statements) = none := by
    rw [lastSettings?_eq,
      List.filterMap_eq_nil_iff.mpr fun s hs => (hall s hs).carries.settings_eq read]
    rfl
  show (parseLines read (linesOf _)).map _ = (parseLines read (linesOf _)).map _
  rw [linesOf_onOneLine hheader h, linesOf_onOwnLines hall]
  refine parseLines_moved hone hown ?_ ?_ fun found hread => ?_
  · simp [Function.comp_def]
  · rw [hsettings, lastSettings?_eq, List.filterMap_cons, hline.settings_eq read]
    rfl
  · cases statements with
    | nil => rw [List.intercalate_singleton]
    | cons s statements =>
      rw [List.intercalate_cons_cons, List.append_assoc]
      exact tokenColumn_append hread _ _ _

end Joined

/-- Statements with separators and percent signs in brackets, quotes and bars, and with three that
are skipped. -/
def guardedStatements : List (List Char) :=
  ["a[x; y] -->|p; q| b".toList, "c\x7b\"r %% s; t\"\x7d".toList, "end".toList, "subgraph u".toList,
    "a ->".toList, "b --> d".toList, "end".toList, "d e".toList]

theorem parseDocument_joined_guarded :
    (parseDocument (onOneLine ("graph LR".toList :: guardedStatements))).map Document.said =
        (parseDocument (onOwnLines ("graph LR".toList :: guardedStatements))).map Document.said ∧
      (parseDocument (onOneLine ("graph LR".toList :: guardedStatements))).toOption.map
        (fun doc => (doc.diagram.nodes.map Node.id, doc.warnings.map Diagnostic.line)) =
          some (["a", "b", "c", "d"], [1, 1, 1]) ∧
      (parseDocument (onOwnLines ("graph LR".toList :: guardedStatements))).toOption.map
        (fun doc => (doc.diagram.nodes.map Node.id, doc.warnings.map Diagnostic.line)) =
          some (["a", "b", "c", "d"], [4, 6, 9]) :=
  ⟨parseDocument_joined readSettings? (by decide +kernel) (by decide +kernel), by decide +kernel,
    by decide +kernel⟩

end Flowchart
