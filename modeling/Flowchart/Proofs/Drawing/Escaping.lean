import Flowchart.Drawing.Markup
import Mathlib.Data.List.Basic

/-!
# Text in markup

Escaped text holds none of the characters by which markup is read: no tag begins or ends in it, and
no attribute value ends in it. Reading the five entities back restores the text. Text without
reserved characters is written as it is.

Each character is written on its own. Replacing one reserved character after another in the whole
text comes to the same, as long as the ampersand is the first one, `escapeMarkup_eq_replacements`:
every other replacement brings in ampersands that must not be replaced again.
-/

namespace Flowchart

/-- The text with its entities read. -/
def unescapeChars : List Char → List Char
  | '&' :: 'a' :: 'm' :: 'p' :: ';' :: rest => '&' :: unescapeChars rest
  | '&' :: 'l' :: 't' :: ';' :: rest => '<' :: unescapeChars rest
  | '&' :: 'g' :: 't' :: ';' :: rest => '>' :: unescapeChars rest
  | '&' :: 'q' :: 'u' :: 'o' :: 't' :: ';' :: rest => '"' :: unescapeChars rest
  | '&' :: 'a' :: 'p' :: 'o' :: 's' :: ';' :: rest => '\'' :: unescapeChars rest
  | c :: rest => c :: unescapeChars rest
  | [] => []

/-- The text that a piece of markup was written from. -/
def unescapeMarkup (s : String) : String := String.ofList (unescapeChars s.toList)

/-- The characters that are written as entities. -/
def reservedChars : List Char := ['&', '<', '>', '"', '\'']

/-- The character is written as an entity. -/
def isReserved (c : Char) : Bool := reservedChars.contains c

theorem not_reserved_iff {c : Char} : isReserved c = false ↔
    c ≠ '&' ∧ c ≠ '<' ∧ c ≠ '>' ∧ c ≠ '"' ∧ c ≠ '\'' := by
  simp [isReserved, reservedChars]

theorem entityOf_of_not_reserved {c : Char} (h : isReserved c = false) : entityOf c = [c] := by
  rw [not_reserved_iff] at h
  unfold entityOf
  split <;> simp_all

theorem unescapeChars_cons {c : Char} (h : c ≠ '&') (rest : List Char) :
    unescapeChars (c :: rest) = c :: unescapeChars rest := by
  rw [unescapeChars] <;> exact fun _ he => absurd he h

/-- Reading takes one written character at a time. -/
theorem unescapeChars_entityOf (c : Char) (rest : List Char) :
    unescapeChars (entityOf c ++ rest) = c :: unescapeChars rest := by
  unfold entityOf
  split
  · rfl
  · rfl
  · rfl
  · rfl
  · rfl
  · exact unescapeChars_cons (by assumption) rest

theorem unescapeChars_escape_append (cs rest : List Char) :
    unescapeChars (cs.flatMap entityOf ++ rest) = cs ++ unescapeChars rest := by
  induction cs with
  | nil => rfl
  | cons c cs ih =>
    rw [List.flatMap_cons, List.append_assoc, unescapeChars_entityOf, ih, List.cons_append]

/-- Only the empty text is read back as the empty text: whatever stands in front, a plain character
or an entity, is read as a character. -/
theorem unescapeChars_eq_nil {cs : List Char} (h : unescapeChars cs = []) : cs = [] := by
  unfold unescapeChars at h
  split at h
  case h_7 => rfl
  all_goals cases h

/-- **Escaping is undone exactly.** A reader of entities gets every text back as it was, whatever
characters it has. -/
theorem unescapeMarkup_escapeMarkup (s : String) : unescapeMarkup (escapeMarkup s) = s := by
  have h := unescapeChars_escape_append s.toList []
  rw [List.append_nil, unescapeChars, List.append_nil] at h
  rw [unescapeMarkup, escapeMarkup, String.toList_ofList, h, String.ofList_toList]

/-- The only reserved character of an entity is its ampersand. -/
theorem eq_ampersand_of_mem_entityOf {c d : Char} (h : d ∈ entityOf c) (hd : isReserved d = true) :
    d = '&' := by
  have hentities : (reservedChars.all fun c =>
      (entityOf c).all fun d => !isReserved d || d == '&') = true := by decide
  cases hc : isReserved c with
  | false =>
    rw [entityOf_of_not_reserved hc, List.mem_singleton] at h
    rw [h, hc] at hd
    cases hd
  | true =>
    have hentity := List.all_eq_true.mp hentities c (List.contains_iff_mem.mp hc)
    have hchar := List.all_eq_true.mp hentity d h
    rw [hd] at hchar
    exact eq_of_beq hchar

/-- **Escaped text holds no reserved character but ampersands.** -/
theorem eq_ampersand_of_mem_escapeMarkup {s : String} {c : Char}
    (h : c ∈ (escapeMarkup s).toList) (hc : isReserved c = true) : c = '&' := by
  rw [escapeMarkup, String.toList_ofList] at h
  obtain ⟨d, -, hd⟩ := List.mem_flatMap.mp h
  exact eq_ampersand_of_mem_entityOf hd hc

/-- A reserved character other than the ampersand stands in no escaped text. -/
theorem not_mem_escapeMarkup {c : Char} (hc : isReserved c = true) (hamp : c ≠ '&') (s : String) :
    c ∉ (escapeMarkup s).toList :=
  fun h => hamp (eq_ampersand_of_mem_escapeMarkup h hc)

/-- Text without reserved characters. -/
def IsPlain (s : String) : Prop := ∀ c ∈ s.toList, isReserved c = false

instance (s : String) : Decidable (IsPlain s) :=
  List.decidableBAll (fun c => isReserved c = false) s.toList

/-- Plain text, without any of the five reserved characters, is written as it is. -/
theorem IsPlain.escapeMarkup_eq {s : String} (h : IsPlain s) : escapeMarkup s = s := by
  have hchars : s.toList.flatMap entityOf = s.toList.flatMap ([·]) :=
    List.flatMap_congr fun c hc => entityOf_of_not_reserved (h c hc)
  rw [escapeMarkup, hchars, List.flatMap_singleton', String.ofList_toList]

/-! ## One character after another -/

/-- The text with every occurrence of a character replaced. -/
def replaceChar (c : Char) (text cs : List Char) : List Char :=
  cs.flatMap fun d => if d = c then text else [d]

/-- **Escaping is replacing the reserved characters one after another**, the ampersand first. -/
theorem escapeMarkup_eq_replacements (s : String) : (escapeMarkup s).toList =
    replaceChar '\'' "&apos;".toList (replaceChar '"' "&quot;".toList (replaceChar '>' "&gt;".toList
      (replaceChar '<' "&lt;".toList (replaceChar '&' "&amp;".toList s.toList)))) := by
  rw [escapeMarkup, String.toList_ofList]
  simp only [replaceChar, List.flatMap_assoc]
  refine List.flatMap_congr fun c _ => ?_
  have hentities : (reservedChars.all fun c => entityOf c ==
      ((if c = '&' then "&amp;".toList else [c]).flatMap fun d =>
        (if d = '<' then "&lt;".toList else [d]).flatMap fun d =>
          (if d = '>' then "&gt;".toList else [d]).flatMap fun d =>
            (if d = '"' then "&quot;".toList else [d]).flatMap fun d =>
              if d = '\'' then "&apos;".toList else [d])) = true := by
    decide
  cases hc : isReserved c with
  | true => exact eq_of_beq (List.all_eq_true.mp hentities c (List.contains_iff_mem.mp hc))
  | false =>
    rw [entityOf_of_not_reserved hc]
    obtain ⟨hamp, hlt, hgt, hquot, hapos⟩ := not_reserved_iff.mp hc
    simp only [if_neg hamp, if_neg hlt, if_neg hgt, if_neg hquot, if_neg hapos,
      List.flatMap_singleton]

end Flowchart
