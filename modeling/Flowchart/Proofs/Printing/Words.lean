import Flowchart.Grammar.Reference

/-!
# Words and trimming

A word of letters, numbers and underscores holds no blank and none of the signs that the grammar
gives a meaning to. So it survives trimming, ends at every sign and is read as an identifier.
-/

namespace Flowchart

namespace Text

/-! ## Characters of identifiers -/

/-- The signs with a meaning in statements. -/
def signs : List Char :=
  ['[', '(', '{', ']', ')', '}', '"', '|', '&', ':', ',', '<', '>', '-', '=', '.', '/', '\\', ' ']

/-- The code points of blanks. -/
def blankCodes : List Nat :=
  List.range' 9 5 ++ (List.range' 0x2000 11 ++
    [0x20, 0x85, 0xA0, 0x1680, 0x2028, 0x2029, 0x202F, 0x205F, 0x3000])

variable {c d : Char} {p : Char → Bool} {cs pre post : List Char}

theorem ne_of_isIdentifierChar (hc : isIdentifierChar c = true) (hd : d ∈ signs) : c ≠ d := by
  have hsigns : signs.all (fun d => !isIdentifierChar d) = true := by decide +kernel
  rintro rfl
  have hnot := List.all_eq_true.mp hsigns c hd
  rw [hc] at hnot
  cases hnot

theorem mem_blankCodes (h : isBlank c = true) : c.toNat ∈ blankCodes := by
  simp only [isBlank, Bool.or_eq_true, Bool.and_eq_true, decide_eq_true_eq, beq_iff_eq] at h
  simp only [blankCodes, List.mem_append, List.mem_range'_1, List.mem_cons, List.not_mem_nil,
    or_false]
  omega

theorem isBlank_of_isIdentifierChar (hc : isIdentifierChar c = true) : isBlank c = false := by
  have hblank : ∀ n ∈ blankCodes, isIdentifierChar (Char.ofNat n) = false := by decide +kernel
  rw [← Bool.not_eq_true]
  intro h
  have hnot := hblank _ (mem_blankCodes h)
  rw [Char.ofNat_toNat] at hnot
  rw [hnot] at hc
  cases hc

/-! ## Trimming -/

theorem dropFront_pad (hpre : ∀ c ∈ pre, p c = true) (hcs : ∀ c ∈ cs.head?, p c = false) :
    dropFront p (pre ++ cs) = cs := by
  rw [dropFront, List.dropWhile_append_of_pos hpre]
  cases cs with
  | nil => rfl
  | cons c cs => rw [List.dropWhile_cons_of_neg (by simp [hcs c rfl])]

theorem dropBack_pad (hpost : ∀ c ∈ post, p c = true) (hcs : ∀ c ∈ cs.getLast?, p c = false) :
    dropBack p (cs ++ post) = cs := by
  rw [dropBack, List.reverse_append]
  have hfront : dropFront p (post.reverse ++ cs.reverse) = cs.reverse :=
    dropFront_pad (fun c hc => hpost c (List.mem_reverse.mp hc)) (by rwa [List.head?_reverse])
  rw [dropFront] at hfront
  rw [hfront, List.reverse_reverse]

/-- Trimming drops the blanks around a text that neither begins nor ends with one. -/
theorem trimChars_pad (hpre : ∀ c ∈ pre, isBlank c = true) (hpost : ∀ c ∈ post, isBlank c = true)
    (hne : cs ≠ []) (hfirst : ∀ c ∈ cs.head?, isBlank c = false)
    (hlast : ∀ c ∈ cs.getLast?, isBlank c = false) : trimChars (pre ++ (cs ++ post)) = cs := by
  have hhead : (cs ++ post).head? = cs.head? := by
    cases cs with
    | nil => exact absurd rfl hne
    | cons c cs => rfl
  rw [trimChars, dropFront_pad hpre (hhead ▸ hfirst), dropBack_pad hpost hlast]

theorem trimChars_eq_self (hne : cs ≠ []) (hfirst : ∀ c ∈ cs.head?, isBlank c = false)
    (hlast : ∀ c ∈ cs.getLast?, isBlank c = false) : trimChars cs = cs := by
  have hpad : trimChars ([] ++ (cs ++ [])) = cs :=
    trimChars_pad (by simp) (by simp) hne hfirst hlast
  rwa [List.append_nil, List.nil_append] at hpad

theorem head?_dropFront (p : Char → Bool) (cs : List Char) :
    ∀ c ∈ (dropFront p cs).head?, p c = false := by
  intro c hc
  have hnot := List.head?_dropWhile_not p cs
  rw [dropFront] at hc
  rw [hc] at hnot
  exact hnot

/-- What ends in a character outside the class is not reached from the back. -/
theorem dropBack_append (hpre : ∀ c ∈ pre.getLast?, p c = false) (cs : List Char) :
    dropBack p (pre ++ cs) = pre ++ dropBack p cs := by
  rw [dropBack, dropBack, List.reverse_append, List.dropWhile_append]
  split
  next h =>
    have hkept := dropBack_pad (p := p) (fun c (hc : c ∈ []) => by cases hc) hpre
    rw [List.append_nil, dropBack] at hkept
    rw [hkept, List.isEmpty_iff.mp h, List.reverse_nil, List.append_nil]
  next => rw [List.reverse_append, List.reverse_reverse]

/-- A text is what trimming leaves of it between blanks. -/
theorem exists_pad (cs : List Char) : ∃ pre post, cs = pre ++ (trimChars cs ++ post) ∧
    (∀ c ∈ pre, isBlank c = true) ∧ (∀ c ∈ post, isBlank c = true) ∧
    (∀ c ∈ (trimChars cs).head?, isBlank c = false) ∧
    ∀ c ∈ (trimChars cs).getLast?, isBlank c = false := by
  have hfront : cs.takeWhile isBlank ++ dropFront isBlank cs = cs := List.takeWhile_append_dropWhile
  have hback : trimChars cs ++ ((dropFront isBlank cs).reverse.takeWhile isBlank).reverse =
      dropFront isBlank cs := by
    rw [trimChars, dropBack, ← List.reverse_append, List.takeWhile_append_dropWhile,
      List.reverse_reverse]
  have hblank : ∀ cs : List Char, ∀ c ∈ cs.takeWhile isBlank, isBlank c = true := fun cs =>
    List.all_eq_true.mp List.all_takeWhile
  refine ⟨cs.takeWhile isBlank, _, by rw [hback, hfront], hblank cs,
    fun c hc => hblank _ c (List.mem_reverse.mp hc), fun c hc => ?_, fun c hc => ?_⟩
  · refine head?_dropFront isBlank cs c ?_
    rw [← hback, List.head?_append, hc]
    rfl
  · refine head?_dropFront isBlank (dropFront isBlank cs).reverse c ?_
    rw [trimChars, dropBack, List.getLast?_reverse] at hc
    exact hc

/-- Trimming leaves nothing of a text that has blanks only. -/
theorem trimChars_blanks (hcs : ∀ c ∈ cs, isBlank c = true) : trimChars cs = [] := by
  obtain ⟨pre, post, hpad, -, -, hfirst, -⟩ := exists_pad cs
  cases ht : trimChars cs with
  | nil => rfl
  | cons c t =>
    have hc : c ∈ cs := by
      rw [hpad, ht]
      simp
    rw [ht] at hfirst
    have hnot := hfirst c rfl
    rw [hcs c hc] at hnot
    cases hnot

end Text

end Flowchart
