import Flowchart.Proofs.Printing.Masking

/-!
# Cutting at printed arrows

A printed arrow is followed by a blank or a bar, so it is recognised in its whole length and with
its meaning, and so is the opening of a text. No other visible character of a chain can begin an
arrow. So a chain is cut at its arrows and openings and nowhere else.
-/

namespace Flowchart

/-! ## The length of an arrow -/

section

variable {c d : Char} {cs rest : List Char} {n : Nat}

theorem takeWhile_run (h : rest.head? ≠ some c) :
    (List.replicate n c ++ rest).takeWhile (· == c) = List.replicate n c := by
  rw [List.takeWhile_append_of_pos fun x hx => beq_iff_eq.mpr (List.eq_of_mem_replicate hx)]
  cases rest with
  | nil => simp
  | cons x rest =>
    have hx : x ≠ c := fun hx => h (congrArg some hx)
    simp [hx]

theorem runLength_run (h : rest.head? ≠ some c) :
    runLength c (List.replicate n c ++ rest) = n := by
  rw [runLength, takeWhile_run h, List.length_replicate]

theorem runLength_of_head (h : rest.head? ≠ some c) : runLength c rest = 0 :=
  runLength_run (n := 0) h

theorem drop_run : (List.replicate n c ++ rest).drop n = rest :=
  List.drop_left' List.length_replicate

/-- A run of dashes or equals signs reaches as far as the run, and one further before a head. -/
theorem arrowLength_run (hc : c ∈ ['-', '=']) (h : rest.head? ≠ some c) :
    arrowLength (List.replicate (n + 2) c ++ rest) =
      if startsWithHead rest then n + 3 else n + 2 := by
  have hplain : arrowLength (List.replicate (n + 2) c ++ rest) =
      plainArrowLength (runLength c (List.replicate (n + 1) c ++ rest) + 1)
        ((List.replicate (n + 1) c ++ rest).drop
          (runLength c (List.replicate (n + 1) c ++ rest))) := by
    rcases List.mem_cons.mp hc with rfl | hc
    · rfl
    · obtain rfl := List.mem_singleton.mp hc
      rfl
  rw [hplain, runLength_run h, drop_run, plainArrowLength, if_neg (by omega)]

/-- Dots between dashes reach to the second dash, and one further before a head. -/
theorem arrowLength_dotted : arrowLength ('-' :: (List.replicate (n + 1) '.' ++ '-' :: rest)) =
    if startsWithHead rest then n + 4 else n + 3 := by
  have hdotted : arrowLength ('-' :: (List.replicate (n + 1) '.' ++ '-' :: rest)) =
      dottedArrowLength (List.replicate (n + 1) '.' ++ '-' :: rest) := rfl
  rw [hdotted, dottedArrowLength, runLength_run (by simp), drop_run]
  rfl

/-- An arrow with heads at both ends of its line is as long as the line and the two heads. -/
theorem arrowLength_double (line : LineStyle) (extra : Nat) :
    arrowLength ('<' :: (PrintedArrow.stroke line .bidirectional extra ++ '>' :: rest)) =
      (PrintedArrow.stroke line .bidirectional extra).length + 2 := by
  have hdouble : ∀ cs, arrowLength ('<' :: cs) = doubleArrowLength cs := fun _ => rfl
  rw [hdouble, doubleArrowLength]
  cases line with
  | solid =>
    have hstroke : PrintedArrow.stroke .solid .bidirectional extra =
      List.replicate (extra + 2) '-' := rfl
    rw [hstroke, runLength_run (by simp), drop_run]
    simp
  | thick =>
    have hstroke : PrintedArrow.stroke .thick .bidirectional extra =
      List.replicate (extra + 2) '=' := rfl
    have hnone : (List.replicate (extra + 2) '=' ++ '>' :: rest).head? ≠ some '-' := by
      simp [List.replicate_succ]
    rw [hstroke, runLength_of_head hnone, runLength_run (by simp), drop_run]
    simp
  | dotted =>
    have hstroke : PrintedArrow.stroke .dotted .bidirectional extra ++ '>' :: rest =
        List.replicate 1 '-' ++ (List.replicate (extra + 1) '.' ++ '-' :: '>' :: rest) := by
      simp [PrintedArrow.stroke]
    have hdash : (List.replicate (extra + 1) '.' ++ '-' :: '>' :: rest).head? ≠ some '-' := by
      simp [List.replicate_succ]
    have hnone : (List.replicate 1 '-' ++ (List.replicate (extra + 1) '.' ++ '-' :: '>' ::
      rest)).head? ≠ some '=' := by simp
    rw [hstroke, runLength_run hdash, runLength_of_head hnone, drop_run, runLength_run (by simp)]
    simp [PrintedArrow.stroke, Nat.add_comm 1]

end

namespace PrintedArrow

/-- The head of an arrow is seen after its line. -/
theorem startsWithHead_head {kind : LinkKind} {d : Char} (hd : d ∈ [' ', '|']) (rest : List Char) :
    startsWithHead (head kind ++ d :: rest) = decide (kind ≠ .plain) := by
  have hnone : isHead d = false := by
    simp only [List.mem_cons, List.not_mem_nil, or_false] at hd
    rcases hd with rfl | rfl <;> rfl
  cases kind <;> first | rfl | simp [head, startsWithHead, hnone]

/-- An arrow is recognised in its whole length. -/
theorem arrowLength_print (a : PrintedArrow) {d : Char} (hd : d ∈ [' ', '|']) (rest : List Char) :
    arrowLength (a.print ++ d :: rest) = a.print.length := by
  obtain ⟨line, kind, extra⟩ := a
  have hnext : ∀ c ∈ ['-', '='], (head kind ++ d :: rest).head? ≠ some c := by
    simp only [List.mem_cons, List.not_mem_nil, or_false] at hd
    rintro c hc
    simp only [List.mem_cons, List.not_mem_nil, or_false] at hc
    rcases hd with rfl | rfl <;> rcases hc with rfl | rfl <;> cases kind <;> simp [head]
  by_cases hboth : kind = .bidirectional
  · subst hboth
    have hprint : print ⟨line, .bidirectional, extra⟩ ++ d :: rest =
        '<' :: (stroke line .bidirectional extra ++ '>' :: d :: rest) := by
      simp [print, tail, head]
    rw [hprint, arrowLength_double]
    simp [print, tail, head]
  · have hprint : print ⟨line, kind, extra⟩ = stroke line kind extra ++ head kind := by
      cases kind <;> first | rfl | exact absurd rfl hboth
    have hlength : (head kind).length = if decide (kind ≠ .plain) then 1 else 0 := by
      cases kind <;> rfl
    obtain ⟨m, hm⟩ : ∃ m, (if kind = .plain then extra + 3 else extra + 2) = m + 2 := by
      split
      · exact ⟨extra + 1, rfl⟩
      · exact ⟨extra, rfl⟩
    rw [hprint, List.append_assoc, List.length_append, hlength]
    cases line with
    | solid =>
      rw [stroke, hm, arrowLength_run (by decide) (hnext '-' (by decide)), startsWithHead_head hd,
        List.length_replicate]
      split <;> rfl
    | thick =>
      rw [stroke, hm, arrowLength_run (by decide) (hnext '=' (by decide)), startsWithHead_head hd,
        List.length_replicate]
      split <;> rfl
    | dotted =>
      have hstroke : stroke .dotted kind extra ++ (head kind ++ d :: rest) =
          '-' :: (List.replicate (extra + 1) '.' ++ '-' :: (head kind ++ d :: rest)) := by
        simp [stroke]
      rw [hstroke, arrowLength_dotted, startsWithHead_head hd]
      simp only [stroke, List.length_cons, List.length_append, List.length_replicate]
      split <;> rfl

/-- Nothing that follows an arrow makes it give its head back. -/
theorem settledLength_print (a : PrintedArrow) {d : Char} (hd : d ∈ [' ', '|']) (rest : List Char) :
    settledLength (a.print ++ d :: rest) = a.print.length := by
  have hstop : Text.isIdentifierChar d = false := by
    simp only [List.mem_cons, List.not_mem_nil, or_false] at hd
    rcases hd with rfl | rfl <;> decide +kernel
  rw [settledLength, a.arrowLength_print hd, List.drop_left, List.head?_cons]
  simp [hstop]

/-- The last character of an arrow is its head, or ends its line. -/
theorem getLast?_print (a : PrintedArrow) : ∃ c ∈ ['-', '='],
    a.print.getLast? = some ((head a.kind).getLastD c) := by
  obtain ⟨body, c, hstroke, hc⟩ := stroke_eq_concat a.line a.kind a.extra
  refine ⟨c, hc, ?_⟩
  rw [print, hstroke]
  cases a.kind <;> simp [head]

/-- An arrow has the meaning that it was printed for. -/
theorem classifyArrow_print (a : PrintedArrow) :
    classifyArrow a.print = .link a.kind a.line := by
  obtain ⟨c, hc, hlast⟩ := a.getLast?_print
  obtain ⟨line, kind, extra⟩ := a
  have hlink : (print ⟨line, kind, extra⟩ == ['-', '-'] || print ⟨line, kind, extra⟩ == ['=', '='] ||
      print ⟨line, kind, extra⟩ == ['-', '.']) = false := by
    cases line <;> cases kind <;> simp [print, stroke, tail, head, List.replicate_succ]
  have hline : (if (print ⟨line, kind, extra⟩).contains '=' then LineStyle.thick
      else if (print ⟨line, kind, extra⟩).contains '.' then .dotted else .solid) = line := by
    cases line <;> cases kind <;> simp [print, stroke, tail, head, List.replicate_succ]
  have hboth : ((print ⟨line, kind, extra⟩).head? == some '<') = decide (kind = .bidirectional) := by
    cases line <;> cases kind <;> simp [print, stroke, tail, head, List.replicate_succ]
  rw [classifyArrow, hlink, hline, hboth, hlast]
  simp only [List.mem_cons, List.not_mem_nil, or_false] at hc
  rcases hc with rfl | rfl <;> cases kind <;> rfl

end PrintedArrow

/-- An opening before a blank is recognised as the two characters that it is, for it is not as long
as an arrow. -/
theorem settledLength_opener (line : LineStyle) (rest : List Char) :
    settledLength (line.opener ++ ' ' :: rest) = 2 := by
  cases line <;> rfl

theorem classifyArrow_opener (line : LineStyle) : classifyArrow line.opener = .labelOpen := by
  cases line <;> rfl

/-! ## Cutting -/

/-- The character begins no arrow. -/
def Marked.quiet (m : Marked) : Bool := !(['<', '-', '=', '.'].contains m.shown)

section

variable {ms ms' : List Marked} {m : Marked}

theorem arrowLength_of_not_mem {c : Char} (h : c ∉ ['<', '-', '=', '.']) (cs : List Char) :
    arrowLength (c :: cs) = 0 := by
  unfold arrowLength
  split
  case h_6 => rfl
  all_goals
    rename_i heq
    exact absurd (by rw [(List.cons.inj heq).1]; decide) h

theorem arrowLength_of_quiet (h : m.quiet = true) :
    arrowLength (Marked.shownChars (m :: ms)) = 0 := by
  have hnot : m.shown ∉ ['<', '-', '=', '.'] := fun hmem => by
    rw [Marked.quiet, List.contains_iff_mem.mpr hmem] at h
    cases h
  exact arrowLength_of_not_mem hnot _

theorem settledLength_of_arrowLength {cs : List Char} (h : arrowLength cs = 0) :
    settledLength cs = 0 := by
  rw [settledLength, h]
  rfl

theorem settledLength_of_quiet (h : m.quiet = true) :
    settledLength (Marked.shownChars (m :: ms)) = 0 :=
  settledLength_of_arrowLength (arrowLength_of_quiet h)

/-- The fuel suffices: every step takes a character. -/
theorem splitArrowsWith_of_le {fuel : Nat} (h : ms.length ≤ fuel) :
    splitArrowsWith fuel ms = splitArrows ms := by
  rw [splitArrows]
  induction hlen : ms.length using Nat.strongRecOn generalizing ms fuel with
  | ind len ih =>
    cases ms with
    | nil => cases fuel <;> subst hlen <;> rfl
    | cons m ms =>
      obtain ⟨fuel, rfl⟩ : ∃ k, fuel = k + 1 := ⟨fuel - 1, by rw [List.length_cons] at h; omega⟩
      obtain rfl : len = ms.length + 1 := hlen.symm
      rw [List.length_cons] at h
      rw [splitArrowsWith, splitArrowsWith]
      split
      · rw [ih ms.length (by omega) (by omega) rfl]
      · next hn =>
        have hdrop : ((m :: ms).drop (settledLength (Marked.shownChars (m :: ms)))).length ≤
            ms.length := by
          rw [List.length_drop, List.length_cons]
          have : settledLength (Marked.shownChars (m :: ms)) ≠ 0 := fun h => hn (by rw [h]; rfl)
          omega
        rw [ih _ (by omega) (by omega) rfl, ih _ (by omega) hdrop rfl]

/-- A character at which no arrow begins belongs to the text before the next arrow. -/
theorem splitArrows_cons (h : settledLength (Marked.shownChars (m :: ms)) = 0) :
    splitArrows (m :: ms) = ⟨m :: (splitArrows ms).first, (splitArrows ms).rest⟩ := by
  rw [splitArrows, List.length_cons, splitArrowsWith, h, splitArrowsWith_of_le (Nat.le_refl _)]
  rfl

theorem splitArrows_append (h : ∀ m ∈ ms, m.quiet = true) : splitArrows (ms ++ ms') =
    ⟨ms ++ (splitArrows ms').first, (splitArrows ms').rest⟩ := by
  induction ms with
  | nil => rfl
  | cons m ms ih =>
    rw [List.cons_append, splitArrows_cons (settledLength_of_quiet (h m List.mem_cons_self)),
      ih fun x hx => h x (List.mem_cons_of_mem m hx)]
    rfl

/-- At an arrow the text is cut: the arrow is classified by the characters it shows, and the rest is
cut on its own. -/
theorem splitArrows_arrow (hne : ms ≠ [])
    (h : settledLength (Marked.shownChars (ms ++ ms')) = ms.length) :
    splitArrows (ms ++ ms') = ⟨[], (classifyArrow (Marked.shownChars ms),
      (splitArrows ms').first) :: (splitArrows ms').rest⟩ := by
  obtain ⟨m, ms, rfl⟩ := List.exists_cons_of_ne_nil hne
  have hpos : ¬ ((m :: ms).length == 0) = true := by simp
  have hfuel : splitArrowsWith (ms ++ ms').length ms' = splitArrows ms' :=
    splitArrowsWith_of_le (by simp)
  rw [splitArrows, List.cons_append, List.length_cons, splitArrowsWith, ← List.cons_append, h,
    if_neg hpos, List.take_left, List.drop_left, hfuel]

end

end Flowchart
