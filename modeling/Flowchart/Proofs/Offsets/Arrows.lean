import Flowchart.Proofs.Offsets.References
import Flowchart.Proofs.Printing.Arrows

/-!
# Finding arrows by offsets

Arrows are looked for in the mask of a statement. An arrow holds no space, so a search that is given
the mask sees the same arrows as one that is given the marked characters, where a hidden character
is one space and not several. An arrow that ends in a letter may end one byte earlier than it was
found; the search still goes on behind it, and no arrow begins in the letter.

So the arrows of the mask are those at which the marked statement is cut. The offsets at which they
begin and end are those of the parts of the marked statement.
-/

namespace Flowchart

open String (utf8Len)

open Marked (chars shownChars maskText size)

/-- A part of a statement with what it means; it begins at one offset and ends at another. -/
structure Spanned (α : Type) where
  what : α
  start : Nat
  stop : Nat

/-- The offsets at which arrows begin and end in a mask that begins at an offset. An arrow reaches
as far as it can, and the next one is looked for behind it. -/
def arrowRanges : (start : Nat) → List Char → List (Nat × Nat)
  | _, [] => []
  | start, c :: cs =>
    let n := arrowLength (c :: cs)
    if n = 0 then arrowRanges (start + c.utf8Size) cs
    else
      let stop := start + utf8Len ((c :: cs).take n)
      (start, stop) :: arrowRanges stop ((c :: cs).drop n)
  termination_by _ cs => cs.length
  decreasing_by
    · exact Nat.lt_add_one _
    · rw [List.length_drop, List.length_cons]
      omega

/-- The arrow has a letter for a head. -/
def endsInLetter (token : List Char) : Bool :=
  token.getLast? == some 'o' || token.getLast? == some 'x'

/-- The end of an arrow that gives a letter back if an identifier character follows. -/
def settledStop (mask token : List Char) (stop : Nat) : Option Nat :=
  if endsInLetter token then do
    let after ← slice? mask stop (utf8Len mask)
    return if after.head?.any Text.isIdentifierChar then stop - 1 else stop
  else some stop

/-- Cuts an arrow out of a mask and classifies it. -/
def arrowAt (mask : List Char) (range : Nat × Nat) : Option (Spanned ArrowToken) := do
  let token ← slice? mask range.1 range.2
  let stop ← settledStop mask token range.2
  return ⟨classifyArrow (← slice? mask range.1 stop), range.1, stop⟩

/-- The arrows of a mask. -/
def arrowsByOffset (mask : List Char) : Option (List (Spanned ArrowToken)) :=
  (arrowRanges 0 mask).mapM (arrowAt mask)

/-- Parts of a marked text that follow one another, each with the text after it, lie at offsets. -/
inductive Laid {α : Type} (ms : List Marked) :
    Nat → List (α × List Marked) → List (Spanned α) → Prop
  /-- nothing lies at the end -/
  | nil : Laid ms (size ms) [] []
  /-- a part, the text after it and what follows -/
  | cons {start stop next : Nat} {what : α} {text : List Marked} {parts : List (α × List Marked)}
      {spans : List (Spanned α)} : Marked.Covers ms stop next text → Laid ms next parts spans →
      Laid ms start ((what, text) :: parts) (⟨what, start, stop⟩ :: spans)

/-! ## Reading up to a space -/

section

variable {c : Char} {xs ys cs : List Char}

/-- A run of a character ends before a space, so what stands behind the space does not count. -/
theorem runLength_space (hc : c ≠ ' ') (xs ys : List Char) :
    runLength c (xs ++ ' ' :: ys) = runLength c xs := by
  induction xs with
  | nil =>
    have hne : (' ' == c) = false := beq_false_of_ne hc.symm
    rw [List.nil_append, runLength, List.takeWhile_cons, hne]
    rfl
  | cons x xs ih =>
    simp only [runLength] at ih ⊢
    rw [List.cons_append, List.takeWhile_cons, List.takeWhile_cons]
    split
    next => exact congrArg (· + 1) ih
    next => rfl

theorem runLength_le (c : Char) (cs : List Char) : runLength c cs ≤ cs.length :=
  (List.takeWhile_sublist _).length_le

/-- What is left behind the run is cut at the same place. -/
theorem drop_runLength_space (c : Char) (xs ys : List Char) :
    (xs ++ ' ' :: ys).drop (runLength c xs) = xs.drop (runLength c xs) ++ ' ' :: ys :=
  List.drop_append_of_le_length (runLength_le c xs)

/-- Whether a text begins with an arrow head is settled before its first space. -/
theorem startsWithHead_space (xs ys : List Char) :
    startsWithHead (xs ++ ' ' :: ys) = startsWithHead xs := by
  cases xs <;> rfl

/-- The length of a plain arrow is read from the text before the first space. -/
theorem plainArrowLength_space (n : Nat) (xs ys : List Char) :
    plainArrowLength n (xs ++ ' ' :: ys) = plainArrowLength n xs := by
  rw [plainArrowLength, plainArrowLength, startsWithHead_space]

theorem head?_space {d : Char} (hd : d ≠ ' ') (xs ys : List Char) :
    ((xs ++ ' ' :: ys).head? == some d) = (xs.head? == some d) := by
  cases xs with
  | nil => exact beq_false_of_ne fun h => hd (Option.some.inj h).symm
  | cons => rfl

/-- The length of a dotted arrow is read from the text before the first space. -/
theorem dottedArrowLength_space (xs ys : List Char) :
    dottedArrowLength (xs ++ ' ' :: ys) = dottedArrowLength xs := by
  rw [dottedArrowLength, dottedArrowLength, runLength_space (by decide), drop_runLength_space]
  cases xs.drop (runLength '.' xs) with
  | nil => rfl
  | cons d after =>
    rw [List.cons_append]
    split
    next h =>
      obtain ⟨rfl, rfl⟩ := List.cons.inj h
      rw [startsWithHead_space]
      rfl
    next h =>
      split
      next h' => exact absurd (congrArg (· ++ ' ' :: ys) h') (h _)
      next => rfl

/-- The same for an arrow that closes a text between its dots. -/
theorem dotClosingLength_space (xs ys : List Char) :
    dotClosingLength (xs ++ ' ' :: ys) = dotClosingLength xs := by
  rw [dotClosingLength, dotClosingLength, runLength_space (by decide), drop_runLength_space,
    startsWithHead_space]

/-- The same for an arrow drawn with a double line. -/
theorem doubleArrowLength_space (xs ys : List Char) :
    doubleArrowLength (xs ++ ' ' :: ys) = doubleArrowLength xs := by
  rw [doubleArrowLength, doubleArrowLength, runLength_space (by decide), runLength_space (by decide),
    drop_runLength_space, drop_runLength_space, head?_space (by decide), head?_space (by decide)]
  by_cases hone : (runLength '-' xs == 1) = true
  · obtain ⟨x, xs, rfl⟩ : ∃ x xs', xs = x :: xs' := List.exists_cons_of_ne_nil fun h => by
      subst h; cases hone
    have hdrop : ∀ cs : List Char, (x :: cs).drop (1 + runLength '.' xs) =
        cs.drop (runLength '.' xs) := fun cs => by
      rw [Nat.add_comm, List.drop_succ_cons]
    have hdots : runLength '.' (((x :: xs) ++ ' ' :: ys).drop 1) = runLength '.' xs :=
      runLength_space (by decide) xs ys
    rw [hdots]
    dsimp only
    rw [List.cons_append, hdrop, drop_runLength_space, isPrefixOf_space (by decide), List.drop_one,
      List.tail_cons, hdrop]
  · rw [if_neg hone, if_neg hone]

/-- A dash that no dot follows begins a run. -/
theorem arrowLength_dash (h : cs.head? ≠ some '.') : arrowLength ('-' :: cs) =
    plainArrowLength (runLength '-' cs + 1) (cs.drop (runLength '-' cs)) := by
  rw [arrowLength]
  rintro cs rfl
  exact h rfl

/-- **Arrows hold no space**: how long an arrow is that begins in a text depends on the text before
the first space only. So a hidden character may be written as several spaces without changing what
is found. -/
theorem arrowLength_space (xs ys : List Char) :
    arrowLength (xs ++ ' ' :: ys) = arrowLength xs := by
  cases xs with
  | nil => rfl
  | cons x xs =>
    by_cases hx : x ∈ ['<', '-', '=', '.']
    · simp only [List.mem_cons, List.not_mem_nil, or_false] at hx
      rcases hx with rfl | rfl | rfl | rfl
      · exact doubleArrowLength_space xs ys
      · by_cases hdot : xs.head? = some '.'
        · obtain ⟨xs, rfl⟩ := List.head?_eq_some_iff.mp hdot
          exact dottedArrowLength_space ('.' :: xs) ys
        · have hdot' : (xs ++ ' ' :: ys).head? ≠ some '.' := fun h =>
            hdot (beq_iff_eq.mp ((head?_space (by decide) xs ys).symm.trans (beq_iff_eq.mpr h)))
          rw [List.cons_append, arrowLength_dash hdot, arrowLength_dash hdot',
            runLength_space (by decide), drop_runLength_space, plainArrowLength_space]
      · rw [List.cons_append, arrowLength, arrowLength, runLength_space (by decide),
          drop_runLength_space, plainArrowLength_space]
      · exact dotClosingLength_space xs ys
    · rw [List.cons_append, arrowLength_of_not_mem hx, arrowLength_of_not_mem hx]

theorem lt_length_of_startsWithHead {n : Nat} (h : startsWithHead (cs.drop n) = true) :
    n < cs.length := by
  refine Nat.lt_of_not_le fun hle => ?_
  rw [List.drop_eq_nil_of_le hle] at h
  cases h

theorem length_le_of_isPrefixOf {word : List Char} {n : Nat}
    (h : word.isPrefixOf (cs.drop n) = true) : word.length ≤ cs.length - n := by
  have hle := (List.isPrefixOf_iff_prefix.mp h).length_le
  rwa [List.length_drop] at hle

/-- An arrow drawn with a double line ends within the text. -/
theorem doubleArrowLength_le (cs : List Char) : doubleArrowLength cs ≤ cs.length + 1 := by
  have hhead : ∀ n, ((cs.drop n).head? == some '>') = true → n < cs.length := by
    intro n h
    rw [List.head?_drop, beq_iff_eq] at h
    exact (List.getElem?_eq_some_iff.mp h).1
  rw [doubleArrowLength]
  dsimp only
  split
  next h =>
    have := hhead _ (Bool.and_eq_true_iff.mp h).2
    omega
  next =>
    split
    next h =>
      have := hhead _ (Bool.and_eq_true_iff.mp h).2
      omega
    next =>
      split
      next =>
        split
        next h =>
          have hle := length_le_of_isPrefixOf (Bool.and_eq_true_iff.mp h).2
          have hword : ['-', '>'].length = 2 := rfl
          omega
        next => exact Nat.zero_le _
      next => exact Nat.zero_le _

/-- A plain arrow ends within the text, the character before it being counted in. -/
theorem plainArrowLength_le (c : Char) (cs : List Char) :
    plainArrowLength (runLength c cs + 1) (cs.drop (runLength c cs)) ≤ cs.length + 1 := by
  have hrun := runLength_le c cs
  rw [plainArrowLength]
  split
  next => exact Nat.zero_le _
  next =>
    split
    next h =>
      have := lt_length_of_startsWithHead h
      omega
    next => omega

/-- A dotted arrow ends within the text, however many dots and dashes follow. -/
theorem dottedArrowLength_le (cs : List Char) : dottedArrowLength ('.' :: cs) ≤ cs.length + 2 := by
  rw [dottedArrowLength]
  split
  next after hdrop =>
    have hlen := congrArg List.length hdrop
    rw [List.length_drop, List.length_cons, List.length_cons] at hlen
    split
    next h =>
      have hafter : 0 < after.length := lt_length_of_startsWithHead (n := 0) h
      omega
    next => omega
  next => omega

theorem dotClosingLength_le (cs : List Char) : dotClosingLength cs ≤ cs.length + 1 := by
  have hrun := runLength_le '-' cs
  rw [dotClosingLength]
  split
  next => exact Nat.zero_le _
  next =>
    split
    next h =>
      have := lt_length_of_startsWithHead h
      omega
    next => omega

/-- An arrow does not reach beyond the text. -/
theorem arrowLength_le (cs : List Char) : arrowLength cs ≤ cs.length := by
  unfold arrowLength
  split
  next cs => exact doubleArrowLength_le cs
  next cs => exact dottedArrowLength_le cs
  next cs _ => exact plainArrowLength_le '-' cs
  next cs => exact plainArrowLength_le '=' cs
  next cs => exact dotClosingLength_le cs
  next => exact Nat.zero_le _

end

/-! ## Arrows of a mask -/

section

variable {ms pre drawn rest : List Marked}

/-- In the mask of some marks the same arrow begins as in what they show, for they differ in the
number of spaces only. -/
theorem arrowLength_maskText (ms : List Marked) :
    arrowLength (maskText ms) = arrowLength (shownChars ms) :=
  Marked.apply_maskText arrowLength_space ms

/-- An arrow at the front of a text is drawn with visible characters: none of them is a blank, which
is what hidden characters show as. -/
theorem exists_drawn (ms : List Marked) : ∃ drawn rest, ms = drawn ++ rest ∧
    arrowLength (shownChars ms) = drawn.length ∧ ' ' ∉ shownChars drawn := by
  have hle := arrowLength_le ((shownChars ms).takeWhile (· != ' '))
  rw [Marked.apply_takeWhile arrowLength_space] at hle
  generalize arrowLength (shownChars ms) = n at hle
  have hseen : (shownChars ms).takeWhile (· != ' ') <+: shownChars ms :=
    List.takeWhile_prefix (· != ' ')
  have hlength : n ≤ ms.length := by
    have := hseen.length_le
    rw [shownChars, List.length_map] at this
    exact hle.trans this
  refine ⟨ms.take n, ms.drop n, (List.take_append_drop n ms).symm,
    (List.length_take_of_le hlength).symm, fun hmem => ?_⟩
  have htake : shownChars (ms.take n) = ((shownChars ms).takeWhile (· != ' ')).take n := by
    obtain ⟨tail, htail⟩ := hseen
    rw [shownChars, List.map_take, ← List.take_append_of_le_length hle, htail]
    rfl
  rw [htake] at hmem
  have := List.all_eq_true.mp (List.all_takeWhile (p := (· != ' '))) ' ' (List.mem_of_mem_take hmem)
  cases this

/-- No arrow begins in a space, so spaces before a text only move the ranges of its arrows. -/
theorem arrowRanges_spaces (start n : Nat) (cs : List Char) :
    arrowRanges start (List.replicate n ' ' ++ cs) = arrowRanges (start + n) cs := by
  induction n generalizing start with
  | zero => rfl
  | succ n ih =>
    have hspace : (' ' : Char).utf8Size = 1 := rfl
    have hnone : arrowLength (' ' :: (List.replicate n ' ' ++ cs)) = 0 := rfl
    rw [List.replicate_succ, List.cons_append, arrowRanges, if_pos hnone, hspace, ih, Nat.add_assoc,
      Nat.add_comm 1]

/-- Where no arrow begins, arrows are looked for after the first character. -/
theorem arrowRanges_cons {m : Marked} (h : arrowLength (shownChars (m :: ms)) = 0) (start : Nat) :
    arrowRanges start (maskText (m :: ms)) = arrowRanges (start + m.char.utf8Size) (maskText ms) := by
  obtain ⟨c, visible⟩ := m
  cases visible with
  | true =>
    rw [← arrowLength_maskText, Marked.maskText_visible] at h
    rw [Marked.maskText_visible, arrowRanges, if_pos h]
  | false =>
    obtain ⟨n, hn, hmask⟩ := Marked.maskText_hidden c ms
    rw [hmask, arrowRanges_spaces, hn]

/-- Where an arrow begins, the next one is looked for behind it. -/
theorem arrowRanges_drawn (hne : drawn ≠ [])
    (hlength : arrowLength (shownChars (drawn ++ rest)) = drawn.length)
    (hdrawn : ' ' ∉ shownChars drawn) (start : Nat) :
    arrowRanges start (maskText (drawn ++ rest)) =
      (start, start + size drawn) :: arrowRanges (start + size drawn) (maskText rest) := by
  have hmask : maskText drawn = shownChars drawn := (Marked.eq_shownChars hdrawn).2
  have hlen : (maskText drawn).length = drawn.length := by
    rw [hmask, shownChars, List.length_map]
  rw [← arrowLength_maskText, Marked.maskText_append, ← hlen] at hlength
  rw [Marked.maskText_append, ← Marked.utf8Len_maskText]
  cases hcons : maskText drawn with
  | nil =>
    rw [hcons] at hlen
    exact absurd (List.eq_nil_of_length_eq_zero hlen.symm) hne
  | cons c cs =>
    rw [hcons] at hlength
    rw [List.cons_append, arrowRanges, ← List.cons_append, hlength, List.take_left, List.drop_left]
    exact if_neg (Nat.succ_ne_zero _)

/-- An arrow that ends in a letter gives this letter back if the text goes on as an id, and
otherwise it is kept whole. -/
theorem settledLength_append {xs ys : List Char} (h : arrowLength (xs ++ ys) = xs.length) :
    settledLength (xs ++ ys) =
      if endsInLetter xs && ys.head?.any Text.isIdentifierChar then xs.length - 1
      else xs.length := by
  rw [settledLength, h, List.take_left, List.drop_left, endsInLetter]
  cases xs.getLast? <;> cases ys.head? <;> rfl

theorem runsOn_space (xs ys : List Char) : (xs ++ ' ' :: ys).head?.any Text.isIdentifierChar =
    xs.head?.any Text.isIdentifierChar := by
  cases xs with
  | nil =>
    have hspace : Text.isIdentifierChar ' ' = false := by decide +kernel
    rw [List.nil_append, List.head?_cons, Option.any_some, hspace]
    rfl
  | cons => rfl

/-- The place where an arrow ends after that, in bytes of the mask: a letter takes one byte. -/
theorem settledStop_append (pre token drawn rest) :
    settledStop (maskText (pre ++ (drawn ++ rest))) token (size (pre ++ drawn)) =
      some (if endsInLetter token && (shownChars rest).head?.any Text.isIdentifierChar
        then size (pre ++ drawn) - 1 else size (pre ++ drawn)) := by
  have hafter : slice? (maskText (pre ++ (drawn ++ rest))) (size (pre ++ drawn))
      (utf8Len (maskText (pre ++ (drawn ++ rest)))) = some (maskText rest) := by
    rw [← List.append_assoc, Marked.maskText_append, ← Marked.utf8Len_maskText]
    exact slice?_back _ _
  have hruns : (maskText rest).head?.any Text.isIdentifierChar =
      (shownChars rest).head?.any Text.isIdentifierChar :=
    Marked.apply_maskText (f := (·.head?.any Text.isIdentifierChar)) runsOn_space rest
  rw [settledStop, hafter, ← hruns]
  cases endsInLetter token <;> rfl

/-- The head of an arrow that ends in a letter. -/
theorem exists_of_endsInLetter (h : endsInLetter (shownChars drawn) = true) :
    ∃ settled m, drawn = settled ++ [m] ∧ (m.shown = 'o' ∨ m.shown = 'x') := by
  have hne : drawn ≠ [] := by
    rintro rfl
    cases h
  refine ⟨_, _, (List.dropLast_concat_getLast hne).symm, ?_⟩
  rw [← List.dropLast_concat_getLast hne, endsInLetter, shownChars, List.map_append,
    List.map_singleton, List.getLast?_concat, Bool.or_eq_true, beq_iff_eq, beq_iff_eq,
    Option.some_inj, Option.some_inj] at h
  exact h

/-- No arrow begins in a letter, and a letter is one byte long. -/
theorem letter_spec {m : Marked} (h : m.shown = 'o' ∨ m.shown = 'x') :
    m.quiet = true ∧ size [m] = 1 := by
  have hseen : ' ' ∉ shownChars [m] := fun hmem => by
    have hspace : ' ' = m.shown := List.mem_singleton.mp hmem
    rcases h with h | h <;> rw [← hspace] at h <;> cases h
  have hone : utf8Len [m.shown] = 1 := by rcases h with h | h <;> rw [h] <;> rfl
  constructor
  · rcases h with h | h <;> rw [Marked.quiet, h] <;> decide
  · rw [size, (Marked.eq_shownChars hseen).1]
    exact hone

/-- An arrow gives back nothing, or a letter in which no arrow begins. -/
theorem exists_settled (pre : List Marked) (hne : drawn ≠ [])
    (hlength : arrowLength (shownChars (drawn ++ rest)) = drawn.length)
    (hdrawn : ' ' ∉ shownChars drawn) : ∃ settled glued, drawn = settled ++ glued ∧
    settled ≠ [] ∧ (∀ m ∈ glued, m.quiet = true) ∧
    settledLength (shownChars (drawn ++ rest)) = settled.length ∧
    settledStop (maskText (pre ++ (drawn ++ rest))) (maskText drawn) (size (pre ++ drawn)) =
      some (size (pre ++ settled)) := by
  have hcount : (shownChars drawn).length = drawn.length := List.length_map _
  have hshown : shownChars (drawn ++ rest) = shownChars drawn ++ shownChars rest := List.map_append
  have hlength' : arrowLength (shownChars drawn ++ shownChars rest) = (shownChars drawn).length := by
    rw [← hshown, hlength, hcount]
  rw [hshown, settledLength_append hlength', settledStop_append, (Marked.eq_shownChars hdrawn).2,
    hcount]
  cases hgives : endsInLetter (shownChars drawn) &&
      (shownChars rest).head?.any Text.isIdentifierChar with
  | false => exact ⟨drawn, [], (List.append_nil drawn).symm, hne, List.forall_mem_nil _, rfl, rfl⟩
  | true =>
    obtain ⟨settled, m, rfl, hletter⟩ :=
      exists_of_endsInLetter (Bool.and_eq_true_iff.mp hgives).1
    obtain ⟨hquiet, hsize⟩ := letter_spec hletter
    refine ⟨settled, [m], rfl, ?_, List.forall_mem_singleton.mpr hquiet, ?_, ?_⟩
    · rintro rfl
      have hzero : arrowLength (shownChars (m :: rest)) = 0 := arrowLength_of_quiet hquiet
      exact absurd (hlength.symm.trans hzero) (Nat.succ_ne_zero _)
    · rw [if_pos rfl, List.length_append]
      rfl
    · rw [if_pos rfl, ← List.append_assoc, Marked.size_append _ [m], hsize]
      rfl

/-- An arrow is read from the mask if none of the slices that are taken of it fails. -/
theorem arrowAt_eq {mask token kept : List Char} {start stop settled : Nat}
    (htoken : slice? mask start stop = some token)
    (hstop : settledStop mask token stop = some settled)
    (hkept : slice? mask start settled = some kept) :
    arrowAt mask (start, stop) = some ⟨classifyArrow kept, start, settled⟩ := by
  simp only [arrowAt, htoken, hstop, hkept, Option.bind_eq_bind, Option.bind_some]
  rfl

/-- The arrows of the rest of a statement are found at their offsets, and the text between them lies
between the offsets. -/
def ArrowsLaid (pre ms : List Marked) : Prop :=
  ∃ tail spans, ms = (splitArrows ms).first ++ tail ∧
    (arrowRanges (size pre) (maskText ms)).mapM (arrowAt (maskText (pre ++ ms))) = some spans ∧
    Laid (pre ++ ms) (size pre + size (splitArrows ms).first) (splitArrows ms).rest spans

theorem ArrowsLaid.nil (pre : List Marked) : ArrowsLaid pre [] := by
  refine ⟨[], [], rfl, ?_, ?_⟩
  · have hmask : maskText [] = [] := rfl
    rw [hmask, arrowRanges]
    rfl
  · rw [List.append_nil]
    exact .nil

/-- A character at which no arrow begins is passed, and the arrows of the rest are those of the
whole text. -/
theorem ArrowsLaid.skip {m : Marked} (hnone : arrowLength (shownChars (m :: ms)) = 0)
    (h : ArrowsLaid (pre ++ [m]) ms) : ArrowsLaid pre (m :: ms) := by
  obtain ⟨tail, spans, hms, hspans, hlaid⟩ := h
  rw [List.append_assoc, Marked.size_append, Marked.size_singleton, ← arrowRanges_cons hnone,
    List.singleton_append] at hspans
  rw [List.append_assoc, Marked.size_append, Nat.add_assoc, ← Marked.size_append,
    List.singleton_append, List.singleton_append] at hlaid
  rw [ArrowsLaid, splitArrows_cons (settledLength_of_arrowLength hnone)]
  exact ⟨tail, spans, congrArg (m :: ·) hms, hspans, hlaid⟩

/-- An arrow. The letter that it gives back belongs to the text after it. -/
theorem ArrowsLaid.arrow (hne : drawn ≠ [])
    (hlength : arrowLength (shownChars (drawn ++ rest)) = drawn.length)
    (hdrawn : ' ' ∉ shownChars drawn) (h : ArrowsLaid (pre ++ drawn) rest) :
    ArrowsLaid pre (drawn ++ rest) := by
  obtain ⟨tail, spans, hrest, hspans, hlaid⟩ := h
  obtain ⟨settled, glued, hsettled, hsettledNe, hquiet, hsettledLength, hstop⟩ :=
    exists_settled pre hne hlength hdrawn
  have hshown : maskText settled = shownChars settled := by
    refine (Marked.eq_shownChars fun hmem => hdrawn ?_).2
    rw [hsettled, shownChars, List.map_append]
    exact List.mem_append_left _ hmem
  have hsplit : splitArrows (drawn ++ rest) = ⟨[], (classifyArrow (shownChars settled),
      glued ++ (splitArrows rest).first) :: (splitArrows rest).rest⟩ := by
    rw [hsettled, List.append_assoc] at hsettledLength ⊢
    rw [splitArrows_arrow hsettledNe hsettledLength, splitArrows_append hquiet]
  have htoken : Marked.Covers (pre ++ (drawn ++ rest)) (size pre) (size (pre ++ drawn)) drawn :=
    ⟨pre, rest, rfl, rfl, Marked.size_append pre drawn⟩
  have hkept : Marked.Covers (pre ++ (drawn ++ rest)) (size pre) (size (pre ++ settled)) settled :=
    ⟨pre, glued ++ rest, by rw [hsettled, List.append_assoc], rfl, Marked.size_append pre settled⟩
  have htext : Marked.Covers (pre ++ (drawn ++ rest)) (size (pre ++ settled))
      (size (pre ++ drawn) + size (splitArrows rest).first)
      (glued ++ (splitArrows rest).first) := by
    refine ⟨pre ++ settled, tail, ?_, rfl, ?_⟩
    · conv_lhs => rw [hrest, hsettled]
      simp only [List.append_assoc]
    · rw [hsettled]
      simp only [Marked.size_append, Nat.add_assoc]
  rw [List.append_assoc] at hspans hlaid
  rw [ArrowsLaid, arrowRanges_drawn hne hlength hdrawn, ← Marked.size_append, hsplit]
  refine ⟨drawn ++ rest, _ :: spans, rfl, ?_, .cons htext hlaid⟩
  rw [List.mapM_cons, arrowAt_eq htoken.slice?_maskText hstop hkept.slice?_maskText, hspans, hshown]
  rfl

/-- The arrows of a text are laid out in its mask one behind the other, by strong induction on what
is left of the text: a character at which no arrow begins is skipped, and behind an arrow the search
goes on. -/
theorem arrowsLaid (pre ms : List Marked) : ArrowsLaid pre ms := by
  induction hlen : ms.length using Nat.strongRecOn generalizing pre ms with
  | ind len ih =>
    cases ms with
    | nil => exact .nil pre
    | cons m ms =>
      by_cases hnone : arrowLength (shownChars (m :: ms)) = 0
      · exact .skip hnone (ih ms.length (by rw [← hlen]; exact Nat.lt_add_one _) _ ms rfl)
      · obtain ⟨drawn, rest, hms, hlength, hdrawn⟩ := exists_drawn (m :: ms)
        have hne : drawn ≠ [] := fun h => hnone (by rw [hlength, h]; rfl)
        have hshorter : rest.length < len := by
          rw [← hlen, hms, List.length_append]
          exact Nat.lt_add_of_pos_left (List.length_pos_of_ne_nil hne)
        rw [hms] at hlength ⊢
        exact .arrow hne hlength hdrawn (ih rest.length hshorter _ rest rfl)

/-- The arrows of a statement are found in its mask without a failing slice. -/
theorem arrowsByOffset_spec (ms : List Marked) : ∃ tail spans, ms = (splitArrows ms).first ++ tail ∧
    arrowsByOffset (maskText ms) = some spans ∧
    Laid ms (size (splitArrows ms).first) (splitArrows ms).rest spans := by
  have h := arrowsLaid [] ms
  have hzero : size [] = 0 := rfl
  rwa [ArrowsLaid, List.nil_append, hzero, Nat.zero_add] at h

end

end Flowchart
