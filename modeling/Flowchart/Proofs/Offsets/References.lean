import Flowchart.Proofs.Offsets.Alignment

/-!
# Reading references by offsets

A reader that works on encoded text looks for a place in it, or in its mask, and cuts the text at
the offsets of that place. Here such a reader is written down for labels, shapes, classes and
references, with every cut as a slice that may fail. No slice fails, and what is read is what the
reader of marked characters reads.

Whether two delimiters enclose a text is decided by the number of bytes here and by the number of
characters there. The two agree: where the delimiters would overlap, neither is large enough.
-/

namespace Flowchart

open String (utf8Len)

open Marked (chars shownChars maskText size)

/-- A reading that stops at a slice that fails, and otherwise succeeds or rejects what it reads. -/
abbrev Slicing := ExceptT Rejection Option

namespace Slicing

variable {α β γ : Type}

/-- A reading in which no slice fails. -/
def safe (x : Except Rejection α) : Slicing α := ExceptT.mk (some x)

/-- Two readings in which no slice fails, one after the other. -/
theorem safe_bind₂ (x : Except Rejection α) (y : Except Rejection β) (f : α → β → γ) :
    (do let a ← safe x; let b ← safe y; return f a b) =
      safe (do let a ← x; let b ← y; return f a b) := by
  cases x <;> cases y <;> rfl

/-- A slice that does not fail is passed on. -/
theorem some_bind (a : α) (f : α → Slicing β) : (liftM (some a) >>= f) = f a := rfl

end Slicing

/-! ## Finding offsets -/

/-- The offsets of the characters of a class in a text that begins at an offset. -/
def charOffsets (p : Char → Bool) : (start : Nat) → List Char → List Nat
  | _, [] => []
  | start, c :: cs =>
    if p c then start :: charOffsets p (start + c.utf8Size) cs
    else charOffsets p (start + c.utf8Size) cs

/-- The offset of the first occurrence of a word in a text that begins at an offset. -/
def wordOffset? (word : List Char) : (start : Nat) → List Char → Option Nat
  | _, [] => none
  | start, c :: cs =>
    if word.isPrefixOf (c :: cs) then some start else wordOffset? word (start + c.utf8Size) cs

section

variable {p : Char → Bool} {start : Nat} {xs ys cs word : List Char} {c : Char}
  {ms : List Marked} {m : Marked}

theorem charOffsets_append (xs ys : List Char) : charOffsets p start (xs ++ ys) =
    charOffsets p start xs ++ charOffsets p (start + utf8Len xs) ys := by
  induction xs generalizing start with
  | nil => rfl
  | cons x xs ih =>
    have hstart : start + x.utf8Size + utf8Len xs = start + utf8Len (x :: xs) := by
      rw [String.utf8Len_cons]
      omega
    rw [List.cons_append, charOffsets, charOffsets, ih, hstart]
    split <;> rfl

theorem charOffsets_eq_nil (h : ∀ c ∈ xs, p c = false) : charOffsets p start xs = [] := by
  induction xs generalizing start with
  | nil => rfl
  | cons x xs ih =>
    rw [charOffsets, if_neg (by rw [h x List.mem_cons_self]; decide)]
    exact ih fun c hc => h c (List.mem_cons_of_mem x hc)

/-- The first of the offsets of some kind of characters is where the first of them stands, behind
what precedes it. -/
theorem head?_charOffsets (h : ∀ c ∈ xs, p c = false) (hc : p c = true) :
    (charOffsets p start (xs ++ c :: ys)).head? = some (start + utf8Len xs) := by
  rw [charOffsets_append, charOffsets_eq_nil h, charOffsets, if_pos hc]
  rfl

/-- The last of the offsets of some kind of characters is where the last of them stands. -/
theorem getLast?_charOffsets (h : ∀ c ∈ ys, p c = false) (hc : p c = true) :
    (charOffsets p start (xs ++ c :: ys)).getLast? = some (start + utf8Len xs) := by
  rw [charOffsets_append, charOffsets, if_pos hc, charOffsets_eq_nil h, List.getLast?_concat]

theorem isPrefixOf_space (hword : ' ' ∉ word) (xs ys : List Char) :
    word.isPrefixOf (xs ++ ' ' :: ys) = word.isPrefixOf xs := by
  induction word generalizing xs with
  | nil => rfl
  | cons w word ih =>
    obtain ⟨hw, hrest⟩ := not_or.mp fun hmem => hword (List.mem_cons.mpr hmem)
    cases xs with
    | nil => exact congrArg (· && _) (beq_false_of_ne fun h => hw h.symm)
    | cons x xs => exact congrArg (w == x && ·) (ih hrest xs)

/-- A word without spaces is at the front of the mask if it is seen there. -/
theorem isPrefixOf_maskText (hword : ' ' ∉ word) (ms : List Marked) :
    word.isPrefixOf (maskText ms) = word.isPrefixOf (shownChars ms) :=
  Marked.apply_maskText (isPrefixOf_space hword) ms

theorem wordOffset?_spaces (hword : ' ' ∉ word) (hne : word ≠ []) (n : Nat) :
    wordOffset? word start (List.replicate n ' ' ++ cs) = wordOffset? word (start + n) cs := by
  induction n generalizing start with
  | zero => rfl
  | succ n ih =>
    obtain ⟨w, word, rfl⟩ := List.exists_cons_of_ne_nil hne
    have hw : (w == ' ') = false :=
      beq_false_of_ne fun h => hword (h ▸ List.mem_cons_self)
    have hspace : (' ' : Char).utf8Size = 1 := rfl
    have hstart : start + 1 + n = start + (n + 1) := by omega
    rw [List.replicate_succ, List.cons_append, wordOffset?, List.isPrefixOf, hw, hspace, ih, hstart]
    rfl

theorem wordOffset?_of_isPrefixOf (hne : word ≠ []) (h : word.isPrefixOf cs = true) :
    wordOffset? word start cs = some start := by
  cases cs with
  | nil => exact absurd (List.prefix_nil.mp (List.isPrefixOf_iff_prefix.mp h)) hne
  | cons c cs => rw [wordOffset?, if_pos h]

/-- A word that is not seen at the front is looked for after the first character. -/
theorem wordOffset?_maskText_cons (hword : ' ' ∉ word) (hne : word ≠ [])
    (h : ¬ word.isPrefixOf (shownChars (m :: ms)) = true) :
    wordOffset? word start (maskText (m :: ms)) =
      wordOffset? word (start + m.char.utf8Size) (maskText ms) := by
  obtain ⟨c, visible⟩ := m
  cases visible with
  | true =>
    rw [← isPrefixOf_maskText hword, Marked.maskText_visible] at h
    rw [Marked.maskText_visible, wordOffset?, if_neg h]
  | false =>
    obtain ⟨n, hn, hmask⟩ := Marked.maskText_hidden c ms
    rw [hmask, hn, wordOffset?_spaces hword hne]

/-! ## Labels and shapes -/

/-- What stands between two delimiters, cut out by their lengths; the outer option is a failing
slice. -/
def betweenByOffset? (opening closing cs : List Char) : Option (Option (List Char)) :=
  if utf8Len opening + utf8Len closing ≤ utf8Len cs && opening.isPrefixOf cs
      && closing.isSuffixOf cs
  then (slice? cs (utf8Len opening) (utf8Len cs - utf8Len closing)).map some
  else some none

/-- Removes quotes. -/
def stripQuotesByOffset (cs : List Char) : Option (List Char) := do
  let trimmed := Text.trimChars cs
  return (← betweenByOffset? ['"'] ['"'] trimmed).getD trimmed

/-- Reads the text of a label. -/
def cleanLabelByOffset (cs : List Char) : Option (Option String) := do
  let bar (c : Char) : Bool := c == '|'
  let inner ← stripQuotesByOffset (Text.dropBack bar (Text.dropFront bar (Text.trimChars cs)))
  return if inner.isEmpty then none else some (String.ofList inner)

/-- Reads a label in the first delimiters of a table that fit. -/
def readShapeByOffset (cs : List Char) :
    List (List Char × List Char × Shape) → Option (Option (String × Shape))
  | [] => some none
  | (opening, closing, shape) :: table => do
    match ← betweenByOffset? opening closing cs with
    | some inner => return some (String.ofList (← stripQuotesByOffset inner), shape)
    | none => readShapeByOffset cs table

/-- A front part and a back part fit beside each other or overlap, by bytes as by characters. -/
theorem utf8Len_add_le_iff {xs ys cs : List Char} (hxs : xs <+: cs) (hys : ys <:+ cs) :
    utf8Len xs + utf8Len ys ≤ utf8Len cs ↔ xs.length + ys.length ≤ cs.length := by
  obtain ⟨rest, rfl⟩ := hxs
  rw [String.utf8Len_append, List.length_append, Nat.add_le_add_iff_left, Nat.add_le_add_iff_left]
  rcases Nat.le_total ys.length rest.length with hle | hle
  · have hsuffix := List.suffix_of_suffix_length_le hys (List.suffix_append xs rest) hle
    exact ⟨fun _ => hle, fun _ => String.utf8Len_le_of_suffix hsuffix⟩
  · -- the back part begins within the front part
    obtain ⟨overlap, rfl⟩ :=
      List.suffix_of_suffix_length_le (List.suffix_append xs rest) hys hle
    rw [String.utf8Len_append, List.length_append]
    cases overlap with
    | nil => simp
    | cons c overlap =>
      have hpos := c.utf8Size_pos
      rw [String.utf8Len_cons, List.length_cons]
      constructor <;> intro h <;> omega

theorem betweenByOffset?_eq (opening closing cs : List Char) :
    betweenByOffset? opening closing cs = some (between? opening closing cs) := by
  by_cases hboth : opening.isPrefixOf cs = true ∧ closing.isSuffixOf cs = true
  · obtain ⟨hopening, hclosing⟩ := hboth
    have hbegins := List.isPrefixOf_iff_prefix.mp hopening
    have hends := List.isSuffixOf_iff_suffix.mp hclosing
    have hagree : decide (utf8Len opening + utf8Len closing ≤ utf8Len cs) =
        decide (opening.length + closing.length ≤ cs.length) :=
      decide_eq_decide.mpr (utf8Len_add_le_iff hbegins hends)
    rw [betweenByOffset?, between?, hopening, hclosing, Bool.and_true, Bool.and_true, Bool.and_true,
      Bool.and_true, hagree]
    by_cases hfits : opening.length + closing.length ≤ cs.length
    · rw [if_pos (decide_eq_true hfits), if_pos (decide_eq_true hfits)]
      obtain ⟨rest, rfl⟩ := hbegins
      rw [List.length_append, Nat.add_le_add_iff_left] at hfits
      obtain ⟨inner, rfl⟩ :=
        List.suffix_of_suffix_length_le hends (List.suffix_append opening rest) hfits
      have hstop : utf8Len (opening ++ (inner ++ closing)) - utf8Len closing =
          utf8Len opening + utf8Len inner := by
        rw [String.utf8Len_append, String.utf8Len_append]
        omega
      have hcount : (opening ++ (inner ++ closing)).length - opening.length - closing.length =
          inner.length := by
        rw [List.length_append, List.length_append]
        omega
      rw [hstop, slice?_append, hcount, List.drop_left, List.take_left]
      rfl
    · rw [if_neg (by rwa [decide_eq_true_eq]), if_neg (by rwa [decide_eq_true_eq])]
  · have hfalse : (opening.isPrefixOf cs && closing.isSuffixOf cs) = false := by
      rw [Bool.eq_false_iff, ne_eq, Bool.and_eq_true]
      exact hboth
    rw [betweenByOffset?, between?, Bool.and_assoc, Bool.and_assoc, hfalse, Bool.and_false,
      Bool.and_false]
    rfl

/-- Quotes are delimiters like those of a shape. -/
theorem stripQuotes_eq (cs : List Char) : stripQuotes cs =
    (between? ['"'] ['"'] (Text.trimChars cs)).getD (Text.trimChars cs) := by
  rw [stripQuotes]
  generalize Text.trimChars cs = trimmed
  have hfront : ∀ cs : List Char, ['"'].isPrefixOf cs = (cs.head? == some '"') := by
    intro cs
    cases cs with
    | nil => rfl
    | cons c cs =>
      rw [List.isPrefixOf, List.isPrefixOf, Bool.and_true, List.head?_cons, Option.some_beq_some,
        Bool.beq_comm]
  have hback : ['"'].isSuffixOf trimmed = (trimmed.getLast? == some '"') := by
    rw [List.isSuffixOf, List.reverse_singleton, hfront, List.head?_reverse]
  have hinner : (trimmed.drop 1).dropLast =
      (trimmed.drop ['"'].length).take (trimmed.length - ['"'].length - ['"'].length) := by
    rw [List.dropLast_eq_take, List.length_drop]
    rfl
  rw [between?, hfront, hback, hinner]
  simp only [List.length_singleton, Nat.reduceAdd]
  split <;> rfl

theorem stripQuotesByOffset_eq (cs : List Char) :
    stripQuotesByOffset cs = some (stripQuotes cs) := by
  rw [stripQuotesByOffset, betweenByOffset?_eq, stripQuotes_eq]
  rfl

theorem cleanLabelByOffset_eq (cs : List Char) :
    cleanLabelByOffset cs = some (cleanLabel? cs) := by
  rw [cleanLabelByOffset, stripQuotesByOffset_eq]
  rfl

theorem readShapeByOffset_eq (cs : List Char) :
    readShapeByOffset cs shapeDelimiters = some (readShape? cs) := by
  rw [readShape?]
  induction shapeDelimiters with
  | nil => rfl
  | cons entry table ih =>
    obtain ⟨opening, closing, shape⟩ := entry
    rw [readShapeByOffset, betweenByOffset?_eq, List.findSome?_cons]
    dsimp only
    cases between? opening closing cs with
    | none => exact ih
    | some inner =>
      rw [Option.bind_eq_bind, Option.bind_some]
      dsimp only
      rw [stripQuotesByOffset_eq]
      rfl

/-! ## Classes -/

/-- Cuts a text at the first visible place of three colons, which is looked for in the mask. -/
def splitClassesByOffset (cs : List Char) : Option (List Char × List String) :=
  match wordOffset? [':', ':', ':'] 0 (maskText (markLabels cs)) with
  | none => some (Text.trimChars cs, [])
  | some place => do
    let after ← slice? cs (place + 3) (utf8Len cs)
    let before ← slice? cs 0 place
    return (Text.trimChars before, classNames after)

theorem wordOffset?_eq_none (start : Nat) (h : splitAtColons? ms = none) :
    wordOffset? [':', ':', ':'] start (maskText ms) = none := by
  induction ms generalizing start with
  | nil => rfl
  | cons m ms ih =>
    rw [splitAtColons?] at h
    split at h
    next => cases h
    next hshown =>
      rw [wordOffset?_maskText_cons (by decide) (by decide) hshown]
      exact ih _ (Option.map_eq_none_iff.mp h)

/-- Three visible colons are found where they stand in the text. -/
theorem wordOffset?_eq_some {before after : List Char} (start : Nat)
    (h : splitAtColons? ms = some (before, after)) :
    chars ms = before ++ ([':', ':', ':'] ++ after) ∧
      wordOffset? [':', ':', ':'] start (maskText ms) = some (start + utf8Len before) := by
  induction ms generalizing start before after with
  | nil => cases h
  | cons m ms ih =>
    rw [splitAtColons?] at h
    split at h
    next hshown =>
      obtain ⟨rfl, rfl⟩ := Prod.mk.inj (Option.some.inj h)
      have htake : shownChars ((m :: ms).take 3) = [':', ':', ':'] := by
        have hword := List.prefix_iff_eq_take.mp (List.isPrefixOf_iff_prefix.mp hshown)
        rw [hword, shownChars, shownChars, List.map_take]
        rfl
      have hseen : chars ((m :: ms).take 3) = [':', ':', ':'] :=
        (Marked.eq_shownChars (htake ▸ by decide)).1.trans htake
      refine ⟨?_, wordOffset?_of_isPrefixOf (by decide) ?_⟩
      · rw [List.nil_append, ← hseen, ← chars_append, List.take_append_drop]
      · rw [isPrefixOf_maskText (by decide), hshown]
    next hshown =>
      obtain ⟨⟨before, after⟩, hrest, hpair⟩ := Option.map_eq_some_iff.mp h
      obtain ⟨rfl, rfl⟩ := Prod.mk.inj hpair
      obtain ⟨hchars, hoffset⟩ := ih (start + m.char.utf8Size) hrest
      refine ⟨congrArg (m.char :: ·) hchars, ?_⟩
      rw [wordOffset?_maskText_cons (by decide) (by decide) hshown, hoffset, String.utf8Len_cons,
        Nat.add_assoc, Nat.add_comm m.char.utf8Size]

theorem splitClassesByOffset_eq (cs : List Char) :
    splitClassesByOffset cs = some (splitClasses cs) := by
  have hcs : chars (markLabels cs) = cs := chars_markFrom {} cs
  rw [splitClassesByOffset, splitClasses]
  cases h : splitAtColons? (markLabels cs) with
  | none =>
    rw [wordOffset?_eq_none 0 h]
  | some parts =>
    obtain ⟨before, after⟩ := parts
    obtain ⟨hchars, hoffset⟩ := wordOffset?_eq_some 0 h
    obtain rfl : cs = before ++ ([':', ':', ':'] ++ after) := hcs.symm.trans hchars
    have hfront := slice?_front before ([':', ':', ':'] ++ after)
    have hback := slice?_back (before ++ [':', ':', ':']) after
    rw [List.append_assoc, String.utf8Len_append] at hback
    rw [hoffset, Nat.zero_add]
    exact congr (congrArg (fun after before => after.bind fun after => before.bind fun before =>
      some (Text.trimChars before, classNames after)) hback) hfront

/-! ## References -/

/-- Reads a mention of a node. -/
def readReferenceByOffset (cs : List Char) : Slicing NodeRef := do
  let (base, classes) ← splitClassesByOffset cs
  match (charOffsets opensShape 0 base).head? with
  | none =>
    if isIdentifier base then return { id := String.ofList base, classes := classes }
    else throw (.badReference (String.ofList base))
  | some place => do
    let shapeText := Text.trimChars (← slice? base place (utf8Len base))
    match ← readShapeByOffset shapeText shapeDelimiters with
    | none => throw (.openShape (String.ofList shapeText))
    | some (label, shape) => do
      let id := Text.trimChars (← slice? base 0 place)
      if isIdentifier id then
        return { id := String.ofList id, label := some label, shape := some shape, classes := classes }
      else throw (.badReference (String.ofList base))

theorem readReferenceByOffset_eq (cs : List Char) :
    readReferenceByOffset cs = .safe (readReference cs) := by
  rw [readReferenceByOffset, splitClassesByOffset_eq, readReference, Slicing.some_bind]
  obtain ⟨base, classes⟩ := splitClasses cs
  dsimp only
  cases hfind : base.find? opensShape with
  | none =>
    have hnone : ∀ c ∈ base, opensShape c = false := fun c hc =>
      Bool.eq_false_iff.mpr (List.find?_eq_none.mp hfind c hc)
    have hsplit : Text.splitBefore? opensShape base = none := by
      have hdrop : base.dropWhile (!opensShape ·) = [] :=
        List.dropWhile_eq_nil_iff.mpr fun c hc => by rw [hnone c hc]; rfl
      rw [Text.splitBefore?, hdrop]
    rw [charOffsets_eq_nil hnone, hsplit]
    dsimp only [List.head?_nil]
    split <;> rfl
  | some c =>
    obtain ⟨hc, before, after, rfl, hbefore⟩ := List.find?_eq_some_iff_append.mp hfind
    have hnone : ∀ d ∈ before, opensShape d = false := by simpa using hbefore
    have hsplit : Text.splitBefore? opensShape (before ++ c :: after) = some (before, c :: after) := by
      rw [Text.splitBefore?, List.dropWhile_append_of_pos hbefore,
        List.takeWhile_append_of_pos hbefore, List.dropWhile_cons_of_neg (by rw [hc]; decide),
        List.takeWhile_cons_of_neg (by rw [hc]; decide), List.append_nil]
    rw [head?_charOffsets hnone hc, hsplit, Nat.zero_add]
    dsimp only
    rw [slice?_back, Slicing.some_bind, readShapeByOffset_eq, Slicing.some_bind, slice?_front]
    cases readShape? (Text.trimChars (c :: after)) with
    | none => rfl
    | some found =>
      obtain ⟨label, shape⟩ := found
      dsimp only
      rw [Slicing.some_bind]
      split <;> rfl

end

end Flowchart
