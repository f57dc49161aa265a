import Flowchart.Proofs.Printing.References
import Mathlib.Data.String.Basic

/-!
# The mask is aligned with its text

The *mask* of a text is the text with spaces in the place of its label text, one for every byte of a
hidden character. So mask and text are equally long in UTF-8, and what is not a space in the mask
stands at the same offset in the text. An offset that is found in the mask may then be used to cut
the text: it is the number of bytes of some front part of the marked text, and such an offset is a
boundary between characters in both.

Cutting by offsets is a partial operation. `slice?` gives nothing if an offset is out of range or
inside a character, or if the offsets are not in order.
-/

namespace Flowchart

open String (utf8Len)

variable {ms ms₁ ms₂ piece : List Marked} {xs ys : List Char} {c : Char}

/-- The mask of a text. -/
def labelMask (s : String) : String := String.ofList (Marked.maskText (markLabels s.toList))

/-- A letter of two bytes in a label is two spaces in the mask. -/
example : labelMask "a[é] --> b" = "a[  ] --> b" := by decide +kernel

/-- A mask is as long as its text, and what it holds at an offset, if not a space, the text holds
there too. -/
def ByteAligned (mask text : String) : Prop :=
  mask.utf8ByteSize = text.utf8ByteSize ∧
    ∀ (p : String.Pos.Raw) (c : Char), p.get? mask = some c → c ≠ ' ' → p.get? text = some c

namespace Marked

/-- The number of bytes of a marked text. -/
def size (ms : List Marked) : Nat := utf8Len (chars ms)

/-- The sizes of two rows of marks add up. -/
theorem size_append (ms ms' : List Marked) : size (ms ++ ms') = size ms + size ms' := by
  rw [size, chars_append, String.utf8Len_append]
  rfl

theorem size_singleton (m : Marked) : size [m] = m.char.utf8Size := Nat.zero_add _

/-- The mask of two rows of marks is the mask of the first and that of the second. -/
theorem maskText_append (ms ms' : List Marked) :
    maskText (ms ++ ms') = maskText ms ++ maskText ms' := List.flatMap_append

/-- A visible character stands in the mask as it is. -/
theorem maskText_visible (c : Char) (ms : List Marked) :
    maskText (⟨c, true⟩ :: ms) = c :: maskText ms := rfl

/-- A hidden character is replaced by at least one space. -/
theorem maskText_hidden (c : Char) (ms : List Marked) : ∃ n, n + 1 = c.utf8Size ∧
    maskText (⟨c, false⟩ :: ms) = List.replicate (n + 1) ' ' ++ maskText ms := by
  obtain ⟨n, hn⟩ := Nat.exists_eq_add_one_of_ne_zero c.utf8Size_pos.ne'
  exact ⟨n, hn.symm, by rw [← hn]; rfl⟩

theorem utf8Len_spaces (n : Nat) : utf8Len (List.replicate n ' ') = n := by
  induction n with
  | zero => rfl
  | succ n ih => rw [List.replicate_succ, String.utf8Len_cons, ih]; rfl

/-- The mask is as long as the text. -/
theorem utf8Len_maskText (ms : List Marked) : utf8Len (maskText ms) = size ms := by
  induction ms with
  | nil => rfl
  | cons m ms ih =>
    have hsize : size (m :: ms) = size ms + m.char.utf8Size := rfl
    obtain ⟨c, visible⟩ := m
    cases visible with
    | true => rw [maskText_visible, String.utf8Len_cons, ih, hsize]
    | false =>
      obtain ⟨n, hn, hmask⟩ := maskText_hidden c ms
      rw [hmask, String.utf8Len_append, utf8Len_spaces, ih, hsize, ← hn, Nat.add_comm]

/-- Mask and marks are seen alike up to the first space. -/
theorem takeWhile_maskText (ms : List Marked) :
    (maskText ms).takeWhile (· != ' ') = (shownChars ms).takeWhile (· != ' ') := by
  induction ms with
  | nil => rfl
  | cons m ms ih =>
    obtain ⟨c, visible⟩ := m
    cases visible with
    | true =>
      have hshown : shownChars (⟨c, true⟩ :: ms) = c :: shownChars ms := rfl
      rw [maskText_visible, hshown, List.takeWhile_cons, List.takeWhile_cons, ih]
    | false =>
      obtain ⟨n, -, hmask⟩ := maskText_hidden c ms
      rw [hmask]
      rfl

/-- What does not change with what follows a space is read before the first space. -/
theorem apply_takeWhile {β : Type} {f : List Char → β} (hf : ∀ xs ys, f (xs ++ ' ' :: ys) = f xs)
    (cs : List Char) : f (cs.takeWhile (· != ' ')) = f cs := by
  have hcs := List.takeWhile_append_dropWhile (p := (· != ' ')) (l := cs)
  have hhead := List.head?_dropWhile_not (· != ' ') cs
  cases hrest : cs.dropWhile (· != ' ') with
  | nil =>
    rw [hrest, List.append_nil] at hcs
    rw [hcs]
  | cons c rest =>
    rw [hrest] at hcs hhead
    obtain rfl : c = ' ' := by simpa using hhead
    conv_rhs => rw [← hcs]
    exact (hf _ _).symm

/-- It is read from the mask as from the marks. -/
theorem apply_maskText {β : Type} {f : List Char → β} (hf : ∀ xs ys, f (xs ++ ' ' :: ys) = f xs)
    (ms : List Marked) : f (maskText ms) = f (shownChars ms) := by
  rw [← apply_takeWhile hf, takeWhile_maskText, apply_takeWhile hf]

/-- What is seen without a space is all of the text and all of the mask. -/
theorem eq_shownChars (h : ' ' ∉ shownChars ms) :
    chars ms = shownChars ms ∧ maskText ms = shownChars ms := by
  induction ms with
  | nil => exact ⟨rfl, rfl⟩
  | cons m ms ih =>
    obtain ⟨hm, hms⟩ := not_or.mp fun hmem => h (List.mem_cons.mpr hmem)
    obtain ⟨hchars, hmask⟩ := ih hms
    obtain ⟨c, visible⟩ := m
    cases visible with
    | true => exact ⟨congrArg (c :: ·) hchars, congrArg (c :: ·) hmask⟩
    | false => exact absurd rfl hm

/-- What is no space stands behind the spaces. -/
theorem exists_of_spaces {cs : List Char} {n : Nat} (hc : c ≠ ' ')
    (h : List.replicate n ' ' ++ cs = xs ++ c :: ys) :
    ∃ zs, xs = List.replicate n ' ' ++ zs ∧ cs = zs ++ c :: ys := by
  induction n generalizing xs with
  | zero => exact ⟨xs, rfl, h⟩
  | succ n ih =>
    rw [List.replicate_succ, List.cons_append] at h
    cases xs with
    | nil => exact absurd (List.cons.inj h).1.symm hc
    | cons x xs =>
      obtain ⟨rfl, hrest⟩ := List.cons.inj h
      obtain ⟨zs, rfl, hcs⟩ := ih hrest
      exact ⟨zs, rfl, hcs⟩

/-- What is not a space in the mask is a visible character of the text, and the mask is cut there as
the text is. -/
theorem exists_of_maskText (h : maskText ms = xs ++ c :: ys) (hc : c ≠ ' ') : ∃ ms₁ ms₂,
    ms = ms₁ ++ ⟨c, true⟩ :: ms₂ ∧ maskText ms₁ = xs ∧ maskText ms₂ = ys := by
  induction ms generalizing xs with
  | nil => cases xs <;> cases h
  | cons m ms ih =>
    obtain ⟨d, visible⟩ := m
    cases visible with
    | true =>
      rw [maskText_visible] at h
      cases xs with
      | nil =>
        obtain ⟨rfl, hys⟩ := List.cons.inj h
        exact ⟨[], ms, rfl, rfl, hys⟩
      | cons x xs =>
        obtain ⟨rfl, hxs⟩ := List.cons.inj h
        obtain ⟨ms₁, ms₂, rfl, hfront, hback⟩ := ih hxs
        exact ⟨⟨d, true⟩ :: ms₁, ms₂, rfl, by rw [maskText_visible, hfront], hback⟩
    | false =>
      obtain ⟨zs, rfl, hrest⟩ := exists_of_spaces hc h
      obtain ⟨ms₁, ms₂, rfl, rfl, hback⟩ := ih hrest
      exact ⟨⟨d, false⟩ :: ms₁, ms₂, rfl, rfl, hback⟩

end Marked

/-! ## Offsets in texts -/

/-- A character found at an offset stands behind as many bytes. -/
theorem exists_of_utf8GetAux? {cs : List Char} {i p : String.Pos.Raw}
    (h : String.Pos.Raw.utf8GetAux? cs i p = some c) :
    ∃ xs ys, cs = xs ++ c :: ys ∧ p.byteIdx = i.byteIdx + utf8Len xs := by
  induction cs generalizing i with
  | nil => cases h
  | cons d cs ih =>
    rw [String.Pos.Raw.utf8GetAux?] at h
    split at h
    next hi =>
      obtain rfl := Option.some.inj h
      exact ⟨[], cs, rfl, by rw [hi]; rfl⟩
    next =>
      obtain ⟨xs, ys, rfl, hp⟩ := ih h
      refine ⟨d :: xs, ys, rfl, ?_⟩
      rw [hp, String.utf8Len_cons, Nat.add_comm (utf8Len xs), ← Nat.add_assoc]
      rfl

/-- A character is found at an offset exactly if the offset is the length of what stands before
it. -/
theorem get?_eq_some {cs : List Char} {p : String.Pos.Raw} :
    p.get? (String.ofList cs) = some c ↔ ∃ xs ys, cs = xs ++ c :: ys ∧ p = ⟨utf8Len xs⟩ := by
  constructor
  · intro h
    rw [String.Pos.Raw.get?, String.toList_ofList] at h
    obtain ⟨xs, ys, hcs, hp⟩ := exists_of_utf8GetAux? h
    exact ⟨xs, ys, hcs, String.Pos.Raw.ext (hp.trans (Nat.zero_add _))⟩
  · rintro ⟨xs, ys, rfl, rfl⟩
    exact String.get?_of_valid xs (c :: ys)

/-- **The mask of a text is aligned with it**: both are of the same length, and what is not a space
in the mask stands in the text at the same offset. -/
theorem byteAligned_labelMask (s : String) : ByteAligned (labelMask s) s := by
  have hs : s = String.ofList (Marked.chars (markLabels s.toList)) := by
    rw [markLabels, chars_markFrom, String.ofList_toList]
  constructor
  · conv_rhs => rw [hs]
    rw [labelMask, String.utf8ByteSize_ofList, String.utf8ByteSize_ofList, Marked.utf8Len_maskText,
      Marked.size]
  · intro p c h hc
    obtain ⟨xs, ys, hmask, rfl⟩ := get?_eq_some.mp h
    obtain ⟨ms₁, ms₂, hms, rfl, -⟩ := Marked.exists_of_maskText hmask hc
    rw [hs, hms, Marked.utf8Len_maskText]
    exact get?_eq_some.mpr ⟨Marked.chars ms₁, Marked.chars ms₂, chars_append _ _, rfl⟩

/-! ## Slices -/

/-- The part of a text between two offsets, if they are in order and both are boundaries between
characters of its encoding. -/
def slice? (cs : List Char) (start stop : Nat) : Option (List Char) :=
  let s := String.ofList cs
  if start ≤ stop ∧ String.Pos.Raw.IsValid s ⟨start⟩ ∧ String.Pos.Raw.IsValid s ⟨stop⟩ then
    some (String.Pos.Raw.extract s ⟨start⟩ ⟨stop⟩).toList
  else none

/-- An offset behind some characters is a boundary. -/
theorem isValid_utf8Len (xs ys : List Char) :
    String.Pos.Raw.IsValid (String.ofList (xs ++ ys)) ⟨utf8Len xs⟩ :=
  String.Pos.Raw.isValid_iff_exists_append.mpr ⟨String.ofList xs, String.ofList ys,
    String.ofList_append, (String.rawEndPos_ofList xs).symm⟩

/-- A slice between two boundaries is what stands between them. -/
theorem slice?_append (xs ys zs : List Char) :
    slice? (xs ++ (ys ++ zs)) (utf8Len xs) (utf8Len xs + utf8Len ys) = some ys := by
  have hstop := isValid_utf8Len (xs ++ ys) zs
  rw [List.append_assoc, String.utf8Len_append] at hstop
  rw [slice?, if_pos ⟨Nat.le_add_right _ _, isValid_utf8Len xs (ys ++ zs), hstop⟩,
    ← List.append_assoc, String.extract_of_valid, String.toList_ofList]

/-- A slice from the beginning is what stands before its end. -/
theorem slice?_front (xs ys : List Char) : slice? (xs ++ ys) 0 (utf8Len xs) = some xs := by
  have h := slice?_append [] xs ys
  rwa [String.utf8Len_nil, Nat.zero_add] at h

/-- A slice up to the end is what stands behind its beginning. -/
theorem slice?_back (xs ys : List Char) :
    slice? (xs ++ ys) (utf8Len xs) (utf8Len (xs ++ ys)) = some ys := by
  have h := slice?_append xs ys []
  rwa [List.append_nil, ← String.utf8Len_append] at h

/-- The second byte of a letter is no boundary. -/
example : slice? ['é', '|'] 1 3 = none ∧ slice? ['é', '|'] 2 3 = some ['|'] := by decide +kernel

/-- A part of a marked text with the offsets at which it begins and ends. -/
def Marked.Covers (ms : List Marked) (start stop : Nat) (piece : List Marked) : Prop :=
  ∃ pre post, ms = pre ++ (piece ++ post) ∧ start = size pre ∧ stop = size pre + size piece

namespace Marked.Covers

variable {start stop : Nat}

/-- The text is cut where its marks are. -/
theorem slice?_chars (h : Covers ms start stop piece) :
    slice? (chars ms) start stop = some (chars piece) := by
  obtain ⟨pre, post, rfl, rfl, rfl⟩ := h
  rw [chars_append, chars_append]
  exact slice?_append _ _ _

/-- The mask is cut where the text is. -/
theorem slice?_maskText (h : Covers ms start stop piece) :
    slice? (maskText ms) start stop = some (maskText piece) := by
  obtain ⟨pre, post, rfl, rfl, rfl⟩ := h
  rw [maskText_append, maskText_append, ← utf8Len_maskText, ← utf8Len_maskText]
  exact slice?_append _ _ _

/-- The first part of a piece covers what it covers up to its own length. -/
theorem front (h : Covers ms start stop (ms₁ ++ ms₂)) :
    Covers ms start (start + size ms₁) ms₁ := by
  obtain ⟨pre, post, rfl, rfl, rfl⟩ := h
  exact ⟨pre, ms₂ ++ post, by rw [List.append_assoc], rfl, rfl⟩

/-- Where a text is cut in two, the second part covers the rest, from the end of the first part
on. -/
theorem back (h : Covers ms start stop (ms₁ ++ ms₂)) :
    Covers ms (start + size ms₁) stop ms₂ := by
  obtain ⟨pre, post, rfl, rfl, rfl⟩ := h
  exact ⟨pre ++ ms₁, post, by simp only [List.append_assoc], (size_append _ _).symm,
    by rw [size_append, size_append, Nat.add_assoc]⟩

end Marked.Covers

end Flowchart
