import Mathlib.Algebra.BigOperators.Group.List.Basic
import Mathlib.Algebra.Order.BigOperators.Group.List
import Flowchart.Measure.Font
import Flowchart.Proofs.Scalar.Exact

/-!
# Tabled widths and widths from the face

A line of ASCII only is measured with the table of advances, any other line with the face itself.
The table writes a missing advance as zero, so it cannot tell a character that has no advance from
one whose advance is zero, and estimates both. All other characters get the same width either way,
`lineWidth_agrees`.
-/

namespace Flowchart.FontWidths

open Text

variable {α : Type} [Scalar α] {face : FontFace} {line : String} {c : Char}

/-! ## One character -/

/-- The table holds the advance of every character it covers, and zero for one that has none; the
two cannot be told apart afterwards. -/
theorem getElem?_asciiAdvances (face : FontFace) (hc : isAscii c) :
    (face.asciiAdvances[c.toNat]?).getD 0 = (face.charAdvance? c).getD 0 := by
  have hlt : c.toNat < 128 := by simpa [isAscii] using hc
  simp [FontFace.asciiAdvances, hlt, Char.ofNat_toNat]

/-- The table and the face disagree on an advance of zero only. -/
theorem asciiWidth_eq (face : FontFace) (size : α) (hc : isAscii c) :
    (ofFace face).asciiWidth size c =
      if face.charAdvance? c = some 0 then charWidth c * size
      else (ofFace face).anyWidth size c := by
  rw [asciiWidth, anyWidth]
  simp only [ofFace, getElem?_asciiAdvances face hc]
  rcases face.charAdvance? c with _ | _ | advance <;> simp

theorem asciiWidth_of_ne (size : α) (hc : isAscii c) (h : face.charAdvance? c ≠ some 0) :
    (ofFace face).asciiWidth size c = (ofFace face).anyWidth size c := by
  rw [asciiWidth_eq face size hc, if_neg h]

/-! ## Lines -/

theorem lineWidth_ascii (w : FontWidths) (size : α) (h : ∀ c ∈ line.toList, isAscii c) :
    w.lineWidth line size = Scalar.sum (line.toList.map (w.asciiWidth size)) := by
  rw [lineWidth]
  exact if_pos (List.all_eq_true.mpr h)

theorem lineWidth_any (w : FontWidths) (size : α) (hc : c ∈ line.toList) (h : ¬ isAscii c) :
    w.lineWidth line size = Scalar.sum (line.toList.map (w.anyWidth size)) := by
  rw [lineWidth]
  exact if_neg fun hall => h (List.all_eq_true.mp hall c hc)

/-- A line without characters of advance zero has the width that the face gives it. -/
theorem lineWidth_of_ne (size : α) (hline : ∀ c ∈ line.toList, isAscii c)
    (h : ∀ c ∈ line.toList, face.charAdvance? c ≠ some 0) :
    (ofFace face).lineWidth line size =
      Scalar.sum (line.toList.map ((ofFace face).anyWidth size)) := by
  rw [lineWidth_ascii _ _ hline]
  apply congrArg Scalar.sum
  apply List.map_congr_left
  intro c hc
  exact asciiWidth_of_ne size (hline c hc) (h c hc)

/-- What a character of advance zero is too wide by. -/
def excess (face : FontFace) (size : ℚ) (c : Char) : ℚ :=
  if face.charAdvance? c = some 0 then charWidth c * size else 0

theorem charWidth_pos (c : Char) : 0 < (charWidth c : ℚ) := by
  unfold charWidth
  split <;> norm_num

theorem excess_nonneg {size : ℚ} (hsize : 0 < size) (face : FontFace) (c : Char) :
    0 ≤ excess face size c := by
  rw [excess]
  split
  · exact (mul_pos (charWidth_pos c) hsize).le
  · exact le_rfl

theorem excess_eq_zero {size : ℚ} (hsize : 0 < size) :
    excess face size c = 0 ↔ face.charAdvance? c ≠ some 0 := by
  rw [excess]
  split
  next h => simp [h, (charWidth_pos c).ne', hsize.ne']
  next h => simp [h]

theorem asciiWidth_eq_add (face : FontFace) (size : ℚ) (hc : isAscii c) :
    (ofFace face).asciiWidth size c = (ofFace face).anyWidth size c + excess face size c := by
  rw [asciiWidth_eq face size hc, excess]
  split
  next h => simp [anyWidth, ofFace, h, Scalar.ofNat]
  next => rw [add_zero]

/-- In exact numbers a line is too wide by what its characters of advance zero are. -/
theorem lineWidth_eq_add (face : FontFace) (size : ℚ)
    (hline : ∀ c ∈ line.toList, isAscii c) :
    (ofFace face).lineWidth line size =
      Scalar.sum (line.toList.map ((ofFace face).anyWidth size)) +
        (line.toList.map (excess face size)).sum := by
  rw [lineWidth_ascii _ _ hline, Scalar.sum_eq, Scalar.sum_eq, ← List.sum_map_add]
  apply congrArg List.sum
  apply List.map_congr_left
  intro c hc
  exact asciiWidth_eq_add face size (hline c hc)

/-- With a character outside ASCII in it, every character of the line is measured by the face. -/
theorem lineWidth_insert (w : FontWidths) (size : ℚ) {front back : List Char}
    (hsplit : line.toList = front ++ back) (hc : ¬ isAscii c) :
    w.lineWidth (String.ofList (front ++ c :: back)) size =
      Scalar.sum (line.toList.map (w.anyWidth size)) + w.anyWidth size c := by
  rw [lineWidth_any (c := c) w size (by simp) hc, hsplit, Scalar.sum_eq, Scalar.sum_eq,
    String.toList_ofList]
  simp only [List.map_append, List.map_cons, List.sum_append, List.sum_cons]
  ring

/-- All characters are as wide as the face says exactly if none has the advance zero. -/
theorem sum_excess_eq_zero {size : ℚ} (hsize : 0 < size) (face : FontFace) (cs : List Char) :
    (cs.map (excess face size)).sum = 0 ↔ ∀ c ∈ cs, face.charAdvance? c ≠ some 0 := by
  constructor
  · intro hsum c hc
    have hnonneg : ∀ x ∈ cs.map (excess face size), 0 ≤ x :=
      List.forall_mem_map.mpr fun c _ => excess_nonneg hsize face c
    exact (excess_eq_zero hsize).mp
      (List.all_zero_of_le_zero_le_of_sum_eq_zero hnonneg hsum (List.mem_map_of_mem hc))
  · intro h
    apply List.sum_eq_zero
    exact List.forall_mem_map.mpr fun c hc => (excess_eq_zero hsize).mpr (h c hc)

/-- **The table agrees with the face except on advances of zero.** If no character of an ASCII line
has the advance zero, then its width is, in whatever arithmetic, the sum of the widths that the face
gives to its characters, and a character outside ASCII that is put behind it adds its own width. In
exact numbers this is so for no other lines, wherever that character is put. -/
theorem lineWidth_agrees (face : FontFace) (line : String) (hline : ∀ c ∈ line.toList, isAscii c) :
    (∀ {α : Type} [Scalar α] (size : α), (∀ c ∈ line.toList, face.charAdvance? c ≠ some 0) →
      (ofFace face).lineWidth line size =
          Scalar.sum (line.toList.map ((ofFace face).anyWidth size)) ∧
        ∀ c, ¬ isAscii c → (ofFace face).lineWidth (line.push c) size =
          (ofFace face).lineWidth line size + (ofFace face).anyWidth size c) ∧
      ∀ size : ℚ, 0 < size →
        ((ofFace face).lineWidth line size =
            Scalar.sum (line.toList.map ((ofFace face).anyWidth size)) ↔
          ∀ c ∈ line.toList, face.charAdvance? c ≠ some 0) ∧
        ∀ front back c, line.toList = front ++ back → ¬ isAscii c →
          ((ofFace face).lineWidth (String.ofList (front ++ c :: back)) size =
              (ofFace face).lineWidth line size + (ofFace face).anyWidth size c ↔
            ∀ c ∈ line.toList, face.charAdvance? c ≠ some 0) := by
  constructor
  · intro α _ size h
    have hwidth := lineWidth_of_ne size hline h
    refine ⟨hwidth, fun c hc => ?_⟩
    rw [lineWidth_any (c := c) _ _ (by simp) hc, hwidth, String.toList_push, List.map_append,
      List.map_singleton, Scalar.sum, List.foldl_append]
    rfl
  · intro size hsize
    have hwidth := lineWidth_eq_add face size hline
    have hzero := sum_excess_eq_zero hsize face line.toList
    refine ⟨by rw [hwidth, add_eq_left, hzero], fun front back c hsplit hc => ?_⟩
    rw [lineWidth_insert _ _ hsplit hc, hwidth, add_left_inj, left_eq_add, hzero]

/-- A face where `a` has an advance, `b` has the advance zero, `c` has a glyph without an advance,
and all other characters have no glyph. -/
def sparse : FontFace where
  unitsPerEm := 1000
  glyph? c := ['a', 'b', 'c'].idxOf? c
  advance? glyph := [500, 0][glyph]?

theorem lineWidth_agrees_sparse : (∀ c ∈ "acd".toList, isAscii c) ∧
    (∀ c ∈ "acd".toList, sparse.charAdvance? c ≠ some 0) ∧
    (ofFace sparse).lineWidth "acdé" (16 : Float32) =
      (ofFace sparse).lineWidth "acd" 16 + (ofFace sparse).anyWidth 16 'é' := by
  have hline : ∀ c ∈ "acd".toList, isAscii c := by simp [isAscii]
  have hadvances : ∀ c ∈ "acd".toList, sparse.charAdvance? c ≠ some 0 := by
    intro c hc
    obtain rfl | rfl | rfl : c = 'a' ∨ c = 'c' ∨ c = 'd' := by simpa using hc
    all_goals decide
  exact ⟨hline, hadvances,
    ((lineWidth_agrees sparse "acd" hline).1 16 hadvances).2 'é' (by decide)⟩

/-- A character with the advance zero is as wide as an estimate as long as it is among ASCII. -/
theorem lineWidth_advance_zero : ¬ ∀ (face : FontFace) (line : String) (size : Float32),
    (∀ c ∈ line.toList, isAscii c) → (ofFace face).lineWidth line size =
      Scalar.sum (line.toList.map ((ofFace face).anyWidth size)) := by
  intro h
  have hline : ∀ c ∈ "b".toList, isAscii c := by simp [isAscii]
  have hdiffer : (ofFace sparse).lineWidth "b" (16 : Float32) ≠
      Scalar.sum ("b".toList.map ((ofFace sparse).anyWidth 16)) := by decide +kernel
  exact hdiffer (h sparse "b" 16 hline)

end Flowchart.FontWidths
