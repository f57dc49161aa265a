import Flowchart.Geometry.PathText
import Flowchart.Proofs.Drawing.Escaping

/-!
# Numbers and paths are plain text

Numbers are written with digits, a sign and a point, or as a word where they are not finite, and
path text adds letters, commas and blanks. So none of it holds a character that markup reserves,
whatever the numbers are.
-/

namespace Flowchart

open Decimal

/-! ## Plain characters -/

theorem isPlain_ofList {cs : List Char} :
    IsPlain (String.ofList cs) ↔ ∀ c ∈ cs, isReserved c = false := by
  rw [IsPlain, String.toList_ofList]

theorem IsPlain.append {s t : String} (hs : IsPlain s) (ht : IsPlain t) : IsPlain (s ++ t) := by
  rw [IsPlain, String.toList_append]
  exact List.forall_mem_append.mpr ⟨hs, ht⟩

/-- Texts without reserved characters may be joined with another one between them. -/
theorem IsPlain.intercalate {s : String} (hs : IsPlain s) {ss : List String}
    (hss : ∀ t ∈ ss, IsPlain t) : IsPlain (String.intercalate s ss) := by
  induction ss with
  | nil => exact fun c hc => by simp at hc
  | cons t ss ih =>
    obtain ⟨ht, hrest⟩ := List.forall_mem_cons.mp hss
    cases ss with
    | nil => rwa [String.intercalate_singleton]
    | cons u ss =>
      rw [String.intercalate_cons_cons]
      exact (ht.append hs).append (ih hrest)

/-- What is left of a plain text after trimming is plain. -/
theorem IsPlain.trim {s : String} (h : IsPlain s) : IsPlain (Text.trim s) := by
  rw [Text.trim, isPlain_ofList]
  intro c hc
  rw [Text.trimChars, Text.dropBack, List.mem_reverse] at hc
  have hc := List.mem_reverse.mp ((List.dropWhile_suffix _).mem hc)
  exact h c ((List.dropWhile_suffix _).mem hc)

/-! ## Numbers -/

theorem not_reserved_of_mem_digitChars {n : Nat} {c : Char} (h : c ∈ digitChars n) :
    isReserved c = false := by
  have hdigit := Nat.isDigit_of_mem_toDigits (by decide) (by decide) h
  refine Bool.eq_false_iff.mpr fun hc => ?_
  have hnone : (reservedChars.all fun d => !d.isDigit) = true := by decide
  have hc := List.all_eq_true.mp hnone c (List.contains_iff_mem.mp hc)
  rw [hdigit] at hc
  cases hc

theorem not_reserved_of_mem_signChars {negative : Bool} {c : Char} (h : c ∈ signChars negative) :
    isReserved c = false := by
  cases negative with
  | false => cases h
  | true =>
    rw [List.mem_singleton.mp h]
    rfl

/-- Digits that are filled up with zeros are digits, and no digit is reserved. -/
theorem not_reserved_of_mem_padded {zeros n : Nat} {c : Char}
    (h : c ∈ List.replicate zeros '0' ++ digitChars n) : isReserved c = false := by
  rcases List.mem_append.mp h with h | h
  · rw [List.eq_of_mem_replicate h]
    rfl
  · exact not_reserved_of_mem_digitChars h

theorem not_reserved_of_mem_hundredthChars {n : Nat} {c : Char} (h : c ∈ hundredthChars n) :
    isReserved c = false := by
  rcases List.mem_append.mp h with h | h
  · exact not_reserved_of_mem_padded (List.mem_of_mem_take h)
  · rcases List.mem_cons.mp h with rfl | h
    · rfl
    · exact not_reserved_of_mem_padded (List.mem_of_mem_drop h)

theorem not_reserved_of_mem_positional {d : Digits} {c : Char} (h : c ∈ d.positional) :
    isReserved c = false := by
  simp only [Digits.positional] at h
  split_ifs at h
  · exact not_reserved_of_mem_padded (List.mem_append.mpr (List.mem_append.mp h).symm)
  · rcases List.mem_append.mp h with h | h
    · exact not_reserved_of_mem_digitChars (List.mem_of_mem_take h)
    · rcases List.mem_cons.mp h with rfl | h
      · rfl
      · exact not_reserved_of_mem_digitChars (List.mem_of_mem_drop h)
  · rcases List.mem_cons.mp h with rfl | h
    · rfl
    · rcases List.mem_cons.mp h with rfl | h
      · rfl
      · exact not_reserved_of_mem_padded h

/-- A text that begins with a sign is plain when the rest of it is. -/
theorem isPlain_signed {negative : Bool} {cs : List Char} (h : IsPlain (String.ofList cs)) :
    IsPlain (String.ofList (signChars negative ++ cs)) := by
  rw [String.ofList_append]
  exact IsPlain.append (isPlain_ofList.mpr fun _ => not_reserved_of_mem_signChars) h

/-- **A number with two places is plain text.** -/
theorem isPlain_twoPlaces (v : BinaryValue) : IsPlain (twoPlaces v) := by
  cases v with
  | undefined => decide
  | infinite negative => exact isPlain_signed (by decide)
  | finite negative m e tight =>
    exact isPlain_signed (isPlain_ofList.mpr fun _ => not_reserved_of_mem_hundredthChars)

/-- **A number with as few digits as it needs is plain text.** -/
theorem isPlain_positionalText (v : BinaryValue) : IsPlain (positionalText v) := by
  cases v with
  | undefined => decide
  | infinite negative => exact isPlain_signed (by decide)
  | finite negative m e tight =>
    rw [positionalText]
    split_ifs
    · exact isPlain_signed (by decide)
    · exact isPlain_signed (isPlain_ofList.mpr fun _ => not_reserved_of_mem_positional)

/-- Whole numbers are plain text: they are written with digits and perhaps a sign. -/
theorem isPlain_toString (n : Int) : IsPlain (toString n) := by
  have hnat (n : Nat) : IsPlain (toString n) := by
    intro c hc
    rw [Nat.toString_eq_repr, Nat.toList_repr] at hc
    exact not_reserved_of_mem_digitChars hc
  cases n with
  | ofNat n => exact hnat n
  | negSucc n => exact IsPlain.append (by decide) (hnat (n + 1))

/-- **A coordinate is plain text**, for every number: also an infinite or undefined one is written
with letters and signs that need no escape. -/
theorem isPlain_coordinateText (x : Float32) : IsPlain (coordinateText x) := by
  rw [coordinateText]
  split_ifs
  · exact isPlain_toString _
  · dsimp only
    split
    · exact isPlain_toString _
    · split_ifs
      · exact isPlain_toString _
      · exact isPlain_positionalText _

/-! ## Paths -/

theorem isPlain_pathText_point (p : Point Float32) : IsPlain p.pathText :=
  ((isPlain_coordinateText p.x).append (by decide)).append (isPlain_coordinateText p.y)

theorem isPlain_pathText_segment (s : Segment Float32) : IsPlain s.pathText := by
  cases s with
  | line _ p => exact IsPlain.append (by decide) (isPlain_pathText_point p)
  | quad _ c p =>
    exact ((IsPlain.append (by decide) (isPlain_pathText_point c)).append (by decide)).append
      (isPlain_pathText_point p)
  | cubic _ c₁ c₂ p =>
    exact ((((IsPlain.append (by decide) (isPlain_pathText_point c₁)).append (by decide)).append
      (isPlain_pathText_point c₂)).append (by decide)).append (isPlain_pathText_point p)

theorem isPlain_pathWords (segments : List (Segment Float32)) (cursor : Option (Point Float32)) :
    ∀ word ∈ pathWords cursor segments, IsPlain word := by
  induction segments generalizing cursor with
  | nil => exact List.forall_mem_nil _
  | cons s rest ih =>
    have htail : ∀ word ∈ s.pathText :: pathWords (some s.stop) rest, IsPlain word :=
      List.forall_mem_cons.mpr ⟨isPlain_pathText_segment s, ih _⟩
    have hmove : IsPlain ("M" ++ s.start.pathText) :=
      IsPlain.append (by decide) (isPlain_pathText_point s.start)
    simp only [pathWords]
    split_ifs
    · exact List.forall_mem_cons.mpr ⟨hmove, htail⟩
    · exact htail

/-- **The text of a path is plain**, whatever its coordinates are. -/
theorem isPlain_pathText (segments : List (Segment Float32)) : IsPlain (pathText segments) :=
  IsPlain.intercalate (by decide) (isPlain_pathWords segments none)

end Flowchart
