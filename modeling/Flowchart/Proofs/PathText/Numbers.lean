import Mathlib.Data.List.TakeWhile
import Flowchart.Geometry.PathText
import Flowchart.Proofs.Scalar.WholeDecimals

/-!
# Whole numbers in path text

A whole coordinate is written with a sign and digits, and a number written so is read back from any
place where no further digit, point or exponent follows.
-/

namespace Flowchart

open Decimal

/-! ## The text of a whole number -/

section Written

variable {k : Int} {cs rest : List Char} {c : Char}

/-- A whole number is written as its digits, with a sign before them if it is negative. -/
theorem toList_toString (k : Int) : (toString k).toList =
    (if k < 0 then ['-'] else []) ++ Nat.toDigits 10 k.natAbs := by
  cases k with
  | ofNat n =>
    have htext : toString (Int.ofNat n) = toString n := rfl
    have hnonneg : ¬ Int.ofNat n < 0 := (Int.natCast_nonneg n).not_gt
    rw [if_neg hnonneg, htext, Nat.toString_eq_repr, Nat.toList_repr]
    rfl
  | negSucc n =>
    have htext : toString (Int.negSucc n) = "-" ++ toString (n + 1) := rfl
    rw [if_pos (Int.negSucc_lt_zero n), htext, String.toList_append, Nat.toString_eq_repr,
      Nat.toList_repr]
    rfl

/-- The digits of a number: there are some, and nothing else. -/
theorem exists_digits (n : Nat) : ∃ d ds, Nat.toDigits 10 n = d :: ds ∧
    ∀ c ∈ d :: ds, c.isDigit = true := by
  obtain ⟨d, ds, hds⟩ := List.exists_cons_of_ne_nil (Nat.toDigits_ne_nil (b := 10) (n := n))
  exact ⟨d, ds, hds, fun c hc =>
    Nat.isDigit_of_mem_toDigits (by decide) (by decide) (hds.symm ▸ hc)⟩

/-- The digits of a number are read as this number. -/
theorem natOfDigits_toDigits (n : Nat) : natOfDigits (Nat.toDigits 10 n) = n :=
  Nat.ofDigitChars_ten_toDigits

/-- A digit is neither a sign nor a letter. -/
theorem ne_of_isDigit {d : Char} (h : c.isDigit = true) (hd : d.isDigit = false) : c ≠ d := by
  rintro rfl
  rw [h] at hd
  cases hd

/-- A digit has no other case, so lowering the case leaves it alone. -/
theorem toLower_of_isDigit (h : c.isDigit = true) : c.toLower = c := by
  have hdigit := (Char.isDigit_iff_toNat.mp h).2
  delta Char.toLower
  refine dif_neg fun hupper => ?_
  have hcapital : 65 ≤ c.toNat := hupper.1
  have hnine : '9'.toNat = 57 := rfl
  omega

/-- A text that begins with a digit has no sign to split off. -/
theorem splitSign_digits {d : Char} {ds : List Char} (hd : d.isDigit = true) :
    splitSign (d :: ds) = (false, d :: ds) := by
  unfold splitSign
  split
  · next heq => exact absurd (List.cons.inj heq).1 (ne_of_isDigit hd rfl)
  · next heq => exact absurd (List.cons.inj heq).1 (ne_of_isDigit hd rfl)
  · rfl

/-- Digits without a point and an exponent are read as a whole number. -/
theorem readUnsigned?_digits {d : Char} {ds : List Char} (h : ∀ c ∈ d :: ds, c.isDigit = true) :
    readUnsigned? (d :: ds) = some (natOfDigits (d :: ds), 0) := by
  rw [readUnsigned?]
  dsimp only
  rw [List.takeWhile_eq_self_iff.mpr h, List.dropWhile_eq_nil_iff.mpr h]
  simp [readExponent?]

/-- **A whole number is read** with its sign and its digits. It is not taken for one of the words
for special numbers, since a digit stands first. -/
theorem read?_toString (k : Int) :
    read? (toString k).toList = some (.finite (decide (k < 0)) k.natAbs 0) := by
  obtain ⟨d, ds, hds, hdigits⟩ := exists_digits k.natAbs
  have hsign : splitSign (toString k).toList = (decide (k < 0), d :: ds) := by
    rw [toList_toString, hds]
    split
    next hk =>
      rw [decide_eq_true hk]
      rfl
    next hk =>
      rw [decide_eq_false hk, List.nil_append]
      exact splitSign_digits (hdigits d List.mem_cons_self)
  have hword {w : Char} {ws : List Char} (hw : w.isDigit = false) :
      (String.ofList ((d :: ds).map Char.toLower) == String.ofList (w :: ws)) = false := by
    refine beq_eq_false_iff_ne.mpr fun heq => ?_
    have hfirst := (List.cons.inj (String.ofList_injective heq)).1
    rw [toLower_of_isDigit (hdigits d List.mem_cons_self)] at hfirst
    exact ne_of_isDigit (hdigits d List.mem_cons_self) hw hfirst
  have hinf : ("inf" : String) = String.ofList ['i', 'n', 'f'] := rfl
  have hinfinity : ("infinity" : String) = String.ofList ('i' :: "nfinity".toList) := rfl
  have hnan : ("nan" : String) = String.ofList ['n', 'a', 'n'] := rfl
  rw [read?, hsign]
  dsimp only
  rw [hinf, hword rfl, hinfinity, hword rfl, hnan, hword rfl, readUnsigned?_digits hdigits, ← hds,
    natOfDigits_toDigits]
  rfl

end Written

/-! ## Scanning -/

section Scanned

variable {k : Int} {rest : List Char} {c : Char}

/-- No number goes on here. -/
def EndsNumber (rest : List Char) : Prop :=
  ∀ c ∈ rest.head?, c.isDigit = false ∧ c ≠ '.' ∧ c ≠ 'e' ∧ c ≠ 'E'

/-- Where a number ends no digit stands, so that reading digits reads none. -/
theorem EndsNumber.takeWhile (h : EndsNumber rest) : rest.takeWhile Char.isDigit = [] := by
  cases rest with
  | nil => rfl
  | cons c rest => rw [List.takeWhile_cons_of_neg (by rw [(h c rfl).1]; decide)]

/-- The digits before the end of a number. -/
theorem EndsNumber.takeWhile_append {ds : List Char} (h : EndsNumber rest)
    (hds : ∀ c ∈ ds, c.isDigit = true) : (ds ++ rest).takeWhile Char.isDigit = ds := by
  rw [List.takeWhile_append_of_pos hds, h.takeWhile, List.append_nil]

/-- Where a number ends no exponent stands either, so that none is read. -/
theorem EndsNumber.exponentLength (h : EndsNumber rest) : PathCursor.exponentLength rest = 0 := by
  cases rest with
  | nil => rfl
  | cons c rest =>
    obtain ⟨-, -, hlower, hupper⟩ := h c rfl
    exact if_neg (by simp [hlower, hupper])

/-- All digits of a whole number belong to its mantissa, and what follows does not. -/
theorem mantissaLength_toString (h : EndsNumber rest) :
    PathCursor.mantissaLength ((toString k).toList ++ rest) = (toString k).toList.length := by
  obtain ⟨d, ds, hds, hdigits⟩ := exists_digits k.natAbs
  have hfirst := hdigits d List.mem_cons_self
  rw [toList_toString, hds]
  split
  next hk =>
    rw [List.append_assoc, List.singleton_append, PathCursor.mantissaLength]
    simp only [List.drop_succ_cons, List.drop_zero]
    rw [h.takeWhile_append hdigits, List.drop_left]
    split
    next => exact absurd rfl (h '.' rfl).2.1
    next => rw [List.length_append, List.length_singleton]
  next hk =>
    rw [List.nil_append, PathCursor.mantissaLength]
    · rw [List.drop_zero, h.takeWhile_append hdigits, List.drop_left]
      split
      next => exact absurd rfl (h '.' rfl).2.1
      next => rw [Nat.zero_add]
    · exact fun _ heq => absurd (List.cons.inj heq).1 (ne_of_isDigit hfirst rfl)
    · exact fun _ heq => absurd (List.cons.inj heq).1 (ne_of_isDigit hfirst rfl)

/-- A whole number is scanned up to its last digit. -/
theorem numberLength_toString (h : EndsNumber rest) :
    PathCursor.numberLength ((toString k).toList ++ rest) = (toString k).toList.length := by
  rw [PathCursor.numberLength, mantissaLength_toString h, List.drop_left, h.exponentLength]
  split
  next hzero => rw [beq_iff_eq.mp hzero]
  next => rfl

end Scanned

/-! ## Gaps -/

/-- A comma or a blank. -/
def isSeparator (c : Char) : Bool := Text.isAsciiBlank c || c == ','

/-- Commas and blanks. -/
def IsGap (gap : List Char) : Prop := ∀ c ∈ gap, isSeparator c = true

section Gaps

variable {gap rest : List Char} {c : Char}

/-- A gap ends a number, since it is made of separators; if it is empty, what follows has to end
it. -/
theorem IsGap.endsNumber (hgap : IsGap gap) (hrest : gap = [] → EndsNumber rest) :
    EndsNumber (gap ++ rest) := by
  cases gap with
  | nil => exact hrest rfl
  | cons d gap =>
    intro c hc
    obtain rfl := Option.some.inj hc
    have hsep := hgap d List.mem_cons_self
    rw [isSeparator, Text.isAsciiBlank] at hsep
    simp only [Bool.or_eq_true, beq_iff_eq] at hsep
    rcases hsep with ((((rfl | rfl) | rfl) | rfl) | rfl) | rfl <;> decide

/-- A digit separates nothing: separators are commas and blanks. -/
theorem isSeparator_of_isDigit (h : c.isDigit = true) : isSeparator c = false := by
  simp only [isSeparator, Text.isAsciiBlank, Bool.or_eq_false_iff, beq_eq_false_iff_ne]
  refine ⟨⟨⟨⟨⟨?_, ?_⟩, ?_⟩, ?_⟩, ?_⟩, ?_⟩ <;> exact ne_of_isDigit h rfl

/-- Nothing is skipped where the text goes on with what is no separator. -/
theorem takeWhile_isSeparator (h : ∀ c ∈ rest.head?, isSeparator c = false) :
    rest.takeWhile isSeparator = [] := by
  cases rest with
  | nil => rfl
  | cons c rest => rw [List.takeWhile_cons_of_neg (by rw [h c rfl]; decide)]

/-- The reader goes past a text by its length, and the rest is left. -/
theorem advance_append (offset : Nat) (text rest : List Char) :
    ∃ offset', PathCursor.advance ⟨offset, text ++ rest⟩ text.length = ⟨offset', rest⟩ :=
  ⟨_, congrArg (PathCursor.mk _) List.drop_left⟩

/-- Skipping passes a gap as a whole and stops at what is no separator. -/
theorem skipSeparators_gap (rest : List Char) (hgap : IsGap gap)
    (hrest : ∀ c ∈ rest.head?, isSeparator c = false) (offset : Nat) :
    ∃ offset', PathCursor.skipSeparators ⟨offset, gap ++ rest⟩ = ⟨offset', rest⟩ := by
  have htake : (gap ++ rest).takeWhile isSeparator = gap := by
    rw [List.takeWhile_append_of_pos hgap, takeWhile_isSeparator hrest, List.append_nil]
  obtain ⟨offset', hadvance⟩ := advance_append offset gap rest
  refine ⟨offset', Eq.trans ?_ hadvance⟩
  exact congrArg (fun skipped => PathCursor.advance _ (List.length skipped)) htake

/-- After skipping there is nothing to skip, so that skipping once more does not move the cursor. -/
theorem skipSeparators_idem (c : PathCursor) :
    c.skipSeparators.skipSeparators = c.skipSeparators := by
  have hrest : c.skipSeparators.rest = c.rest.dropWhile isSeparator :=
    calc c.skipSeparators.rest
      _ = (c.rest.takeWhile isSeparator ++ c.rest.dropWhile isSeparator).drop
          (c.rest.takeWhile isSeparator).length := by rw [List.takeWhile_append_dropWhile]; rfl
      _ = c.rest.dropWhile isSeparator := List.drop_left
  have hstop : c.skipSeparators.rest.takeWhile isSeparator = [] := by
    refine takeWhile_isSeparator fun ch hch => ?_
    have hnot := List.head?_dropWhile_not isSeparator c.rest
    rw [← hrest, hch] at hnot
    simpa using hnot
  exact congrArg (fun skipped => c.skipSeparators.advance (List.length skipped)) hstop

end Gaps

/-! ## Reading -/

section Reading

variable {k : Int} {rest : List Char} {c : Char}

/-- A number starts with a digit or with a sign. -/
theorem exists_first (k : Int) : ∃ c cs, (toString k).toList = c :: cs ∧
    (c.isDigit = true ∨ c = '-') := by
  obtain ⟨d, ds, hds, hdigits⟩ := exists_digits k.natAbs
  rw [toList_toString, hds]
  split
  · exact ⟨'-', d :: ds, rfl, .inr rfl⟩
  · exact ⟨d, ds, rfl, .inl (hdigits d List.mem_cons_self)⟩

/-- Neither a digit nor a sign is skipped. -/
theorem isSeparator_first (h : c.isDigit = true ∨ c = '-') : isSeparator c = false := by
  rcases h with h | rfl
  · exact isSeparator_of_isDigit h
  · rfl

/-- Neither is taken for the letter of a command. -/
theorem isAlpha_first (h : c.isDigit = true ∨ c = '-') : c.isAlpha = false := by
  rcases h with h | rfl
  · have hdigit : c.val.toNat ≤ 57 := (Char.isDigit_iff_toNat.mp h).2
    have hupper : 'A'.val.toNat = 65 := rfl
    have hlower : 'a'.val.toNat = 97 := rfl
    delta Char.isAlpha Char.isUpper Char.isLower
    simp only [Bool.or_eq_false_iff, Bool.and_eq_false_iff, decide_eq_false_iff_not, ge_iff_le,
      UInt32.le_iff_toNat_le]
    exact ⟨by omega, by omega⟩
  · rfl

/-- **A whole number is read** after a gap, and the rest of the text is left. -/
theorem number_toString {gap : List Char} (hgap : IsGap gap) (hrest : EndsNumber rest)
    (hk : |k| ≤ 2 ^ 24) (offset : Nat) :
    ∃ offset', PathCursor.number (α := Float32) ⟨offset, gap ++ ((toString k).toList ++ rest)⟩ =
      .ok (Float32.ofInt k, ⟨offset', rest⟩) := by
  obtain ⟨c, cs, htext, hc⟩ := exists_first k
  obtain ⟨start, hskip⟩ := skipSeparators_gap ((toString k).toList ++ rest) hgap
    (by
      rw [htext]
      rintro _ ⟨⟩
      exact isSeparator_first hc) offset
  rw [PathCursor.number, hskip]
  dsimp only
  rw [numberLength_toString hrest, List.take_left, read?_toString]
  obtain ⟨offset', hadvance⟩ := advance_append start (toString k).toList rest
  refine ⟨offset', ?_⟩
  change Except.ok (float32OfDecimal _ _ _, _) = _
  rw [Single.float32OfDecimal_eq hk, hadvance]

end Reading

/-! ## Writing -/

section Written

variable {x : Float32} {k : Int}

/-- The text of a rounded value: its digits if it is whole. -/
def roundedText : BinaryValue → String
  | .infinite negative => toString (wholeClamped (.infinite negative))
  | value => if isWhole value then toString (wholeClamped value) else positionalText value

/-- A whole number that is rounded to hundredths keeps the text of its integer. -/
theorem roundedText_whole (h : Single.IsWhole x k) : roundedText (value32 x) = toString k := by
  rw [roundedText.eq_def]
  split
  next hinf =>
    have hwhole := h.isWhole_value32
    rw [hinf] at hwhole
    exact absurd hwhole Bool.false_ne_true
  next => rw [if_pos h.isWhole_value32, h.wholeClamped_value32]

/-- **Every coordinate is rounded to hundredths.** A whole number that is written at once has the
text it would be given by rounding. -/
theorem coordinateText_eq (x : Float32) :
    coordinateText x = roundedText (value32 (round32 (x * 100.0) / 100.0)) := by
  rw [coordinateText]
  split
  next hplain =>
    rw [Bool.and_eq_true, decide_eq_true_iff, plainBound] at hplain
    have hwhole := Single.isWhole_of_value32 hplain.1 (by omega)
    rw [roundedText_whole (hwhole.hundredths (by rw [Int.abs_eq_natAbs]; omega))]
  next =>
    generalize value32 (round32 (x * 100.0) / 100.0) = rounded
    cases rounded <;> rfl

/-- **A whole coordinate is written with its digits.** -/
theorem coordinateText_whole (h : Single.IsWhole x k) (hle : |k * 100| ≤ 2 ^ 24) :
    coordinateText x = toString k :=
  (coordinateText_eq x).trans (roundedText_whole (h.hundredths hle))

end Written

end Flowchart
