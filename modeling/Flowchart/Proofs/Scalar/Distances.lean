import Flowchart.Geometry.Point
import Flowchart.Proofs.Scalar.Integers
import Flowchart.Proofs.Scalar.Nonneg

/-!
# Distances of whole points

Two points whose coordinates are whole numbers are the same or at least one apart. Rounded
arithmetic keeps the two cases apart, whatever the size of the coordinates: on the way from the
coordinates to the distance nothing that is at least one is rounded to less than one.
-/

namespace Flowchart.Single

open Float.Model Float.Model.UnpackedFloat

/-! ## Rounding -/

/-- The size of a number is at least one; its mantissa is full then. -/
inductive AtLeastOne (s : Sign) : UnpackedFloat → Prop where
  /-- the last digit of the mantissa counts `2 ^ -23` or more -/
  | finite {m : Nat} {e : Int} (hlow : 2 ^ 23 ≤ m) (hhigh : m < 2 ^ 24) (he : -23 ≤ e)
    (hpos : 0 < m) : AtLeastOne s (.finite s m e hpos)
  /-- what numbers that are too large become -/
  | infinity : AtLeastOne s (.infinity s)

theorem mantissa_shiftRight (em : ExtendedMantissa) (n : Nat) :
    (em >>> n).mantissa = em.mantissa / 2 ^ n := by
  change (n.repeat ExtendedMantissa.shiftRightOne em).mantissa = _
  induction n with
  | zero => exact (Nat.div_one _).symm
  | succ n ih =>
    rw [Nat.repeat, Nat.pow_succ, ← Nat.div_div_eq_div_mul, ← ih]
    rfl

theorem mantissa_ofMantissaAndAccuracy (m : Nat) (a : Accuracy) :
    (ExtendedMantissa.ofMantissaAndAccuracy m a).mantissa = m := by
  rcases a with _ | (_ | _ | _) <;> rfl

/-- Rounding adds at most one to the mantissa. -/
theorem roundedMantissa_mem (em : ExtendedMantissa) :
    em.mantissa ≤ em.roundedMantissa ∧ em.roundedMantissa ≤ em.mantissa + 1 := by
  obtain ⟨m, r, s⟩ := em
  have hbit := Nat.mod_lt m two_pos
  cases r <;> cases s <;>
    simp only [ExtendedMantissa.roundedMantissa, ExtendedMantissa.accuracy,
      Accuracy.roundToNearestEven] <;> omega

/-- The exponent of a full mantissa, if the leading digit counts one or more. -/
theorem targetExponent_of_one_le {m : Nat} {e : Int} (he : 0 ≤ m.log2 + e) :
    Format.binary32.targetExponent (totalExponent m e) = m.log2 + e - 23 := by
  rw [targetExponent_single, totalExponent]
  omega

/-- A mantissa that is long enough is shifted to a full one. -/
theorem shiftToTargetExponent_full {m : Nat} {e : Int} (a : Accuracy) (hm : 2 ^ 23 ≤ m)
    (he : 0 ≤ m.log2 + e) :
    ∃ em, shiftToTargetExponent .binary32 m e a = (em, m.log2 + e - 23) ∧
      2 ^ 23 ≤ em.mantissa ∧ em.mantissa < 2 ^ 24 := by
  have hne : m ≠ 0 := by omega
  have hlog : 23 ≤ m.log2 := (Nat.le_log2 hne).mpr hm
  have hamount : ((m.log2 : Int) + e - 23 - e).toNat = m.log2 - 23 := by omega
  rw [shiftToTargetExponent, targetExponent_of_one_le he, shiftToExponent]
  simp only [hamount]
  refine ⟨_, Prod.ext rfl (by dsimp only; omega), ?_⟩
  rw [mantissa_shiftRight, mantissa_ofMantissaAndAccuracy]
  constructor
  · rw [Nat.le_div_iff_mul_le (by positivity), ← pow_add, Nat.add_sub_cancel' hlog]
    exact Nat.log2_self_le hne
  · rw [Nat.div_lt_iff_lt_mul (by positivity), ← pow_add]
    exact Nat.lt_log2_self.trans_eq (congrArg _ (by omega))

/-- **What is at least one is not rounded to less.** The rounded mantissa may be one bit longer, and
it is shifted once more then. -/
theorem roundWithAccuracy_atLeastOne (s : Sign) {m : Nat} {e : Int} (a : Accuracy)
    (hm : 2 ^ 23 ≤ m) (he : 0 ≤ m.log2 + e) :
    AtLeastOne s (roundWithAccuracy .binary32 s m e a) := by
  obtain ⟨em, hfirst, hlow, hhigh⟩ := shiftToTargetExponent_full a hm he
  obtain ⟨hrounded, hrounded'⟩ := roundedMantissa_mem em
  -- the rounded mantissa may be one bit longer, and is shifted once more then
  have hlog : 23 ≤ em.roundedMantissa.log2 := (Nat.le_log2 (by omega)).mpr (by omega)
  obtain ⟨em', hsecond, hlow', hhigh'⟩ := shiftToTargetExponent_full (m := em.roundedMantissa)
    (e := m.log2 + e - 23) .exact (by omega) (by omega)
  rw [roundWithAccuracy_of_shift s hfirst hsecond (by omega)]
  exact .finite hlow' hhigh' (by omega) _

theorem log2_shiftLeft {m : Nat} (hm : 0 < m) (n : Nat) : (m <<< n).log2 = m.log2 + n := by
  rw [Nat.shiftLeft_eq, Nat.log2_eq_iff (by positivity), Nat.add_right_comm, pow_add, pow_add]
  exact ⟨Nat.mul_le_mul_right _ (Nat.log2_self_le hm.ne'),
    Nat.mul_lt_mul_of_pos_right Nat.lt_log2_self (by positivity)⟩

theorem round_atLeastOne (s : Sign) {m : Nat} {e : Int} (hm : 0 < m) (he : 0 ≤ m.log2 + e) :
    AtLeastOne s (UnpackedFloat.round .binary32 s m e) := by
  have hamount : (e - ((m.log2 : Int) + e - 23)).toNat = 23 - m.log2 := by omega
  have hlog := log2_shiftLeft hm (23 - m.log2)
  rw [UnpackedFloat.round, targetExponent_of_one_le he, decreaseExponent]
  simp only [hamount]
  refine roundWithAccuracy_atLeastOne s .exact ?_ (by omega)
  exact (Nat.le_log2 (by rw [Nat.shiftLeft_eq]; positivity)).mp (by omega)

/-- A whole number other than zero is at least one, however large it is. -/
theorem normalize_atLeastOne {m e k : Int} (h : (m : Rat) * 2 ^ e = k) (hk : k ≠ 0) :
    ∃ s, AtLeastOne s (UnpackedFloat.normalize .binary32 m e .positive) := by
  have hval : value m.natAbs e = k.natAbs := by
    have hpow : |(2 : Rat) ^ e| = 2 ^ e := abs_of_pos (zpow_pos two_pos e)
    rw [value, Nat.cast_natAbs, Nat.cast_natAbs, Int.cast_abs, Int.cast_abs, ← h, abs_mul, hpow]
  have hlog := totalExponent_eq (Int.natAbs_pos.mpr hk) hval
  unfold totalExponent at hlog
  rw [UnpackedFloat.normalize]
  rcases lt_trichotomy m 0 with hm | rfl | hm
  · have habs : (-m).toNat = m.natAbs := by omega
    rw [compare_lt_iff_lt.mpr hm]
    dsimp only
    rw [habs]
    exact ⟨.negative, round_atLeastOne _ (by omega) (by omega)⟩
  · rw [Int.cast_zero, zero_mul] at h
    exact absurd (by exact_mod_cast h.symm) hk
  · have habs : m.toNat = m.natAbs := by omega
    rw [compare_gt_iff_gt.mpr hm]
    dsimp only
    rw [habs]
    exact ⟨.positive, round_atLeastOne _ (by omega) (by omega)⟩

/-! ## Operations -/

section Operations

variable {u v : UnpackedFloat} {s t : Sign} {a b : Int}

/-- The difference of two whole numbers that are not equal. -/
theorem Shows.sub_atLeastOne (hu : Shows u a) (hv : Shows v b) (hne : a ≠ b) :
    ∃ s, AtLeastOne s (UnpackedFloat.sub .binary32 u v) := by
  have hfull {n q : Nat} (hn : 0 < n) (hq : value q (exponentOf n) = n) (hpos : 0 < q) (s : Sign) :
      AtLeastOne s (.finite s q (exponentOf n) hpos) := by
    obtain ⟨hlow, hhigh⟩ := (Nat.log2_eq_iff hpos.ne').mp (log2_mantissa hn hq)
    exact .finite hlow hhigh (by unfold exponentOf; omega) hpos
  cases hu with
  | zero s =>
    cases hv with
    | zero s' => exact absurd rfl hne
    | @finite s' n q hn hle hq hpos => exact ⟨-s', hfull hn hq hpos _⟩
  | @finite s n q hn hle hq hpos =>
    cases hv with
    | zero s' => exact ⟨s, hfull hn hq hpos s⟩
    | @finite s' n' q' hn' hle' hq' hpos' =>
      refine normalize_atLeastOne ?_ (sub_ne_zero.mpr hne)
      rw [Int.cast_sub, sub_mul, apply_aligned s hq (min_le_left _ _),
        apply_aligned s' hq' (min_le_right _ _), Int.cast_sub]

/-- The difference of two whole numbers that are equal. -/
theorem Shows.sub_self (hu : Shows u a) (hv : Shows v a) :
    ∃ s, UnpackedFloat.sub .binary32 u v = .zero s := by
  by_cases ha : a = 0
  · subst ha
    obtain ⟨s, rfl⟩ := hu.eq_zero
    obtain ⟨s', rfl⟩ := hv.eq_zero
    cases s <;> cases s' <;> exact ⟨_, rfl⟩
  · obtain rfl := hu.unique hv ha
    cases hu with
    | zero s => exact absurd rfl ha
    | @finite s n q hn hle hq hpos =>
      delta UnpackedFloat.sub
      dsimp only
      rw [Int.sub_self]
      exact ⟨.positive, rfl⟩

theorem AtLeastOne.square (h : AtLeastOne s u) :
    AtLeastOne .positive (UnpackedFloat.mul .binary32 u u) := by
  have hsign : s * s = .positive := by cases s <;> rfl
  cases h with
  | @finite m e hlow hhigh he hpos =>
    have hlow' : 2 ^ 46 ≤ m * m := (Nat.mul_le_mul hlow hlow).trans_eq' (by norm_num)
    have hlog : 46 ≤ (m * m).log2 := (Nat.le_log2 (by omega)).mpr hlow'
    rw [← hsign]
    exact roundWithAccuracy_atLeastOne _ _ (by omega) (by omega)
  | infinity =>
    rw [← hsign]
    exact .infinity

/-- The sum of two numbers that are at least one is at least one, for its mantissa is at least as
long as that of the first number. -/
theorem AtLeastOne.add (hu : AtLeastOne .positive u) (hv : AtLeastOne .positive v) :
    AtLeastOne .positive (UnpackedFloat.add .binary32 u v) := by
  cases hu with
  | infinity => cases hv <;> exact .infinity
  | @finite m e hlow hhigh he hpos =>
    cases hv with
    | infinity => exact .infinity
    | @finite m' e' hlow' hhigh' he' hpos' =>
      delta UnpackedFloat.add
      dsimp only [decreaseExponent, Sign.apply]
      rw [UnpackedFloat.normalize, ← Nat.cast_add]
      have hlog := log2_shiftLeft hpos (e - min e e').toNat
      have hlog' : 23 ≤ m.log2 := (Nat.le_log2 hpos.ne').mpr hlow
      generalize m <<< (e - min e e').toNat = i at hlog
      generalize m' <<< (e' - min e e').toNat = j
      have hi : 2 ^ (m.log2 + (e - min e e').toNat) ≤ i := by
        rw [← hlog]
        refine Nat.log2_self_le ?_
        rintro rfl
        rw [Nat.log2_zero] at hlog
        omega
      have hpow := Nat.two_pow_pos (m.log2 + (e - min e e').toNat)
      have hsum := (Nat.le_log2 (n := i + j) (by omega)).mpr (hi.trans (Nat.le_add_right i j))
      rw [compare_gt_iff_gt.mpr (by omega)]
      exact round_atLeastOne _ (by omega) (by rw [Int.toNat_natCast]; omega)

/-- The square root of a number that is at least one is at least one: the root is a full mantissa,
and it has a digit in front of the point. -/
theorem AtLeastOne.sqrt (h : AtLeastOne .positive u) :
    AtLeastOne .positive (UnpackedFloat.sqrt .binary32 u) := by
  cases h with
  | infinity => exact .infinity
  | @finite m e hlow hhigh he hpos =>
    have hlog : m.log2 = 23 := (Nat.log2_eq_iff hpos.ne').mpr ⟨hlow, hhigh⟩
    have htarget : min (e.ediv 2) (Format.binary32.targetExponent
        ((totalExponent m e + 1).ediv 2)) = (e + 25) / 2 - 24 := by
      change min (e / 2) (Format.binary32.targetExponent ((totalExponent m e + 1) / 2)) = _
      rw [targetExponent_single, totalExponent, hlog]
      omega
    delta UnpackedFloat.sqrt
    dsimp only [sqrtCore]
    rw [htarget]
    generalize ht : (e + 25) / 2 - 24 = t
    have hlong {n : Nat} (hn : n ≤ 23 + (e - 2 * t).toNat) : 2 ^ n ≤ m <<< (e - 2 * t).toNat := by
      refine (Nat.le_log2 (by rw [Nat.shiftLeft_eq]; positivity)).mp ?_
      rw [log2_shiftLeft hpos, hlog]
      exact hn
    have hroot : 2 ^ 23 ≤ (m <<< (e - 2 * t).toNat).sqrt := by
      rw [Nat.le_sqrt, ← pow_add]
      exact hlong (by omega)
    have hroot' : 2 ^ (-t).toNat ≤ (m <<< (e - 2 * t).toNat).sqrt := by
      rw [Nat.le_sqrt, ← pow_add]
      exact hlong (by omega)
    refine roundWithAccuracy_atLeastOne _ _ hroot ?_
    have hpoint := (Nat.le_log2 (by omega)).mpr hroot'
    omega

/-- Packing makes numbers that are too large infinite, and no number small. -/
theorem AtLeastOne.unpack_pack (h : AtLeastOne s u) :
    AtLeastOne s (UnpackedFloat.unpack .binary32 (UnpackedFloat.pack .binary32 u)) := by
  cases h with
  | infinity => cases s <;> exact .infinity
  | @finite m e hlow hhigh he hpos =>
    by_cases hlarge : e < 105
    · have hlog : m.log2 = 23 := (Nat.log2_eq_iff hpos.ne').mpr ⟨hlow, hhigh⟩
      rw [unpack_pack_normal s hpos hlog (by omega) hlarge]
      exact .finite hlow hhigh he hpos
    · have hfull : 2 ^ Format.binary32.exponentBits ≤ (e + Format.binary32.exponentBias +
          Format.binary32.mantissaBitsWithoutImplicit).toNat + 1 := by
        rw [Int.add_assoc, exponentBias_single]
        change 256 ≤ _
        omega
      delta UnpackedFloat.pack
      dsimp only
      rw [if_pos hfull]
      cases s <;> exact .infinity

end Operations

/-! ## Measures -/

/-- A number that measures how far things are apart: at least one if they differ, and zero
otherwise. -/
inductive Measures (differ : Prop) : UnpackedFloat → Prop where
  | apart {u : UnpackedFloat} (h : differ) (hu : AtLeastOne .positive u) : Measures differ u
  | same (h : ¬ differ) : Measures differ (.zero .positive)

section Measures

variable {u v : UnpackedFloat} {P Q : Prop} {x y : Float32} {a b : Int}

theorem Measures.unpack_ofModel (h : Measures P u) :
    Measures P (Float32.ofModel (.pack u)).toModel.unpack := by
  change Measures P (UnpackedFloat.unpack .binary32
    (UInt32.ofBitVec (UnpackedFloat.pack .binary32 u)).toBitVec)
  rw [UInt32.toBitVec_ofBitVec]
  cases h with
  | apart h hu => exact .apart h hu.unpack_pack
  | same h => exact .same h

theorem Measures.add (hu : Measures P u) (hv : Measures Q v) :
    Measures (P ∨ Q) (UnpackedFloat.add .binary32 u v) := by
  cases hu with
  | apart h hu =>
    cases hv with
    | apart h' hv => exact .apart (.inl h) (hu.add hv)
    | same h' => cases hu with
      | finite hlow hhigh he hpos => exact .apart (.inl h) (.finite hlow hhigh he hpos)
      | infinity => exact .apart (.inl h) .infinity
  | same h =>
    cases hv with
    | apart h' hv => cases hv with
      | finite hlow hhigh he hpos => exact .apart (.inr h') (.finite hlow hhigh he hpos)
      | infinity => exact .apart (.inr h') .infinity
    | same h' => exact .same (not_or.mpr ⟨h, h'⟩)

theorem Measures.sqrt (h : Measures P u) : Measures P (UnpackedFloat.sqrt .binary32 u) := by
  cases h with
  | apart h hu => exact .apart h hu.sqrt
  | same h => exact .same h

/-- Both coordinates are whole numbers up to the bound. -/
def IsWholePoint (p : Point Float32) (k : Point Int) : Prop := IsWhole p.x k.x ∧ IsWhole p.y k.y

/-- The square of a difference measures whether two whole numbers are equal. -/
theorem measures_square (hx : IsWhole x a) (hy : IsWhole y b) :
    Measures (a ≠ b) ((x - y) * (x - y)).toModel.unpack := by
  refine Measures.unpack_ofModel
    (u := UnpackedFloat.mul .binary32 (x - y).toModel.unpack (x - y).toModel.unpack) ?_
  have hsub : (x - y).toModel.unpack = UnpackedFloat.unpack .binary32 (UnpackedFloat.pack .binary32
      (UnpackedFloat.sub .binary32 x.toModel.unpack y.toModel.unpack)) := rfl
  rw [hsub]
  by_cases heq : a = b
  · subst heq
    obtain ⟨s, hzero⟩ := Shows.sub_self hx hy
    rw [hzero, (Shows.zero s).unpack_pack]
    cases s <;> exact .same (not_not_intro rfl)
  · obtain ⟨s, hone⟩ := Shows.sub_atLeastOne hx hy heq
    exact .apart heq hone.unpack_pack.square

/-- The distance measures whether two whole points are equal. -/
theorem measures_distance {p q : Point Float32} {k l : Point Int} (hp : IsWholePoint p k)
    (hq : IsWholePoint q l) : Measures (l ≠ k) (p.distance q).toModel.unpack := by
  have hx := measures_square hq.1 hp.1
  have hy := measures_square hq.2 hp.2
  have hdiffer : (l.x ≠ k.x ∨ l.y ≠ k.y) ↔ l ≠ k := by
    rw [← not_and_or, Ne, ← Point.mk.injEq]
  rw [← hdiffer]
  exact ((hx.add hy).unpack_ofModel.sqrt).unpack_ofModel

theorem Measures.lt_iff {m : Nat} {e : Int} {hm : 0 < m} (h : Measures P u) (he : e < -23) :
    (UnpackedFloat.finite .positive m e hm).lt u = true ↔ P := by
  cases h with
  | same h => exact ⟨nofun, fun h' => absurd h' h⟩
  | apart h hu =>
    refine ⟨fun _ => h, fun _ => ?_⟩
    cases hu with
    | infinity => rfl
    | finite hlow hhigh he' hpos => exact finite_lt_iff.mpr (.inl (by omega))

/-- **Whole points are the same or far apart**: by a measure below one they are told apart. -/
theorem lt_distance_iff {p q : Point Float32} {k l : Point Int} (hp : IsWholePoint p k)
    (hq : IsWholePoint q l) {m : Nat} {e : Int} {hm : 0 < m} (he : e < -23)
    (hx : x.toModel.unpack = .finite .positive m e hm) : x < p.distance q ↔ l ≠ k := by
  rw [lt_iff, hx, (measures_distance hp hq).lt_iff he]

theorem thousandth_lt_distance {p q : Point Float32} {k l : Point Int} (hp : IsWholePoint p k)
    (hq : IsWholePoint q l) : 1e-3 < p.distance q ↔ l ≠ k :=
  lt_distance_iff (e := -33) hp hq (by decide) rfl

theorem millionth_lt_distance {p q : Point Float32} {k l : Point Int} (hp : IsWholePoint p k)
    (hq : IsWholePoint q l) : 1e-6 < p.distance q ↔ l ≠ k :=
  lt_distance_iff (e := -43) hp hq (by decide) rfl

end Measures

end Flowchart.Single
