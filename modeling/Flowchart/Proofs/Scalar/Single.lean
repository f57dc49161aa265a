import Mathlib.Tactic.Linarith
import Mathlib.Tactic.Ring
import Flowchart.Proofs.Scalar.Whole

/-!
# Whole numbers in single precision

A single precision number has a mantissa of 24 bits, so every whole number up to `2 ^ 24` is one,
and the sum of two whole numbers is computed exactly when it is no larger than that.
-/

namespace Flowchart.Single

open Float.Model Float.Model.UnpackedFloat

/-! ## Mantissas and exponents -/

/-- The value of a mantissa with an exponent. -/
def value (m : Nat) (e : Int) : Rat := m * 2 ^ e

/-- A mantissa that is shifted to the left has the value of a larger exponent. -/
theorem value_shift (m n : Nat) (e : Int) : value (m * 2 ^ n) e = value m (e + n) := by
  unfold value
  rw [zpow_add₀ (by decide), zpow_natCast]
  push_cast
  ring

/-- Two mantissas with the same exponent have different values. -/
theorem value_inj {m m' : Nat} {e : Int} (h : value m e = value m' e) : m = m' := by
  have hne : (2 : Rat) ^ e ≠ 0 := zpow_ne_zero _ (by decide)
  exact_mod_cast mul_right_cancel₀ hne h

/-- The position of the leading digit depends on the value only. -/
theorem totalExponent_eq {m k : Nat} {e : Int} (hk : 0 < k) (h : value m e = k) :
    totalExponent m e = k.log2 + 1 := by
  have hm : m ≠ 0 := by
    rintro rfl
    simp only [value, Nat.cast_zero, zero_mul] at h
    exact hk.ne (by exact_mod_cast h)
  have hpos : (0 : Rat) < 2 ^ e := zpow_pos (by decide) _
  have hlow : (2 : Rat) ^ ((m.log2 : Int) + e) ≤ k := by
    rw [← h, value, zpow_add₀ (by decide), zpow_natCast]
    exact mul_le_mul_of_nonneg_right (by exact_mod_cast Nat.log2_self_le hm) hpos.le
  have hhigh : (k : Rat) < 2 ^ ((m.log2 : Int) + 1 + e) := by
    rw [← h, value, zpow_add₀ (by decide)]
    exact mul_lt_mul_of_pos_right (by exact_mod_cast Nat.lt_log2_self) hpos
  have hlow' : (2 : Rat) ^ (k.log2 : Int) ≤ k := by
    rw [zpow_natCast]
    exact_mod_cast Nat.log2_self_le hk.ne'
  have hhigh' : (k : Rat) < 2 ^ ((k.log2 : Int) + 1) := by
    exact_mod_cast Nat.lt_log2_self
  have h1 := (zpow_lt_zpow_iff_right₀ (by decide : (1 : Rat) < 2)).mp (hlow.trans_lt hhigh')
  have h2 := (zpow_lt_zpow_iff_right₀ (by decide : (1 : Rat) < 2)).mp (hlow'.trans_lt hhigh)
  unfold totalExponent
  omega

/-- Shifting trailing zeros out of a mantissa loses nothing. -/
theorem shiftRight_exact (m n : Nat) :
    (⟨m * 2 ^ n, false, false⟩ : ExtendedMantissa) >>> n = ⟨m, false, false⟩ := by
  change n.repeat ExtendedMantissa.shiftRightOne _ = _
  induction n generalizing m with
  | zero => simp [Nat.repeat]
  | succ n ih =>
    have h := ih (m * 2)
    rw [Nat.mul_assoc, ← Nat.pow_succ'] at h
    rw [Nat.repeat, h]
    simp [ExtendedMantissa.shiftRightOne]

/-- The exponent that a whole number gets. -/
def exponentOf (k : Nat) : Int := k.log2 - 23

/-- With this exponent the mantissa has 24 bits. -/
theorem log2_mantissa {n q : Nat} (hn : 0 < n) (hq : value q (exponentOf n) = n) : q.log2 = 23 := by
  have htotal := totalExponent_eq hn hq
  unfold totalExponent exponentOf at htotal
  omega

/-- A whole number up to the bound has a mantissa with this exponent. -/
theorem exists_mantissa {k : Nat} (hk : 0 < k) (hle : k ≤ 2 ^ 24) :
    exponentOf k ≤ 1 ∧ ∃ m, value m (exponentOf k) = k ∧ 0 < m := by
  have hlog : k.log2 < 25 := (Nat.log2_lt hk.ne').mpr (hle.trans_lt (by decide))
  refine ⟨by unfold exponentOf; omega, ?_⟩
  have hex : ∃ m, value m (exponentOf k) = k := by
    by_cases h : k.log2 = 24
    · obtain rfl : k = 2 ^ 24 := hle.antisymm (h ▸ Nat.log2_self_le hk.ne')
      exact ⟨2 ^ 23, by unfold value exponentOf; rw [h]; norm_num⟩
    · refine ⟨k * 2 ^ (23 - k.log2), ?_⟩
      rw [value_shift, exponentOf, value]
      have : ((k.log2 : Int) - 23 + (23 - k.log2 : Nat)) = 0 := by omega
      rw [this, zpow_zero, mul_one]
  obtain ⟨m, hm⟩ := hex
  refine ⟨m, hm, Nat.pos_of_ne_zero ?_⟩
  rintro rfl
  simp only [value, Nat.cast_zero, zero_mul] at hm
  exact hk.ne (by exact_mod_cast hm)

/-- Mantissas have 24 bits, and no exponent is less than that of the smallest number. -/
theorem targetExponent_single (e : Int) :
    Format.binary32.targetExponent e = max (e - 24) (-149) := rfl

/-- The exponent that a number is brought to depends on the number only, not on how it came
about. -/
theorem targetExponent_eq {m k : Nat} {e : Int} (hk : 0 < k) (h : value m e = k) :
    Format.binary32.targetExponent (totalExponent m e) = exponentOf k := by
  rw [totalExponent_eq hk h, targetExponent_single, exponentOf]
  omega

/-! ## Rounding -/

/-- A mantissa whose exponent is not too large is shifted to the exponent of its value. -/
theorem shiftToTargetExponent_eq {m q k : Nat} {e : Int} (hk : 0 < k) (h : value m e = k)
    (hq : value q (exponentOf k) = k) (he : e ≤ exponentOf k) :
    shiftToTargetExponent .binary32 m e .exact = (⟨q, false, false⟩, exponentOf k) := by
  have hn : e + ((exponentOf k - e).toNat : Int) = exponentOf k := by omega
  have hm : m = q * 2 ^ (exponentOf k - e).toNat :=
    value_inj (e := e) (by rw [value_shift, hn, h, hq])
  rw [shiftToTargetExponent, targetExponent_eq hk h, shiftToExponent]
  simp only [ExtendedMantissa.ofMantissaAndAccuracy, hn]
  conv_lhs => rw [hm, shiftRight_exact]

/-- A finite number is given by its sign, mantissa and exponent, however its mantissa was shown to
be positive. -/
theorem finite_congr {s : Sign} {m m' : Nat} {e e' : Int} {hm : 0 < m} (hmantissa : m = m')
    (hexponent : e = e') :
    UnpackedFloat.finite s m e hm = .finite s m' e' (hmantissa ▸ hm) := by
  subst hmantissa hexponent
  rfl

/-- Two positive numbers, or two negative ones, are equal if their parts are. -/
theorem finite_beq_iff {s : Sign} {m m' : Nat} {e e' : Int} {h : 0 < m} {h' : 0 < m'} :
    (UnpackedFloat.finite s m e h).beq (.finite s m' e' h') = true ↔ e = e' ∧ m = m' := by
  have hthen : (compare e e').then (compare m m') = .eq ↔ e = e' ∧ m = m' := by
    rw [Ordering.then_eq_eq, compare_eq_iff_eq, compare_eq_iff_eq]
  cases s with
  | positive =>
    change (some ((compare e e').then (compare m m')) == some .eq) = true ↔ _
    rw [beq_iff_eq, Option.some.injEq, hthen]
  | negative =>
    change (some ((compare e e').then (compare m m')).swap == some .eq) = true ↔ _
    rw [beq_iff_eq, Option.some.injEq, Ordering.swap_eq_eq, hthen]

/-- A number is rounded after one shift, and is shifted once more if rounding made its mantissa
longer. -/
theorem roundWithAccuracy_of_shift {f : Format} (s : Sign) {m : Nat} {e e' e'' : Int} {a : Accuracy}
    {em em' : ExtendedMantissa} (hfirst : shiftToTargetExponent f m e a = (em, e'))
    (hsecond : shiftToTargetExponent f em.roundedMantissa e' .exact = (em', e''))
    (hpos : 0 < em'.mantissa) :
    roundWithAccuracy f s m e a = .finite s em'.mantissa e'' hpos := by
  rw [roundWithAccuracy, hfirst]
  dsimp only
  rw [hsecond]
  exact dif_neg hpos.ne'

/-- **Rounding leaves a whole number as it is.** -/
theorem roundWithAccuracy_exact (s : Sign) {m q k : Nat} {e : Int} (hk : 0 < k)
    (h : value m e = k) (he : e ≤ exponentOf k) (hq : value q (exponentOf k) = k) (hpos : 0 < q) :
    roundWithAccuracy .binary32 s m e .exact = .finite s q (exponentOf k) hpos := by
  have hfirst := shiftToTargetExponent_eq hk h hq he
  have hsecond := shiftToTargetExponent_eq hk hq hq le_rfl
  exact roundWithAccuracy_of_shift s hfirst hsecond hpos

/-- A whole number is packed with the exponent of its value, whatever exponent it had. -/
theorem round_exact (s : Sign) {m q k : Nat} {e : Int} (hk : 0 < k) (h : value m e = k)
    (hq : value q (exponentOf k) = k) (hpos : 0 < q) :
    UnpackedFloat.round .binary32 s m e = .finite s q (exponentOf k) hpos := by
  rw [UnpackedFloat.round, targetExponent_eq hk h]
  refine roundWithAccuracy_exact s hk ?_ (by omega) hq hpos
  rw [Nat.shiftLeft_eq, value_shift, ← h]
  congr 1
  omega

/-! ## Whole numbers -/

/-- An unpacked number shows a whole number up to the bound. -/
inductive Shows : UnpackedFloat → Int → Prop where
  /-- either zero shows zero -/
  | zero (s : Sign) : Shows (.zero s) 0
  /-- the mantissa has 24 bits -/
  | finite (s : Sign) {n q : Nat} (hn : 0 < n) (hle : n ≤ 2 ^ 24) (hq : value q (exponentOf n) = n)
    (hpos : 0 < q) : Shows (.finite s q (exponentOf n) hpos) (s.apply n)

/-- The negative of a number that shows a whole one shows the negative of that. -/
theorem Shows.neg {u : UnpackedFloat} {k : Int} (h : Shows u k) : Shows u.neg (-k) := by
  cases h with
  | zero s => exact .zero (-s)
  | @finite s n q hn hle hq hpos =>
    have happly : -(s.apply n) = (-s).apply n := by
      cases s
      · exact Int.neg_neg _
      · rfl
    rw [happly]
    exact .finite (-s) hn hle hq hpos

/-- Comparison with zero reads the sign, and it does not matter which of the two zeros is compared
with. -/
theorem Shows.lt_zero {u : UnpackedFloat} {k : Int} (h : Shows u k) (s : Sign) :
    u.lt (.zero s) = true ↔ k < 0 := by
  cases h with
  | zero s' => cases s <;> cases s' <;> decide
  | @finite s' n q hn hle hq hpos =>
    cases s'
    · have hlt : (UnpackedFloat.finite .negative q (exponentOf n) hpos).lt (.zero s) = true := rfl
      rw [hlt]
      simpa [Sign.apply] using hn
    · have hlt : (UnpackedFloat.finite .positive q (exponentOf n) hpos).lt (.zero s) = false := rfl
      rw [hlt]
      simp [Sign.apply]

/-- A whole number is rounded to itself, with the sign it is given. -/
theorem roundWithAccuracy_shows (s : Sign) {m k : Nat} {e : Int} (hk : 0 < k) (hle : k ≤ 2 ^ 24)
    (h : value m e = k) (he : e ≤ exponentOf k) :
    Shows (roundWithAccuracy .binary32 s m e .exact) (s.apply k) := by
  obtain ⟨-, q, hq, hpos⟩ := exists_mantissa hk hle
  rw [roundWithAccuracy_exact s hk h he hq hpos]
  exact .finite s hk hle hq hpos

/-- A whole number up to the bound is rounded to itself, whatever mantissa and exponent it is given
by. -/
theorem round_shows (s : Sign) {m k : Nat} {e : Int} (hk : 0 < k) (hle : k ≤ 2 ^ 24)
    (h : value m e = k) : Shows (UnpackedFloat.round .binary32 s m e) (s.apply k) := by
  obtain ⟨-, q, hq, hpos⟩ := exists_mantissa hk hle
  rw [round_exact s hk h hq hpos]
  exact .finite s hk hle hq hpos

private theorem cast_toNat {x : Int} (h : 0 ≤ x) : ((x.toNat : Nat) : Rat) = x := by
  rw [← Int.cast_natCast, Int.toNat_of_nonneg h]

/-- A whole number of either sign is normalized without loss. -/
theorem normalize_shows {m k : Int} {e : Int} (h : (m : Rat) * 2 ^ e = k) (hle : |k| ≤ 2 ^ 24) :
    Shows (UnpackedFloat.normalize .binary32 m e .positive) k := by
  have hpow : (0 : Rat) < 2 ^ e := zpow_pos (by decide) _
  rcases lt_trichotomy m 0 with hm | rfl | hm
  · have hk : k < 0 := by
      have : (k : Rat) < 0 := h ▸ mul_neg_of_neg_of_pos (by exact_mod_cast hm) hpow
      exact_mod_cast this
    have hval : value (-m).toNat e = (-k).toNat := by
      rw [value, cast_toNat (by omega), cast_toNat (by omega), Int.cast_neg, Int.cast_neg, ← h,
        neg_mul]
    have hshow := round_shows .negative (by omega) (by have := abs_of_neg hk; omega) hval
    have happly : Sign.negative.apply (-k).toNat = k := by
      change -(((-k).toNat : Nat) : Int) = k
      omega
    have hcmp : compare m 0 = .lt := compare_lt_iff_lt.mpr hm
    rw [happly] at hshow
    simpa only [UnpackedFloat.normalize, hcmp] using hshow
  · have hk : k = 0 := by
      have : (k : Rat) = 0 := by rw [← h, Int.cast_zero, zero_mul]
      exact_mod_cast this
    subst hk
    exact .zero .positive
  · have hk : 0 < k := by
      have : (0 : Rat) < k := h ▸ mul_pos (by exact_mod_cast hm) hpow
      exact_mod_cast this
    have hval : value m.toNat e = k.toNat := by
      rw [value, cast_toNat hm.le, cast_toNat hk.le, h]
    have hshow := round_shows .positive (by omega) (by have := abs_of_pos hk; omega) hval
    have happly : Sign.positive.apply k.toNat = k := Int.toNat_of_nonneg hk.le
    have hcmp : compare m 0 = .gt := compare_gt_iff_gt.mpr hm
    rw [happly] at hshow
    simpa only [UnpackedFloat.normalize, hcmp] using hshow

/-- A signed mantissa brought to a smaller exponent. -/
theorem apply_shift (s : Sign) (m : Nat) {e t : Int} (h : t ≤ e) :
    ((s.apply (m <<< (e - t).toNat : Nat) : Int) : Rat) * 2 ^ t = (s.apply m : Int) * 2 ^ e := by
  have hval : value (m <<< (e - t).toNat) t = value m e := by
    rw [Nat.shiftLeft_eq, value_shift]
    congr 1
    omega
  unfold value at hval
  cases s
  · simp only [Sign.apply, Int.cast_neg, neg_mul, Int.cast_natCast, hval]
  · simpa only [Sign.apply, Int.cast_natCast] using hval

theorem apply_value (s : Sign) {n q : Nat} (hq : value q (exponentOf n) = n) :
    ((s.apply q : Int) : Rat) * 2 ^ exponentOf n = (s.apply n : Int) := by
  unfold value at hq
  cases s
  · simp only [Sign.apply, Int.cast_neg, neg_mul, Int.cast_natCast, hq]
  · simpa only [Sign.apply, Int.cast_natCast] using hq

/-- A mantissa brought to a smaller exponent still shows its number. -/
theorem apply_aligned (s : Sign) {n q : Nat} (hq : value q (exponentOf n) = n) {t : Int}
    (ht : t ≤ exponentOf n) :
    ((s.apply (q <<< (exponentOf n - t).toNat : Nat) : Int) : Rat) * 2 ^ t = (s.apply n : Int) :=
  (apply_shift s q ht).trans (apply_value s hq)

/-- **The sum of two whole numbers is exact** up to the bound. -/
theorem Shows.add {u v : UnpackedFloat} {a b : Int} (hu : Shows u a) (hv : Shows v b)
    (hle : |a + b| ≤ 2 ^ 24) : Shows (UnpackedFloat.add .binary32 u v) (a + b) := by
  cases hu with
  | zero s =>
    cases hv with
    | zero s' => cases s <;> cases s' <;> exact .zero _
    | @finite s' n q hn hle' hq hpos =>
      rw [zero_add]
      exact .finite s' hn hle' hq hpos
  | @finite s n q hn hle' hq hpos =>
    cases hv with
    | zero s' =>
      rw [add_zero]
      exact .finite s hn hle' hq hpos
    | @finite s' n' q' hn' hle'' hq' hpos' =>
      refine normalize_shows ?_ hle
      rw [Int.cast_add, add_mul, apply_aligned s hq (min_le_left _ _),
        apply_aligned s' hq' (min_le_right _ _), Int.cast_add]

/-- One, unpacked. -/
def one : UnpackedFloat := .finite .positive (2 ^ 23) (-23) (by decide)

/-- Multiplying by one leaves a whole number as it is. -/
theorem Shows.mul_one {u : UnpackedFloat} {k : Int} (h : Shows u k) :
    Shows (UnpackedFloat.mul .binary32 u one) k := by
  cases h with
  | zero s => exact .zero _
  | @finite s n q hn hle hq hpos =>
    have hs : s * Sign.positive = s := by cases s <;> rfl
    have hval : value (q * 2 ^ 23) (exponentOf n + -23) = n := by
      rw [value_shift, ← hq]
      congr 1
      omega
    have hmul : UnpackedFloat.mul .binary32 (.finite s q (exponentOf n) hpos) one =
        roundWithAccuracy .binary32 (s * .positive) (q * 2 ^ 23) (exponentOf n + -23) .exact := rfl
    rw [hmul, hs]
    exact roundWithAccuracy_shows s hn hle hval (by omega)

/-! ## Packing -/

/-- The sign of a number is read from where it was stored. -/
theorem unpackSign_packComponents {f : Format} {s : Sign} {e : BitVec f.exponentBits}
    {m : BitVec f.mantissaBitsWithoutImplicit} :
    unpackSign (packComponents f s e m) = s.toBitVec := by
  ext i hi
  obtain rfl : i = 0 := by omega
  delta unpackSign
  simp [packComponents, BitVec.getLsbD_append, BitVec.getElem_append]

theorem ofBitVec_toBitVec (s : Sign) : Sign.ofBitVec s.toBitVec = s := by
  cases s <;> rfl

/-- The leading digit of a mantissa is not stored; put in front again, it gives back the whole
mantissa. -/
theorem toNat_append_mantissa {q : Nat} (h : q.log2 = 23) :
    (1#1 ++ BitVec.ofNat 23 q).toNat = q := by
  have hne : q ≠ 0 := by
    rintro rfl
    simp at h
  obtain ⟨hlow, hhigh⟩ := (Nat.log2_eq_iff hne).mp h
  rw [BitVec.toNat_append, ← Nat.shiftLeft_add_eq_or_of_lt (BitVec.isLt _)]
  simp only [BitVec.toNat_ofNat, Nat.shiftLeft_eq]
  omega

/-- By how much stored exponents are larger than exponents. -/
theorem exponentBias_single : (Format.binary32.exponentBias : Int) +
    Format.binary32.mantissaBitsWithoutImplicit = 150 := by decide

/-- A stored number whose exponent is neither the least nor the largest one is unpacked with its
leading digit. -/
theorem unpack_of_parts {b : BitVec 32} {s : Sign} {e : BitVec 8} {m : BitVec 23} {q : Nat} {i : Int}
    (hsign : Sign.ofBitVec (@unpackSign .binary32 b) = s) (hexponent : @unpackExponent .binary32 b = e)
    (hmantissa : @unpackMantissa .binary32 b = m) (hones : e ≠ -1#8) (hzero : e ≠ 0#8)
    (hq : (1#1 ++ m).toNat = q) (hi : (e.toNat : Int) - (Format.binary32.exponentBias +
      Format.binary32.mantissaBitsWithoutImplicit) = i) (hpos : 0 < q) :
    UnpackedFloat.unpack .binary32 b = .finite s q i hpos := by
  subst hsign hexponent hmantissa hq hi
  exact (if_neg hones).trans (if_neg hzero)

/-- Nothing is lost when a number with a full mantissa is packed. -/
theorem unpack_pack_normal (s : Sign) {q : Nat} {e : Int} (hpos : 0 < q) (hlog : q.log2 = 23)
    (hlow : -149 ≤ e) (hhigh : e < 105) :
    UnpackedFloat.unpack .binary32 (UnpackedFloat.pack .binary32 (.finite s q e hpos)) =
      .finite s q e hpos := by
  obtain ⟨b, hb⟩ : ∃ b : Nat, (b : Int) = e + 150 := ⟨(e + 150).toNat, by omega⟩
  have hbiased : (e + Format.binary32.exponentBias +
      Format.binary32.mantissaBitsWithoutImplicit).toNat = b := by
    rw [Int.add_assoc, exponentBias_single]
    omega
  have hbits : UnpackedFloat.pack .binary32 (.finite s q e hpos) =
      packComponents .binary32 s (BitVec.ofNat 8 b) (BitVec.ofNat 23 q) := by
    have hfits : ¬ 2 ^ Format.binary32.exponentBits ≤ b + 1 := by
      change ¬ 256 ≤ b + 1
      omega
    have hnormal : q.log2 + 1 = Format.binary32.mantissaBits := by rw [hlog]; rfl
    delta UnpackedFloat.pack
    simp only [hbiased, if_neg hfits, if_pos hnormal]
  have hbval : (BitVec.ofNat 8 b).toNat = b := by
    rw [BitVec.toNat_ofNat, Nat.mod_eq_of_lt (by omega)]
  have hones : BitVec.ofNat 8 b ≠ -1#8 := fun he => by
    have := congrArg BitVec.toNat he
    rw [hbval] at this
    have h255 : (-1#8).toNat = 255 := by decide
    omega
  have hzero : BitVec.ofNat 8 b ≠ 0#8 := fun he => by
    have := congrArg BitVec.toNat he
    rw [hbval] at this
    have h0 : (0#8).toNat = 0 := rfl
    omega
  have hexponent : ((BitVec.ofNat 8 b).toNat : Int) - (Format.binary32.exponentBias +
      Format.binary32.mantissaBitsWithoutImplicit) = e := by
    rw [hbval, exponentBias_single]
    omega
  rw [hbits]
  exact unpack_of_parts (by rw [unpackSign_packComponents, ofBitVec_toBitVec])
    unpackExponent_packComponents unpackMantissa_packComponents hones hzero
    (toNat_append_mantissa hlog) hexponent hpos

/-- Nothing is lost when a whole number is packed. -/
theorem Shows.unpack_pack {u : UnpackedFloat} {k : Int} (h : Shows u k) :
    UnpackedFloat.unpack .binary32 (UnpackedFloat.pack .binary32 u) = u := by
  cases h with
  | zero s => cases s <;> rfl
  | @finite s n q hn hle hq hpos =>
    have hexp := (exists_mantissa hn hle).1
    have hlow : -23 ≤ exponentOf n := by
      unfold exponentOf
      omega
    exact unpack_pack_normal s hpos (log2_mantissa hn hq) (by omega) (by omega)

/-! ## Single precision numbers -/

/-- A single precision number is a whole number up to the bound. -/
def IsWhole (x : Float32) (k : Int) : Prop := Shows x.toModel.unpack k

/-- A whole number is the same after it was packed and unpacked. -/
theorem Shows.unpack_ofModel {u : UnpackedFloat} {k : Int} (h : Shows u k) :
    (Float32.ofModel (.pack u)).toModel.unpack = u := by
  change UnpackedFloat.unpack .binary32
    (UInt32.ofBitVec (UnpackedFloat.pack .binary32 u)).toBitVec = u
  rw [UInt32.toBitVec_ofBitVec, h.unpack_pack]

theorem Shows.isWhole {u : UnpackedFloat} {k : Int} (h : Shows u k) :
    IsWhole (.ofModel (.pack u)) k := by
  rw [IsWhole, h.unpack_ofModel]
  exact h

namespace IsWhole

variable {x y : Float32} {a b : Int}

/-- Whole numbers are negated exactly, since only the sign changes. -/
theorem neg (h : IsWhole x a) : IsWhole (-x) (-a) := (Shows.neg h).isWhole

/-- **Whole numbers are added exactly** up to the bound. -/
theorem add (hx : IsWhole x a) (hy : IsWhole y b) (hle : |a + b| ≤ 2 ^ 24) :
    IsWhole (x + y) (a + b) := (Shows.add hx hy hle).isWhole

/-- A whole number is compared with zero as its integer is. -/
theorem lt_zero (h : IsWhole x a) : x < 0.0 ↔ a < 0 := by
  have hzero : (0.0 : Float32).toModel.unpack = .zero .positive := rfl
  have hlt : x < 0.0 ↔ x.toModel.unpack.lt (0.0 : Float32).toModel.unpack = true :=
    decide_eq_true_iff
  rw [hlt, hzero]
  exact Shows.lt_zero h .positive

/-- A natural number up to the bound is converted without loss, as a machine word that is multiplied
by one. -/
theorem ofNat {n : Nat} (h : n ≤ 2 ^ 24) : IsWhole (.ofNat n) n := by
  change IsWhole (Float32.ofScientific n false 0) n
  unfold Float32.ofScientific
  split
  · have hnorm : Shows (UnpackedFloat.ofNat .binary32 n.toUInt64.toNat) n := by
      have hn : n.toUInt64.toNat = n := by
        rw [Nat.toUInt64_eq, UInt64.toNat_ofNat', Nat.mod_eq_of_lt (by omega)]
      rw [hn]
      refine normalize_shows (by simp) ?_
      rw [Nat.abs_cast]
      exact_mod_cast h
    have hone : Float32.exactlyRepresentablePowersOfTen[0].toModel.unpack = one := rfl
    have hmul := (Shows.mul_one hnorm.isWhole).isWhole
    rw [← hone] at hmul
    exact hmul
  · rename_i hlarge
    have hpos : 0 < n := by omega
    have hval : value (n <<< 24 * 10 ^ 0) (-24 + 0) = n := by
      rw [Nat.pow_zero, Nat.mul_one, Nat.shiftLeft_eq, value_shift]
      simp [value]
    have hexp : (-24 : Int) + 0 ≤ exponentOf n := by
      unfold exponentOf
      omega
    have hshow := roundWithAccuracy_shows .positive hpos h hval hexp
    refine Shows.isWhole (u := UnpackedFloat.ofScientific .binary32 n 0) ?_
    have hnot : ¬ (0 : Int) > 2 ^ Format.binary32.exponentBits := by decide
    have hnot' : ¬ (0 : Int) < -((2 ^ Format.binary32.exponentBits : Int) + n.log2) := by
      have : (2 : Int) ^ Format.binary32.exponentBits = 256 := by decide
      omega
    rw [UnpackedFloat.ofScientific, dif_neg hpos.ne', if_neg hnot, if_neg hnot', if_pos le_rfl]
    exact hshow

end IsWhole

/-- Single precision numbers read as whole numbers. -/
def wholeReading : WholeReading Float32 :=
  ⟨IsWhole, 2 ^ 24, IsWhole.add, IsWhole.neg, IsWhole.lt_zero⟩

end Flowchart.Single
