import Flowchart.Proofs.Scalar.Integers

/-!
# Whole numbers as decimals

A whole number up to the bound is read from its digits without loss, its exact value is the whole
number that it is, and rounding leaves it alone.
-/

namespace Flowchart.Single

open Float.Model Float.Model.UnpackedFloat Decimal

variable {x : Float32} {k : Int}

/-! ## Exact values -/

/-- A mantissa and an exponent of a whole number, without fractions. -/
theorem mantissa_of_value {m n : Nat} {e : Int} (h : value m e = n) :
    (0 ≤ e → m * 2 ^ e.toNat = n) ∧ (e < 0 → m = n * 2 ^ (-e).toNat) := by
  refine ⟨fun he => ?_, fun he => ?_⟩
  · refine value_inj (e := 0) ?_
    rw [value_shift, Int.zero_add, Int.toNat_of_nonneg he, h, value, zpow_zero, mul_one]
  · refine value_inj (e := e) ?_
    rw [value_shift, Int.toNat_of_nonneg (by omega), Int.add_right_neg, h, value, zpow_zero,
      mul_one]

/-- Scaling down to a whole number leaves a quotient without a rest. -/
theorem shiftQuotient_exact {m n : Nat} {e : Int} (h : value m (-e) = n) :
    ∃ den, 0 < den ∧ BinaryFormat.shiftQuotient m 1 e = (n * den, den) := by
  obtain ⟨hup, hdown⟩ := mantissa_of_value h
  rw [BinaryFormat.shiftQuotient]
  simp only [Nat.pow_eq]
  split
  next he =>
    refine ⟨2 ^ e.toNat, by positivity, ?_⟩
    rw [Nat.one_mul]
    rcases he.eq_or_lt with rfl | he
    · simpa using hup le_rfl
    · rw [hdown (by omega), Int.neg_neg]
  next he => exact ⟨1, Nat.one_pos, by rw [hup (by omega), Nat.mul_one]⟩

theorem IsWhole.exists_value (h : IsWhole x k) : ∃ (s : Sign) (m : Nat) (e : Int) (tight : Bool),
    value32 x = .finite (s == .negative) m e tight ∧ value m e = k.natAbs ∧
      s.apply k.natAbs = k := by
  obtain ⟨tight, htight⟩ := value32_eq x
  rw [htight]
  change Shows x.toModel.unpack k at h
  generalize x.toModel.unpack = u at h
  cases h with
  | zero s =>
    refine ⟨s, 0, -149, tight, rfl, by simp [value], ?_⟩
    cases s <;> rfl
  | @finite s n q hn hle hq hpos =>
    rw [apply_natAbs]
    exact ⟨s, q, exponentOf n, tight, rfl, hq, rfl⟩

theorem IsWhole.isWhole_value32 (h : IsWhole x k) : isWhole (value32 x) = true := by
  obtain ⟨s, m, e, tight, hx, hval, -⟩ := h.exists_value
  obtain ⟨-, hdown⟩ := mantissa_of_value hval
  rw [hx, isWhole, Bool.or_eq_true, decide_eq_true_iff, beq_iff_eq, Nat.pow_eq]
  refine (le_or_gt 0 e).imp_right fun he => ?_
  rw [hdown he, Nat.mul_mod_left]

/-- The whole number that a whole value is rounded down to. -/
theorem wholeClamped_eq {s : Sign} {m n : Nat} {e : Int} {tight : Bool} (h : value m e = n) :
    wholeClamped (.finite (s == .negative) m e tight) =
      if s == .negative then max (-n : Int) (-0x8000000000000000)
      else min (n : Int) 0x7FFFFFFFFFFFFFFF := by
  obtain ⟨hup, hdown⟩ := mantissa_of_value h
  have hn : (if 0 ≤ e then (m * Nat.pow 2 e.toNat : Nat)
      else (m / Nat.pow 2 (-e).toNat : Nat) : Int) = n := by
    simp only [Nat.pow_eq]
    split
    next he => rw [hup he]
    next he => rw [hdown (by omega), Nat.mul_div_cancel _ (by positivity)]
  rw [wholeClamped, hn]

theorem IsWhole.wholeClamped_value32 (h : IsWhole x k) : wholeClamped (value32 x) = k := by
  obtain ⟨s, m, e, tight, hx, hval, hsign⟩ := h.exists_value
  have hle := h.abs_le
  rw [Int.abs_eq_natAbs] at hle
  rw [hx, wholeClamped_eq hval]
  cases s with
  | negative =>
    change -(k.natAbs : Int) = k at hsign
    rw [if_pos (by decide)]
    omega
  | positive =>
    change (k.natAbs : Int) = k at hsign
    rw [if_neg (by decide)]
    omega

theorem exists_natCast_value {negative : Bool} {m : Nat} {e : Int} {tight : Bool}
    (h : isWhole (.finite negative m e tight) = true) : ∃ n : Nat, value m e = n := by
  rw [isWhole, Bool.or_eq_true, decide_eq_true_iff, beq_iff_eq, Nat.pow_eq] at h
  rcases le_or_gt 0 e with he | he
  · refine ⟨m * 2 ^ e.toNat, ?_⟩
    have hshift := value_shift m e.toNat 0
    rw [Int.zero_add, Int.toNat_of_nonneg he] at hshift
    rw [← hshift, value, zpow_zero, mul_one]
  · obtain ⟨n, rfl⟩ := Nat.dvd_of_mod_eq_zero (h.resolve_left (not_le.mpr he))
    refine ⟨n, ?_⟩
    rw [Nat.mul_comm, value_shift, Int.toNat_of_nonneg (by omega), Int.add_right_neg, value,
      zpow_zero, mul_one]

/-- A number whose exact value is a whole number up to the bound is this number. -/
theorem isWhole_of_value32 (h : isWhole (value32 x) = true)
    (hle : (wholeClamped (value32 x)).natAbs ≤ 2 ^ 24) :
    IsWhole x (wholeClamped (value32 x)) := by
  obtain ⟨tight, htight⟩ := value32_eq x
  rw [htight] at h hle ⊢
  change Shows x.toModel.unpack _
  cases hu : x.toModel.unpack with
  | infinity s =>
    rw [hu] at h
    cases h
  | notANumber =>
    rw [hu] at h
    cases h
  | zero s => cases s <;> exact .zero _
  | finite s m e hm =>
    rw [hu] at h hle
    obtain ⟨n, hval⟩ := exists_natCast_value h
    have hclamped : wholeClamped (exactValue tight (.finite s m e hm)) = _ := wholeClamped_eq hval
    obtain ⟨hn, hsign⟩ : n ≤ 2 ^ 24 ∧
        wholeClamped (exactValue tight (.finite s m e hm)) = s.apply n := by
      rw [hclamped] at hle ⊢
      cases s with
      | negative =>
        rw [if_pos (by decide)] at hle ⊢
        change _ ∧ max (-(n : Int)) _ = -(n : Int)
        omega
      | positive =>
        rw [if_neg (by decide)] at hle ⊢
        change _ ∧ min (n : Int) _ = (n : Int)
        omega
    have hpos : 0 < n := by
      refine Nat.pos_of_ne_zero ?_
      rintro rfl
      rw [value, Nat.cast_zero, mul_eq_zero, Nat.cast_eq_zero] at hval
      exact hval.elim hm.ne' (zpow_ne_zero _ two_ne_zero)
    obtain rfl : exponentOf n = e :=
      (targetExponent_eq hpos hval).symm.trans (targetExponent_unpack hu)
    rw [hsign]
    exact .finite s hpos hn hval hm

/-! ## Reading -/

theorem roundQuotient_exact {n den : Nat} (hden : 0 < den) :
    BinaryFormat.roundQuotient (n * den) den = n := by
  rw [BinaryFormat.roundQuotient]
  simp [Nat.mul_div_cancel _ hden, hden]

theorem value_flip {m n : Nat} {e : Int} (h : value m e = n) : value n (-e) = m := by
  rw [value, ← h, value, mul_assoc, ← zpow_add₀ two_ne_zero, Int.add_right_neg, zpow_zero, mul_one]

/-- The pattern of a whole number: its exponent field counts from the least exponent, and the
leading digit of the mantissa carries into it. -/
theorem nearest_whole {n q : Nat} (hn : 0 < n) (hle : n ≤ 2 ^ 24)
    (hq : value q (exponentOf n) = n) :
    single.nearest n 1 = (exponentOf n + 149).toNat * 2 ^ 23 + q := by
  have hlog : n.log2 < 25 := (Nat.log2_lt hn.ne').mpr (hle.trans_lt (by decide))
  have hfull := log2_mantissa hn hq
  have hqpos : q ≠ 0 := by
    rintro rfl
    cases hfull
  obtain ⟨hqlow, hqhigh⟩ := (Nat.log2_eq_iff hqpos).mp hfull
  have hestimate : (n.log2 : Int) - (Nat.log2 1 : Nat) - single.fractionBits - 1 =
      exponentOf n - 1 := by
    have hone : Nat.log2 1 = 0 := by decide
    have hfraction : single.fractionBits = 23 := rfl
    rw [hone, hfraction, exponentOf]
    omega
  -- by the estimate the mantissa has a bit too much
  have hlong : value n (-(exponentOf n - 1)) = (q * 2 : Nat) := by
    have hdouble := congrArg (· * (2 : Rat)) (value_flip hq)
    rw [neg_sub, sub_eq_neg_add, value, zpow_add₀ two_ne_zero, zpow_one, ← mul_assoc, Nat.cast_mul]
    exact hdouble
  obtain ⟨den, hden, hshift⟩ := shiftQuotient_exact hlong
  obtain ⟨den', hden', hshift'⟩ := shiftQuotient_exact (e := exponentOf n) (value_flip hq)
  have hfraction : single.fractionBits = 23 := rfl
  have hleast : single.leastExponent = -149 := by decide
  have hinfinity : single.infinityBits = 255 * 2 ^ 23 := by decide
  have hlow : -23 ≤ exponentOf n := by
    unfold exponentOf
    omega
  have hhigh : exponentOf n ≤ 1 := by
    unfold exponentOf
    omega
  rw [BinaryFormat.nearest, if_neg (by simpa using hn.ne')]
  dsimp only
  rw [hestimate, hshift]
  dsimp only
  rw [Nat.mul_div_cancel _ hden, hfraction, Nat.pow_eq, if_neg (by omega), Int.sub_add_cancel,
    hleast, max_eq_left (by omega), hshift']
  dsimp only
  rw [roundQuotient_exact hden', hinfinity, Nat.pow_eq, min_eq_left (by omega)]
  congr 2

theorem nearestDecimal_whole {n : Nat} (hn : 0 < n) (hle : n ≤ 2 ^ 24) :
    single.nearestDecimal n 0 = single.nearest n 1 := by
  have hlength : (Nat.toDigits 10 n).length ≤ 8 :=
    (Nat.length_toDigits_le_iff (by decide) (by decide)).mpr (hle.trans_lt (by decide))
  rw [BinaryFormat.nearestDecimal, if_neg (by simpa using hn.ne')]
  dsimp only
  rw [if_neg (by omega), if_neg (by omega), if_pos le_rfl]
  congr 1
  exact Nat.mul_one n

/-- The sign of a number that is written with a minus sign or without one. -/
def signOf (negative : Bool) : Sign := if negative then .negative else .positive

/-- A pattern that is put together from a sign, an exponent and a full mantissa. -/
theorem unpack_toUInt32 {q b : Nat} (negative : Bool) (hlow : 2 ^ 23 ≤ q) (hhigh : q < 2 ^ 24)
    (hb : b < 254) (hq : 0 < q) :
    UnpackedFloat.unpack .binary32
        (b * 2 ^ 23 + q + if negative then 0x80000000 else 0).toUInt32.toBitVec =
      .finite (signOf negative) q (b - 149) hq := by
  have hbits : (b * 2 ^ 23 + q + if negative then 0x80000000 else 0).toUInt32.toBitVec.toNat =
      b * 2 ^ 23 + q + if negative then 0x80000000 else 0 := by
    rw [UInt32.toNat_toBitVec, Nat.toUInt32_eq, UInt32.toNat_ofNat']
    refine Nat.mod_eq_of_lt ?_
    split <;> omega
  generalize (b * 2 ^ 23 + q + if negative then 0x80000000 else 0).toUInt32.toBitVec = w at hbits
  have hmantissa := toNat_unpackMantissa w
  have hexponent := toNat_unpackExponent w
  have hsign : Sign.ofBitVec (@unpackSign .binary32 w) = signOf negative := by
    have hbit : @unpackSign .binary32 w = (signOf negative).toBitVec := by
      refine BitVec.eq_of_toNat_eq ?_
      rw [toNat_unpackSign, hbits]
      cases negative
      · change _ = 0
        simp only [Bool.false_eq_true, if_false]
        omega
      · change _ = 1
        simp only [if_true]
        omega
    rw [hbit, ofBitVec_toBitVec]
  have h := unpacks w
  rw [hbits] at hmantissa hexponent
  rw [hsign] at h
  generalize UnpackedFloat.unpack .binary32 w = u at h ⊢
  have he : (@unpackExponent .binary32 w).toNat = b + 1 := by
    rw [hexponent]
    split <;> omega
  have hm : 2 ^ 23 + (@unpackMantissa .binary32 w).toNat = q := by
    rw [hmantissa]
    split <;> omega
  cases h with
  | infinity he' | notANumber he' | zero he' | subnormal he' => omega
  | normal he' he'' hm' =>
    congr 1
    omega

/-- **A whole number is read without loss** up to the bound, with either sign. -/
theorem isWhole_float32OfDecimal {n : Nat} (hle : n ≤ 2 ^ 24) (negative : Bool) :
    IsWhole (float32OfDecimal negative n 0) ((signOf negative).apply n) := by
  rcases Nat.eq_zero_or_pos n with rfl | hn
  · cases negative <;> exact .zero _
  · obtain ⟨hexp, q, hq, hpos⟩ := exists_mantissa hn hle
    obtain ⟨hqlow, hqhigh⟩ := (Nat.log2_eq_iff hpos.ne').mp (log2_mantissa hn hq)
    obtain ⟨b, hb⟩ : ∃ b : Nat, (b : Int) = exponentOf n + 149 :=
      ⟨(exponentOf n + 149).toNat, by unfold exponentOf; omega⟩
    have hnearest : single.nearestDecimal n 0 = b * 2 ^ 23 + q := by
      rw [nearestDecimal_whole hn hle, nearest_whole hn hle hq]
      congr 2
      omega
    refine Shows.isWhole (u := UnpackedFloat.unpack .binary32
      (single.nearestDecimal n 0 + if negative then 0x80000000 else 0).toUInt32.toBitVec) ?_
    rw [hnearest, unpack_toUInt32 negative hqlow hqhigh (by omega) hpos]
    have hexponent : (b : Int) - 149 = exponentOf n := by omega
    rw [hexponent]
    exact .finite _ hn hle hq hpos

theorem apply_signOf (k : Int) : (signOf (decide (k < 0))).apply k.natAbs = k := by
  by_cases hk : k < 0
  · rw [decide_eq_true hk]
    change -(k.natAbs : Int) = k
    omega
  · rw [decide_eq_false hk]
    change (k.natAbs : Int) = k
    omega

theorem isWhole_decimal (hk : |k| ≤ 2 ^ 24) :
    IsWhole (float32OfDecimal (decide (k < 0)) k.natAbs 0) k := by
  have hle : k.natAbs ≤ 2 ^ 24 := by
    rw [Int.abs_eq_natAbs] at hk
    exact_mod_cast hk
  have hwhole := isWhole_float32OfDecimal hle (decide (k < 0))
  rwa [apply_signOf] at hwhole

/-- The number read from the digits of a whole number, with a minus sign where it is negative. -/
theorem float32OfDecimal_eq (hk : |k| ≤ 2 ^ 24) :
    float32OfDecimal (decide (k < 0)) k.natAbs 0 = Float32.ofInt k := by
  refine (isWhole_decimal hk).eq_ofInt fun hzero => ?_
  obtain rfl := isWhole_negZero (hzero ▸ isWhole_decimal hk)
  exact absurd hzero (by decide +kernel)

/-! ## Rounding -/

theorem IsWhole.roundAway (h : IsWhole x k) : roundAway? (value32 x) = some k := by
  obtain ⟨s, m, e, tight, hx, hval, hsign⟩ := h.exists_value
  obtain ⟨den, hden, hshift⟩ := shiftQuotient_exact (e := -e) ((Int.neg_neg e).symm ▸ hval)
  have hround : (2 * (k.natAbs * den) + den) / (2 * den) = k.natAbs := by
    have hsplit : 2 * (k.natAbs * den) + den = den + 2 * den * k.natAbs := by ring
    rw [hsplit, Nat.add_mul_div_left _ _ (by omega), Nat.div_eq_of_lt (by omega), Nat.zero_add]
  rw [hx, roundAway?, hshift]
  dsimp only
  rw [hround]
  cases s with
  | negative => exact congrArg some hsign
  | positive => exact congrArg some hsign

/-- A whole number is rounded to itself, since its exact value is read and written without loss. -/
theorem IsWhole.round32 (h : IsWhole x k) : IsWhole (round32 x) k := by
  rw [Decimal.round32, h.roundAway]
  exact isWhole_decimal h.abs_le

/-- **Rounding to hundredths** leaves a whole number as it is. -/
theorem IsWhole.hundredths (h : IsWhole x k) (hle : |k * 100| ≤ 2 ^ 24) :
    IsWhole (Decimal.round32 (x * 100.0) / 100.0) k := by
  have hhundred : IsWhole 100.0 100 := by
    have heq : (100.0 : Float32) = .ofNat 100 := by decide +kernel
    rw [heq]
    exact IsWhole.ofNat (by decide)
  exact (h.mul hhundred hle).round32.div hhundred h.abs_le (by decide)

end Flowchart.Single
