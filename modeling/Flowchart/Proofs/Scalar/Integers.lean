import Flowchart.Proofs.Scalar.Packing

/-!
# Arithmetic of whole numbers

A whole number up to the bound is one number of single precision, apart from the sign of zero,
`IsWhole.eq_ofInt`. Sums, products and quotients of whole numbers are exact where they are whole
numbers up to the bound.
-/

namespace Flowchart.Single

open Float.Model Float.Model.UnpackedFloat

/-! ## Unpacked whole numbers -/

section Shows

variable {u v : UnpackedFloat} {a b k : Int}

theorem apply_natAbs (s : Sign) (n : Nat) : (s.apply n).natAbs = n := by
  cases s <;> simp [Sign.apply]

theorem Shows.abs_le (h : Shows u k) : |k| ≤ 2 ^ 24 := by
  cases h with
  | zero s => decide
  | @finite s n q hn hle hq hpos =>
    rw [Int.abs_eq_natAbs, apply_natAbs]
    exact_mod_cast hle

/-- Zero is shown by zeros only, since every finite unpacked number has a positive mantissa. -/
theorem Shows.eq_zero (h : Shows u 0) : ∃ s, u = .zero s := by
  generalize hk : (0 : Int) = k at h
  cases h with
  | zero s => exact ⟨s, rfl⟩
  | @finite s n q hn hle hq hpos =>
    have hzero := congrArg Int.natAbs hk
    rw [apply_natAbs, Int.natAbs_zero] at hzero
    exact absurd hzero hn.ne

/-- A whole number other than zero is shown in one way. -/
theorem Shows.unique (hu : Shows u k) (hv : Shows v k) (hk : k ≠ 0) : u = v := by
  cases hu with
  | zero s => exact absurd rfl hk
  | @finite s n q hn hle hq hpos =>
    generalize hk' : s.apply n = k' at hv hk
    cases hv with
    | zero s' => exact absurd rfl hk
    | @finite s' n' q' hn' hle' hq' hpos' =>
      obtain rfl : n = n' := by
        have habs := congrArg Int.natAbs hk'
        rwa [apply_natAbs, apply_natAbs] at habs
      obtain rfl : q = q' := value_inj (hq.trans hq'.symm)
      obtain rfl : s = s' := by
        cases s <;> cases s' <;> simp only [Sign.apply] at hk' <;> first | rfl | omega
      rfl

/-- Whole numbers that are equal compare as equal. -/
theorem Shows.beq (hu : Shows u k) (hv : Shows v k) : u.beq v = true := by
  by_cases hk : k = 0
  · subst hk
    obtain ⟨s, rfl⟩ := hu.eq_zero
    obtain ⟨s', rfl⟩ := hv.eq_zero
    rfl
  · obtain rfl := hu.unique hv hk
    cases hu with
    | zero s => rfl
    | finite s => exact finite_beq_iff.mpr ⟨rfl, rfl⟩

/-- What compares as equal to a whole number is this number. -/
theorem Shows.of_beq (hv : Shows v k) (h : u.beq v = true) : Shows u k := by
  cases hv with
  | zero s =>
    match u, h with
    | .zero s', _ => exact .zero s'
    | .notANumber, h | .infinity .positive, h | .infinity .negative, h
    | .finite .positive .., h | .finite .negative .., h => cases h
  | @finite s n q hn hle hq hpos =>
    match u, h with
    | .notANumber, h => cases h
    | .infinity s', h => cases s' <;> cases s <;> cases h
    | .zero s', h => cases s <;> cases h
    | .finite s' m e hm, h =>
      obtain rfl : s' = s := by cases s' <;> cases s <;> first | rfl | cases h
      obtain ⟨rfl, rfl⟩ := finite_beq_iff.mp h
      exact .finite s' hn hle hq hpos

theorem Shows.zero_eq {s : Sign} (h : Shows (.zero s) k) : k = 0 := by
  cases h
  rfl

/-- A normalized whole number is not the negative zero, since a mantissa that is zero gives the
positive one. -/
theorem normalize_ne_negZero {m e : Int} (h : (m : Rat) * 2 ^ e = k) (hle : |k| ≤ 2 ^ 24) :
    UnpackedFloat.normalize .binary32 m e .positive ≠ .zero .negative := by
  intro hzero
  have hshow := normalize_shows h hle
  rw [hzero] at hshow
  have hm : m = 0 := by
    rw [hshow.zero_eq, Int.cast_zero, mul_eq_zero] at h
    exact_mod_cast h.resolve_right (zpow_ne_zero _ two_ne_zero)
  rw [hm] at hzero
  cases hzero

/-- A sum is the negative zero only if both numbers are. -/
theorem Shows.add_ne_negZero (hu : Shows u a) (hv : Shows v b) (hle : |a + b| ≤ 2 ^ 24)
    (hzero : u ≠ .zero .negative) : UnpackedFloat.add .binary32 u v ≠ .zero .negative := by
  cases hu with
  | zero s =>
    cases hv with
    | zero s' => cases s <;> cases s' <;> first | exact absurd rfl hzero | nofun
    | finite s' => nofun
  | @finite s n q hn hle' hq hpos =>
    cases hv with
    | zero s' => nofun
    | @finite s' n' q' hn' hle'' hq' hpos' =>
      refine normalize_ne_negZero ?_ hle
      rw [Int.cast_add, add_mul, apply_aligned s hq (min_le_left _ _),
        apply_aligned s' hq' (min_le_right _ _), Int.cast_add]

/-- The product of two whole numbers is exact up to the bound. -/
theorem Shows.mul (hu : Shows u a) (hv : Shows v b) (hle : |a * b| ≤ 2 ^ 24) :
    Shows (UnpackedFloat.mul .binary32 u v) (a * b) := by
  cases hu with
  | zero s =>
    rw [zero_mul]
    cases hv <;> exact .zero _
  | @finite s n q hn hle' hq hpos =>
    cases hv with
    | zero s' =>
      rw [mul_zero]
      exact .zero _
    | @finite s' n' q' hn' hle'' hq' hpos' =>
      have happly : s.apply n * s'.apply n' = (s * s').apply ((n * n' : Nat) : Int) := by
        push_cast
        cases s <;> cases s'
        · exact neg_mul_neg _ _
        · exact neg_mul _ _
        · exact mul_neg _ _
        · rfl
      have hbound : n * n' ≤ 2 ^ 24 := by
        rw [happly, Int.abs_eq_natAbs, apply_natAbs] at hle
        exact_mod_cast hle
      have hval : value (q * q') (exponentOf n + exponentOf n') = (n * n' : Nat) := by
        rw [Nat.cast_mul, ← hq, ← hq', value, value, value, zpow_add₀ two_ne_zero]
        push_cast
        ring
      have hexp : exponentOf n + exponentOf n' ≤ exponentOf (n * n') := by
        have hlog : n.log2 + n'.log2 ≤ (n * n').log2 := by
          rw [Nat.le_log2 (Nat.mul_pos hn hn').ne', pow_add]
          exact Nat.mul_le_mul (Nat.log2_self_le hn.ne') (Nat.log2_self_le hn'.ne')
        unfold exponentOf
        omega
      rw [happly]
      exact roundWithAccuracy_shows (s * s') (Nat.mul_pos hn hn') hbound hval hexp

/-- Long division of two whole numbers leaves no rest if the quotient is a whole number. -/
theorem divCore_exact {n n' q q' : Nat} (hn : 0 < n) (hn' : 0 < n') (hle : n ≤ 2 ^ 24)
    (hq : value q (exponentOf (n * n')) = (n * n' : Nat)) (hq' : value q' (exponentOf n') = n') :
    ∃ r t, divCore .binary32 q (exponentOf (n * n')) q' (exponentOf n') = (r, t, .exact) ∧
      value r t = n ∧ t ≤ exponentOf n := by
  obtain ⟨-, p, hp, -⟩ := exists_mantissa hn hle
  have hprod := Nat.mul_pos hn hn'
  generalize ht : min (exponentOf (n * n') - exponentOf n') (Format.binary32.targetExponent
    (totalExponent q (exponentOf (n * n')) - totalExponent q' (exponentOf n'))) = t
  have hdown : t ≤ exponentOf (n * n') - exponentOf n' := ht ▸ min_le_left _ _
  have htarget : t ≤ exponentOf n := by
    refine (ht ▸ min_le_right _ _ : t ≤ _).trans ?_
    have hlog : (n * n').log2 < n.log2 + n'.log2 + 2 := by
      rw [Nat.log2_lt hprod.ne']
      calc n * n' < 2 ^ (n.log2 + 1) * 2 ^ (n'.log2 + 1) :=
            Nat.mul_lt_mul'' Nat.lt_log2_self Nat.lt_log2_self
        _ = 2 ^ (n.log2 + n'.log2 + 2) := by ring
    rw [totalExponent_eq hprod hq, totalExponent_eq hn' hq', targetExponent_single]
    unfold exponentOf
    omega
  obtain ⟨i, hi⟩ : ∃ i : Nat, (i : Int) = exponentOf n - t := ⟨(exponentOf n - t).toNat, by omega⟩
  obtain ⟨j, hj⟩ : ∃ j : Nat, (j : Int) = exponentOf (n * n') - exponentOf n' - t :=
    ⟨(exponentOf (n * n') - exponentOf n' - t).toNat, by omega⟩
  have hr : value (p * 2 ^ i) t = n := by
    rw [value_shift, hi, ← hp]
    congr 1
    omega
  have hshift : q * 2 ^ j = q' * (p * 2 ^ i) := by
    refine value_inj (e := t + exponentOf n') ?_
    have hleft : value (q * 2 ^ j) (t + exponentOf n') = (n * n' : Nat) := by
      rw [value_shift, hj, ← hq]
      congr 1
      omega
    have hright : value (q' * (p * 2 ^ i)) (t + exponentOf n') = n' * n := by
      rw [← hq', ← hr, value, value, value, zpow_add₀ two_ne_zero]
      push_cast
      ring
    rw [hleft, hright]
    push_cast
    ring
  have hpos' : 0 < q' := by
    refine Nat.pos_of_ne_zero ?_
    rintro rfl
    simp only [value, Nat.cast_zero, zero_mul] at hq'
    exact hn'.ne (by exact_mod_cast hq')
  refine ⟨p * 2 ^ i, t, ?_, hr, htarget⟩
  have hj' : (exponentOf (n * n') - exponentOf n' - t).toNat = j := by omega
  simp only [divCore, ht, hj', Nat.shiftLeft_eq, hshift, Nat.mul_div_cancel_left _ hpos',
    Nat.mul_mod_right, accuracyOfFraction, if_pos]

/-- The quotient of two whole numbers is exact if it is a whole number. -/
theorem Shows.div (hu : Shows u (a * b)) (hv : Shows v b) (hle : |a| ≤ 2 ^ 24) (hb : b ≠ 0) :
    Shows (UnpackedFloat.div .binary32 u v) a := by
  cases hv with
  | zero s' => exact absurd rfl hb
  | @finite s' n' q' hn' hle' hq' hpos' =>
    by_cases ha : a = 0
    · subst ha
      rw [zero_mul] at hu
      obtain ⟨s, rfl⟩ := hu.eq_zero
      exact .zero _
    · have hn : 0 < a.natAbs := Int.natAbs_pos.mpr ha
      have hbound : a.natAbs ≤ 2 ^ 24 := by
        rw [Int.abs_eq_natAbs] at hle
        exact_mod_cast hle
      generalize hprod : a * s'.apply n' = c at hu
      cases hu with
      | zero s => exact absurd hprod (mul_ne_zero ha hb)
      | @finite s n q hn'' hle'' hq hpos =>
        obtain rfl : a.natAbs * n' = n := by
          have habs := congrArg Int.natAbs hprod
          rwa [Int.natAbs_mul, apply_natAbs, apply_natAbs] at habs
        have hsign : (s / s').apply a.natAbs = a := by
          refine mul_right_cancel₀ hb (Eq.trans ?_ hprod.symm)
          push_cast
          cases s <;> cases s'
          · exact mul_neg _ _
          · exact neg_mul _ _
          · exact neg_mul_neg _ _
          · rfl
        obtain ⟨r, t, hcore, hval, ht⟩ := divCore_exact hn hn' hbound hq hq'
        have hshow := roundWithAccuracy_shows (s / s') hn hbound hval ht
        rw [hsign] at hshow
        delta UnpackedFloat.div
        dsimp only
        rw [hcore]
        exact hshow

end Shows

/-! ## Single precision numbers -/

section Numbers

variable {x y : Float32} {a b k : Int}

theorem isWhole_ofInt (h : |k| ≤ 2 ^ 24) : IsWhole (Float32.ofInt k) k := by
  rw [Int.abs_eq_natAbs] at h
  cases k with
  | ofNat n => exact IsWhole.ofNat (by exact_mod_cast h)
  | negSucc n => exact (IsWhole.ofNat (by exact_mod_cast h)).neg

theorem unpack_negZero : (-0.0 : Float32).toModel.unpack = .zero .negative := by rfl

/-- **A whole number is one number of single precision**, apart from the sign of zero. -/
theorem IsWhole.eq_ofInt (h : IsWhole x k) (hx : x ≠ -0.0) : x = Float32.ofInt k := by
  refine unpack_injective ?_
  have hk := isWhole_ofInt h.abs_le
  by_cases hzero : k = 0
  · subst hzero
    obtain ⟨s, hs⟩ := h.eq_zero
    cases s with
    | negative => exact absurd (unpack_injective (hs.trans unpack_negZero.symm)) hx
    | positive => exact hs
  · exact h.unique hk hzero

theorem IsWhole.beq (hx : IsWhole x k) (hy : IsWhole y k) : (x == y) = true := Shows.beq hx hy

theorem IsWhole.of_beq (h : |k| ≤ 2 ^ 24) (hx : (x == Float32.ofInt k) = true) : IsWhole x k :=
  Shows.of_beq (isWhole_ofInt h) hx

theorem IsWhole.mul (hx : IsWhole x a) (hy : IsWhole y b) (hle : |a * b| ≤ 2 ^ 24) :
    IsWhole (x * y) (a * b) := (Shows.mul hx hy hle).isWhole

theorem IsWhole.div (hx : IsWhole x (a * b)) (hy : IsWhole y b) (hle : |a| ≤ 2 ^ 24)
    (hb : b ≠ 0) : IsWhole (x / y) a := (Shows.div hx hy hle hb).isWhole

/-- A sum is the negative zero only if both numbers are. -/
theorem IsWhole.add_ne_negZero (hx : IsWhole x a) (hy : IsWhole y b) (hle : |a + b| ≤ 2 ^ 24)
    (hzero : x ≠ -0.0) : x + y ≠ -0.0 := by
  have hadd : x + y =
      .ofModel (.pack (UnpackedFloat.add .binary32 x.toModel.unpack y.toModel.unpack)) := rfl
  intro hsum
  refine Shows.add_ne_negZero hx hy hle
    (fun hneg => hzero (unpack_injective (hneg.trans unpack_negZero.symm))) ?_
  rw [← (Shows.add hx hy hle).unpack_ofModel, ← hadd, hsum, unpack_negZero]

theorem isWhole_negZero (h : IsWhole (-0.0) k) : k = 0 := by
  change Shows (-0.0 : Float32).toModel.unpack k at h
  rw [unpack_negZero] at h
  exact h.zero_eq

theorem ofInt_ne_negZero (h : |k| ≤ 2 ^ 24) : Float32.ofInt k ≠ -0.0 := by
  intro hzero
  obtain rfl := isWhole_negZero (hzero ▸ isWhole_ofInt h)
  exact absurd hzero (by decide +kernel)

/-- Sums of whole numbers are the numbers of the sums. -/
theorem ofInt_add (ha : |a| ≤ 2 ^ 24) (hb : |b| ≤ 2 ^ 24) (hab : |a + b| ≤ 2 ^ 24) :
    Float32.ofInt a + Float32.ofInt b = Float32.ofInt (a + b) :=
  ((isWhole_ofInt ha).add (isWhole_ofInt hb) hab).eq_ofInt
    ((isWhole_ofInt ha).add_ne_negZero (isWhole_ofInt hb) hab (ofInt_ne_negZero ha))

end Numbers

end Flowchart.Single
