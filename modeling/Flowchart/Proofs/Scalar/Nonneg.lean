import Flowchart.Proofs.Scalar.Exact
import Flowchart.Proofs.Scalar.Packing

/-!
# Scalars from zero on

Rounded numbers obey few laws, but from zero on they obey those that the largest of some numbers
needs: they are compared like any numbers, for an undefined one is not from zero on, and sums and
halves of them are again from zero on, infinite ones included. `NonnegLaws` states this, and it
holds of exact numbers as well as of single precision.
-/

namespace Flowchart

namespace Scalar

/-- Numbers from zero on are ordered, and sums and halves of them are from zero on. -/
class NonnegLaws (α : Type) [Scalar α] : Prop where
  zero_le : (0.0 : α) ≤ 0.0
  le_trans : ∀ {a b c : α}, 0.0 ≤ a → a ≤ b → b ≤ c → a ≤ c
  le_of_lt : ∀ {a b : α}, a < b → a ≤ b
  le_of_not_lt : ∀ {a b : α}, 0.0 ≤ a → 0.0 ≤ b → ¬ a < b → b ≤ a
  beq_self : ∀ {a : α}, 0.0 ≤ a → (a == a) = true
  add_nonneg : ∀ {a b : α}, 0.0 ≤ a → 0.0 ≤ b → 0.0 ≤ a + b
  half_nonneg : ∀ {a : α}, 0.0 ≤ a → 0.0 ≤ a / 2.0

namespace NonnegLaws

variable {α : Type} [Scalar α] [NonnegLaws α] {a b : α} {xs : List α}

/-- From zero on every number is comparable with itself, which an undefined one is not. -/
theorem le_self (h : 0.0 ≤ a) : a ≤ a := by
  by_cases hlt : a < a
  · exact le_of_lt hlt
  · exact le_of_not_lt h h hlt

/-- The larger of two numbers from zero on is one of the two and no less than either. -/
theorem max_spec (ha : 0.0 ≤ a) (hb : 0.0 ≤ b) :
    a ≤ Scalar.max a b ∧ b ≤ Scalar.max a b ∧ (Scalar.max a b = a ∨ Scalar.max a b = b) := by
  rw [Scalar.max, if_pos (beq_self ha)]
  split
  · exact ⟨le_of_lt ‹_›, le_self hb, .inr rfl⟩
  · exact ⟨le_self ha, le_of_not_lt ha hb ‹_›, .inl rfl⟩

/-- The largest of some numbers from zero on is one of them and no less than any. -/
theorem foldl_max_spec (ha : 0.0 ≤ a) (hxs : ∀ x ∈ xs, 0.0 ≤ x) :
    a ≤ xs.foldl Scalar.max a ∧ (∀ x ∈ xs, x ≤ xs.foldl Scalar.max a) ∧
      (xs.foldl Scalar.max a = a ∨ xs.foldl Scalar.max a ∈ xs) := by
  induction xs generalizing a with
  | nil => exact ⟨le_self ha, nofun, .inl rfl⟩
  | cons x xs ih =>
    obtain ⟨hx, hxs⟩ := List.forall_mem_cons.mp hxs
    obtain ⟨hle, hle', hmax⟩ := max_spec ha hx
    obtain ⟨hfold, hall, hfound⟩ := ih (le_trans zero_le ha hle) hxs
    rw [List.foldl_cons]
    refine ⟨le_trans ha hle hfold,
      List.forall_mem_cons.mpr ⟨le_trans hx hle' hfold, hall⟩, ?_⟩
    rcases hfound with hfound | hfound
    · rw [hfound]
      refine hmax.imp_right fun h => ?_
      rw [h]
      exact List.mem_cons_self
    · exact .inr (List.mem_cons_of_mem x hfound)

/-- The largest member of a list is at least zero and at least as large as every member, and unless
the list is empty some member is at least as large as it. -/
theorem maxFromZero_spec (hxs : ∀ x ∈ xs, 0.0 ≤ x) : 0.0 ≤ maxFromZero xs ∧
    (∀ x ∈ xs, x ≤ maxFromZero xs) ∧ (xs ≠ [] → ∃ x ∈ xs, maxFromZero xs ≤ x) := by
  obtain ⟨hzero, hall, hfound⟩ := foldl_max_spec (α := α) zero_le hxs
  refine ⟨hzero, hall, fun hne => ?_⟩
  rcases hfound with hfound | hfound
  · obtain ⟨x, hx⟩ := List.exists_mem_of_ne_nil xs hne
    exact ⟨x, hx, (congrArg (· ≤ x) hfound).mpr (hxs x hx)⟩
  · exact ⟨_, hfound, le_self hzero⟩

end NonnegLaws

/-- Exact numbers. -/
instance : NonnegLaws ℚ where
  zero_le := le_rfl
  le_trans _ := le_trans
  le_of_lt := le_of_lt
  le_of_not_lt _ _ := not_lt.mp
  beq_self _ := beq_self_eq_true _
  add_nonneg ha hb := by
    rw [lit_zero] at *
    exact add_nonneg ha hb
  half_nonneg ha := by
    rw [lit_zero, lit_two] at *
    exact div_nonneg ha zero_le_two

end Scalar

/-! ## Single precision -/

namespace Single

open Float.Model Float.Model.UnpackedFloat

/-- An unpacked number from zero on. -/
inductive FromZero : UnpackedFloat → Prop where
  /-- either zero -/
  | zero (s : Sign) : FromZero (.zero s)
  /-- a positive number -/
  | finite (m : Nat) (e : Int) (h : 0 < m) : FromZero (.finite .positive m e h)
  /-- what sums that are too large become -/
  | infinity : FromZero (.infinity .positive)

variable {u v w : UnpackedFloat}

/-- A number is at least zero if it is a zero, a positive number or positive infinity. -/
theorem zero_le_iff (s : Sign) : (UnpackedFloat.zero s).le u = true ↔ FromZero u := by
  constructor
  · intro h
    match u, h with
    | .zero s', _ => exact .zero s'
    | .finite .positive m e h, _ => exact .finite m e h
    | .infinity .positive, _ => exact .infinity
    | .notANumber, h | .infinity .negative, h | .finite .negative .., h => cases h
  · rintro (_ | _ | _) <;> rfl

/-- Positive finite numbers in normal form are compared by exponents first and then by mantissas. -/
theorem finite_le_iff {m m' : Nat} {e e' : Int} {h : 0 < m} {h' : 0 < m'} :
    (UnpackedFloat.finite .positive m e h).le (.finite .positive m' e' h') = true ↔
      e < e' ∨ e = e' ∧ m ≤ m' := by
  change ((compare e e').then (compare m m')).isLE = true ↔ _
  rcases lt_trichotomy e e' with he | rfl | he
  · simp [compare_lt_iff_lt.mpr he, he]
  · simp [Nat.isLE_compare]
  · simp [compare_gt_iff_gt.mpr he, he.ne', he.not_gt]

theorem finite_lt_iff {m m' : Nat} {e e' : Int} {h : 0 < m} {h' : 0 < m'} :
    (UnpackedFloat.finite .positive m e h).lt (.finite .positive m' e' h') = true ↔
      e < e' ∨ e = e' ∧ m < m' := by
  change (some ((compare e e').then (compare m m')) == some .lt) = true ↔ _
  rw [beq_iff_eq, Option.some.injEq]
  rcases lt_trichotomy e e' with he | rfl | he
  · simp [compare_lt_iff_lt.mpr he, he]
  · simp [Nat.compare_eq_lt]
  · simp [compare_gt_iff_gt.mpr he, he.ne', he.not_gt]

/-- What is less is less or equal, also for numbers that are rounded. -/
theorem unpacked_le_of_lt (h : u.lt v = true) : u.le v = true := by
  rw [UnpackedFloat.lt, beq_iff_eq] at h
  rw [UnpackedFloat.le, h]
  rfl

theorem compare_then_swap (e : Int) (m : Nat) (e' : Int) (m' : Nat) :
    (compare e' e).then (compare m' m) = ((compare e e').then (compare m m')).swap := by
  rw [Ordering.swap_then, ← Std.OrientedOrd.eq_swap, ← Std.OrientedOrd.eq_swap]

/-- Comparing the other way round gives the opposite result, and none where there is none. -/
theorem compare_swap (u v : UnpackedFloat) : v.compare u = (u.compare v).map Ordering.swap := by
  rcases u with (_ | _) | _ | (_ | _) | ⟨_ | _, m, e, hm⟩ <;>
    rcases v with (_ | _) | _ | (_ | _) | ⟨_ | _, m', e', hm'⟩
  case finite.negative.finite.negative => exact congrArg (some ·.swap) (compare_then_swap e m e' m')
  case finite.positive.finite.positive => exact congrArg some (compare_then_swap e m e' m')
  all_goals rfl

/-- From zero on the order is total: of two such numbers that are not in order, the other one is at
most as large. -/
theorem FromZero.le_of_not_lt (hu : FromZero u) (hv : FromZero v) (h : ¬ u.lt v = true) :
    v.le u = true := by
  cases hu <;> cases hv
  case finite.finite m e hm m' e' hm' =>
    rw [finite_lt_iff] at h
    rw [finite_le_iff]
    omega
  all_goals first | rfl | exact absurd rfl h

/-- What is not below a number from zero on is from zero on. -/
theorem FromZero.of_le (hu : FromZero u) (h : u.le v = true) : FromZero v := by
  match v, h with
  | .zero s, _ => exact .zero s
  | .finite .positive m e hm, _ => exact .finite m e hm
  | .infinity .positive, _ => exact .infinity
  | .notANumber, h | .infinity .negative, h | .finite .negative .., h =>
    cases hu <;> cases h

/-- From zero on the order is transitive, by cases on what the three numbers are. -/
theorem FromZero.le_trans (hu : FromZero u) (huv : u.le v = true) (hvw : v.le w = true) :
    u.le w = true := by
  have hv := hu.of_le huv
  have hw := hv.of_le hvw
  cases hu <;> cases hv <;> cases hw
  case finite.finite.finite =>
    rw [finite_le_iff] at *
    omega
  all_goals first | rfl | (cases hvw; done) | cases huv

/-- A positive number whose exponent is not the largest one is from zero on. -/
theorem fromZero_unpack {e : BitVec 8} (m : BitVec 23) (he : e ≠ -1#8) :
    FromZero (UnpackedFloat.unpack .binary32 (packComponents .binary32 .positive e m)) := by
  have h := unpacks (packComponents .binary32 .positive e m)
  rw [unpackSign_packComponents, unpackExponent_packComponents, ofBitVec_toBitVec] at h
  generalize UnpackedFloat.unpack .binary32 (packComponents .binary32 .positive e m) = u at h ⊢
  cases h with
  | infinity hones | notANumber hones => exact absurd (BitVec.eq_of_toNat_eq hones) he
  | zero => exact .zero _
  | subnormal | normal => exact .finite _ _ _

/-- Packing neither loses the sign nor leaves a number undefined. -/
theorem FromZero.unpack_pack (h : FromZero u) :
    FromZero (UnpackedFloat.unpack .binary32 (UnpackedFloat.pack .binary32 u)) := by
  cases h with
  | zero s => cases s <;> exact .zero _
  | infinity => exact .infinity
  | finite m e h =>
    delta UnpackedFloat.pack
    dsimp only
    split
    · exact .infinity
    · split
      · refine fromZero_unpack _ fun he => ?_
        have hval := congrArg BitVec.toNat he
        have hones : (-1#8).toNat = 255 := by decide
        rw [BitVec.toNat_ofNat, hones] at hval
        omega
      · exact fromZero_unpack _ (by decide)

/-- Rounding a positive number gives one from zero on, perhaps an infinite one. -/
theorem fromZero_roundWithAccuracy (m : Nat) (e : Int) (a : Accuracy) :
    FromZero (roundWithAccuracy .binary32 .positive m e a) := by
  rcases hfirst : shiftToTargetExponent .binary32 m e a with ⟨em, e'⟩
  rcases hsecond : shiftToTargetExponent .binary32 em.roundedMantissa e' .exact with ⟨em', e''⟩
  by_cases hzero : em'.mantissa = 0
  · have hround : roundWithAccuracy .binary32 .positive m e a = .zero .positive := by
      rw [roundWithAccuracy, hfirst]
      dsimp only
      rw [hsecond]
      exact dif_pos hzero
    rw [hround]
    exact .zero _
  · rw [roundWithAccuracy_of_shift .positive hfirst hsecond (Nat.pos_of_ne_zero hzero)]
    exact .finite _ _ _

/-- A positive mantissa is rounded as a positive number. -/
theorem fromZero_normalize {m e : Int} (h : 0 < m) :
    FromZero (UnpackedFloat.normalize .binary32 m e .positive) := by
  rw [UnpackedFloat.normalize, compare_gt_iff_gt.mpr h]
  exact fromZero_roundWithAccuracy _ _ _

/-- A positive mantissa stays positive when its exponent is lowered. -/
theorem shiftLeft_pos {m : Nat} (h : 0 < m) (k : Nat) : 0 < ((m <<< k : Nat) : Int) := by
  rw [Nat.shiftLeft_eq]
  positivity

/-- Sums of numbers from zero on are from zero on: the sum of two mantissas is positive, so it is
rounded as a positive number. -/
theorem FromZero.add (hu : FromZero u) (hv : FromZero v) :
    FromZero (UnpackedFloat.add .binary32 u v) := by
  cases hu with
  | zero s =>
    cases hv with
    | zero s' => cases s <;> cases s' <;> exact .zero _
    | finite m e h => exact .finite m e h
    | infinity => exact .infinity
  | finite m e h =>
    cases hv with
    | zero s => exact .finite m e h
    | finite m' e' h' =>
      exact fromZero_normalize (add_pos (shiftLeft_pos h _) (shiftLeft_pos h' _))
    | infinity => exact .infinity
  | infinity => cases hv <;> exact .infinity

/-- Two, unpacked. -/
def two : UnpackedFloat := .finite .positive 0x800000 (-22) (Nat.succ_pos _)

/-- Half of a number from zero on is from zero on. -/
theorem FromZero.half (hu : FromZero u) : FromZero (UnpackedFloat.div .binary32 u two) := by
  cases hu with
  | zero s => exact .zero _
  | finite m e h => exact fromZero_roundWithAccuracy _ _ _
  | infinity => exact .infinity

/-- From zero on every number equals itself, for none of them is undefined. -/
theorem FromZero.beq_self (hu : FromZero u) : u.beq u = true := by
  cases hu with
  | zero s => rfl
  | finite m e h => exact finite_beq_iff.mpr ⟨rfl, rfl⟩
  | infinity => rfl

/-- Numbers are compared as what they are when unpacked. -/
theorem le_iff {x y : Float32} : x ≤ y ↔ x.toModel.unpack.le y.toModel.unpack = true :=
  decide_eq_true_iff

theorem lt_iff {x y : Float32} : x < y ↔ x.toModel.unpack.lt y.toModel.unpack = true :=
  decide_eq_true_iff

/-- A comparison that holds excludes the opposite one. -/
theorem not_lt_of_le {x y : Float32} (h : x ≤ y) : ¬ y < x := by
  rw [le_iff, UnpackedFloat.le] at h
  rw [lt_iff, UnpackedFloat.lt, compare_swap]
  cases hxy : x.toModel.unpack.compare y.toModel.unpack with
  | none => simp
  | some order => cases order <;> simp_all

/-- A number is at least zero exactly if what it is when unpacked is from zero on. -/
theorem zero_le_iff_fromZero {x : Float32} : 0.0 ≤ x ↔ FromZero x.toModel.unpack := by
  have hzero : (0.0 : Float32).toModel.unpack = .zero .positive := rfl
  rw [le_iff, hzero, zero_le_iff]

/-- What is from zero on stays so when it is packed. -/
theorem FromZero.pack (h : FromZero u) : 0.0 ≤ Float32.ofModel (.pack u) := by
  rw [zero_le_iff_fromZero]
  change FromZero (UnpackedFloat.unpack .binary32
    (UInt32.ofBitVec (UnpackedFloat.pack .binary32 u)).toBitVec)
  rw [UInt32.toBitVec_ofBitVec]
  exact h.unpack_pack

/-- Single precision numbers. -/
instance : Scalar.NonnegLaws Float32 where
  zero_le := zero_le_iff_fromZero.mpr (.zero .positive)
  le_trans h hab hbc :=
    le_iff.mpr ((zero_le_iff_fromZero.mp h).le_trans (le_iff.mp hab) (le_iff.mp hbc))
  le_of_lt h := le_iff.mpr (unpacked_le_of_lt (lt_iff.mp h))
  le_of_not_lt ha hb h := le_iff.mpr
    ((zero_le_iff_fromZero.mp ha).le_of_not_lt (zero_le_iff_fromZero.mp hb) (lt_iff.not.mp h))
  beq_self h := (zero_le_iff_fromZero.mp h).beq_self
  add_nonneg ha hb := ((zero_le_iff_fromZero.mp ha).add (zero_le_iff_fromZero.mp hb)).pack
  half_nonneg ha := (zero_le_iff_fromZero.mp ha).half.pack

end Single

end Flowchart
