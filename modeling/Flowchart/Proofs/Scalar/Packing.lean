import Flowchart.Decimal.Fixed
import Flowchart.Proofs.Scalar.Single

/-!
# Bit patterns of single precision numbers

The bits of a number are read twice: unpacked for arithmetic, and as an exact value for decimals.
Both readings take the same three fields, so they agree, `value32_eq`, and a number is what its
unpacked form packs to, `ofModel_pack`. The mantissa of an unpacked number is as long as it can be,
`targetExponent_unpack`.
-/

namespace Flowchart.Single

open Float.Model Float.Model.UnpackedFloat Decimal

/-! ## The three fields -/

theorem toNat_unpackMantissa (b : BitVec 32) :
    (@unpackMantissa .binary32 b).toNat = b.toNat % 2 ^ 23 := by
  simp [unpackMantissa]

theorem toNat_unpackExponent (b : BitVec 32) :
    (@unpackExponent .binary32 b).toNat = b.toNat / 2 ^ 23 % 2 ^ 8 := by
  simp [unpackExponent, Nat.shiftRight_eq_div_pow]

theorem toNat_unpackSign (b : BitVec 32) :
    (@unpackSign .binary32 b).toNat = b.toNat / 2 ^ 31 := by
  have hlt := b.isLt
  delta unpackSign
  simp [Nat.shiftRight_eq_div_pow]
  omega

theorem toNat_append_one (m : BitVec 23) : (1#1 ++ m).toNat = 2 ^ 23 + m.toNat := by
  rw [BitVec.toNat_append, ← Nat.shiftLeft_add_eq_or_of_lt m.isLt]
  rfl

theorem toNat_packComponents (s : Sign) (e : BitVec 8) (m : BitVec 23) :
    (packComponents .binary32 s e m).toNat =
      s.toBitVec.toNat * 2 ^ 31 + e.toNat * 2 ^ 23 + m.toNat := by
  rw [packComponents, BitVec.toNat_append, ← Nat.shiftLeft_add_eq_or_of_lt m.isLt,
    BitVec.toNat_append, ← Nat.shiftLeft_add_eq_or_of_lt e.isLt, Nat.shiftLeft_eq,
    Nat.shiftLeft_eq]
  ring

/-- The fields of a pattern make it up. -/
theorem packComponents_unpack (b : BitVec 32) :
    packComponents .binary32 (Sign.ofBitVec (@unpackSign .binary32 b))
      (@unpackExponent .binary32 b) (@unpackMantissa .binary32 b) = b := by
  have hsign : ∀ v : BitVec 1, (Sign.ofBitVec v).toBitVec = v := by decide
  have hlt := b.isLt
  refine BitVec.eq_of_toNat_eq ?_
  rw [toNat_packComponents, hsign, toNat_unpackMantissa, toNat_unpackExponent, toNat_unpackSign]
  omega

/-! ## Unpacking -/

/-- What a sign, an exponent field and a mantissa field are unpacked to. -/
inductive Unpacks (s : Sign) (e m : Nat) : UnpackedFloat → Prop
  | infinity (he : e = 255) (hm : m = 0) : Unpacks s e m (.infinity s)
  | notANumber (he : e = 255) (hm : m ≠ 0) : Unpacks s e m .notANumber
  | zero (he : e = 0) (hm : m = 0) : Unpacks s e m (.zero s)
  | subnormal (he : e = 0) (hm : 0 < m) : Unpacks s e m (.finite s m (-149) hm)
  | normal (he : 0 < e) (he' : e < 255) (hm : 0 < 2 ^ 23 + m) :
    Unpacks s e m (.finite s (2 ^ 23 + m) (e - 150) hm)

theorem unpacks (b : BitVec 32) :
    Unpacks (Sign.ofBitVec (@unpackSign .binary32 b))
      (@unpackExponent .binary32 b).toNat (@unpackMantissa .binary32 b).toNat
      (UnpackedFloat.unpack .binary32 b) := by
  have hlt : (@unpackExponent .binary32 b).toNat < 256 := BitVec.isLt _
  have hmantissa (h : @unpackMantissa .binary32 b ≠ 0#_) :
      (@unpackMantissa .binary32 b).toNat ≠ 0 := fun h' => h (BitVec.eq_of_toNat_eq h')
  delta UnpackedFloat.unpack
  dsimp only
  by_cases he : @unpackExponent .binary32 b = -1#_
  · have he' : (@unpackExponent .binary32 b).toNat = 255 := by rw [he]; decide
    rw [if_pos he]
    by_cases hm : @unpackMantissa .binary32 b = 0#_
    · rw [if_pos hm]
      exact .infinity he' (by rw [hm]; rfl)
    · rw [if_neg hm]
      exact .notANumber he' (hmantissa hm)
  have he' : (@unpackExponent .binary32 b).toNat ≠ 255 := fun h => he (BitVec.eq_of_toNat_eq h)
  rw [if_neg he]
  by_cases hzero : @unpackExponent .binary32 b = 0#_
  · have hzero' : (@unpackExponent .binary32 b).toNat = 0 := by rw [hzero]; rfl
    rw [if_pos hzero]
    by_cases hm : @unpackMantissa .binary32 b = 0#_
    · rw [dif_pos hm]
      exact .zero hzero' (by rw [hm]; rfl)
    · rw [dif_neg hm, hzero']
      exact .subnormal rfl (Nat.pos_of_ne_zero (hmantissa hm))
  · have hzero' : (@unpackExponent .binary32 b).toNat ≠ 0 := fun h =>
      hzero (BitVec.eq_of_toNat_eq h)
    rw [if_neg hzero, finite_congr (toNat_append_one _) rfl]
    exact .normal (by omega) (by omega) _

/-! ## Packing what was unpacked -/

theorem pack_subnormal (s : Sign) (m : BitVec 23) (hm : 0 < m.toNat) :
    UnpackedFloat.pack .binary32 (.finite s m.toNat (-149) hm) =
      packComponents .binary32 s 0 m := by
  have hlog : m.toNat.log2 + 1 ≠ Format.binary32.mantissaBits := by
    have hlt := (Nat.log2_lt hm.ne').mpr m.isLt
    have hbits : Format.binary32.mantissaBits = 24 := rfl
    omega
  have hexp : (-149 + (Format.binary32.exponentBias : Int) +
      Format.binary32.mantissaBitsWithoutImplicit).toNat = 1 := by decide
  delta UnpackedFloat.pack
  simp only [hexp, if_neg hlog]
  rw [if_neg (by decide), BitVec.ofNat_toNat, BitVec.setWidth_eq]
  rfl

theorem log2_normal {m : Nat} (h : m < 2 ^ 23) : (2 ^ 23 + m).log2 = 23 :=
  (Nat.log2_eq_iff (by omega)).mpr ⟨by omega, by omega⟩

theorem pack_normal (s : Sign) (e : BitVec 8) (m : BitVec 23) (he : e.toNat < 255)
    (hm : 0 < 2 ^ 23 + m.toNat) :
    UnpackedFloat.pack .binary32 (.finite s (2 ^ 23 + m.toNat) (e.toNat - 150) hm) =
      packComponents .binary32 s e m := by
  have hexp : ((e.toNat : Int) - 150 + Format.binary32.exponentBias +
      Format.binary32.mantissaBitsWithoutImplicit).toNat = e.toNat := by
    rw [Int.add_assoc, exponentBias_single, Int.sub_add_cancel, Int.toNat_natCast]
  have hfits : ¬ 2 ^ Format.binary32.exponentBits ≤ e.toNat + 1 := by
    change ¬ 256 ≤ e.toNat + 1
    omega
  have hlog : (2 ^ 23 + m.toNat).log2 + 1 = Format.binary32.mantissaBits := by
    rw [log2_normal m.isLt]
    rfl
  have hmantissa : BitVec.ofNat 23 (2 ^ 23 + m.toNat) = m := by
    refine BitVec.eq_of_toNat_eq ?_
    rw [BitVec.toNat_ofNat, Nat.add_mod_left, Nat.mod_eq_of_lt m.isLt]
  delta UnpackedFloat.pack
  simp only [hexp, if_neg hfits, if_pos hlog]
  rw [hmantissa, BitVec.ofNat_toNat, BitVec.setWidth_eq]

/-- A valid pattern is what its unpacked form packs to. -/
theorem pack_unpack {b : BitVec 32} (hvalid : Format.binary32.Valid b) :
    UnpackedFloat.pack .binary32 (UnpackedFloat.unpack .binary32 b) = b := by
  have hfields := packComponents_unpack b
  have hones {e : BitVec 8} (he : e.toNat = 255) : e = -1#8 := BitVec.eq_of_toNat_eq he
  have hzero {n : Nat} {v : BitVec n} (hv : v.toNat = 0) : v = 0#n :=
    BitVec.eq_of_toNat_eq (hv.trans BitVec.toNat_zero.symm)
  have h := unpacks b
  generalize UnpackedFloat.unpack .binary32 b = u at h ⊢
  cases h with
  | infinity he hm =>
    rw [hones he, hzero hm] at hfields
    exact hfields
  | notANumber he hm =>
    exact (hvalid.eq_packedNaN (hones he) fun hmantissa => hm (by rw [hmantissa]; rfl)).symm
  | zero he hm =>
    rw [hzero he, hzero hm] at hfields
    exact hfields
  | subnormal he hm =>
    rw [hzero he] at hfields
    rw [pack_subnormal]
    exact hfields
  | normal he he' hm =>
    rw [pack_normal _ _ _ he']
    exact hfields

/-- **A number is what its unpacked form packs to.** -/
theorem ofModel_pack (x : Float32) : Float32.ofModel (.pack x.toModel.unpack) = x := by
  obtain ⟨bits, hvalid⟩ := x
  refine congrArg Float32.ofModel ((Float32.Model.mk.injEq ..).mpr ?_)
  exact UInt32.toBitVec_inj.mp (pack_unpack hvalid)

theorem unpack_injective {x y : Float32} (h : x.toModel.unpack = y.toModel.unpack) : x = y := by
  rw [← ofModel_pack x, h, ofModel_pack]

/-- The mantissa of a number is as long as its exponent allows. -/
theorem targetExponent_unpack {x : Float32} {s : Sign} {m : Nat} {e : Int} {hm : 0 < m}
    (hx : x.toModel.unpack = .finite s m e hm) :
    Format.binary32.targetExponent (totalExponent m e) = e := by
  have h := unpacks x.toModel.toBits.toBitVec
  rw [show UnpackedFloat.unpack .binary32 x.toModel.toBits.toBitVec = _ from hx] at h
  rw [targetExponent_single, totalExponent]
  cases h with
  | subnormal he hm =>
    have hlog : _ < 23 := (Nat.log2_lt hm.ne').mpr (BitVec.isLt _)
    omega
  | normal he he' hm =>
    have hlog := log2_normal
      (BitVec.isLt (@unpackMantissa .binary32 x.toModel.toBits.toBitVec))
    omega

/-! ## Exact values -/

/-- An unpacked number as an exact value. -/
def exactValue (tight : Bool) : UnpackedFloat → BinaryValue
  | .zero s => .finite (s == .negative) 0 (-149) tight
  | .finite s m e _ => .finite (s == .negative) m e tight
  | .infinity s => .infinite (s == .negative)
  | .notANumber => .undefined

/-- The parts of a pattern, told by its fields. -/
theorem parts_eq (b : BitVec 32) : single.parts b.toNat =
    if (@unpackExponent .binary32 b).toNat == 255 then
      if (@unpackMantissa .binary32 b).toNat == 0 then
        .infinite (Sign.ofBitVec (@unpackSign .binary32 b) == .negative)
      else .undefined
    else if (@unpackExponent .binary32 b).toNat == 0 then
      .finite (Sign.ofBitVec (@unpackSign .binary32 b) == .negative)
        (@unpackMantissa .binary32 b).toNat (-149) false
    else
      .finite (Sign.ofBitVec (@unpackSign .binary32 b) == .negative)
        ((@unpackMantissa .binary32 b).toNat + 2 ^ 23)
        (-149 + (@unpackExponent .binary32 b).toNat - 1)
        ((@unpackMantissa .binary32 b).toNat == 0 &&
          (@unpackExponent .binary32 b).toNat != 1) := by
  have hsign : (Sign.ofBitVec (@unpackSign .binary32 b) == .negative) =
      (b.toNat / 2 ^ (23 + 8) % 2 == 1) := by
    have hof : ∀ v : BitVec 1, (Sign.ofBitVec v == .negative) = (v.toNat % 2 == 1) := by decide
    rw [hof, toNat_unpackSign]
  rw [hsign, toNat_unpackMantissa, toNat_unpackExponent]
  rfl

/-- **Both readings of the bits agree**: the exact value of a number is that of its unpacked form,
whether it is zero, finite, infinite or undefined. -/
theorem value32_eq (x : Float32) : ∃ tight, value32 x = exactValue tight x.toModel.unpack := by
  have h := unpacks x.toModel.toBits.toBitVec
  have hvalue : value32 x = single.parts x.toModel.toBits.toBitVec.toNat := rfl
  have hunpack : x.toModel.unpack = UnpackedFloat.unpack .binary32 x.toModel.toBits.toBitVec := rfl
  rw [hvalue, hunpack, parts_eq]
  generalize UnpackedFloat.unpack .binary32 x.toModel.toBits.toBitVec = u at h ⊢
  cases h with
  | infinity he hm => exact ⟨false, by rw [he, hm]; rfl⟩
  | notANumber he hm =>
    refine ⟨false, ?_⟩
    rw [he, if_pos (beq_self_eq_true 255), if_neg (by simpa using hm)]
    rfl
  | zero he hm => exact ⟨false, by rw [he, hm]; rfl⟩
  | subnormal he hm => exact ⟨false, by rw [he]; rfl⟩
  | normal he he' hm =>
    have hexponent : (-149 : Int) + (@unpackExponent .binary32
        x.toModel.toBits.toBitVec).toNat - 1 =
        (@unpackExponent .binary32 x.toModel.toBits.toBitVec).toNat - 150 := by omega
    rw [if_neg (by simpa using he'.ne), if_neg (by simpa using he.ne'), hexponent, Nat.add_comm]
    exact ⟨_, rfl⟩

end Flowchart.Single
