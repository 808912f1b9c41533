import CatalogGuard.Number.Binary64
import Mathlib.Algebra.Group.Nat.Defs

/-!
# The bits of a double

A double is its bit pattern, except that only one pattern stands for NaN.  So a double is found
again from its bits, and from its sign with the integer and the power of two that `unpack` reads off
the other bits; and a pattern up to that of infinity is found again in the double it makes.

## Main results

* `ofBits_toBits`, `toBits_ofBits` — doubles and their bits
* `isNaN_iff`, `isInf_iff`, `isFinite_iff` — kinds of doubles by the size of their bits
* `ofPattern_unpack` — a finite double from its sign and its absolute value
-/

namespace CatalogGuard.Number.Binary64

open Float.Model (Format)
open Float.Model.Format (binary64)
open Float.Model.UnpackedFloat (Sign packComponents unpackMantissa unpackExponent unpackSign)

variable {b : BitVec 64} {sign : Sign} {exponent : BitVec 11} {mantissa : BitVec 52} {x : Float}

/-! ### Fields -/

theorem toNat_unpackMantissa (b : BitVec 64) :
    (@unpackMantissa binary64 b).toNat = b.toNat % 2 ^ 52 := by
  show (b.extractLsb 51 0).toNat = _
  simp [BitVec.extractLsb_toNat]

theorem toNat_unpackExponent (b : BitVec 64) :
    (@unpackExponent binary64 b).toNat = b.toNat / 2 ^ 52 % 2 ^ 11 := by
  show (b.extractLsb 62 52).toNat = _
  simp [BitVec.extractLsb_toNat, Nat.shiftRight_eq_div_pow]

theorem toNat_unpackSign (b : BitVec 64) :
    (@unpackSign binary64 b).toNat = b.toNat / 2 ^ 63 := by
  have := b.isLt
  show (b.extractLsb 63 63).toNat = _
  simp [BitVec.extractLsb_toNat, Nat.shiftRight_eq_div_pow]
  omega

theorem toNat_append {v w : Nat} (high : BitVec v) (low : BitVec w) :
    (high ++ low).toNat = high.toNat * 2 ^ w + low.toNat := by
  rw [BitVec.toNat_append, ← Nat.shiftLeft_add_eq_or_of_lt low.isLt, Nat.shiftLeft_eq]

theorem toNat_packComponents : (packComponents binary64 sign exponent mantissa).toNat =
    sign.toBitVec.toNat * 2 ^ 63 + exponent.toNat * 2 ^ 52 + mantissa.toNat := by
  show (sign.toBitVec ++ exponent ++ mantissa).toNat = _
  rw [toNat_append, toNat_append]
  omega

theorem toBitVec_ofBitVec (v : BitVec 1) : (Sign.ofBitVec v).toBitVec = v := by
  rcases BitVec.eq_zero_or_eq_one v with rfl | rfl <;> rfl

/-- Bits are made of their three fields. -/
theorem packComponents_unpack (b : BitVec 64) :
    packComponents binary64 (.ofBitVec (@unpackSign binary64 b))
      (@unpackExponent binary64 b) (@unpackMantissa binary64 b) = b := by
  apply BitVec.eq_of_toNat_eq
  rw [toNat_packComponents, toBitVec_ofBitVec, toNat_unpackSign, toNat_unpackExponent,
    toNat_unpackMantissa]
  omega

/-! ### Packing -/

theorem pack_finite {m : Nat} {e : Int} (hm : 0 < m) :
    Float.Model.UnpackedFloat.pack binary64 (.finite sign m e hm) =
      if 2 ^ 11 ≤ (e + (1023 : Nat) + (52 : Nat)).toNat + 1 then
        packComponents binary64 sign (-1#11) 0
      else if m.log2 + 1 = 53 then
        packComponents binary64 sign (.ofNat 11 (e + (1023 : Nat) + (52 : Nat)).toNat) (.ofNat 52 m)
      else packComponents binary64 sign 0 (.ofNat 52 m) := rfl

/-- An integer without the leading bit is packed as it is. -/
theorem pack_subnormal (hm : 0 < mantissa.toNat) :
    Float.Model.UnpackedFloat.pack binary64 (.finite sign mantissa.toNat (-1074) hm) =
      packComponents binary64 sign 0 mantissa := by
  have hlog : mantissa.toNat.log2 + 1 ≠ 53 := by
    have := (Nat.log2_lt (Nat.ne_of_gt hm)).mpr mantissa.isLt
    omega
  rw [pack_finite, if_neg (by decide), if_neg hlog, BitVec.ofNat_toNat, BitVec.setWidth_eq]

/-- An integer with the leading bit is packed without it. -/
theorem pack_normal (he : exponent ≠ -1#11) (hm : 0 < (1#1 ++ mantissa).toNat) :
    Float.Model.UnpackedFloat.pack binary64
        (.finite sign (1#1 ++ mantissa).toNat (exponent.toNat - (1023 + 52 : Nat)) hm) =
      packComponents binary64 sign exponent mantissa := by
  have hmlt := mantissa.isLt
  have helt := exponent.isLt
  have hne : exponent.toNat ≠ 2 ^ 11 - 1 := fun h => he (BitVec.eq_of_toNat_eq h)
  have happ : (1#1 ++ mantissa).toNat = 2 ^ 52 + mantissa.toNat := toNat_append _ _
  have hlog : (1#1 ++ mantissa).toNat.log2 + 1 = 53 := by
    have hlo := (Nat.le_log2 (k := 52) (Nat.ne_of_gt hm)).mpr (Nat.le.intro happ.symm)
    have hhi : (1#1 ++ mantissa).toNat.log2 < 53 :=
      (Nat.log2_lt (Nat.ne_of_gt hm)).mpr (by omega)
    omega
  have hbiased : ((exponent.toNat : Int) - (1023 + 52 : Nat) + (1023 : Nat) + (52 : Nat)).toNat =
      exponent.toNat := by omega
  rw [pack_finite, hbiased, if_neg (by omega), if_pos hlog, BitVec.ofNat_toNat, BitVec.setWidth_eq]
  congr 1
  apply BitVec.eq_of_toNat_eq
  rw [BitVec.toNat_ofNat, happ]
  omega

theorem toNat_pos (h : mantissa ≠ 0#52) : 0 < mantissa.toNat :=
  Nat.pos_of_ne_zero fun hzero => h (BitVec.eq_of_toNat_eq hzero)

theorem toNat_one_append_pos (mantissa : BitVec 52) : 0 < (1#1 ++ mantissa).toNat := by
  have : (1#1 ++ mantissa).toNat = 2 ^ 52 + mantissa.toNat := toNat_append _ _
  omega

/-- How bits are unpacked, in terms of their fields. -/
theorem unpack_eq (b : BitVec 64) :
    Float.Model.UnpackedFloat.unpack binary64 b =
      if @unpackExponent binary64 b = -1#11 then
        if @unpackMantissa binary64 b = 0#52 then
          .infinity (.ofBitVec (@unpackSign binary64 b))
        else .notANumber
      else if @unpackExponent binary64 b = 0#11 then
        if h : @unpackMantissa binary64 b = 0#52 then
          .zero (.ofBitVec (@unpackSign binary64 b))
        else
          .finite (.ofBitVec (@unpackSign binary64 b))
            (@unpackMantissa binary64 b).toNat
            ((@unpackExponent binary64 b).toNat - (1023 + 52 : Nat) + 1) (toNat_pos h)
      else
        .finite (.ofBitVec (@unpackSign binary64 b))
          (1#1 ++ @unpackMantissa binary64 b).toNat
          ((@unpackExponent binary64 b).toNat - (1023 + 52 : Nat))
          (toNat_one_append_pos _) := rfl

/-- What was unpacked is packed again. -/
theorem pack_unpack (h : Format.Valid binary64 b) :
    Float.Model.UnpackedFloat.pack binary64 (Float.Model.UnpackedFloat.unpack binary64 b) = b := by
  have hfields := packComponents_unpack b
  rw [unpack_eq]
  by_cases hspecial : @unpackExponent binary64 b = -1#11
  · rw [if_pos hspecial]
    by_cases hzero : @unpackMantissa binary64 b = 0#52
    · rw [hspecial, hzero] at hfields
      rw [if_pos hzero]
      exact hfields
    · rw [if_neg hzero]
      exact (h.eq_packedNaN hspecial hzero).symm
  · rw [if_neg hspecial]
    by_cases hsmall : @unpackExponent binary64 b = 0#11
    · rw [hsmall] at hfields
      rw [if_pos hsmall]
      by_cases hzero : @unpackMantissa binary64 b = 0#52
      · rw [hzero] at hfields
        rw [dif_pos hzero]
        exact hfields
      · rw [dif_neg hzero, hsmall]
        exact (pack_subnormal (toNat_pos hzero)).trans hfields
    · rw [if_neg hsmall]
      exact (pack_normal hspecial (toNat_one_append_pos _)).trans hfields

/-! ### Doubles and their bits -/

theorem ofBits_toBits (x : Float) : Float.ofBits x.toBits = x := by
  obtain ⟨bits, valid⟩ := x
  show Float.ofModel ⟨UInt64.ofBitVec (Float.Model.UnpackedFloat.pack binary64
    (Float.Model.UnpackedFloat.unpack binary64 bits.toBitVec)), _⟩ = _
  congr 2
  rw [pack_unpack valid]

theorem toBits_ofBits {bits : UInt64} (h : Format.Valid binary64 bits.toBitVec) :
    (Float.ofBits bits).toBits = bits := by
  show UInt64.ofBitVec (Float.Model.UnpackedFloat.pack binary64
    (Float.Model.UnpackedFloat.unpack binary64 bits.toBitVec)) = bits
  rw [pack_unpack h]

/-! ### Kinds of doubles -/

/-- The bits of a double without the sign. -/
def magnitude (x : Float) : Nat := x.toBits.toNat % 2 ^ 63

theorem toNat_toBits (x : Float) :
    x.toBits.toNat = (if isNegative x then 2 ^ 63 else 0) + magnitude x := by
  have := x.toBits.toNat_lt
  rw [isNegative, magnitude, Nat.pow_eq]
  split <;> simp at * <;> omega

theorem unpackExponent_eq_neg_one_iff :
    @unpackExponent binary64 b = -1#11 ↔ infinityBits ≤ b.toNat % 2 ^ 63 := by
  have hneg : (-1#11).toNat = 2047 := rfl
  rw [← BitVec.toNat_inj, toNat_unpackExponent, hneg, infinityBits]
  omega

theorem unpackMantissa_eq_zero_iff (h : infinityBits ≤ b.toNat % 2 ^ 63) :
    @unpackMantissa binary64 b = 0#52 ↔ b.toNat % 2 ^ 63 = infinityBits := by
  have hzero : (0#52).toNat = 0 := rfl
  rw [infinityBits] at *
  rw [← BitVec.toNat_inj, toNat_unpackMantissa, hzero]
  omega

theorem isFinite_unpack (h : @unpackExponent binary64 b ≠ -1#11) :
    (Float.Model.UnpackedFloat.unpack binary64 b).isFinite = true := by
  rw [unpack_eq, if_neg h]
  by_cases hsmall : @unpackExponent binary64 b = 0#11
  · rw [if_pos hsmall]
    by_cases hzero : @unpackMantissa binary64 b = 0#52
    · rw [dif_pos hzero]
      rfl
    · rw [dif_neg hzero]
      rfl
  · rw [if_neg hsmall]
    rfl

/-- What is finite is neither infinite nor NaN. -/
theorem not_special_of_isFinite {u : Float.Model.UnpackedFloat} (h : u.isFinite = true) :
    u.isNaN = false ∧ u.isInf = false := by
  cases u with
  | zero => exact ⟨rfl, rfl⟩
  | finite => exact ⟨rfl, rfl⟩
  | infinity => exact absurd h Bool.false_ne_true
  | notANumber => exact absurd h Bool.false_ne_true

/-- The kind of a double goes by the size of its bits. -/
theorem kind_iff (x : Float) :
    (x.isNaN = true ↔ infinityBits < magnitude x) ∧
      (x.isInf = true ↔ magnitude x = infinityBits) ∧
        (x.isFinite = true ↔ magnitude x < infinityBits) := by
  show ((Float.Model.UnpackedFloat.unpack binary64 x.toBits.toBitVec).isNaN = true ↔ _) ∧
    ((Float.Model.UnpackedFloat.unpack binary64 x.toBits.toBitVec).isInf = true ↔ _) ∧
      ((Float.Model.UnpackedFloat.unpack binary64 x.toBits.toBitVec).isFinite = true ↔ _)
  have hexponent := unpackExponent_eq_neg_one_iff (b := x.toBits.toBitVec)
  rcases Nat.lt_trichotomy (magnitude x) infinityBits with hlt | heq | hgt
  · have hfinite := isFinite_unpack (mt hexponent.mp (Nat.not_le.mpr hlt))
    obtain ⟨hnan, hinf⟩ := not_special_of_isFinite hfinite
    rw [hnan, hinf, hfinite]
    exact ⟨iff_of_false Bool.false_ne_true (by omega), iff_of_false Bool.false_ne_true (by omega),
      iff_of_true rfl hlt⟩
  · have hzero :=
      (unpackMantissa_eq_zero_iff (b := x.toBits.toBitVec) (Nat.le_of_eq heq.symm)).mpr heq
    rw [unpack_eq, if_pos (hexponent.mpr (Nat.le_of_eq heq.symm)), if_pos hzero]
    exact ⟨iff_of_false Bool.false_ne_true (by omega), iff_of_true rfl heq,
      iff_of_false Bool.false_ne_true (by omega)⟩
  · have hzero := unpackMantissa_eq_zero_iff (b := x.toBits.toBitVec) (Nat.le_of_lt hgt)
    rw [unpack_eq, if_pos (hexponent.mpr (Nat.le_of_lt hgt)),
      if_neg fun h => Nat.ne_of_gt hgt (hzero.mp h)]
    exact ⟨iff_of_true rfl hgt, iff_of_false Bool.false_ne_true (by omega),
      iff_of_false Bool.false_ne_true (by omega)⟩

theorem isNaN_iff : x.isNaN = true ↔ infinityBits < magnitude x := (kind_iff x).1

theorem isInf_iff : x.isInf = true ↔ magnitude x = infinityBits := (kind_iff x).2.1

theorem isFinite_iff : x.isFinite = true ↔ magnitude x < infinityBits := (kind_iff x).2.2

/-- Doubles are of one of three kinds. -/
theorem isFinite_iff_not_special : x.isFinite = true ↔ ¬x.isNaN = true ∧ ¬x.isInf = true := by
  rw [isFinite_iff, isNaN_iff, isInf_iff]
  omega

/-- A double that is a number equals itself. -/
theorem beq_self (h : x.isNaN = false) : (x == x) = true := by
  change x.toModel.unpack.isNaN = false at h
  show (x.toModel.unpack.compare x.toModel.unpack == some .eq) = true
  generalize x.toModel.unpack = u at *
  cases u with
  | infinity s => cases s <;> rfl
  | notANumber => exact absurd h.symm Bool.false_ne_true
  | zero s => rfl
  | finite s m e hm =>
    have hself : ((compare e e).then (compare m m)) = .eq := by
      have he : compare e e = .eq := Std.ReflCmp.compare_self
      have hm : compare m m = .eq := Std.ReflCmp.compare_self
      rw [he, hm]
      rfl
    cases s with
    | negative =>
      show (some ((compare e e).then (compare m m)).swap == some .eq) = true
      rw [hself]
      rfl
    | positive =>
      show (some ((compare e e).then (compare m m)) == some .eq) = true
      rw [hself]
      rfl

/-! ### Sign and absolute value -/

/-- The bits of an absolute value. -/
def Unpacked.pattern (u : Unpacked) : Nat := (u.exponent + 1074).toNat * 2 ^ 52 + u.mantissa

/-- The absolute values of finite doubles. -/
structure Unpacked.Canonical (u : Unpacked) : Prop where
  /-- The integer has at most 53 bits. -/
  mantissa_lt : u.mantissa < 2 ^ 53
  /-- The power of two is not too small. -/
  le_exponent : -1074 ≤ u.exponent
  /-- The power of two is not too great. -/
  exponent_le : u.exponent ≤ 971
  /-- The integer has 53 bits unless the power of two is the smallest. -/
  normal : u.exponent = -1074 ∨ 2 ^ 52 ≤ u.mantissa

theorem Unpacked.Canonical.pattern_lt {u : Unpacked} (h : u.Canonical) :
    u.pattern < infinityBits := by
  obtain ⟨hlt, hle, hge, -⟩ := h
  rw [pattern, infinityBits]
  omega

theorem unpack_spec (h : x.isFinite = true) :
    (unpack x).Canonical ∧ (unpack x).pattern = magnitude x := by
  rw [isFinite_iff, magnitude, infinityBits] at h
  rw [Unpacked.pattern, magnitude, unpack]
  simp only [Nat.pow_eq]
  split
  · refine ⟨⟨?_, ?_, ?_, ?_⟩, ?_⟩ <;> simp <;> omega
  · refine ⟨⟨?_, ?_, ?_, ?_⟩, ?_⟩ <;> simp <;> omega

/-! ### Doubles from patterns -/

/-- No pattern up to that of infinity is one of NaN. -/
theorem valid_of_le (h : b.toNat % 2 ^ 63 ≤ infinityBits) : Format.Valid binary64 b := by
  refine ⟨fun hexponent hmantissa => absurd ?_ hmantissa⟩
  have hle := unpackExponent_eq_neg_one_iff.mp hexponent
  exact (unpackMantissa_eq_zero_iff hle).mpr (Nat.le_antisymm h hle)

theorem toBits_ofPattern (negative : Bool) (pattern : Nat) :
    (ofPattern negative pattern).toBits.toNat =
      min pattern infinityBits + if negative then 2 ^ 63 else 0 := by
  have hle : min pattern infinityBits ≤ 0x7FF0000000000000 := Nat.min_le_right _ _
  have hbits : (UInt64.ofNat (min pattern infinityBits + if negative then 2 ^ 63 else 0)).toNat =
      min pattern infinityBits + if negative then 2 ^ 63 else 0 := by
    rw [UInt64.toNat_ofNat']
    split <;> omega
  rw [ofPattern, Nat.pow_eq, toBits_ofBits, hbits]
  refine valid_of_le ?_
  rw [UInt64.toNat_toBitVec, hbits, infinityBits]
  split <;> omega

theorem magnitude_ofPattern (negative : Bool) (pattern : Nat) :
    magnitude (ofPattern negative pattern) = min pattern infinityBits := by
  have hle : min pattern infinityBits ≤ 0x7FF0000000000000 := Nat.min_le_right _ _
  rw [magnitude, toBits_ofPattern]
  split <;> omega

/-- What is made of a pattern is a number. -/
theorem isNaN_ofPattern (negative : Bool) (pattern : Nat) :
    (ofPattern negative pattern).isNaN = false := by
  rw [← Bool.not_eq_true, isNaN_iff, magnitude_ofPattern]
  exact Nat.not_lt.mpr (Nat.min_le_right _ _)

/-- **A finite double from its parts**: it is made again from its sign and its absolute value. -/
theorem ofPattern_unpack (h : x.isFinite = true) :
    ofPattern (isNegative x) (unpack x).pattern = x := by
  obtain ⟨hcanonical, hpattern⟩ := unpack_spec h
  rw [ofPattern, Nat.min_eq_left (Nat.le_of_lt hcanonical.pattern_lt), hpattern, Nat.pow_eq,
    Nat.add_comm, ← toNat_toBits, UInt64.ofNat_toNat, ofBits_toBits]

/-- No decimal number is rounded to NaN. -/
theorem isNaN_ofDecimal (negative : Bool) (digits : Nat) (exponent : Int) :
    (ofDecimal negative digits exponent).isNaN = false := by
  have hratio : ∀ num den, (ofRatio negative num den).isNaN = false := by
    intro num den
    rw [ofRatio]
    split
    · exact isNaN_ofPattern _ _
    · exact isNaN_ofPattern _ _
  rw [ofDecimal]
  split
  · exact isNaN_ofPattern _ _
  split
  · exact isNaN_ofPattern _ _
  split
  · exact isNaN_ofPattern _ _
  · exact hratio _ _

end CatalogGuard.Number.Binary64
