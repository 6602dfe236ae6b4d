/-
  MemoryShell/Proofs/Decimal/Double.lean
  ======================================
  **What operations on doubles do to their parts.**

  Core computes on an unpacked form of a double and packs the outcome.  An unpacked form that fits
  the format is found again after packing, so an operation is known from what it does to unpacked
  forms; and an unpacked form is the parts of a double with the zeros set apart.
-/
import Mathlib
import MemoryShell.Decimal.Double

namespace MemoryShell.Decimal

open Float.Model (UnpackedFloat Format)
open Float.Model.UnpackedFloat

/-! ### Unpacked forms and parts -/

def isNegative : Sign → Bool
  | .negative => true
  | .positive => false

/-- The parts of the double that has a certain unpacked form. -/
def Parts.ofUnpacked : UnpackedFloat → Parts
  | .notANumber => .nan
  | .infinity s => .infinite (isNegative s)
  | .zero s => .finite (isNegative s) 0 minExponent
  | .finite s m e _ => .finite (isNegative s) m e

section Fields

variable (b : BitVec (Format.numBits .binary64))

theorem toNat_unpackMantissa : (unpackMantissa b).toNat = b.toNat % twoTo 52 := by
  simp [unpackMantissa, twoTo]

theorem toNat_unpackExponent : (unpackExponent b).toNat = b.toNat / twoTo 52 % twoTo 11 := by
  simp [unpackExponent, twoTo, Nat.shiftRight_eq_div_pow]

theorem isNegative_ofBitVec (v : BitVec 1) :
    isNegative (Sign.ofBitVec v) = decide (v.toNat = 1) := by
  revert v
  decide

theorem isNegative_unpackSign :
    isNegative (Sign.ofBitVec (unpackSign b)) = decide (b.toNat / twoTo 63 % 2 = 1) := by
  have hbit : (unpackSign b).toNat = b.toNat / twoTo 63 % 2 := by
    simp [unpackSign, twoTo, Nat.shiftRight_eq_div_pow]
  rw [isNegative_ofBitVec, hbit]

end Fields

/-- The bit that is not written stands before the mantissa of a normal double. -/
theorem toNat_one_append (m : BitVec 52) : (1#1 ++ m).toNat = m.toNat + minNormal := by
  rw [BitVec.toNat_append, ← Nat.shiftLeft_add_eq_or_of_lt m.isLt, Nat.add_comm]
  rfl

/-- To take a double apart by the fields of its bits is to unpack it. -/
theorem ofUnpacked_unpack (x : Float) : Parts.ofUnpacked x.toModel.unpack = Parts.ofFloat x := by
  have hmantissa := toNat_unpackMantissa x.toModel.toBits.toBitVec
  have hexponent := toNat_unpackExponent x.toModel.toBits.toBitVec
  have hsign := isNegative_unpackSign x.toModel.toBits.toBitVec
  have hbits : x.toModel.toBits.toBitVec.toNat = x.toBits.toNat := rfl
  rw [hbits] at hmantissa hexponent hsign
  have hones : (-1#11 : BitVec 11).toNat = 2047 := rfl
  have hnormal : (1#1 ++ @unpackMantissa .binary64 x.toModel.toBits.toBitVec).toNat =
      x.toBits.toNat % twoTo 52 + minNormal := by
    rw [toNat_one_append, hmantissa]
  simp only [Float.Model.unpack, UnpackedFloat.unpack, Parts.ofFloat, ← BitVec.toNat_inj,
    hmantissa, hexponent, ← hsign, hones, hnormal, BitVec.toNat_zero]
  by_cases hinfinite : x.toBits.toNat / twoTo 52 % twoTo 11 = 2047
  · simp only [hinfinite, if_true]
    by_cases hzero : x.toBits.toNat % twoTo 52 = 0
    · simp only [hzero, if_true]
      rfl
    · simp only [hzero, if_false]
      rfl
  by_cases hsmall : x.toBits.toNat / twoTo 52 % twoTo 11 = 0
  · simp only [hsmall, if_true]
    by_cases hzero : x.toBits.toNat % twoTo 52 = 0
    · simp [hzero]
      rfl
    · simp [hzero]
      rfl
  · simp only [hinfinite, hsmall, if_false]
    rfl

/-! ### Packing -/

/-- Whether parts are those of a double: a mantissa takes 53 bits, and all of them unless the
    exponent is the least one. -/
def Parts.IsCanonical : Parts → Prop
  | .finite _ mantissa exponent =>
    mantissa < twoTo 53 ∧ minExponent ≤ exponent ∧ exponent ≤ 971 ∧
      (minNormal ≤ mantissa ∨ exponent = minExponent)
  | _ => True

theorem isCanonical_ofFloat (x : Float) : (Parts.ofFloat x).IsCanonical := by
  have hfraction : x.toBits.toNat % twoTo 52 < twoTo 52 := Nat.mod_lt _ (twoTo_pos 52)
  have hbiased : x.toBits.toNat / twoTo 52 % twoTo 11 < 2048 := Nat.mod_lt _ (twoTo_pos 11)
  have hbits : twoTo 53 = twoTo 52 + minNormal := rfl
  have hleast : minExponent = -1074 := rfl
  simp only [Parts.ofFloat]
  split
  · split <;> trivial
  split
  · exact ⟨by omega, Int.le_refl _, by decide, .inr rfl⟩
  · exact ⟨by omega, by omega, by omega, .inl (Nat.le_add_left _ _)⟩

/-- The bits of a normal double hold its mantissa without the first bit. -/
theorem unpack_packComponents_normal {s : Sign} {m biased : Nat} (hm : 0 < m)
    (hnormal : minNormal ≤ m) (hbits : m < twoTo 53) (hpos : 0 < biased) (hlt : biased < 2047) :
    UnpackedFloat.unpack .binary64
        (packComponents .binary64 s (BitVec.ofNat 11 biased) (BitVec.ofNat 52 m)) =
      .finite s m (biased - 1075) hm := by
  have hbiased : (BitVec.ofNat 11 biased).toNat = biased := by
    rw [BitVec.toNat_ofNat, Nat.mod_eq_of_lt (by omega)]
  have hones : ¬ BitVec.ofNat 11 biased = -1#11 := by
    rw [← BitVec.toNat_inj, hbiased]
    exact Nat.ne_of_lt hlt
  have hzero : ¬ BitVec.ofNat 11 biased = 0#11 := by
    rw [← BitVec.toNat_inj, hbiased]
    exact Nat.ne_of_gt hpos
  have hmantissa : (1#1 ++ BitVec.ofNat 52 m).toNat = m := by
    have hminNormal : minNormal = 2 ^ 52 := rfl
    have hmost : twoTo 53 = 2 ^ 53 := rfl
    rw [toNat_one_append, BitVec.toNat_ofNat]
    omega
  simp only [UnpackedFloat.unpack, unpackMantissa_packComponents, unpackExponent_packComponents,
    unpackSign_packComponents, Sign.ofBitVec_toBitVec, hones, hzero, hbiased, hmantissa, if_false]
  rfl

/-- The bits of a double below the normal ones hold its whole mantissa. -/
theorem unpack_packComponents_small {s : Sign} {m : Nat} (hm : 0 < m) (hsmall : m < minNormal) :
    UnpackedFloat.unpack .binary64 (packComponents .binary64 s 0#11 (BitVec.ofNat 52 m)) =
      .finite s m minExponent hm := by
  have hmantissa : (BitVec.ofNat 52 m).toNat = m := by
    rw [BitVec.toNat_ofNat]
    exact Nat.mod_eq_of_lt hsmall
  have hzero : ¬ BitVec.ofNat 52 m = 0#52 := by
    rw [← BitVec.toNat_inj, hmantissa]
    exact Nat.ne_of_gt hm
  have hones : ¬ 0#11 = -1#11 := by decide
  simp only [UnpackedFloat.unpack, unpackMantissa_packComponents, unpackExponent_packComponents,
    unpackSign_packComponents, Sign.ofBitVec_toBitVec, hones, hzero, hmantissa, if_false, if_true,
    dif_neg, not_false_eq_true]
  rfl

theorem log2_eq_of_normal {m : Nat} (hnormal : minNormal ≤ m) (hbits : m < twoTo 53) :
    m.log2 = 52 := by
  have hne : m ≠ 0 := Nat.ne_of_gt (Nat.lt_of_lt_of_le (twoTo_pos 52) hnormal)
  have hleast : 52 ≤ m.log2 := (Nat.le_log2 hne).mpr hnormal
  have hgreatest : m.log2 < 53 := (Nat.log2_lt hne).mpr hbits
  omega

/-- What has the parts of a double is found again after packing. -/
theorem unpack_pack {u : UnpackedFloat} (h : (Parts.ofUnpacked u).IsCanonical) :
    (Float.Model.pack u).unpack = u := by
  cases u with
  | notANumber => rfl
  | infinity s => cases s <;> rfl
  | zero s => cases s <;> rfl
  | finite s m e hm =>
    obtain ⟨hbits, hleast, hgreatest, hnormal⟩ := h
    have hminExponent : minExponent = -1074 := rfl
    have hbias : (Format.binary64.exponentBias : Int) + 52 = 1075 := rfl
    have hbiased : (e + Format.binary64.exponentBias + (52 : Nat)).toNat = (e + 1075).toNat := by
      congr 1
      omega
    have hfits : ¬ 2 ^ 11 ≤ (e + 1075).toNat + 1 := by omega
    simp only [Float.Model.pack, Float.Model.unpack, UnpackedFloat.pack, hbiased, if_neg hfits]
    by_cases h52 : minNormal ≤ m
    · have hlog : m.log2 + 1 = Format.binary64.mantissaBits := by
        rw [log2_eq_of_normal h52 hbits]
        rfl
      rw [if_pos hlog]
      refine (unpack_packComponents_normal hm h52 hbits (by omega) (by omega)).trans ?_
      congr 1
      omega
    · have hlog : ¬ m.log2 + 1 = Format.binary64.mantissaBits := by
        have hlt : m.log2 < 52 := (Nat.log2_lt (Nat.ne_of_gt hm)).mpr (Nat.lt_of_not_le h52)
        have hmantissaBits : Format.binary64.mantissaBits = 53 := rfl
        omega
      rw [if_neg hlog, hnormal.resolve_left h52]
      exact unpack_packComponents_small hm (Nat.lt_of_not_le h52)

/-! ### Magnitudes and signs -/

theorem unpack_abs (x : Float) : x.abs.toModel.unpack = x.toModel.unpack.abs := by
  have hcanonical := isCanonical_ofFloat x
  rw [← ofUnpacked_unpack] at hcanonical
  refine unpack_pack ?_
  cases hunpack : x.toModel.unpack <;> rw [hunpack] at hcanonical <;> exact hcanonical

/-- What a right shift leaves of a mantissa. -/
theorem mantissa_shiftRight (em : ExtendedMantissa) (n : Nat) :
    (em >>> n).mantissa = em.mantissa / twoTo n := by
  have hshift (n : Nat) :
      (n.repeat ExtendedMantissa.shiftRightOne em).mantissa = em.mantissa / twoTo n := by
    induction n with
    | zero => exact (Nat.div_one _).symm
    | succ n ih =>
      rw [Nat.repeat, ExtendedMantissa.shiftRightOne, ih, twoTo_succ, Nat.div_div_eq_div_mul]
  exact hshift n

/-- Rounding toward zero is the division of integers. -/
theorem roundToInt_positive (m : Nat) (e : Int) :
    roundToInt .positive m e = ((ratio m e).1 / (ratio m e).2 : Nat) := by
  simp only [roundToInt, decreaseExponent, shiftToExponent, Sign.apply, mantissa_shiftRight,
    ExtendedMantissa.ofMantissaAndAccuracy, Nat.shiftLeft_eq]
  rcases Int.lt_or_le e 0 with hneg | hpos
  · have hshift : (0 - (e - ((e - 0).toNat : Int))).toNat = (-e).toNat := by omega
    have hleft : (e - 0).toNat = 0 := by omega
    rw [hshift, hleft, Nat.pow_zero, Nat.mul_one, ratio, if_neg (by omega)]
  · have hshift : (0 - (e - ((e - 0).toNat : Int))).toNat = 0 := by omega
    have hleft : (e - 0).toNat = e.toNat := by omega
    rw [hshift, hleft, ratio, if_pos hpos, Nat.div_one]
    exact congrArg _ (Nat.div_one _)

theorem toNat_ofNatClamp (n : Nat) : (UInt64.ofNatClamp n).toNat = min n (UInt64.size - 1) := by
  rw [UInt64.ofNatClamp]
  split
  · rename_i hlt
    rw [UInt64.toNat_ofNatLT, Nat.min_eq_left (Nat.le_sub_one_of_lt hlt)]
  · rename_i hle
    rw [UInt64.toNat_ofNatLT, Nat.min_eq_right (by omega)]

section Parts

variable {x : Float} {negative : Bool} {m : Nat} {e : Int}
  (h : Parts.ofFloat x = .finite negative m e)
include h

/-- A finite double without its sign, as a word: what is too large becomes the largest word. -/
theorem toNat_toUInt64_abs :
    x.abs.toUInt64.toNat = min ((ratio m e).1 / (ratio m e).2) (UInt64.size - 1) := by
  have hint : (x.toModel.unpack.abs.toInt 0 (UInt64.size - 1)).toNat =
      (ratio m e).1 / (ratio m e).2 := by
    rw [← ofUnpacked_unpack] at h
    cases hunpack : x.toModel.unpack <;> rw [hunpack] at h <;> cases h
    · simp [UnpackedFloat.abs, UnpackedFloat.toInt, ratio, minExponent]
    · exact (congrArg Int.toNat (roundToInt_positive _ _)).trans (Int.toNat_natCast _)
  have hword : x.abs.toUInt64 =
      UInt64.ofNatClamp (x.abs.toModel.unpack.toInt 0 (UInt64.size - 1)).toNat := rfl
  rw [hword, unpack_abs, toNat_ofNatClamp, hint]

/-- A finite double is below zero if it has a minus and is not zero. -/
theorem lt_zero_iff : x < 0 ↔ negative = true ∧ m ≠ 0 := by
  have hzero : (0 : Float).toModel.unpack = .zero .positive := rfl
  have hlt : x < 0 ↔ x.toModel.unpack.lt (0 : Float).toModel.unpack = true :=
    decide_eq_true_iff
  rw [← ofUnpacked_unpack] at h
  rw [hlt, hzero]
  cases hunpack : x.toModel.unpack <;> rw [hunpack] at h <;> cases h
  · simp [UnpackedFloat.lt, UnpackedFloat.compare]
  · rename_i s hm
    cases s <;> simp [UnpackedFloat.lt, UnpackedFloat.compare, isNegative, Nat.ne_of_gt hm]

end Parts

/-! ### Rounding -/

theorem log2_mul_twoTo {m : Nat} (hm : m ≠ 0) (n : Nat) :
    (m * twoTo n).log2 = m.log2 + n := by
  induction n with
  | zero => exact congrArg Nat.log2 (Nat.mul_one m)
  | succ n ih =>
    have hne : m * twoTo n ≠ 0 := Nat.mul_ne_zero hm (Nat.ne_of_gt (twoTo_pos n))
    rw [twoTo_succ, ← Nat.mul_assoc, Nat.mul_comm, Nat.log2_two_mul hne, ih, Nat.add_assoc]

/-- To shift a mantissa to the place it has in a normal double leaves 53 bits of it. -/
theorem shiftToTargetExponent_normal {m : Nat} {e : Int} (accuracy : Accuracy)
    (hlog : 52 ≤ m.log2) (hleast : minExponent ≤ m.log2 + e - 52) :
    minNormal ≤ (shiftToTargetExponent .binary64 m e accuracy).1.mantissa ∧
      (shiftToTargetExponent .binary64 m e accuracy).1.mantissa < twoTo 53 ∧
      (shiftToTargetExponent .binary64 m e accuracy).2 = m.log2 + e - 52 := by
  have hne : m ≠ 0 := by
    rintro rfl
    exact absurd hlog (by decide)
  have htarget : Format.binary64.targetExponent (Float.Model.totalExponent m e) =
      m.log2 + e - 52 := by
    have hminExponent : Format.binary64.minExponent = minExponent := rfl
    have hmantissaBits : (Format.binary64.mantissaBits : Int) = 53 := rfl
    rw [Format.targetExponent, Float.Model.totalExponent, hminExponent, hmantissaBits]
    omega
  have hmantissa : (ExtendedMantissa.ofMantissaAndAccuracy m accuracy).mantissa = m := by
    rcases accuracy with _ | (_ | _ | _) <;> rfl
  have hshift : (m.log2 + e - 52 - e).toNat = m.log2 - 52 := by omega
  simp only [shiftToTargetExponent, shiftToExponent, htarget, hshift, mantissa_shiftRight,
    hmantissa]
  have hpow : twoTo m.log2 = minNormal * twoTo (m.log2 - 52) := by
    have hsum : 52 + (m.log2 - 52) = m.log2 := by omega
    exact (congrArg twoTo hsum.symm).trans (Nat.pow_add 2 52 _)
  have hleastBits : twoTo m.log2 ≤ m := Nat.log2_self_le hne
  have hmostBits : m < twoTo m.log2 * 2 := Nat.lt_log2_self
  refine ⟨?_, ?_, by omega⟩
  · rw [Nat.le_div_iff_mul_le (twoTo_pos _), ← hpow]
    exact hleastBits
  · rw [Nat.div_lt_iff_lt_mul (twoTo_pos _)]
    have hmost : twoTo 53 = minNormal * 2 := rfl
    rw [hmost, Nat.mul_right_comm, ← hpow]
    exact hmostBits

theorem roundedMantissa_bounds (em : ExtendedMantissa) :
    em.mantissa ≤ em.roundedMantissa ∧ em.roundedMantissa ≤ em.mantissa + 1 := by
  obtain ⟨m, _ | _, _ | _⟩ := em <;> rw [ExtendedMantissa.roundedMantissa] <;>
    simp only [ExtendedMantissa.accuracy, Accuracy.roundToNearestEven] <;> omega

/-- A positive number with all bits of a mantissa, or positive infinity. -/
def IsPositiveNormal (u : UnpackedFloat) : Prop :=
  u = .infinity .positive ∨
    ∃ m e hm, u = .finite .positive m e hm ∧ minNormal ≤ m ∧ minExponent ≤ e

theorem isPositiveNormal_pack {m : Nat} {e : Int} (hm : 0 < m) (hnormal : minNormal ≤ m)
    (hbits : m < twoTo 53) (hleast : minExponent ≤ e) :
    IsPositiveNormal (Float.Model.pack (.finite .positive m e hm)).unpack := by
  by_cases hgreatest : e ≤ 971
  · exact .inr ⟨m, e, hm, unpack_pack ⟨hbits, hleast, hgreatest, .inl hnormal⟩, hnormal, hleast⟩
  · have hbias : (Format.binary64.exponentBias : Int) = 1023 := rfl
    have hoverflow :
        2 ^ 11 ≤ (e + Format.binary64.exponentBias + (52 : Nat)).toNat + 1 := by omega
    refine .inl ?_
    simp only [Float.Model.pack, Float.Model.unpack, UnpackedFloat.pack, if_pos hoverflow]
    rfl

/-- What is rounded from enough bits is normal. -/
theorem isPositiveNormal_roundWithAccuracy {m : Nat} {e : Int} (hlog : 52 ≤ m.log2)
    (hleast : minExponent ≤ m.log2 + e - 52) :
    IsPositiveNormal
      (Float.Model.pack (roundWithAccuracy .binary64 .positive m e .exact)).unpack := by
  obtain ⟨hnormal, hbits, hexponent⟩ := shiftToTargetExponent_normal .exact hlog hleast
  have hrounded := roundedMantissa_bounds (shiftToTargetExponent .binary64 m e .exact).1
  generalize hfirst : shiftToTargetExponent .binary64 m e .exact = first at *
  -- Rounding up may take one bit more, so the mantissa is shifted once again.
  have hnormalRounded : minNormal ≤ first.1.roundedMantissa := Nat.le_trans hnormal hrounded.1
  have hlog' : 52 ≤ first.1.roundedMantissa.log2 :=
    (Nat.le_log2 (Nat.ne_of_gt (Nat.lt_of_lt_of_le (twoTo_pos 52) hnormalRounded))).mpr
      hnormalRounded
  have hsecond := shiftToTargetExponent_normal (m := first.1.roundedMantissa) (e := first.2) .exact
    hlog' (by omega)
  have hround : roundWithAccuracy .binary64 .positive m e .exact =
      if h : (shiftToTargetExponent .binary64 first.1.roundedMantissa first.2
        .exact).1.mantissa = 0 then .zero .positive
      else .finite .positive _ (shiftToTargetExponent .binary64 first.1.roundedMantissa first.2
        .exact).2 (Nat.pos_of_ne_zero h) := by
    rw [← hfirst]
    rfl
  generalize shiftToTargetExponent .binary64 first.1.roundedMantissa first.2 .exact = second at *
  obtain ⟨hnormal', hbits', hexponent'⟩ := hsecond
  have hpos : 0 < second.1.mantissa := Nat.lt_of_lt_of_le (twoTo_pos 52) hnormal'
  rw [hround, dif_neg (Nat.ne_of_gt hpos)]
  exact isPositiveNormal_pack hpos hnormal' hbits' (by omega)

/-- A product of positive normal numbers that does not become too small. -/
theorem isPositiveNormal_mul {m m' : Nat} {e e' : Int} (hm : 0 < m) (hm' : 0 < m')
    (hlog : 52 ≤ (m * m').log2) (hleast : minExponent ≤ (m * m').log2 + (e + e') - 52) :
    IsPositiveNormal (Float.Model.pack (UnpackedFloat.mul .binary64 (.finite .positive m e hm)
      (.finite .positive m' e' hm'))).unpack :=
  isPositiveNormal_roundWithAccuracy hlog hleast

theorem isPositiveNormal_ofNat {n : Nat} (hn : 0 < n) :
    IsPositiveNormal (Float.Model.ofNat n).unpack := by
  have hcompare : compare (n : Int) 0 = .gt := Int.compare_eq_gt.mpr (Int.natCast_pos.mpr hn)
  have hminExponent : Format.binary64.minExponent = -1074 := rfl
  have hmantissaBits : (Format.binary64.mantissaBits : Int) = 53 := rfl
  have htarget : Format.binary64.targetExponent (Float.Model.totalExponent n 0) =
      max ((n.log2 : Int) - 52) (-1074) := by
    rw [Format.targetExponent, Float.Model.totalExponent, hminExponent, hmantissaBits]
    omega
  have hleft : (0 - max ((n.log2 : Int) - 52) (-1074)).toNat = 52 - n.log2 := by omega
  simp only [Float.Model.ofNat, UnpackedFloat.ofNat, UnpackedFloat.ofInt,
    UnpackedFloat.normalize, UnpackedFloat.round, decreaseExponent, hcompare, Int.toNat_natCast,
    htarget, hleft, Nat.shiftLeft_eq]
  have hlog : (n * 2 ^ (52 - n.log2)).log2 = n.log2 + (52 - n.log2) :=
    log2_mul_twoTo (Nat.ne_of_gt hn) _
  have hleastExponent : minExponent = -1074 := rfl
  exact isPositiveNormal_roundWithAccuracy (by omega) (by omega)

/-- The double of a positive integer is positive. -/
theorem isPositiveNormal_natCast {n : Nat} (hn : 0 < n) :
    IsPositiveNormal (Float.ofNat n).toModel.unpack := by
  have hleast : minExponent = -1074 := rfl
  by_cases hexact : n < 2 ^ 53
  · -- An integer that is a double is multiplied by one.
    have hone : (Float.ofBits 0x3FF0000000000000).toModel.unpack =
        .finite .positive (twoTo 52) (-52) (twoTo_pos 52) := rfl
    have hword : n.toUInt64.toNat = n := Nat.mod_eq_of_lt (by omega)
    have hfloat : (Float.ofNat n).toModel = Float.Model.pack (UnpackedFloat.mul .binary64
        (Float.Model.ofNat n).unpack (Float.ofBits 0x3FF0000000000000).toModel.unpack) := by
      have hfast : Float.ofNat n = n.toUInt64.toFloat * Float.ofBits 0x3FF0000000000000 :=
        dif_pos ⟨hexact, by decide⟩
      have hcast : n.toUInt64.toFloat.toModel = Float.Model.ofNat n.toUInt64.toNat := rfl
      rw [hword] at hcast
      rw [hfast, ← hcast]
      rfl
    rw [hfloat, hone]
    rcases isPositiveNormal_ofNat hn with hinfinite | ⟨m, e, hm, hfinite, hnormal, he⟩
    · rw [hinfinite]
      exact .inl rfl
    · have hlog : 52 ≤ m.log2 := (Nat.le_log2 (Nat.ne_of_gt hm)).mpr hnormal
      have hproduct := log2_mul_twoTo (Nat.ne_of_gt hm) 52
      rw [hfinite]
      exact isPositiveNormal_mul hm (twoTo_pos 52) (by omega) (by omega)
  · have hfloat : (Float.ofNat n).toModel = Float.Model.pack (ofScientific .binary64 n 0) := by
      have hslow : Float.ofNat n = Float.ofModel (Float.Model.ofScientific n 0) :=
        dif_neg fun h => hexact h.1
      rw [hslow]
      rfl
    have hproduct := log2_mul_twoTo (Nat.ne_of_gt hn) 53
    have hscientific : ofScientific .binary64 n 0 =
        roundWithAccuracy .binary64 .positive (n * twoTo 53) (-53) .exact := by
      have hshift : n <<< 53 * 10 ^ (0 : Int).toNat = n * twoTo 53 := by
        rw [Nat.shiftLeft_eq]
        exact Nat.mul_one _
      have hgreatest : (2 : Int) ^ Format.binary64.exponentBits = 2048 := rfl
      rw [ofScientific, dif_neg (Nat.ne_of_gt hn), if_neg (by omega), if_neg (by omega),
        if_pos (Int.le_refl 0), ← hshift]
      rfl
    rw [hfloat, hscientific]
    exact isPositiveNormal_roundWithAccuracy (by omega) (by omega)

theorem ofNat_ne_neg_one (n : Nat) : Float.ofNat n ≠ -1 := by
  intro heq
  have hminus : (-1 : Float).toModel.unpack =
      .finite .negative (twoTo 52) (-52) (twoTo_pos 52) := rfl
  rcases Nat.eq_zero_or_pos n with rfl | hn
  · have hzero : (Float.ofNat 0).toModel.unpack = .zero .positive := rfl
    rw [heq, hminus] at hzero
    cases hzero
  · rcases isPositiveNormal_natCast hn with hinfinite | ⟨m, e, hm, hfinite, -⟩
    · rw [heq, hminus] at hinfinite
      cases hinfinite
    · rw [heq, hminus] at hfinite
      cases hfinite

/-- No integer but zero becomes the double zero. -/
theorem ofNat_eq_zero_iff {n : Nat} : Float.ofNat n = 0 ↔ n = 0 := by
  constructor
  · intro heq
    have hzero : (0 : Float).toModel.unpack = .zero .positive := rfl
    by_contra hn
    rcases isPositiveNormal_natCast (Nat.pos_of_ne_zero hn) with
      hinfinite | ⟨m, e, hm, hfinite, -⟩
    · rw [heq, hzero] at hinfinite
      cases hinfinite
    · rw [heq, hzero] at hfinite
      cases hfinite
  · rintro rfl
    rfl

/-! ### Values -/

/-- The number that finite parts stand for. -/
def Parts.value? : Parts → Option ℚ
  | .finite negative mantissa exponent =>
    some ((if negative then -1 else 1) * (mantissa * 2 ^ exponent))
  | _ => none

theorem ratio_pos (m : Nat) (e : Int) : 0 < (ratio m e).2 := by
  rw [ratio]
  split
  · exact Nat.one_pos
  · exact twoTo_pos _

theorem cast_twoTo (n : Nat) : (twoTo n : ℚ) = 2 ^ n := by
  rw [twoTo, Nat.pow_eq, Nat.cast_pow, Nat.cast_ofNat]

theorem ratio_eq (m : Nat) (e : Int) :
    ((ratio m e).1 : ℚ) / (ratio m e).2 = m * 2 ^ e := by
  rcases Int.lt_or_le e 0 with hneg | hpos
  · rw [ratio, if_neg (Int.not_le.mpr hneg), cast_twoTo, div_eq_mul_inv, ← zpow_natCast,
      ← zpow_neg, Int.toNat_of_nonneg (by omega), Int.neg_neg]
  · rw [ratio, if_pos hpos, Nat.cast_one, div_one, Nat.cast_mul, cast_twoTo, ← zpow_natCast,
      Int.toNat_of_nonneg hpos]

/-- What a double that stands for an integer is made of. -/
theorem ratio_of_value? {negative : Bool} {m : Nat} {e z : Int}
    (h : (Parts.finite negative m e).value? = some (z : ℚ)) :
    (ratio m e).1 = z.natAbs * (ratio m e).2 ∧ (z < 0 ↔ negative = true ∧ m ≠ 0) := by
  have hden : ((ratio m e).2 : ℚ) ≠ 0 := Nat.cast_ne_zero.mpr (Nat.ne_of_gt (ratio_pos m e))
  have hvalue := Option.some.inj h
  rw [← ratio_eq, ← mul_div_assoc, div_eq_iff hden] at hvalue
  have hscaled : (if negative then -1 else 1) * ((ratio m e).1 : ℤ) = z * (ratio m e).2 := by
    cases negative <;> exact_mod_cast hvalue
  have hnum : (ratio m e).1 = 0 ↔ m = 0 := by
    rw [ratio]
    split
    · exact ⟨fun hzero => (Nat.mul_eq_zero.mp hzero).resolve_right (Nat.ne_of_gt (twoTo_pos _)),
        fun hzero => by rw [hzero, Nat.zero_mul]⟩
    · exact Iff.rfl
  have hpos : (0 : ℤ) < (ratio m e).2 := Int.natCast_pos.mpr (ratio_pos m e)
  constructor
  · have habs := congrArg Int.natAbs hscaled
    rw [Int.natAbs_mul, Int.natAbs_mul, Int.natAbs_natCast, Int.natAbs_natCast] at habs
    cases negative <;> simpa using habs
  · have hsign : z < 0 ↔ z * (ratio m e).2 < 0 := by
      rw [mul_neg_iff]
      omega
    rw [hsign, ← hscaled]
    cases negative <;> simp [hnum, Nat.pos_iff_ne_zero]

end MemoryShell.Decimal
