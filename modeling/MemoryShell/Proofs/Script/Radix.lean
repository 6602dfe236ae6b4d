/-
  MemoryShell/Proofs/Script/Radix.lean
  ====================================
  **Integers in other bases.**

  A number that is an integer is written in a base by the digits of a 64-bit word.  The word is the
  integer without its sign, as long as it fits; of a larger integer it is the largest word, and so
  the text is the numeral of another number.
-/
import MemoryShell.Proofs.Decimal.Double
import MemoryShell.Proofs.Decimal.Numeral
import MemoryShell.Script.Evaluation

namespace MemoryShell.Script

open Decimal (IsNumeral Parts)

/-! ### The text of an integer -/

/-- The integer next to one whose magnitude fits a 64-bit word. -/
def clampToWord (z : Int) : Int := z.sign * min z.natAbs (UInt64.size - 1)

theorem natAbs_clampToWord (z : Int) : (clampToWord z).natAbs = min z.natAbs (UInt64.size - 1) := by
  rw [clampToWord, Int.natAbs_mul, Int.natAbs_natCast]
  rcases Int.lt_trichotomy z 0 with hneg | rfl | hpos
  · rw [Int.sign_eq_neg_one_of_neg hneg, Int.natAbs_neg, Int.natAbs_one, Nat.one_mul]
  · rfl
  · rw [Int.sign_eq_one_of_pos hpos, Int.natAbs_one, Nat.one_mul]

theorem clampToWord_neg_iff (z : Int) : clampToWord z < 0 ↔ z < 0 := by
  have hsize : UInt64.size = 2 ^ 64 := rfl
  rw [clampToWord]
  rcases Int.lt_trichotomy z 0 with hneg | rfl | hpos
  · rw [Int.sign_eq_neg_one_of_neg hneg]
    omega
  · rfl
  · rw [Int.sign_eq_one_of_pos hpos]
    omega

/-- The integers that fit are taken as they are. -/
theorem clampToWord_eq_iff (z : Int) : clampToWord z = z ↔ z.natAbs < UInt64.size := by
  have hsize : UInt64.size = 2 ^ 64 := rfl
  have habs := natAbs_clampToWord z
  have hneg := clampToWord_neg_iff z
  omega

section Integer

variable {x : Float} {z : Int} (hx : (Parts.ofFloat x).value? = some (z : ℚ))
include hx

/-- A double that stands for an integer is finite. -/
theorem exists_parts_of_value? : ∃ negative mantissa exponent,
    Parts.ofFloat x = .finite negative mantissa exponent ∧
      (Decimal.ratio mantissa exponent).1 =
        z.natAbs * (Decimal.ratio mantissa exponent).2 ∧
      (z < 0 ↔ negative = true ∧ mantissa ≠ 0) := by
  cases hparts : Parts.ofFloat x with
  | nan =>
    rw [hparts] at hx
    cases hx
  | infinite negative =>
    rw [hparts] at hx
    cases hx
  | finite negative m e =>
    rw [hparts] at hx
    obtain ⟨hratio, hsign⟩ := Decimal.ratio_of_value? hx
    exact ⟨negative, m, e, rfl, hratio, hsign⟩

/-- An integer is written as the nearest integer whose magnitude fits a word. -/
theorem radixText_of_value? {base : Nat} (hleast : 2 ≤ base) (hmost : base ≤ 36)
    (hten : base ≠ 10) : radixText x base =
      Decimal.signed (decide (clampToWord z < 0)) (Decimal.numeral base (clampToWord z).natAbs) := by
  obtain ⟨negative, m, e, hparts, hratio, hsign⟩ := exists_parts_of_value? hx
  have hden := Decimal.ratio_pos m e
  have hinteger : Decimal.isInteger x = true := by
    simp [Decimal.isInteger, hparts, hratio]
  have hbases : ¬ (base < 2 ∨ base > 36 ∨ base = 10 ∨ (!Decimal.isInteger x) = true) := by
    simp only [hinteger, Bool.not_true, Bool.false_eq_true, or_false]
    omega
  have hmagnitude : x.abs.toUInt64.toNat = (clampToWord z).natAbs := by
    rw [Decimal.toNat_toUInt64_abs hparts, hratio, Nat.mul_div_cancel _ hden, natAbs_clampToWord]
  have hnegative : (decide (x < 0) && decide ((clampToWord z).natAbs ≠ 0)) =
      decide (clampToWord z < 0) := by
    have hlt : x < 0 ↔ z < 0 := (Decimal.lt_zero_iff hparts).trans hsign.symm
    rw [← Bool.decide_and, decide_eq_decide, hlt, clampToWord_neg_iff, Int.natAbs_ne_zero]
    exact and_iff_left_of_imp fun hneg => Int.ne_of_lt ((clampToWord_neg_iff z).mpr hneg)
  rw [radixText, if_neg hbases]
  simp only [hmagnitude, hnegative]

end Integer

/-- Every base up to 36 is passed on as it is. -/
theorem toNat_integerPart_ofNat {base : Nat} (h : base ≤ 36) :
    (integerPart (Float.ofNat base)).toUInt32.toNat = base := by
  have hall : ∀ base < 37, (integerPart (Float.ofNat base)).toUInt32.toNat = base := by
    decide +kernel
  exact hall base (by omega)

/-! ### The method -/

variable {σ : Type}

namespace Act

theorem callMethod_toText_base (limits : Limits) (r : Runner σ) (m : Machine σ) (x : Float)
    (base : Nat) (h : base ≤ 36) :
    callMethod limits r .toText (.number x) [.number (Float.ofNat base)] m =
      .ok (.string (radixText x base)) m := by
  have hcall : callMethod limits r .toText (.number x) [.number (Float.ofNat base)] m =
      .ok (.string (radixText x (integerPart (Float.ofNat base)).toUInt32.toNat)) m := rfl
  rw [hcall, toNat_integerPart_ofNat h]

/-- **Integers are written in other bases as far as they fit a word.**  In a base from 2 to 36 other
    than 10, a number that is an integer is written as the numeral of an integer: of itself if its
    magnitude is below `2 ^ 64`, and else of the largest such integer, with the same sign. -/
theorem callMethod_toText_radix (limits : Limits) (r : Runner σ) (m : Machine σ) {x : Float} {z : Int}
    (hx : (Parts.ofFloat x).value? = some (z : ℚ)) {base : Nat} (hleast : 2 ≤ base)
    (hmost : base ≤ 36) (hten : base ≠ 10) :
    ∃ text, callMethod limits r .toText (.number x) [.number (Float.ofNat base)] m =
        .ok (.string text) m ∧
      IsNumeral base (clampToWord z) text ∧
      (IsNumeral base z text ↔ z.natAbs < 2 ^ 64) := by
  have hnumeral := Decimal.isNumeral_signed hleast hmost (clampToWord z)
  refine ⟨_, ?_, hnumeral, ?_⟩
  · rw [callMethod_toText_base limits r m x base hmost, radixText_of_value? hx hleast hmost hten]
  · have hexact := clampToWord_eq_iff z
    constructor
    · exact fun h => hexact.mp (hnumeral.unique h)
    · intro hfits
      rw [hexact.mpr hfits] at hnumeral ⊢
      exact hnumeral

/-- An integer below zero in the base with the most digits. -/
theorem callMethod_toText_radix_negative :
    ((Parts.ofFloat (-1295)).value? = some ((-1295 : Int) : ℚ) ∧ 2 ≤ 36 ∧ 36 ≤ 36 ∧ 36 ≠ 10) ∧
      ∃ text, callMethod {} (runner {}) .toText (.number (-1295)) [.number 36]
          (Machine.start Tree.root) = .ok (.string text) (Machine.start Tree.root) ∧
        IsNumeral 36 (clampToWord (-1295)) text ∧
        (IsNumeral 36 (-1295) text ↔ (-1295 : Int).natAbs < 2 ^ 64) := by
  have hvalue : (Parts.ofFloat (-1295)).value? = some ((-1295 : Int) : ℚ) := by
    have hparts : Parts.ofFloat (-1295) = .finite true (1295 * 2 ^ 42) (-42) := by decide +kernel
    rw [hparts, Parts.value?]
    norm_num
  exact ⟨⟨hvalue, by decide, by decide, by decide⟩,
    callMethod_toText_radix {} (runner {}) (Machine.start Tree.root) hvalue (by decide) (by decide)
      (by decide)⟩

/-- The first integer that does not fit a word is written as the last one that does. -/
theorem not_isNumeral_two_pow_64 :
    (Parts.ofFloat 18446744073709551616).value? = some ((18446744073709551616 : Int) : ℚ) ∧
      callMethod {} (runner {}) .toText (.number 18446744073709551616) [.number 16]
          (Machine.start Tree.root) =
        .ok (.string "ffffffffffffffff") (Machine.start Tree.root) ∧
      ¬ IsNumeral 16 18446744073709551616 "ffffffffffffffff" := by
  have hvalue : (Parts.ofFloat 18446744073709551616).value? =
      some ((18446744073709551616 : Int) : ℚ) := by
    have hparts : Parts.ofFloat 18446744073709551616 = .finite false (2 ^ 52) 12 := by
      decide +kernel
    rw [hparts, Parts.value?]
    norm_num
  have htext : radixText 18446744073709551616 16 = "ffffffffffffffff" := by
    rw [radixText_of_value? hvalue (by decide) (by decide) (by decide)]
    decide +kernel
  have hword : Decimal.signed (decide ((18446744073709551615 : Int) < 0))
      (Decimal.numeral 16 (18446744073709551615 : Int).natAbs) = "ffffffffffffffff" := by
    decide +kernel
  refine ⟨hvalue, ?_, fun hnumeral => ?_⟩
  · rw [← htext]
    exact callMethod_toText_base {} (runner {}) _ _ 16 (by decide)
  · have hlargest : IsNumeral 16 18446744073709551615 "ffffffffffffffff" := by
      rw [← hword]
      exact Decimal.isNumeral_signed (by decide) (by decide) _
    exact absurd (hnumeral.unique hlargest) (by decide)

end Act

end MemoryShell.Script
