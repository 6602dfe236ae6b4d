/-
  MemoryShell/Proofs/Decimal/Numeral.lean
  =======================================
  **Numerals of integers in bases up to 36.**

  A numeral is said by what it must be, not by how it is found: digits of the base with the value of
  the integer, no zero before other digits, and a minus if the integer is negative.  An integer has
  such a text, and no other integer has the same one.
-/
import Mathlib.Data.Nat.Digits.Lemmas
import MemoryShell.Decimal.Text

namespace MemoryShell.Decimal

/-! ### Digits -/

/-- The digits of bases up to 36 in the order of their values. -/
def smallDigits : List Char := "0123456789abcdefghijklmnopqrstuvwxyz".toList

/-- Whether a character is the digit of a value. -/
def IsDigit (value : Nat) (c : Char) : Prop := smallDigits[value]? = some c

theorem isDigit_radixDigit {n : Nat} (h : n < 36) : IsDigit n (radixDigit n) := by
  have hall : ∀ n < 36, smallDigits[n]? = some (radixDigit n) := by decide +kernel
  exact hall n h

/-- A character is the digit of one value only. -/
theorem IsDigit.unique {d d' : Nat} {c : Char} (h : IsDigit d c) (h' : IsDigit d' c) : d = d' := by
  have hnodup : smallDigits.Nodup := by decide +kernel
  have hlt : d < smallDigits.length := (List.getElem?_eq_some_iff.mp h).1
  exact (List.getElem?_inj hlt hnodup).mp (h.trans h'.symm)

theorem not_isDigit_minus (d : Nat) : ¬ IsDigit d '-' := by
  intro h
  have hmem : '-' ∈ smallDigits := List.mem_of_getElem? h
  exact absurd hmem (by decide +kernel)

/-! ### Numerals -/

/-- Digits of a base that have a value together, with no zero before others. -/
def IsDigits (base n : Nat) (cs : List Char) : Prop :=
  ∃ digits, List.Forall₂ IsDigit digits cs ∧ digits ≠ [] ∧ (∀ d ∈ digits, d < base) ∧
    (digits.head? = some 0 → digits = [0]) ∧ Nat.ofDigits base digits.reverse = n

/-- A text that is the numeral of an integer in a base. -/
def IsNumeral (base : Nat) (z : Int) (text : String) : Prop :=
  ∃ cs, IsDigits base z.natAbs cs ∧ text.toList = if z < 0 then '-' :: cs else cs

section Unique

variable {base n n' : Nat} {cs cs' : List Char} {z z' : Int} {text : String}

theorem IsDigits.unique (h : IsDigits base n cs) (h' : IsDigits base n' cs) : n = n' := by
  obtain ⟨digits, hdigits, -, -, -, hvalue⟩ := h
  obtain ⟨digits', hdigits', -, -, -, hvalue'⟩ := h'
  have heq : digits = digits' :=
    List.left_unique_forall₂' (fun _ _ _ h h' => h.unique h') hdigits hdigits'
  rw [← hvalue, heq, hvalue']

theorem IsDigits.ne_minus (h : IsDigits base n cs) : cs ≠ '-' :: cs' := by
  rintro rfl
  obtain ⟨digits, hdigits, -⟩ := h
  cases hdigits with
  | cons hfirst _ => exact not_isDigit_minus _ hfirst

/-- Different integers have different numerals. -/
theorem IsNumeral.unique (h : IsNumeral base z text) (h' : IsNumeral base z' text) : z = z' := by
  obtain ⟨cs, hdigits, htext⟩ := h
  obtain ⟨cs', hdigits', htext'⟩ := h'
  rw [htext] at htext'
  split at htext' <;> split at htext'
  · obtain rfl := List.tail_eq_of_cons_eq htext'
    have habs := hdigits.unique hdigits'
    omega
  · exact absurd htext'.symm hdigits'.ne_minus
  · exact absurd htext' hdigits.ne_minus
  · obtain rfl := htext'
    have habs := hdigits.unique hdigits'
    omega

end Unique

/-! ### Finding the numeral -/

section Found

variable {base : Nat} (hbase : 2 ≤ base)
include hbase

theorem radixDigits_eq {turns n : Nat} (hn : n < twoTo turns) (acc : List Char) :
    radixDigits base turns n acc = (Nat.digits base n).reverse.map radixDigit ++ acc := by
  induction turns generalizing n acc with
  | zero =>
    obtain rfl : n = 0 := Nat.lt_one_iff.mp hn
    rw [Nat.digits_zero]
    rfl
  | succ turns ih =>
    rw [radixDigits]
    split
    · rename_i hzero
      rw [hzero, Nat.digits_zero]
      rfl
    · rename_i hzero
      have hhalf : n / base < twoTo turns := by
        rw [Nat.div_lt_iff_lt_mul (by omega)]
        exact Nat.lt_of_lt_of_le hn (Nat.mul_le_mul_left _ hbase)
      rw [ih hhalf, Nat.digits_def' hbase (Nat.pos_of_ne_zero hzero), List.reverse_cons,
        List.map_append, List.append_assoc]
      rfl

theorem isDigits_numeral (hmost : base ≤ 36) (n : Nat) : IsDigits base n (numeral base n) := by
  have hdigit {digits : List Nat} (h : ∀ d ∈ digits, d < base) :
      List.Forall₂ IsDigit digits (digits.map radixDigit) := by
    rw [List.forall₂_map_right_iff, List.forall₂_same]
    exact fun d hd => isDigit_radixDigit (Nat.lt_of_lt_of_le (h d hd) hmost)
  rw [numeral]
  split
  · rename_i hzero
    have hall : ∀ d ∈ [0], d < base := List.forall_mem_singleton.mpr (by omega)
    exact ⟨[0], hdigit hall, List.cons_ne_nil _ _, hall, fun _ => rfl, hzero.symm⟩
  · rename_i hzero
    have hall : ∀ d ∈ (Nat.digits base n).reverse, d < base := by
      intro d hd
      exact Nat.digits_lt_base hbase (List.mem_reverse.mp hd)
    have hne : Nat.digits base n ≠ [] := Nat.digits_ne_nil_iff_ne_zero.mpr hzero
    rw [radixDigits_eq hbase Nat.lt_log2_self, List.append_nil]
    refine ⟨_, hdigit hall, by simpa using hne, hall, fun hhead => ?_, ?_⟩
    · rw [List.head?_reverse, List.getLast?_eq_some_getLast hne] at hhead
      exact absurd (Option.some.inj hhead) (Nat.getLast_digit_ne_zero base hzero)
    · rw [List.reverse_reverse, Nat.ofDigits_digits]

theorem isNumeral_signed (hmost : base ≤ 36) (z : Int) :
    IsNumeral base z (signed (decide (z < 0)) (numeral base z.natAbs)) := by
  refine ⟨_, isDigits_numeral hbase hmost z.natAbs, ?_⟩
  rw [signed, String.toList_ofList]
  simp only [decide_eq_true_eq]

end Found

end MemoryShell.Decimal
