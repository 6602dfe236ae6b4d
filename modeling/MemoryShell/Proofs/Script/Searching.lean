/-
  MemoryShell/Proofs/Script/Searching.lean
  ========================================
  **Searching in a string.**

  A search tells positions by counting characters, whatever a character takes when it is encoded;
  and the methods that only say whether a text is there agree with those that say where.
-/
import Mathlib.Data.Nat.SuccPred
import MemoryShell.Proofs.Decimal.Double
import MemoryShell.Proofs.Text.Search
import MemoryShell.Script.Evaluation

namespace MemoryShell.Text

/-- A pattern that stands somewhere stands somewhere last. -/
theorem last?_isSome {pattern text : List Char} (h : pattern <:+: text) :
    (last? pattern text).isSome := by
  obtain ⟨i, hi⟩ := BddAbove.exists_isGreatest_of_nonempty (S := {i | StandsAt pattern text i})
    ⟨text.length, fun _ hi => hi.1⟩ (exists_standsAt.mpr h)
  rw [last?_of_isGreatest hi]
  rfl

end MemoryShell.Text

namespace MemoryShell.Script

/-! ### Positions as numbers -/

theorem positionValue_eq_neg_one_iff {found : Option Nat} :
    positionValue found = .number (-1) ↔ found = none := by
  cases found with
  | none => exact iff_of_true rfl rfl
  | some i =>
    exact iff_of_false (fun h => Decimal.ofNat_ne_neg_one i (Value.number.inj h)) (by simp)

theorem positionValue_eq_zero_iff {found : Option Nat} :
    positionValue found = .number 0 ↔ found = some 0 := by
  cases found with
  | none =>
    exact iff_of_false (fun h => Decimal.ofNat_ne_neg_one 0 (Value.number.inj h).symm) (by simp)
  | some i =>
    have hzero : positionValue (some i) = .number 0 ↔ Float.ofNat i = 0 :=
      ⟨Value.number.inj, congrArg Value.number⟩
    rw [hzero, Decimal.ofNat_eq_zero_iff, Option.some_inj]

/-! ### The methods -/

variable {σ : Type}

namespace Act

/-- **Searches in a string count characters.**  To search for a text from the start gives the least
    position at which it stands, and from the end the greatest one; it is in the string if and only
    if there is a position, and both searches give minus one if and only if there is none.  The
    string starts with the text if and only if the position that is found first is zero, and ends
    with it if and only if the text stands as many characters before the end as it has. -/
theorem callMethod_search (limits : Limits) (r : Runner σ) (m : Machine σ) (s t : String) :
    ∃ first last included starts ends,
      callMethod limits r .indexOf (.string s) [.string t] m = .ok first m ∧
      callMethod limits r .lastIndexOf (.string s) [.string t] m = .ok last m ∧
      callMethod limits r .includes (.string s) [.string t] m = .ok (.bool included) m ∧
      callMethod limits r .startsWith (.string s) [.string t] m = .ok (.bool starts) m ∧
      callMethod limits r .endsWith (.string s) [.string t] m = .ok (.bool ends) m ∧
      (∀ i, IsLeast {i | Text.StandsAt t.toList s.toList i} i → first = .number (Float.ofNat i)) ∧
      (∀ i, IsGreatest {i | Text.StandsAt t.toList s.toList i} i → last = .number (Float.ofNat i)) ∧
      (included = true ↔ ∃ i, Text.StandsAt t.toList s.toList i) ∧
      (first = .number (-1) ↔ included = false) ∧
      (last = .number (-1) ↔ included = false) ∧
      (starts = true ↔ first = .number 0) ∧
      (ends = true ↔ ∃ i, i + t.toList.length = s.toList.length ∧
        Text.StandsAt t.toList s.toList i) := by
  have hincluded : Text.occurs t.toList s.toList = true ↔ t.toList <:+: s.toList :=
    Text.occurs_iff
  refine ⟨positionValue (Text.first? t.toList s.toList),
    positionValue (Text.last? t.toList s.toList), Text.occurs t.toList s.toList,
    t.toList.isPrefixOf s.toList, t.toList.isSuffixOf s.toList, rfl, rfl, rfl, rfl, rfl,
    fun i hi => ?_, fun i hi => ?_, hincluded.trans Text.exists_standsAt.symm, ?_, ?_, ?_, ?_⟩
  · rw [Text.first?_of_isLeast hi, positionValue]
  · rw [Text.last?_of_isGreatest hi, positionValue]
  · rw [positionValue_eq_neg_one_iff, Text.occurs, Option.isSome_eq_false_iff,
      Option.isNone_iff_eq_none]
  · rw [positionValue_eq_neg_one_iff, ← Bool.not_eq_true, hincluded]
    constructor
    · intro hnone hinfix
      have hsome := Text.last?_isSome hinfix
      rw [hnone] at hsome
      cases hsome
    · exact Text.last?_eq_none
  · rw [positionValue_eq_zero_iff, List.isPrefixOf_iff_prefix, Text.first?_eq_zero_iff]
  · rw [Text.exists_standsAt_end]
    exact List.isSuffixOf_iff_suffix

/-- Each of these characters is one, although the first takes four bytes and the second two. -/
example : callMethod {} (runner {}) .lastIndexOf (.string "😀é😀é") [.string "é"]
    (Machine.start Tree.root) = .ok (.number 3) (Machine.start Tree.root) := rfl

end Act

end MemoryShell.Script
