/-
  MemoryShell/Proofs/Script/Sorting.lean
  ======================================
  **Sorting an array of the script.**

  The comparison of a sort can be any function, so nothing is assumed about it: it may change the
  array that is sorted, contradict itself, or fail.  The elements are taken when the sort begins and
  written back when it ends; in between the sort does nothing but compare.  So what it writes is what
  a merge sort makes of the answers, and a failed comparison is the end of it, with nothing written.
-/
import MemoryShell.Proofs.Script.ArrayLengths
import MemoryShell.Proofs.Script.ArraysStay
import MemoryShell.Proofs.Script.Comparisons

namespace MemoryShell.Script

variable {σ : Type} {limits : Limits}

/-! ### The order without a comparison -/

namespace Heap

variable (h : Heap)

/-- The text by which a value is sorted; undefined has none. -/
def sortText : Value → Option String
  | .undefined => none
  | v => some (h.display v)

/-- What has no text stands behind all texts. -/
def textsInOrder : Option String → Option String → Prop
  | _, none => True
  | none, some _ => False
  | some s, some t => s ≤ t

theorem sortText_of_ne {v : Value} (hv : v ≠ .undefined) : h.sortText v = some (h.display v) := by
  cases v with
  | undefined => exact absurd rfl hv
  | _ => rfl

theorem comesAfter_eq_false {a b : Value} :
    h.comesAfter a b = false ↔ textsInOrder (h.sortText a) (h.sortText b) := by
  unfold Heap.comesAfter
  split
  · exact iff_of_true rfl trivial
  · rename_i hb
    rw [h.sortText_of_ne hb]
    exact iff_of_false nofun id
  · exact iff_of_true rfl trivial
  · rename_i ha hb _
    rw [h.sortText_of_ne ha, h.sortText_of_ne hb]
    exact decide_eq_false_iff_not.trans String.not_lt

theorem textsInOrder_total (s t : Option String) : textsInOrder s t ∨ textsInOrder t s := by
  match s, t with
  | _, none => exact .inl trivial
  | none, some _ => exact .inr trivial
  | some s, some t => exact String.le_total s t

theorem textsInOrder_trans (s t u : Option String) (hst : textsInOrder s t)
    (htu : textsInOrder t u) : textsInOrder s u := by
  match s, t, u with
  | _, _, none => trivial
  | _, none, some _ => exact htu.elim
  | none, some _, some _ => exact hst.elim
  | some _, some _, some _ => exact String.le_trans hst htu

theorem textsInOrder_antisymm (s t : Option String) (hst : textsInOrder s t)
    (hts : textsInOrder t s) : s = t := by
  match s, t with
  | none, none => rfl
  | none, some _ => exact hst.elim
  | some _, none => exact hts.elim
  | some _, some _ => exact congrArg some (String.le_antisymm hst hts)

/-- The order without a comparison is a strict weak order of all values. -/
theorem isWeakOrderOn_comesAfter (values : List Value) : IsWeakOrderOn h.comesAfter values :=
  .of_total (fun a b => h.comesAfter_eq_false (a := a) (b := b))
    (fun _ _ => textsInOrder_total _ _) (fun _ _ _ => textsInOrder_trans _ _ _) values

/-- Values of the same text are alike in it, and no others. -/
theorem alike_comesAfter (a b : Value) :
    alike h.comesAfter a b = (h.sortText a == h.sortText b) := by
  rw [Bool.eq_iff_iff, alike_iff, comesAfter_eq_false, comesAfter_eq_false, beq_iff_eq]
  constructor
  · rintro ⟨hab, hba⟩
    exact textsInOrder_antisymm _ _ hab hba
  · intro hsame
    rw [hsame]
    exact ⟨(textsInOrder_total _ _).elim id id, (textsInOrder_total _ _).elim id id⟩

/-- Values are sorted by their texts, undefined last, and those of the same text have kept their
    order. -/
structure SortedByText (values sorted : List Value) : Prop where
  ordered : sorted.Pairwise fun a b => textsInOrder (h.sortText a) (h.sortText b)
  stable : ∀ v ∈ values, (sorted.filter fun a => h.sortText v == h.sortText a) =
    values.filter fun a => h.sortText v == h.sortText a

end Heap

theorem SortedBy.byText {h : Heap} {values sorted : List Value} {answers : Comparisons Value}
    (hsorted : SortedBy values answers sorted) (hanswers : AnsweredBy h.comesAfter answers) :
    h.SortedByText values sorted := by
  have horder := h.isWeakOrderOn_comesAfter values
  constructor
  · exact (hsorted.ordered _ horder hanswers).imp h.comesAfter_eq_false.mp
  · intro v hv
    have hfilter := hsorted.stable _ horder hanswers v hv
    rwa [funext (h.alike_comesAfter v)] at hfilter

/-! ### Sorting an array -/

namespace Act

variable {call : Value → List Value → Act σ Value} {comparison : Value} {m m' : Machine σ}

/-- Without a function values are compared by their texts, and the heap is left as it is. -/
theorem sortsAfter_of_ok (hcomparison : comparison.isFunction = false) {a b : Value}
    {isAfter : Bool} (h : sortsAfter limits call comparison a b m = .ok isAfter m') :
    isAfter = m.heap.comesAfter a b ∧ m'.heap = m.heap := by
  obtain ⟨_, m₁, hturn, hrest⟩ := bind_eq_ok.mp h
  have hgranted : m.turns < limits.maxTurns := by
    by_contra hnone
    rw [beginTurn_of_le (Nat.not_lt.mp hnone)] at hturn
    cases hturn
  rw [beginTurn_of_lt hgranted] at hturn
  cases hturn
  obtain ⟨_, m₂, hnote, hcompared⟩ := bind_eq_ok.mp hrest
  cases hnote
  rw [compared, hcomparison] at hcompared
  cases hcompared
  exact ⟨rfl, rfl⟩

/-- Comparisons without a function are those of the texts that the values had at first. -/
theorem answeredBy_comesAfter (hcomparison : comparison.isFunction = false)
    {answers : Comparisons Value}
    (h : Answered (comparing (sortsAfter limits call comparison)) m answers m') :
    AnsweredBy m.heap.comesAfter answers := by
  induction h with
  | nil => exact nofun
  | cons hask _ ih =>
    obtain ⟨hanswer, hheap⟩ := sortsAfter_of_ok hcomparison hask
    rw [hheap] at ih
    exact answeredBy_cons.mpr ⟨hanswer, ih⟩

theorem LosesNoArray.answered {α β : Type} {ask : α → Act σ β} (hask : ∀ a, LosesNoArray (ask a))
    {answers : List (α × β)} (h : Answered ask m answers m') :
    m.heap.arrays.size ≤ m'.heap.arrays.size := by
  induction h with
  | nil => exact Nat.le_refl _
  | @cons a b answers m m₁ _ heq _ ih =>
    have hfirst := hask a m
    rw [heq] at hfirst
    exact Nat.le_trans hfirst ih

end Act

/-- The machine in which an array has been given other elements. -/
def Machine.withElements (m : Machine σ) (r : ArrayRef) (items : List Value) : Machine σ :=
  { m with heap := m.heap.changeArray r fun _ => items.toArray }

namespace Act

/-- An array that is sorted has the sorted elements afterwards, whatever the comparisons did to the
    heap; a reference to nothing has none before and after. -/
theorem array_withElements {m m' : Machine σ} {r : ArrayRef} {sorted : List Value}
    (hsize : m.heap.arrays.size ≤ m'.heap.arrays.size)
    (hperm : sorted.Perm (m.heap.array r).toList) :
    ((m'.withElements r sorted).heap.array r).toList = sorted := by
  by_cases hr : r.index < m.heap.arrays.size
  · exact congrArg Array.toList
      (m'.heap.array_changeArray_of_lt (Nat.lt_of_lt_of_le hr hsize) fun _ => sorted.toArray)
  · rw [m.heap.array_of_le (Nat.le_of_not_lt hr)] at hperm
    obtain rfl := hperm.eq_nil
    rcases m'.heap.array_changeArray r fun _ => #[] with hitems | hitems <;>
      exact congrArg Array.toList hitems

/-- A sort does nothing but compare elements of the array, at most n⌈log₂ n⌉ times, until it writes
    back what a merge sort makes of the answers; if a comparison fails, it writes nothing. -/
theorem callMethod_sort [Host σ] (limits : Limits) (levels : Nat) (r : ArrayRef)
    (args : List Value) (m : Machine σ) :
    Asked (comparing (sortsAfter limits (Runner.callback ⟨run limits levels⟩) (argument args 0))) m
      (fun answers m' => ∃ sorted,
        callMethod limits ⟨run limits levels⟩ .sort (.array r) args m =
          .ok (.array r) (m'.withElements r sorted) ∧
        ((m'.withElements r sorted).heap.array r).toList = sorted ∧
        SortedBy (m.heap.array r).toList answers sorted ∧
        ((argument args 0).isFunction = false →
          m.heap.SortedByText (m.heap.array r).toList sorted))
      (fun answers q fault m' =>
        callMethod limits ⟨run limits levels⟩ .sort (.array r) args m = .error fault m' ∧
        MayCompare ((m.heap.array r).size * Nat.clog 2 (m.heap.array r).size)
          (m.heap.array r).toList answers q) := by
  have hcallback (f : Value) (args : List Value) :
      (LosesNoArray.congruence limits).Rel ((⟨run limits levels⟩ : Runner σ).callback f args)
        ((⟨run limits levels⟩ : Runner σ).callback f args) := run_losesNoArray limits levels _
  have hcompares (q : Value × Value) : LosesNoArray
      (comparing (sortsAfter limits (Runner.callback ⟨run limits levels⟩) (argument args 0)) q) :=
    Congruence.Rel.sortsAfter hcallback _ q.1 q.2
  have hsort : callMethod limits ⟨run limits levels⟩ .sort (.array r) args m =
      (sortBy (sortsAfter limits (Runner.callback ⟨run limits levels⟩) (argument args 0))
        (m.heap.array r).toList >>= fun sorted => do
          setElements r sorted.toArray
          return .array r) m := bind_of_ok rfl
  refine ((sortBy_asks _).followed hsort).imp ?_ fun _ _ _ _ h => ⟨h.2, h.1⟩
  rintro answers m' hanswers ⟨sorted, hsorted, heq⟩
  refine ⟨sorted, heq, ?_, hsorted, fun hcomparison => ?_⟩
  · exact array_withElements (LosesNoArray.answered hcompares hanswers) hsorted.perm
  · exact hsorted.byText (answeredBy_comesAfter hcomparison hanswers)

end Act

end MemoryShell.Script
