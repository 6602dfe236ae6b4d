/-
  MemoryShell/Proofs/Script/ArraysStay.lean
  =========================================
  **No array is ever lost.**

  Arrays are made and changed, but none is taken off the heap.  So a reference to an array stays
  good whatever happens meanwhile: a method that holds on to one while it calls a function of the
  script still finds the array when the function is done.
-/
import MemoryShell.Proofs.Script.Evolution

namespace MemoryShell.Script

variable {σ α : Type}

namespace Heap

variable (h : Heap)

theorem size_changeArray (r : ArrayRef) (f : Array Value → Array Value) :
    (h.changeArray r f).arrays.size = h.arrays.size := Array.size_modify

/-- An array that is on the heap can be changed. -/
theorem array_changeArray_of_lt {r : ArrayRef} (hr : r.index < h.arrays.size)
    (f : Array Value → Array Value) : (h.changeArray r f).array r = f (h.array r) := by
  rw [array, changeArray, Array.getElem?_modify, if_pos rfl, array,
    Array.getElem?_eq_getElem hr]
  rfl

theorem array_newArray (items : Array Value) :
    (h.newArray items).2.array (h.newArray items).1 = items := by
  rw [array, newArray]
  dsimp only
  rw [Array.getElem?_push_size]
  rfl

/-- A reference to nothing reads as an array without elements. -/
theorem array_of_le {r : ArrayRef} (hr : h.arrays.size ≤ r.index) : h.array r = #[] := by
  rw [array, Array.getElem?_eq_none hr]
  rfl

/-- No array is off the heap any more. -/
def ArraysStay (h h' : Heap) : Prop := h.arrays.size ≤ h'.arrays.size

variable {h}

theorem Step.arraysStay {h' : Heap} (hstep : h.Step h') : h.ArraysStay h' := by
  cases hstep with
  | newArray items =>
    unfold ArraysStay Heap.newArray
    rw [Array.size_push]
    exact Nat.le_succ _
  | changeArray r f => exact Nat.le_of_eq (h.size_changeArray r f).symm
  | assign env name v => exact Nat.le_of_eq (congrArg Array.size (h.arrays_assign env name v)).symm
  | newObject | newFrame | newFunction | setMember | declare => exact Nat.le_refl _

instance : GoesOn ArraysStay where
  steps hsteps := by
    induction hsteps with
    | refl => exact Nat.le_refl _
    | tail _ hlast ih => exact Nat.le_trans ih hlast.arraysStay
  trans := Nat.le_trans

end Heap

/-- However the act ends, there are as many arrays as before, or more. -/
abbrev Act.LosesNoArray (act : Act σ α) : Prop := Act.Evolves Heap.ArraysStay act

/-- To lose no array is a matter of one act alone, and goes through how acts are put together. -/
abbrev Act.LosesNoArray.congruence [Host σ] (limits : Limits) : Congruence σ limits :=
  Act.Evolves.congruence Heap.ArraysStay limits

/-- No job loses an array, however deep jobs can nest. -/
theorem run_losesNoArray [Host σ] (limits : Limits) (levels : Nat) (job : Job α) :
    Act.LosesNoArray (run limits levels job : Act σ α) :=
  run_evolves limits Heap.ArraysStay levels job

end MemoryShell.Script
