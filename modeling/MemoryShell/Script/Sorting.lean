/-
  MemoryShell/Script/Sorting.lean
  ===============================
  **Stable sorting by a comparison that may do anything.**

  A comparison can be a function of the script: it can fail, and it can contradict itself.  So the
  order of the comparisons is part of what is seen.  Sorted runs, at first of one value each, are
  merged in pairs until one is left.
-/
import MemoryShell.Script.Machine

namespace MemoryShell.Script

/-! ### Merging -/

/-- Merge two runs onto what is merged already, which is held backwards.  A value of the second run
    goes first only if the other comes after it. -/
def mergeOnto (comesAfter : Value → Value → Act σ Bool) (merged : List Value) :
    Nat → List Value → List Value → Act σ (List Value)
  | turns + 1, a :: as, b :: bs => do
    if ← comesAfter a b then mergeOnto comesAfter (b :: merged) turns (a :: as) bs
    else mergeOnto comesAfter (a :: merged) turns as (b :: bs)
  | _, as, bs => return merged.reverse ++ as ++ bs

/-- Merge two runs; every comparison places one value. -/
def merge (comesAfter : Value → Value → Act σ Bool) (as bs : List Value) : Act σ (List Value) :=
  mergeOnto comesAfter [] (as.length + bs.length) as bs

/-- Merge runs in pairs, in order, onto the runs that are merged already, which are held backwards.
    -/
def mergePairs (comesAfter : Value → Value → Act σ Bool) (merged : List (List Value)) :
    List (List Value) → Act σ (List (List Value))
  | as :: bs :: rest => do
    let run ← merge comesAfter as bs
    mergePairs comesAfter (run :: merged) rest
  | rest => return merged.reverse ++ rest

/-- Merge runs until one is left; every pass leaves fewer of them. -/
def mergeRuns (comesAfter : Value → Value → Act σ Bool) : Nat → List (List Value) → Act σ (List Value)
  | turns + 1, as :: bs :: rest => do
    mergeRuns comesAfter turns (← mergePairs comesAfter [] (as :: bs :: rest))
  | _, runs => return runs.flatten

def sortBy (comesAfter : Value → Value → Act σ Bool) (values : List Value) : Act σ (List Value) :=
  mergeRuns comesAfter values.length (values.map fun v => [v])

/-! ### The order without a comparison -/

/-- Whether a value comes after another one by itself: by its text, undefined behind all others. -/
def Heap.comesAfter (h : Heap) : Value → Value → Bool
  | .undefined, .undefined => false
  | .undefined, _ => true
  | _, .undefined => false
  | a, b => textBefore (h.display b) (h.display a)

end MemoryShell.Script
