/-
  MemoryShell/Proofs/Script/Work.lean
  ===================================
  **The work of a run is bounded.**

  The bodies of all loops, the calls that methods of arrays make and the comparisons of sorts are
  work, each in a turn of its own.  Turns are never given back and there are only so many, so the
  bound holds however the faults of the run are caught or replaced on the way.
-/
import MemoryShell.Proofs.Script.Runs

namespace MemoryShell.Script

/-! ### Counting work -/

/-- Whether an event is a piece of work. -/
def Event.isWork : Event → Bool
  | .worked _ => true
  | _ => false

variable {σ : Type}

/-- The number of pieces of work that were done. -/
def Machine.work (m : Machine σ) : Nat := m.trail.countP Event.isWork

@[simp] theorem Machine.work_noted_worked (m : Machine σ) (work : Work) :
    (m.noted (.worked work)).work = m.work + 1 := List.countP_cons_of_pos rfl

@[simp] theorem Machine.work_noted (m : Machine σ) {e : Event} (he : e.isWork = false) :
    (m.noted e).work = m.work := List.countP_cons_of_neg (by simp [he])

/-! ### Work along a course -/

variable [Host σ] {limits : Limits} {m m' : Machine σ} {end? : Option Fault}

namespace Course

/-- Each piece of work has a turn of its own. -/
theorem work_add_turns_le (h : Course limits m end? m') :
    m'.work + m.turns ≤ m.work + m'.turns := by
  induction h with
  | refl | fail | heap | random | write | host => exact Nat.le_refl _
  | begun | meetTurns | meetDepth | block =>
    rw [Machine.work_noted _ rfl]
    exact Nat.le_refl _
  | trans _ _ ih ih' | recover _ _ _ ih ih' => omega
  | turn work hturns _ _ ih ih' =>
    rw [Machine.work_noted_worked, Machine.noted_turns] at ih'
    simp only [Machine.work] at ih ih' ⊢
    omega
  | idleTurn _ _ ih =>
    simp only [Machine.work] at ih ⊢
    omega
  | deeper _ _ ih | inCall _ _ ih => exact ih
  | resume _ _ ih ih' | renew _ _ ih ih' | discard _ _ ih ih' =>
    rw [Machine.work_noted _ rfl, Machine.noted_turns] at ih' ⊢
    omega

/-- No more turns are granted than the limit allows. -/
theorem turns_le_max (h : Course limits m end? m') (hm : m.turns ≤ limits.maxTurns) :
    m'.turns ≤ limits.maxTurns := by
  induction h with
  | refl | fail | heap | random | write | host | begun | meetTurns | meetDepth | block => exact hm
  | trans _ _ ih ih' | recover _ _ _ ih ih' | resume _ _ ih ih' | renew _ _ ih ih'
  | discard _ _ ih ih' =>
    exact ih' (ih hm)
  | turn _ hturns _ _ ih ih' => exact ih' (ih hturns)
  | idleTurn hturns _ ih => exact ih hturns
  | deeper _ _ ih | inCall _ _ ih => exact ih hm

end Course

/-! ### Whole runs -/

end MemoryShell.Script
