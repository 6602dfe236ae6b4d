/-
  MemoryShell/Proofs/Script/Course.lean
  =====================================
  **All that a run can do to its machine.**

  `Course limits m end? m'` says that something a run is made of leads from `m` to `m'` and ends
  with a value or with a fault.  There is one rule for each thing that the acts of a run do, with
  its guard, and none of them mentions a program.  What holds along every course is proved by
  induction on it; that every act takes a course is proved once, in `Within.lean`.
-/
import MemoryShell.Proofs.Script.Heaps
import MemoryShell.Script.Run

namespace MemoryShell.Script

/-! ### Courses -/

/-- Whether a fault is neither a limit nor final.  Only such a fault can be caught, and a finalizer
    can replace it without anything being noted. -/
def Fault.isOrdinary : Fault → Bool
  | .thrown _ | .badTarget => true
  | .limit _ | .busyArray | .outOfRange | .exhausted => false

/-- The requests that change a host. -/
inductive Host.Request {σ : Type} [Host σ] : (σ → Except Tree.Error Unit × σ) → Prop where
  | write (path content : String) : Request (Host.write path content)
  | unlink (path : String) : Request (Host.unlink path)
  | makeDirectory (path : String) : Request (Host.makeDirectory path)

variable {σ : Type} [Host σ] (limits : Limits)

/-- What leads from one machine to another, and the fault that it ends with, if it does. -/
inductive Course : Machine σ → Option Fault → Machine σ → Prop where
  | refl (m) : Course m none m
  | trans {m end? m' m''} : Course m none m' → Course m' end? m'' → Course m end? m''
  | fail {fault} (m) : fault.isOrdinary → Course m (some fault) m
  /-- A handler, or a finalizer that replaces a fault, begins where the fault ended. -/
  | recover {fault m end? m' m''} :
    fault.isOrdinary → Course m (some fault) m' → Course m' end? m'' → Course m end? m''
  | heap (m) {h : Heap} : m.heap.Steps h → Course m none { m with heap := h }
  | random (m) (n : Nat) : Course m none { m with random := n }
  | write (m) (line : String) :
    Course m none { m with console := m.console ++ (line ++ Console.lineBreak) }
  | host {change} (m) : Host.Request change → Course m none { m with host := (change m.host).2 }
  | begun (m) : Course m none (m.noted .begun)
  | meetTurns (m) :
    limits.maxTurns ≤ m.turns →
      Course m (some (.limit (.turns limits.maxTurns))) (m.noted (.met (.turns limits.maxTurns)))
  | meetDepth (m) :
    limits.maxEvalDepth ≤ m.evalDepth ∨ limits.maxCallDepth ≤ m.callDepth →
      Course m (some (.limit .depth)) (m.noted (.met .depth))
  | block (m) : Course m (some .busyArray) (m.noted .blocked)
  /-- A turn is granted before what the work needs is set up, and the work comes last. -/
  | turn {m end? m' m''} (work : Work) :
    m.turns < limits.maxTurns → Course { m with turns := m.turns + 1 } none m' →
      Course (m'.noted (.worked work)) end? m'' → Course m end? m''
  | idleTurn {fault m m'} :
    m.turns < limits.maxTurns → Course { m with turns := m.turns + 1 } (some fault) m' →
      Course m (some fault) m'
  | deeper {m end? m'} :
    m.evalDepth < limits.maxEvalDepth → Course { m with evalDepth := m.evalDepth + 1 } end? m' →
      Course m end? { m' with evalDepth := m'.evalDepth - 1 }
  | inCall {m end? m'} :
    m.callDepth < limits.maxCallDepth → Course { m with callDepth := m.callDepth + 1 } end? m' →
      Course m end? { m' with callDepth := m'.callDepth - 1 }
  /-- A finalizer ends normally while a limit is on its way out. -/
  | resume {cause m m' m''} :
    Course m (some (.limit cause)) m' → Course (m'.noted (.cleaning cause)) none m'' →
      Course m (some (.limit cause)) (m''.noted (.resumed cause))
  /-- A finalizer meets the same limit again that is on its way out. -/
  | renew {cause m m' m''} :
    Course m (some (.limit cause)) m' →
      Course (m'.noted (.cleaning cause)) (some (.limit cause)) m'' →
        Course m (some (.limit cause)) (m''.noted (.renewed cause))
  /-- A finalizer ends otherwise while a limit is on its way out. -/
  | discard {cause m end? m' m''} :
    Course m (some (.limit cause)) m' → Course (m'.noted (.cleaning cause)) end? m'' →
      Course m end? (m''.noted (.discarded cause))

namespace Course

variable {limits}

/-! ### What every course keeps -/

/-- Turns are never given back. -/
theorem turns_le {m : Machine σ} {end? m'} (h : Course limits m end? m') : m.turns ≤ m'.turns := by
  induction h with
  | refl | fail | heap | random | write | host | begun | meetTurns | meetDepth | block =>
    exact Nat.le_refl _
  | trans _ _ ih ih' | recover _ _ _ ih ih' => exact Nat.le_trans ih ih'
  | turn _ _ _ _ ih ih' => simp only [Machine.noted_turns] at ih ih'; omega
  | idleTurn _ _ ih => simp only at ih; omega
  | deeper _ _ ih | inCall _ _ ih => exact ih
  | resume _ _ ih ih' | renew _ _ ih ih' | discard _ _ ih ih' => exact Nat.le_trans ih ih'

/-- However something ends, the nesting is what it was before. -/
theorem evalDepth_eq {m : Machine σ} {end? m'} (h : Course limits m end? m') :
    m'.evalDepth = m.evalDepth := by
  induction h with
  | refl | fail | heap | random | write | host | begun | meetTurns | meetDepth | block => rfl
  | trans _ _ ih ih' | recover _ _ _ ih ih' => exact ih'.trans ih
  | turn _ _ _ _ ih ih' => exact ih'.trans ih
  | idleTurn _ _ ih => exact ih
  | deeper _ _ ih => simp only at ih ⊢; omega
  | inCall _ _ ih => exact ih
  | resume _ _ ih ih' | renew _ _ ih ih' | discard _ _ ih ih' => exact ih'.trans ih

/-- However something ends, as many calls are open as before. -/
theorem callDepth_eq {m : Machine σ} {end? m'} (h : Course limits m end? m') :
    m'.callDepth = m.callDepth := by
  induction h with
  | refl | fail | heap | random | write | host | begun | meetTurns | meetDepth | block => rfl
  | trans _ _ ih ih' | recover _ _ _ ih ih' => exact ih'.trans ih
  | turn _ _ _ _ ih ih' => exact ih'.trans ih
  | idleTurn _ _ ih => exact ih
  | deeper _ _ ih => exact ih
  | inCall _ _ ih => simp only at ih ⊢; omega
  | resume _ _ ih ih' | renew _ _ ih ih' | discard _ _ ih ih' => exact ih'.trans ih

/-- What was noted stays noted. -/
theorem trail_suffix {m : Machine σ} {end? m'} (h : Course limits m end? m') :
    m.trail <:+ m'.trail := by
  induction h with
  | refl | fail | heap | random | write | host => exact List.suffix_rfl
  | begun | meetTurns | meetDepth | block => exact List.suffix_cons _ _
  | trans _ _ ih ih' | recover _ _ _ ih ih' => exact ih.trans ih'
  | turn _ _ _ _ ih ih' => exact ih.trans ((List.suffix_cons _ _).trans ih')
  | idleTurn _ _ ih | deeper _ _ ih | inCall _ _ ih => exact ih
  | resume _ _ ih ih' | renew _ _ ih ih' | discard _ _ ih ih' =>
    exact ih.trans ((List.suffix_cons _ _).trans (ih'.trans (List.suffix_cons _ _)))

/-- The heap changes in steps. -/
theorem heap_steps {m : Machine σ} {end? m'} (h : Course limits m end? m') :
    m.heap.Steps m'.heap := by
  induction h with
  | refl | fail | random | write | host | begun | meetTurns | meetDepth | block => exact .refl
  | heap _ hsteps => exact hsteps
  | trans _ _ ih ih' | recover _ _ _ ih ih' | turn _ _ _ _ ih ih' | resume _ _ ih ih'
  | renew _ _ ih ih' | discard _ _ ih ih' =>
    exact ih.trans ih'
  | idleTurn _ _ ih | deeper _ _ ih | inCall _ _ ih => exact ih

/-- What every request keeps of a host, a course keeps. -/
theorem host_keeps {P : σ → Prop}
    (hrequest : ∀ change, Host.Request change → ∀ host, P host → P (change host).2)
    {m : Machine σ} {end? m'} (h : Course limits m end? m') (hm : P m.host) : P m'.host := by
  induction h with
  | refl | fail | heap | random | write | begun | meetTurns | meetDepth | block => exact hm
  | host m hchange => exact hrequest _ hchange _ hm
  | trans _ _ ih ih' | recover _ _ _ ih ih' | turn _ _ _ _ ih ih' | resume _ _ ih ih'
  | renew _ _ ih ih' | discard _ _ ih ih' =>
    exact ih' (ih hm)
  | idleTurn _ _ ih | deeper _ _ ih | inCall _ _ ih => exact ih hm

end Course

end MemoryShell.Script
