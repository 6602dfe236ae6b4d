/-
  MemoryShell/Proofs/Script/Modes.lean
  ====================================
  **What may follow what on a trail.**

  A run is going, or a limit is on its way out of it, or it was given up.  While a finalizer runs,
  the limit that was on its way out before is pending.  `Leads` reads a trail and keeps track of
  both; every trail that a run leaves can be read to its end, and how the run ended is where reading
  ends.
-/
import MemoryShell.Proofs.Script.Runs

namespace MemoryShell.Script

/-- What a run is doing. -/
inductive Mode where
  | going
  /-- A limit is on its way out. -/
  | failing (cause : LimitCause)
  /-- The run was given up. -/
  | halted

/-- What a run is doing after it ended. -/
def Mode.ofEnd : Option Fault → Mode
  | some (.limit cause) => .failing cause
  | some .busyArray => .halted
  | _ => .going

/-- Where a trail leads, latest event first: what the run is doing by then, and the limits that are
    pending, innermost first. -/
inductive Leads : List Event → Mode → List LimitCause → Prop where
  | start : Leads [] .going []
  | begun {es ps} : Leads es .going ps → Leads (.begun :: es) .going ps
  | worked {es work ps} : Leads es .going ps → Leads (.worked work :: es) .going ps
  | met {es cause ps} : Leads es .going ps → Leads (.met cause :: es) (.failing cause) ps
  | blocked {es ps} : Leads es .going ps → Leads (.blocked :: es) .halted ps
  | cleaning {es cause ps} :
    Leads es (.failing cause) ps → Leads (.cleaning cause :: es) .going (cause :: ps)
  | resumed {es cause ps} :
    Leads es .going (cause :: ps) → Leads (.resumed cause :: es) (.failing cause) ps
  | renewed {es cause ps} :
    Leads es (.failing cause) (cause :: ps) → Leads (.renewed cause :: es) (.failing cause) ps
  | discarded {es mode cause ps} :
    Leads es mode (cause :: ps) → Leads (.discarded cause :: es) mode ps

/-- An ordinary fault leaves a run going. -/
theorem Mode.ofEnd_of_isOrdinary {fault : Fault} (h : fault.isOrdinary) :
    Mode.ofEnd (some fault) = .going := by
  cases fault with
  | thrown | badTarget => rfl
  | limit | busyArray | outOfRange | exhausted => cases h

/-! ### Along a course

Every rule of a course adds events that can be read from the mode before it, and a finalizer leaves
the pending limits as it found them. -/

variable {σ : Type} [Host σ] {limits : Limits}

/-- However something begins that a run is made of, the trail can be read to where it ends. -/
theorem Course.leads {m m' : Machine σ} {end? : Option Fault} (h : Course limits m end? m')
    {ps : List LimitCause} (hm : Leads m.trail .going ps) : Leads m'.trail (.ofEnd end?) ps := by
  induction h generalizing ps with
  | refl | heap | random | write | host => exact hm
  | fail _ hfault => rw [Mode.ofEnd_of_isOrdinary hfault]; exact hm
  | begun => exact .begun hm
  | meetTurns | meetDepth => exact .met hm
  | block => exact .blocked hm
  | trans _ _ ih ih' => exact ih' (ih hm)
  | recover hfault _ _ ih ih' =>
    have hgoing := ih hm
    rw [Mode.ofEnd_of_isOrdinary hfault] at hgoing
    exact ih' hgoing
  | turn _ _ _ _ ih ih' => exact ih' (.worked (ih hm))
  | idleTurn _ _ ih | deeper _ _ ih | inCall _ _ ih => exact ih hm
  | resume _ _ ih ih' => exact .resumed (ih' (.cleaning (ih hm)))
  | renew _ _ ih ih' => exact .renewed (ih' (.cleaning (ih hm)))
  | discard _ _ ih ih' => exact .discarded (ih' (.cleaning (ih hm)))

/-- The trail of a whole run leads to how the run ended, and no limit is pending by then. -/
theorem runOn_leads (limits : Limits) (p : Program) (host : σ) :
    Leads (runOn limits p host).machine.trail (.ofEnd (runOn limits p host).fault?) [] :=
  (runOn_course limits p host).leads .start

/-! ### Reading backwards -/

namespace Leads

variable {es later : List Event} {mode : Mode} {ps : List LimitCause}

/-- What was noted before can be read as well. -/
theorem earlier (h : Leads (later ++ es) mode ps) : ∃ mode' ps', Leads es mode' ps' := by
  induction later generalizing mode ps with
  | nil => exact ⟨mode, ps, h⟩
  | cons e later ih =>
    rw [List.cons_append] at h
    cases h with
    | begun h | worked h | met h | blocked h | cleaning h | resumed h | renewed h | discarded h =>
      exact ih h

/-- A limit is on its way out or pending only if one was met. -/
theorem exists_met (h : Leads es mode ps) (hmode : (∃ cause, mode = .failing cause) ∨ ps ≠ []) :
    ∃ cause, .met cause ∈ es := by
  induction h with
  | start => simp at hmode
  | met => exact ⟨_, List.mem_cons_self⟩
  | begun _ ih | worked _ ih | blocked _ ih =>
    obtain ⟨cause, hmem⟩ := ih (by simpa using hmode)
    exact ⟨cause, List.mem_cons_of_mem _ hmem⟩
  | cleaning _ ih =>
    obtain ⟨cause, hmem⟩ := ih (.inl ⟨_, rfl⟩)
    exact ⟨cause, List.mem_cons_of_mem _ hmem⟩
  | resumed _ ih | renewed _ ih | discarded _ ih =>
    obtain ⟨cause, hmem⟩ := ih (.inr (by simp))
    exact ⟨cause, List.mem_cons_of_mem _ hmem⟩

/-- A run is given up exactly after it was blocked. -/
theorem blocked_mem_iff (h : Leads es mode ps) : .blocked ∈ es ↔ mode = .halted := by
  induction h with
  | start => simp
  | begun _ ih | worked _ ih | met _ ih | blocked _ ih | cleaning _ ih | resumed _ ih
  | renewed _ ih | discarded _ ih =>
    simp [ih]

end Leads

end MemoryShell.Script
