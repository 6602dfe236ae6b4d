/-
  MemoryShell/Proofs/Script/Keeping.lean
  ======================================
  **When a run keeps the limits that it meets.**

  No handler gets to see a limit, and only finalizers run while one is on its way out.  A finalizer
  that ends with a jump or another fault has the last word, though, and then the limit is gone: that
  is the one way to lose it.  A finalizer that ends normally, or that meets the same limit again,
  loses nothing.
-/
import MemoryShell.Proofs.Script.Modes

namespace MemoryShell.Script

/-! ### Keeping limits

A trail holds its events latest first, so what lies before a limit in the list came after it. -/

/-- Whether an event is a part of the run beginning or a piece of work. -/
def Event.isProgress : Event → Bool
  | .begun | .worked _ => true
  | _ => false

/-- What follows a limit, latest event first, as long as the limit is on its way out and nothing but
    finalizers runs on the way. -/
inductive OnlyFinalizers (cause : LimitCause) : List Event → Prop where
  | nil : OnlyFinalizers cause []
  /-- A finalizer on the way ends normally. -/
  | resumed {earlier inside} :
    OnlyFinalizers cause earlier → (∀ e ∈ inside, Event.isProgress e) →
      OnlyFinalizers cause (.resumed cause :: (inside ++ .cleaning cause :: earlier))
  /-- A finalizer on the way meets the same limit again. -/
  | again {earlier inside} :
    OnlyFinalizers cause earlier → (∀ e ∈ inside, Event.isProgress e) →
      OnlyFinalizers cause (.met cause :: (inside ++ .cleaning cause :: earlier))
  /-- A limit that was met in a finalizer leaves it, in place of the same one outside. -/
  | renewed {earlier} : OnlyFinalizers cause earlier → OnlyFinalizers cause (.renewed cause :: earlier)

/-- A run keeps its limits if it ends with each limit that it meets, with nothing but finalizers on
    the way out, and says so in the last line of its output. -/
def KeepsLimits {σ : Type} (r : Result σ Unit) : Prop :=
  ∀ cause before after, r.machine.trail = after ++ .met cause :: before →
    r.fault? = some (.limit cause) ∧ OnlyFinalizers cause after ∧
      (Outcome.ofResult r).output =
        Console.finish (r.machine.console ++ Console.executionError cause.message)

theorem OnlyFinalizers.discarded_not_mem {cause : LimitCause} {es : List Event}
    (h : OnlyFinalizers cause es) (lost : LimitCause) : .discarded lost ∉ es := by
  induction h with
  | nil => exact List.not_mem_nil
  | resumed _ hinside ih | again _ hinside ih =>
    intro hmem
    simp only [List.mem_cons, List.mem_append, reduceCtorEq, false_or] at hmem
    rcases hmem with hmem | hmem
    · exact absurd (hinside _ hmem) Bool.false_ne_true
    · exact ih hmem
  | renewed _ ih =>
    intro hmem
    rw [List.mem_cons] at hmem
    rcases hmem with heq | hmem
    · cases heq
    · exact ih hmem

/-! ### Ways to the end

From where a trail has led, a run can only come to its end without losing a limit if all limits that
are pending or on their way out are the same.  This is read backwards along the trail, from the end,
where nothing is pending. -/

/-- All limits that are pending can still be left without being lost. -/
inductive CanLeave : Mode → List LimitCause → Prop where
  | going {cause ps} : (∀ p ∈ ps, p = cause) → CanLeave .going ps
  | failing {cause ps} : (∀ p ∈ ps, p = cause) → CanLeave (.failing cause) ps
  | halted : CanLeave .halted []

theorem CanLeave.of_nil (mode : Mode) : CanLeave mode [] := by
  cases mode with
  | going =>
    have hall : ∀ p ∈ ([] : List LimitCause), p = .depth := List.forall_mem_nil _
    exact .going hall
  | failing cause => exact .failing (List.forall_mem_nil _)
  | halted => exact .halted

/-- Where a trail has led after a limit was met: the limit is on its way out, or it is pending while
    a finalizer runs. -/
inductive AfterMet (cause : LimitCause) : List Event → Mode → List LimitCause → Prop where
  | leaving {after ps} : OnlyFinalizers cause after → AfterMet cause after (.failing cause) ps
  | finalizing {earlier inside ps} :
    OnlyFinalizers cause earlier → (∀ e ∈ inside, Event.isProgress e) →
      AfterMet cause (inside ++ .cleaning cause :: earlier) .going (cause :: ps)

/-- Until a limit is lost, what a trail leads to after a limit was met is one of the two, if the run
    can still come to its end. -/
theorem Leads.afterMet {cause : LimitCause} {before after : List Event} {mode : Mode}
    {qs : List LimitCause} (h : Leads (after ++ .met cause :: before) mode qs)
    (hlost : ∀ lost, .discarded lost ∉ after) (hleave : CanLeave mode qs) :
    AfterMet cause after mode qs := by
  induction after generalizing mode qs with
  | nil => cases h with | met h => exact .leaving .nil
  | cons e after ih =>
    have hrest : ∀ lost, .discarded lost ∉ after := fun lost hmem =>
      hlost lost (List.mem_cons_of_mem _ hmem)
    rw [List.cons_append] at h
    cases h with
    | begun h | worked h =>
      cases ih h hrest hleave with
      | finalizing honly hinside =>
        rw [← List.cons_append]
        exact .finalizing honly (List.forall_mem_cons.mpr ⟨rfl, hinside⟩)
    | met h =>
      cases hleave with | failing hall =>
      cases ih h hrest (.going hall) with
      | finalizing honly hinside =>
        -- The pending limit can only be left if it is the one that was met now.
        obtain rfl := hall cause List.mem_cons_self
        exact .leaving (.again honly hinside)
    | blocked h =>
      cases hleave
      cases ih h hrest (CanLeave.of_nil _)
    | cleaning h =>
      cases hleave with | going hall =>
      obtain ⟨rfl, hps⟩ := List.forall_mem_cons.mp hall
      cases ih h hrest (.failing hps) with
      | leaving honly =>
        have hinside : ∀ e ∈ ([] : List Event), e.isProgress := List.forall_mem_nil _
        exact .finalizing honly hinside
    | resumed h =>
      cases hleave with | failing hall =>
      cases ih h hrest (.going (List.forall_mem_cons.mpr ⟨rfl, hall⟩)) with
      | finalizing honly hinside => exact .leaving (.resumed honly hinside)
    | renewed h =>
      cases hleave with | failing hall =>
      cases ih h hrest (.failing (List.forall_mem_cons.mpr ⟨rfl, hall⟩)) with
      | leaving honly => exact .leaving (.renewed honly)
    | discarded h => exact absurd List.mem_cons_self (hlost _)

/-- Where nothing is pending, the limit is still on its way out. -/
theorem AfterMet.leaves {cause : LimitCause} {after : List Event} {mode : Mode}
    (h : AfterMet cause after mode []) : mode = .failing cause ∧ OnlyFinalizers cause after := by
  cases h with
  | leaving honly => exact ⟨rfl, honly⟩

/-! ### Whole runs -/

/-- A fault that leaves a limit on its way out is that limit. -/
theorem Mode.ofEnd_eq_failing {end? : Option Fault} {cause : LimitCause}
    (h : Mode.ofEnd end? = .failing cause) : end? = some (.limit cause) := by
  cases end? with
  | none => cases h
  | some fault =>
    cases fault with
    | limit => cases h; rfl
    | thrown | badTarget | busyArray | outOfRange | exhausted => cases h

/-- The output of a run that ends with a limit. -/
theorem Outcome.output_of_limit {σ : Type} {r : Result σ Unit} {cause : LimitCause}
    (h : r.fault? = some (.limit cause)) :
    (Outcome.ofResult r).output =
      Console.finish (r.machine.console ++ Console.executionError cause.message) := by
  cases r with
  | ok => cases h
  | error fault m => cases h; rfl

variable {σ : Type} [Host σ] (limits : Limits) (p : Program) (host : σ)

/-- An endless loop whose body runs into the limit on turns and then breaks off in a finalizer. -/
def brokenOff : Program where
  body := [.whileLoop (.bool true)
    (.tryCatch [.forLoop none none none .empty] none none (some [.breakLoop]))]

end MemoryShell.Script
