/-
  MemoryShell/Proofs/Script/Runs.lean
  ===================================
  **Every run takes a course, and hardly any fault is final.**

  If what is nested in a job takes a course within a smaller budget, so does the job.  An induction
  on the levels of a runner shows it of every job that has enough levels for its budget, and the
  levels of `runner` are enough for all that the limits allow.  No rule of a course ends exhausted
  or out of range, so neither the bounds on the recursion and on the rounds of loops nor a position
  or a depth ever ends a run.
-/
import MemoryShell.Proofs.Script.Statements

namespace MemoryShell.Script

variable {σ : Type} [Host σ] {limits : Limits} {k : Nat} {r : Runner σ}

namespace Act.Within

/-! ### Functions -/

theorem callFrame (isArrow : Bool) (this : Value) (args : List Value) :
    Within limits k (callFrame isArrow this args : Act σ Frame) := by
  unfold Act.callFrame
  split
  · exact .pure _
  · exact (newArray _).map _

theorem runClosure (h : r.Nests limits k) (d : FunctionDef) (env : Env) (this : Value)
    (args : List Value) : Within limits k (runClosure r d env this args) := by
  refine (callFrame _ _ _).bind fun frame => (newScope _ _).bind fun scope => ?_
  split
  · exact h.eval _ _
  · refine (execBody h _ _).bind fun flow => ?_
    split
    · exact .pure _
    · exact .pure _

/-- What calls back from a method has taken a turn before. -/
theorem callMethod (hcall : ∀ j, j + 1 = k → r.Calls limits j) (method : Method) (receiver : Value)
    (args : List Value) : Within limits k (callMethod limits r method receiver args) := by
  unfold Act.callMethod
  split
  · exact .stringMethod _ _ _
  · exact .arrayMethod (fun j hj f args => hcall j hj f .undefined args) _ _ _
  · exact .numberMethod _ _ _
  · exact .objectMethod _ _ _
  · exact (display _).map _

theorem invoke (h : r.Nests limits k) (hcall : ∀ j, j + 1 = k → r.Calls limits j) (f this : Value)
    (args : List Value) : Within limits k (invoke limits r f this args) := by
  unfold Act.invoke
  split
  · exact .inCall (runClosure h _ _ _ _)
  · exact .callNative _ _
  · exact callMethod hcall _ _ _
  · exact (display _).bind fun _ => .throwMistake _

/-- A part of a run is noted as it begins. -/
theorem begun {act : Act σ α} (h : Within limits k act) :
    Within limits k (do note .begun; act) := fun m hm => (Course.begun m).trans (h _ hm)

end Act.Within

/-! ### Runners

The induction is on the levels of the runner.  An expression or a statement needs one level more
than its budget, since it goes deeper first; a call needs two, since its body has to be run on the
same budget. -/

/-- A runner takes a course if it has more levels than what is left toward the limits. -/
theorem run_within (levels : Nat) :
    (∀ k < levels, Runner.Nests ⟨run (σ := σ) limits levels⟩ limits k) ∧
      ∀ k, k + 1 < levels → Runner.Calls ⟨run (σ := σ) limits levels⟩ limits k := by
  induction levels with
  | zero =>
    constructor
    · intro k hk
      exact absurd hk (Nat.not_lt_zero k)
    · intro k hk
      exact absurd hk (Nat.not_lt_zero (k + 1))
  | succ levels ih =>
    obtain ⟨hnests, hcalls⟩ := ih
    refine ⟨fun k hk => ⟨fun e env => ?_, fun s env => ?_⟩, fun k hk f this args => ?_⟩
    · exact .begun (.deeper fun j hj => .evaluate (hnests j (by omega)) (hcalls j (by omega)) e env)
    · exact .begun (.deeper fun j hj => .execute (hnests j (by omega)) s env)
    · exact .begun (.invoke (hnests k (by omega)) (fun j hj => hcalls j (by omega)) f this args)

namespace Act.Within

theorem execTop (h : r.Nests limits k) (body : List Stmt) : Within limits k (execTop r body) := by
  induction body with
  | nil => exact .pure _
  | cons s rest ih =>
    refine (h.exec _ _).bind fun flow => ?_
    split
    · exact .pure _
    · exact ih

theorem runProgram (p : Program) (hk : k < limits.levels) :
    Within limits k (runProgram limits p : Act σ Unit) :=
  installGlobals.bind fun _ => (hoist _ _).bind fun _ => execTop ((run_within _).1 k hk) _

end Act.Within

/-! ### Whole runs -/

variable (limits)

/-- Every run takes a course. -/
theorem runOn_course (p : Program) (host : σ) :
    Course limits (Machine.start host) (runOn limits p host).fault?
      (runOn limits p host).machine := by
  have hbudget : limits.budget (Machine.start host) < limits.levels := by
    simp only [Limits.budget, Limits.levels, Machine.start]
    omega
  exact Act.Within.runProgram p hbudget (Machine.start host) (Nat.le_refl _)

/-- The only final fault of a course is that an array was needed for its own length. -/
theorem Course.eq_busyArray {limits : Limits} {m m' : Machine σ} {end? : Option Fault}
    (h : Course limits m end? m') : ∀ fault ∈ end?, fault.isFinal → fault = .busyArray := by
  induction h with
  | refl | heap | random | write | host | begun => nofun
  | @fail fault _ hfault =>
    rintro _ ⟨⟩ hfinal
    cases fault with
    | thrown | badTarget => cases hfinal
    | limit | busyArray | outOfRange | exhausted => cases hfault
  | meetTurns | meetDepth | resume | renew =>
    rintro fault ⟨⟩ hfinal
    cases hfinal
  | block =>
    rintro fault ⟨⟩ _
    rfl
  | trans _ _ _ ih | recover _ _ _ _ ih | turn _ _ _ _ _ ih | discard _ _ _ ih => exact ih
  | idleTurn _ _ ih | deeper _ _ ih | inCall _ _ ih => exact ih

/-- No run is exhausted or out of range. -/
theorem runOn_eq_busyArray (p : Program) (host : σ) :
    ∀ fault ∈ (runOn limits p host).fault?, fault.isFinal → fault = .busyArray :=
  (runOn_course limits p host).eq_busyArray

end MemoryShell.Script
