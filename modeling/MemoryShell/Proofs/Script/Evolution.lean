/-
  MemoryShell/Proofs/Script/Evolution.lean
  ========================================
  **What becomes of the heap in a run.**

  Whatever a run does, the heap changes in steps.  A course says so of a run that goes on to its
  end; a run that is broken off takes no course, and its heap is what has become of the first one
  by then.  A relation between the heap before and the heap after that holds of steps and goes on
  from one act to the next holds of every part of a run and at every moment of it, however things
  end.
-/
import MemoryShell.Proofs.Script.Moments

namespace MemoryShell.Script

/-- A relation between a heap and what can become of it. -/
class Heap.GoesOn (R : Heap → Heap → Prop) : Prop where
  steps {h h' : Heap} : h.Steps h' → R h h'
  trans {h h' h'' : Heap} : R h h' → R h' h'' → R h h''

instance : Heap.GoesOn Heap.Steps := ⟨id, .trans⟩

variable {σ α β : Type} {limits : Limits}

/-- However the act ends, the heap before it is related to the heap after it. -/
def Act.Evolves (R : Heap → Heap → Prop) (act : Act σ α) : Prop :=
  ∀ m, R m.heap (Result.machine (act m)).heap

namespace Act.Evolves

open Heap (GoesOn)

variable {R : Heap → Heap → Prop} [GoesOn R] {act : Act σ α}

/-! ### Sequences -/

theorem bind {next : α → Act σ β} (h : Evolves R act) (hnext : ∀ a, Evolves R (next a)) :
    Evolves R (act >>= next) := by
  intro m
  have hact := h m
  cases heq : act m with
  | ok a m' =>
    rw [heq] at hact
    rw [bind_of_ok heq]
    exact GoesOn.trans hact (hnext a m')
  | error fault m' =>
    rw [heq] at hact
    rw [bind_of_error heq]
    exact hact

theorem unchanged (h : ∀ m, (Result.machine (act m)).heap = m.heap) : Evolves R act := by
  intro m
  rw [h m]
  exact GoesOn.steps .refl

theorem ofWithin [Host σ] (h : ∀ k, Within limits k act) : Evolves R act := fun m =>
  GoesOn.steps (h _ m (Nat.le_refl _)).heap_steps

/-- Most acts without anything nested do not depend on any limits. -/
theorem leaf [Host σ] (h : ∀ limits k, Within limits k act) : Evolves R act := ofWithin (h {})

theorem pure (a : α) : Evolves R (Pure.pure a : Act σ α) := unchanged fun _ => rfl

theorem fail (fault : Fault) : Evolves R (fail fault : Act σ α) := unchanged fun _ => rfl

theorem note (e : Event) : Evolves R (note e : Act σ Unit) := unchanged fun _ => rfl

theorem beginTurn : Evolves R (beginTurn limits : Act σ Unit) := by
  apply unchanged
  intro m
  unfold Act.beginTurn
  split <;> rfl

/-! ### Depths, faults and finalizers -/

theorem deeper (h : Evolves R act) : Evolves R (deeper limits act) := by
  intro m
  by_cases hdepth : m.evalDepth < limits.maxEvalDepth
  · rw [heap_deeper hdepth]
    exact h { m with evalDepth := m.evalDepth + 1 }
  · rw [Act.deeper, if_neg hdepth]
    exact GoesOn.steps .refl

theorem inCall (h : Evolves R act) : Evolves R (inCall limits act) := by
  intro m
  by_cases hdepth : m.callDepth < limits.maxCallDepth
  · rw [heap_inCall hdepth]
    exact h { m with callDepth := m.callDepth + 1 }
  · rw [Act.inCall, if_neg hdepth]
    exact GoesOn.steps .refl

/-- To be broken off leaves the heap as it is by then. -/
theorem breakIf (stop : Machine σ → Bool) (h : Evolves R act) : Evolves R (breakIf stop act) := by
  intro m
  unfold Act.breakIf
  split
  · exact GoesOn.steps .refl
  · exact h m

section Flows

variable {act finalizer : Act σ Flow}

theorem catching (h : Evolves R act) {handler : Value → Act σ Flow}
    (hhandler : ∀ v, Evolves R (handler v)) : Evolves R (catching act (some handler)) := by
  intro m
  have hact := h m
  unfold Act.catching
  cases heq : act m with
  | ok flow m₁ =>
    rw [heq] at hact
    exact hact
  | error fault m₁ =>
    rw [heq] at hact
    cases fault with
    | thrown v => exact GoesOn.trans hact (hhandler v m₁)
    | limit | badTarget | busyArray | outOfRange | exhausted => exact hact

theorem cleanUp (h : Evolves R finalizer) (fault : Fault) :
    Evolves R (cleanUp fault finalizer) := by
  apply h.bind
  intro flow
  cases flow with
  | normal => exact fail fault
  | returned v => exact pure _
  | broken => exact pure _
  | continued => exact pure _

omit [GoesOn R] in
theorem cleanUpLimit (h : Evolves R finalizer) (cause : LimitCause) :
    Evolves R (cleanUpLimit cause finalizer) := by
  intro m
  have hfinal := h (m.noted (.cleaning cause))
  unfold Act.cleanUpLimit
  cases heq : finalizer (m.noted (.cleaning cause)) with
  | ok flow m₁ =>
    rw [heq] at hfinal
    cases flow <;> exact hfinal
  | error fault m₁ =>
    rw [heq] at hfinal
    cases fault <;> exact hfinal

theorem finalizing (h : Evolves R act) (hfinalizer : Evolves R finalizer) :
    Evolves R (finalizing act finalizer) := by
  intro m
  have hact := h m
  unfold Act.finalizing
  cases heq : act m with
  | ok flow m₁ =>
    rw [heq] at hact
    -- Whatever the finalizer ends with, the heap is the one that it leaves.
    have hlast := GoesOn.trans hact (hfinalizer m₁)
    dsimp only
    cases hfinal : finalizer m₁ with
    | ok last m₂ =>
      rw [hfinal] at hlast
      cases last <;> exact hlast
    | error fault m₂ =>
      rw [hfinal] at hlast
      exact hlast
  | error fault m₁ =>
    rw [heq] at hact
    cases fault with
    | limit cause => exact GoesOn.trans hact (hfinalizer.cleanUpLimit cause m₁)
    | thrown v => exact GoesOn.trans hact (hfinalizer.cleanUp (.thrown v) m₁)
    | badTarget => exact GoesOn.trans hact (hfinalizer.cleanUp .badTarget m₁)
    | busyArray | outOfRange | exhausted => exact hact

end Flows

/-! ### Jobs -/

section Jobs

variable [Host σ]

/-- How a heap evolves is a matter of one act alone, and goes through how acts are put together. -/
def congruence (R : Heap → Heap → Prop) [GoesOn R] (limits : Limits) : Congruence σ limits where
  Rel act _ := Evolves R act
  bind := bind
  catching h := catching h
  finalizing := finalizing
  leaf h := h.byCourse (P := Evolves R) note fail beginTurn ofWithin
  setProperty object key v := ofWithin fun _ => .setProperty object key v

variable {r : Runner σ} (h : (congruence R limits).Jobs r r)
include h

theorem evaluate (e : Expr) (env : Env) : Evolves R (evaluate limits r e env) := by
  apply Congruence.Rel.evaluate h
  intro items _
  apply Congruence.Rel.bind (Congruence.Rel.evalAll h.toNested items env)
  intro values
  exact leaf fun _ _ => .newArray values.toArray

theorem runClosure (d : FunctionDef) (env : Env) (this : Value) (args : List Value) :
    Evolves R (runClosure r d env this args) := by
  apply Congruence.Rel.runClosure h.toNested
  exact leaf fun _ _ => .callFrame d.isArrow this args

theorem callMethod (method : Method) (receiver : Value) (args : List Value) :
    Evolves R (callMethod limits r method receiver args) := by
  have hmethod : (congruence R limits).Rel (Act.callMethod limits r method receiver args)
      (Act.callMethod limits r method receiver args) := by
    apply Congruence.Rel.callMethod
    · intro s _
      exact ofWithin fun _ => .stringMethod method s args
    · intro a _
      apply Congruence.Rel.arrayResult fun f args => h.call f .undefined args
      · exact fun items => leaf fun _ _ => .newArray items
      · exact fun items => leaf fun _ _ => .setElements a items
      · exact ofWithin fun _ => .arrayResult (fun _ _ _ _ => .fail rfl) method a args
  exact hmethod

end Jobs

end Act.Evolves

/-! ### Runs -/

section Runs

open Act

variable (R : Heap → Heap → Prop) [Heap.GoesOn R] [Host σ]

theorem stepUntil_evolves {r : Runner σ} (h : (Evolves.congruence R limits).Jobs r r)
    (stop : Machine σ → Bool) (job : Job α) : Evolves R (stepUntil limits stop r job) := by
  cases job with
  | eval e env => exact .breakIf stop (.deeper (.breakIf stop (.evaluate h e env)))
  | exec s env =>
    exact .breakIf stop (.deeper (.breakIf stop (Congruence.Rel.execute h.toNested s env)))
  | call f this args =>
    cases f with
    | closure _ d env =>
      exact .breakIf stop (.inCall (.breakIf stop (.runClosure h d env this args)))
    | native _ f => exact .breakIf stop (.leaf fun _ _ => .callNative f args)
    | method _ method receiver => exact .breakIf stop (.callMethod h method receiver args)
    | undefined | null | bool | number | string | array | object =>
      exact .breakIf stop (Congruence.Rel.refused (C := Evolves.congruence R limits) _)

variable (limits) (watch : Watch σ)

/-- The heap evolves in a job, whether or not the job is broken off. -/
theorem runUntil_evolves (levels : Nat) (stack : List Activity) (job : Job α) :
    Evolves R (runUntil limits watch levels stack job) := by
  induction levels generalizing stack α with
  | zero => exact .fail _
  | succ levels ih =>
    have hjobs : (Evolves.congruence R limits).Jobs (σ := σ)
        ⟨runUntil limits watch levels (job.activity :: stack)⟩
        ⟨runUntil limits watch levels (job.activity :: stack)⟩ := .of_run fun job => ih _ job
    exact Evolves.bind (.note .begun) fun _ => stepUntil_evolves R hjobs _ job

theorem run_evolves (levels : Nat) (job : Job α) : Evolves R (run limits levels job : Act σ α) := by
  rw [← runUntil_never limits levels [] job]
  exact runUntil_evolves limits R _ levels [] job

/-- The heap at any moment of a run, and at its end, is what has become of the heap at its start. -/
theorem runOnUntil_evolves (p : Program) (host : σ) :
    R (Machine.start host).heap (Result.machine (runOnUntil limits watch p host)).heap := by
  have hglobals : (Evolves.congruence (σ := σ) R limits).Rel installGlobals installGlobals :=
    Evolves.leaf fun _ _ => .installGlobals
  have hexec (s : Stmt) : (Evolves.congruence R limits).Rel
      ((⟨runUntil limits watch limits.levels []⟩ : Runner σ).exec s globalEnv)
      ((⟨runUntil limits watch limits.levels []⟩ : Runner σ).exec s globalEnv) :=
    runUntil_evolves limits R watch limits.levels [] (.exec s globalEnv)
  exact Congruence.Rel.program hglobals hexec p.body (Machine.start host)

end Runs

end MemoryShell.Script
