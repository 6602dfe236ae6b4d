/-
  MemoryShell/Proofs/Script/Depth.lean
  ====================================
  **Depths are given back, and never pass their limits.**

  Each expression and each statement goes one level deeper, and so does each call of a script
  function.  However it ends, the level is taken back, so what follows has the depths that it would
  have had without it.  A level is only granted below its limit.  `Standing` says which depths go
  with which open activities: it has one rule for every way in which an activity is opened or
  granted its depth, so what it implies is true at every moment of a run.
-/
import MemoryShell.Proofs.Script.Moments

namespace MemoryShell.Script

/-! ### Depths are given back -/

/-- However the act ends, the depths are what they were before it. -/
def Act.KeepsDepths {σ α : Type} (act : Act σ α) : Prop :=
  ∀ m, (Result.machine (act m)).depths = m.depths

/-- The machine at other depths. -/
def Machine.atDepths {σ : Type} (m : Machine σ) (d : Depths) : Machine σ :=
  { m with evalDepth := d.eval, callDepth := d.call }

section Balance

variable {σ : Type}

theorem Machine.atDepths_depths (m : Machine σ) : m.atDepths m.depths = m := rfl

theorem Act.Follows.keepsDepths {α : Type} {act act' : Act σ α}
    (h : Act.Follows (fun _ => True) act act') : act.KeepsDepths := by
  intro m
  exact (h m trivial).depths

/-- A handler would do the same if it were given the depths from before what it guards. -/
theorem Act.KeepsDepths.catching {act : Act σ Flow} (h : act.KeepsDepths)
    (handler : Value → Act σ Flow) (m : Machine σ) :
    Act.catching act (some handler) m =
      Act.catching act (some fun v m' => handler v (m'.atDepths m.depths)) m := by
  have hkept := h m
  unfold Act.catching
  cases heq : act m with
  | ok flow m' => rfl
  | error fault m' =>
    rw [heq] at hkept
    cases fault with
    | thrown v =>
      have hdepths : m'.atDepths m.depths = m' := by rw [← hkept]; exact m'.atDepths_depths
      simp only [hdepths]
    | limit | badTarget | busyArray | outOfRange | exhausted => rfl

variable [Host σ] (limits : Limits)

/-- A runner follows itself, at whatever depths. -/
theorem runner_follows :
    Runner.Follows (fun _ => True) (runner (σ := σ) limits) (runner limits) := by
  have hjob {α : Type} (job : Job α) :
      Act.Follows (fun _ => True) ((runner (σ := σ) limits).run job) ((runner limits).run job) := by
    have hrun : (runner (σ := σ) limits).run job =
        runUntil limits (fun _ _ => false) limits.levels [] job :=
      (runUntil_never limits limits.levels [] job).symm
    rw [hrun]
    exact runUntil_follows _ _ (admits_true limits) (fun _ _ _ _ _ => rfl)
      (fun _ _ _ _ _ _ => rfl) (Nat.le_refl _) [] job
  refine ⟨⟨?_, ?_⟩, ?_⟩
  · intro e env
    exact hjob (.eval e env)
  · intro s env
    exact hjob (.exec s env)
  · intro f this args
    exact hjob (.call f this args)

end Balance

/-! ### Which depths there are at a moment -/

/-- The depths that a run can have while some activities are open, and whether the innermost one has
    been granted its depth. -/
inductive Standing (limits : Limits) : Phase → List Activity → Depths → Prop where
  | first (s) : Standing limits .opening [.executing s] ⟨0, 0⟩
  | expression {e stack d} :
    Standing limits .opening (.evaluating e :: stack) d → d.eval < limits.maxEvalDepth →
      Standing limits .granted (.evaluating e :: stack) ⟨d.eval + 1, d.call⟩
  | statement {s stack d} :
    Standing limits .opening (.executing s :: stack) d → d.eval < limits.maxEvalDepth →
      Standing limits .granted (.executing s :: stack) ⟨d.eval + 1, d.call⟩
  | closure {id c env args stack d} :
    Standing limits .opening (.calling (.closure id c env) args :: stack) d →
      d.call < limits.maxCallDepth →
        Standing limits .granted (.calling (.closure id c env) args :: stack) ⟨d.eval, d.call + 1⟩
  | method {id f receiver args stack d} :
    Standing limits .opening (.calling (.method id f receiver) args :: stack) d →
      Standing limits .granted (.calling (.method id f receiver) args :: stack) d
  | opening {a b stack d} :
    Standing limits .granted (b :: stack) d → b.mayOpen a →
      Standing limits .opening (a :: b :: stack) d

theorem standing_admits (limits : Limits) : Admits limits (Standing limits) where
  expression := .expression
  statement := .statement
  closure := .closure
  method := .method
  opening := .opening

/-- Neither depth passes its limit. -/
theorem Standing.depths_le {limits : Limits} {phase : Phase} {stack : List Activity} {d : Depths}
    (h : Standing limits phase stack d) :
    d.eval ≤ limits.maxEvalDepth ∧ d.call ≤ limits.maxCallDepth := by
  induction h with
  | first s => exact ⟨Nat.zero_le _, Nat.zero_le _⟩
  | expression _ hdepth ih => exact ⟨hdepth, ih.2⟩
  | statement _ hdepth ih => exact ⟨hdepth, ih.2⟩
  | closure _ hdepth ih => exact ⟨ih.1, hdepth⟩
  | method _ ih => exact ih
  | opening _ _ ih => exact ih

/-- What the open activities and the depths never are in a run, a run never comes to. -/
theorem not_comesTo_of_standing {σ : Type} [Host σ] (limits : Limits) (p : Program) (host : σ)
    {watch : Watch σ}
    (hwatch : ∀ phase stack m, Standing limits phase stack m.depths → watch stack m = false) :
    ¬ ComesTo limits watch p host :=
  not_comesTo limits p host (standing_admits limits) .first hwatch

/-! ### Balance and bounds -/

/-- The moments at which a depth is past its limit. -/
def pastDepths {σ : Type} (limits : Limits) : Watch σ := fun _ m =>
  decide (limits.maxEvalDepth < m.evalDepth ∨ limits.maxCallDepth < m.callDepth)

/-- Whatever runs leaves the depths as it found them, from any machine and however it ends. -/
structure DepthsBalanced (σ : Type) [Host σ] (limits : Limits) : Prop where
  statement (s : Stmt) (env : Env) : ((runner (σ := σ) limits).exec s env).KeepsDepths
  expression (e : Expr) (env : Env) : ((runner (σ := σ) limits).eval e env).KeepsDepths
  call (f this : Value) (args : List Value) :
    ((runner (σ := σ) limits).call f this args).KeepsDepths
  native (f : Native) (args : List Value) : (Act.callNative f args : Act σ Value).KeepsDepths
  method (method : Method) (receiver : Value) (args : List Value) :
    (Act.callMethod limits (runner (σ := σ) limits) method receiver args).KeepsDepths
  /-- A handler begins at the depths from before the block that it guards. -/
  handler (block : List Stmt) (env : Env) (handler : Value → Act σ Flow) (m : Machine σ) :
    Act.catching (Act.execBlock (runner limits) block env) (some handler) m =
      Act.catching (Act.execBlock (runner limits) block env)
        (some fun v m' => handler v (m'.atDepths m.depths)) m

theorem depths_balanced (σ : Type) [Host σ] (limits : Limits) : DepthsBalanced σ limits := by
  have hrunner := runner_follows (σ := σ) limits
  constructor
  · intro s env
    exact (hrunner.exec s env).keepsDepths
  · intro e env
    exact (hrunner.eval e env).keepsDepths
  · intro f this args
    exact (hrunner.call f this args).keepsDepths
  · intro f args
    exact (Act.Follows.callNative f args).keepsDepths
  · intro method receiver args
    exact (Act.Follows.callMethod hrunner method receiver args).keepsDepths
  · intro block env handler m
    have hblock := Act.Follows.execBlock hrunner.toFollowsNested block env
    exact hblock.keepsDepths.catching handler m

/-- The limit on the nesting can be reached. -/
example :
    ComesTo { maxEvalDepth := 2 } (fun _ m => m.evalDepth == 2) ⟨[.expr .null]⟩ Tree.root := by
  decide +kernel

end MemoryShell.Script
