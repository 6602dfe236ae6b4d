/-
  MemoryShell/Proofs/Script/Moments.lean
  ======================================
  **The moments of a run.**

  What is going on at a moment of a run is told by the activities that are open, innermost first,
  and by the machine.  To speak of the moments of a run one watches it: a watched run does what the
  run does, and is broken off at the first moment that the watch picks.  The moments that can be
  picked are those at which an expression, a statement or a call begins, and those at which it has
  been granted its depth; between two of them no depth changes.

  A watched run that is not broken off is the run itself, and a run that is not watched is never
  exhausted, so to be broken off is to come to a moment that the watch picks.
-/
import MemoryShell.Proofs.Script.Following

namespace MemoryShell.Script

/-! ### Activities and watches -/

/-- What can be open at a moment of a run. -/
inductive Activity where
  | evaluating (e : Expr)
  | executing (s : Stmt)
  | calling (f : Value) (args : List Value)

def Job.activity {α : Type} : Job α → Activity
  | .eval e _ => .evaluating e
  | .exec s _ => .executing s
  | .call f _ args => .calling f args

/-- A statement opens expressions and statements only. -/
def Activity.mayOpen : Activity → Activity → Bool
  | .executing _, .calling _ _ => false
  | _, _ => true

theorem Activity.mayOpen_evaluating (a : Activity) (e : Expr) : a.mayOpen (.evaluating e) := by
  cases a <;> rfl

theorem Activity.mayOpen_executing (a : Activity) (s : Stmt) : a.mayOpen (.executing s) := by
  cases a <;> rfl

/-- The moments to break off at, by the open activities, innermost first, and the machine. -/
abbrev Watch (σ : Type) := List Activity → Machine σ → Bool

namespace Act

variable {σ α : Type}

def breakIf (stop : Machine σ → Bool) (act : Act σ α) : Act σ α := fun m =>
  if stop m then .error .exhausted m else act m

end Act

def Result.isExhausted {σ α : Type} : Result σ α → Bool
  | .error .exhausted _ => true
  | _ => false

theorem Result.isExhausted_iff {σ α : Type} {r : Result σ α} :
    Result.isExhausted r ↔ Result.fault? r = some .exhausted := by
  cases r with
  | ok a m => exact ⟨nofun, nofun⟩
  | error fault m => cases fault <;> simp [isExhausted, fault?]

section Watched

variable {σ : Type} [Host σ] (limits : Limits)

/-- What a job does under a watch: `stop` holds at the moments to break off at while the job is the
    innermost activity. -/
def stepUntil (stop : Machine σ → Bool) (r : Runner σ) : {α : Type} → Job α → Act σ α
  | _, .eval e env =>
    Act.breakIf stop (Act.deeper limits (Act.breakIf stop (Act.evaluate limits r e env)))
  | _, .exec s env =>
    Act.breakIf stop (Act.deeper limits (Act.breakIf stop (Act.execute limits r s env)))
  | _, .call (.closure _ d env) this args =>
    Act.breakIf stop (Act.inCall limits (Act.breakIf stop (Act.runClosure r d env this args)))
  | _, .call f this args => Act.breakIf stop (Act.invoke limits r f this args)

/-- Run a job on top of some open activities under a watch. -/
def runUntil (watch : Watch σ) : Nat → List Activity → {α : Type} → Job α → Act σ α
  | 0, _, _, _ => Act.fail .exhausted
  | levels + 1, stack, _, job => do
    Act.note .begun
    stepUntil limits (watch (job.activity :: stack))
      ⟨runUntil watch levels (job.activity :: stack)⟩ job

/-- How a program ends that is run on a host under a watch. -/
def runOnUntil (watch : Watch σ) (p : Program) (host : σ) : Result σ Unit :=
  (do
    Act.installGlobals
    Act.hoist p.body globalEnv
    Act.execTop ⟨runUntil limits watch limits.levels []⟩ p.body : Act σ Unit) (Machine.start host)

/-- Whether a run comes to a moment that a watch picks. -/
def ComesTo (watch : Watch σ) (p : Program) (host : σ) : Prop :=
  Result.fault? (runOnUntil limits watch p host) = some .exhausted

instance (watch : Watch σ) (p : Program) (host : σ) : Decidable (ComesTo limits watch p host) :=
  decidable_of_iff _ Result.isExhausted_iff

/-! ### A watch that picks nothing -/

theorem stepUntil_never (r : Runner σ) {α : Type} (job : Job α) :
    stepUntil limits (fun _ => false) r job = step limits r job := by
  cases job with
  | eval e env => rfl
  | exec s env => rfl
  | call f this args => cases f <;> rfl

theorem runUntil_never (levels : Nat) (stack : List Activity) {α : Type} (job : Job α) :
    runUntil (σ := σ) limits (fun _ _ => false) levels stack job = run limits levels job := by
  induction levels generalizing stack α with
  | zero => rfl
  | succ levels ih =>
    have hrunner :
        (⟨runUntil limits (fun _ _ => false) levels (job.activity :: stack)⟩ : Runner σ) =
          ⟨run limits levels⟩ := by
      congr 1
      funext β job'
      exact ih (job.activity :: stack) job'
    rw [runUntil, run, stepUntil_never, hrunner]

theorem runOnUntil_never (p : Program) (host : σ) :
    runOnUntil limits (fun _ _ => false) p host = runOn limits p host := by
  have hrunner :
      (⟨runUntil limits (fun _ _ => false) limits.levels []⟩ : Runner σ) = runner limits := by
    unfold runner
    congr 1
    funext α job
    exact runUntil_never limits limits.levels [] job
  rw [runOnUntil, hrunner]
  rfl

end Watched

/-! ### Comparing watched runs

Whether the innermost activity has been granted its depth, and which activities are open, limits the
depths of the machine.  Two watches need to be compared only at the depths that are left. -/

/-- Whether the innermost activity has been granted its depth. -/
inductive Phase where
  | opening
  | granted

/-- What is true of phases, open activities and depths, whichever activity is opened or granted its
    depth next. -/
structure Admits (limits : Limits) (J : Phase → List Activity → Depths → Prop) : Prop where
  expression {e stack d} : J .opening (.evaluating e :: stack) d → d.eval < limits.maxEvalDepth →
    J .granted (.evaluating e :: stack) ⟨d.eval + 1, d.call⟩
  statement {s stack d} : J .opening (.executing s :: stack) d → d.eval < limits.maxEvalDepth →
    J .granted (.executing s :: stack) ⟨d.eval + 1, d.call⟩
  closure {id c env args stack d} : J .opening (.calling (.closure id c env) args :: stack) d →
    d.call < limits.maxCallDepth →
    J .granted (.calling (.closure id c env) args :: stack) ⟨d.eval, d.call + 1⟩
  method {id f receiver args stack d} :
    J .opening (.calling (.method id f receiver) args :: stack) d →
    J .granted (.calling (.method id f receiver) args :: stack) d
  opening {a b stack d} : J .granted (b :: stack) d → b.mayOpen a → J .opening (a :: b :: stack) d

namespace Act.Follows

variable {σ α : Type} {D D' : Depths → Prop} {act act' : Act σ α}

theorem mono (h : Follows D' act act') (hD : ∀ d, D d → D' d) : Follows D act act' := by
  intro m hm
  exact h m (hD m.depths hm)

theorem breakIf {stop stop' : Machine σ → Bool}
    (hstop : ∀ m, D m.depths → stop m = false → stop' m = false)
    (h : ∀ m, D m.depths → stop m = false → Result.Follows m.depths (act m) (act' m)) :
    Follows D (breakIf stop act) (breakIf stop' act') := by
  intro m hm
  unfold Act.breakIf
  cases hbreak : stop m with
  | true => exact ⟨rfl, .inl rfl⟩
  | false =>
    rw [hstop m hm hbreak]
    exact h m hm hbreak

end Act.Follows

section Comparison

variable {σ : Type} (H H' : Host σ) {limits : Limits} {J : Phase → List Activity → Depths → Prop}
  {watch watch' : Watch σ}

/-- Where the second watch picks no moment that the first one leaves out, and native functions do
    the same at the moments that are left out, a job under the second watch does what it does under
    the first one, unless that is exhausted. -/
theorem runUntil_follows (hJ : Admits limits J)
    (hwatch : ∀ phase stack m, J phase stack m.depths → watch stack m = false →
      watch' stack m = false)
    (hnative : ∀ stack id f args m, watch (.calling (.native id f) args :: stack) m = false →
      @Act.callNative σ H' f args m = @Act.callNative σ H f args m)
    {levels levels' : Nat} (hle : levels ≤ levels') (stack : List Activity) {α : Type}
    (job : Job α) :
    Act.Follows (J .opening (job.activity :: stack)) (@runUntil σ H limits watch levels stack α job)
      (@runUntil σ H' limits watch' levels' stack α job) := by
  induction levels generalizing levels' stack α with
  | zero =>
    intro m _
    exact ⟨rfl, .inl rfl⟩
  | succ levels ih =>
    obtain ⟨levels', rfl⟩ : ∃ n, levels' = n + 1 := ⟨levels' - 1, by omega⟩
    have hnested {b : Activity} {stack : List Activity} {β : Type} (job : Job β)
        (hopen : b.mayOpen job.activity) :
        Act.Follows (J .granted (b :: stack)) (@runUntil σ H limits watch levels (b :: stack) β job)
          (@runUntil σ H' limits watch' levels' (b :: stack) β job) := by
      apply (ih (by omega) (b :: stack) job).mono
      intro d hd
      exact hJ.opening hd hopen
    have hstatements {b : Activity} {stack : List Activity} :
        Runner.FollowsNested (J .granted (b :: stack))
          ⟨@runUntil σ H limits watch levels (b :: stack)⟩
          ⟨@runUntil σ H' limits watch' levels' (b :: stack)⟩ := by
      constructor
      · intro e env
        exact hnested (.eval e env) (b.mayOpen_evaluating e)
      · intro s env
        exact hnested (.exec s env) (b.mayOpen_executing s)
    have hcalls {b : Activity} {stack : List Activity}
        (hb : ∀ f args, b.mayOpen (.calling f args)) :
        Runner.Follows (J .granted (b :: stack)) ⟨@runUntil σ H limits watch levels (b :: stack)⟩
          ⟨@runUntil σ H' limits watch' levels' (b :: stack)⟩ := by
      refine ⟨hstatements, ?_⟩
      intro f this args
      exact hnested (.call f this args) (hb f args)
    apply (Act.Follows.note .begun).bind
    intro _
    cases job with
    | eval e env =>
      apply Act.Follows.breakIf (fun m hm => hwatch .opening _ m hm)
      intro m hm _
      refine Act.Follows.deeper (fun d => hJ.expression) ?_ m hm
      apply Act.Follows.breakIf (fun m hm => hwatch .granted _ m hm)
      intro m hm _
      exact Act.Follows.evaluate (hcalls fun _ _ => rfl) e env m hm
    | exec s env =>
      apply Act.Follows.breakIf (fun m hm => hwatch .opening _ m hm)
      intro m hm _
      refine Act.Follows.deeper (fun d => hJ.statement) ?_ m hm
      apply Act.Follows.breakIf (fun m hm => hwatch .granted _ m hm)
      intro m hm _
      exact Act.Follows.execute hstatements s env m hm
    | call f this args =>
      cases f with
      | closure id c env =>
        apply Act.Follows.breakIf (fun m hm => hwatch .opening _ m hm)
        intro m hm _
        refine Act.Follows.inCall (fun d => hJ.closure) ?_ m hm
        apply Act.Follows.breakIf (fun m hm => hwatch .granted _ m hm)
        intro m hm _
        exact Act.Follows.runClosure hstatements c env this args m hm
      | native id f =>
        apply Act.Follows.breakIf (fun m hm => hwatch .opening _ m hm)
        intro m hm hleft
        have hkept := @Act.Follows.callNative σ (J .opening _) H f args m hm
        exact ⟨hkept.depths, .inr (hnative stack id f args m hleft)⟩
      | method id f receiver =>
        apply Act.Follows.breakIf (fun m hm => hwatch .opening _ m hm)
        intro m hm _
        exact Act.Follows.callMethod (hcalls fun _ _ => rfl) f receiver args m (hJ.method hm)
      | undefined | null | bool | number | string | array | object =>
        apply Act.Follows.breakIf (fun m hm => hwatch .opening _ m hm)
        intro m hm _
        exact Act.Follows.refused _ m hm

/-- The same for whole runs. -/
theorem runOnUntil_follows (hJ : Admits limits J) (hstart : ∀ s, J .opening [.executing s] ⟨0, 0⟩)
    (hwatch : ∀ phase stack m, J phase stack m.depths → watch stack m = false →
      watch' stack m = false)
    (hnative : ∀ stack id f args m, watch (.calling (.native id f) args :: stack) m = false →
      @Act.callNative σ H' f args m = @Act.callNative σ H f args m)
    (hglobals : @Act.installGlobals σ H' = @Act.installGlobals σ H) (p : Program) (host : σ) :
    Result.Follows ⟨0, 0⟩ (@runOnUntil σ H limits watch p host)
      (@runOnUntil σ H' limits watch' p host) := by
  have hexec (s : Stmt) : Act.Follows (· = ⟨0, 0⟩)
      (@runUntil σ H limits watch limits.levels [] Flow (.exec s globalEnv))
      (@runUntil σ H' limits watch' limits.levels [] Flow (.exec s globalEnv)) := by
    apply (runUntil_follows H H' hJ hwatch hnative (Nat.le_refl _) [] _).mono
    rintro d rfl
    exact hstart s
  have hprogram : Act.Follows (· = ⟨0, 0⟩)
      (do
        @Act.installGlobals σ H
        Act.hoist p.body globalEnv
        Act.execTop ⟨@runUntil σ H limits watch limits.levels []⟩ p.body)
      (do
        @Act.installGlobals σ H'
        Act.hoist p.body globalEnv
        Act.execTop ⟨@runUntil σ H' limits watch' limits.levels []⟩ p.body) := by
    rw [hglobals]
    exact @Act.Follows.program σ _ H _ _ hexec p.body
  exact hprogram (Machine.start host) rfl

end Comparison

/-! ### Whole runs -/

section Runs

variable {σ : Type} [Host σ] (limits : Limits) (p : Program) (host : σ)

theorem admits_true : Admits limits fun _ _ _ => True := by
  constructor <;> intros <;> trivial

/-- Watches that pick more moments break off sooner. -/
theorem runOnUntil_follows_of_imp {watch watch' : Watch σ}
    (h : ∀ stack m, watch stack m → watch' stack m) :
    Result.Follows ⟨0, 0⟩ (runOnUntil limits watch' p host) (runOnUntil limits watch p host) := by
  apply runOnUntil_follows _ _ (admits_true limits) (fun _ => trivial) ?_
    (fun _ _ _ _ _ _ => rfl) rfl
  intro phase stack m _ hleft
  rw [Bool.eq_false_iff]
  intro hpicked
  rw [h stack m hpicked] at hleft
  cases hleft

/-- A run that is watched is broken off, or it is the run itself. -/
theorem comesTo_or_eq (watch : Watch σ) :
    ComesTo limits watch p host ∨ runOnUntil limits watch p host = runOn limits p host := by
  have hfollows : Result.Follows ⟨0, 0⟩ (runOnUntil limits watch p host)
      (runOnUntil limits (fun _ _ => false) p host) :=
    runOnUntil_follows_of_imp limits p host nofun
  rw [runOnUntil_never] at hfollows
  rcases hfollows.same with hexhausted | hsame
  · exact .inl hexhausted
  · exact .inr hsame.symm

/-- A run comes to no moment that a watch leaves out. -/
theorem not_comesTo {J : Phase → List Activity → Depths → Prop} (hJ : Admits limits J)
    (hstart : ∀ s, J .opening [.executing s] ⟨0, 0⟩) {watch : Watch σ}
    (hwatch : ∀ phase stack m, J phase stack m.depths → watch stack m = false) :
    ¬ ComesTo limits watch p host := by
  have hfollows : Result.Follows ⟨0, 0⟩ (runOnUntil limits (fun _ _ => false) p host)
      (runOnUntil limits watch p host) := by
    apply runOnUntil_follows _ _ hJ hstart ?_ (fun _ _ _ _ _ _ => rfl) rfl
    intro phase stack m hm _
    exact hwatch phase stack m hm
  rw [runOnUntil_never] at hfollows
  intro hcomes
  have hexhausted : Result.fault? (runOn limits p host) = some .exhausted := by
    rcases hfollows.same with hexhausted | hsame
    · exact hexhausted
    · rw [← hsame]
      exact hcomes
  cases runOn_eq_busyArray limits p host .exhausted hexhausted rfl

end Runs

end MemoryShell.Script
