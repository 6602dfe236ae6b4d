/-
  MemoryShell/Proofs/Script/Following.lean
  ========================================
  **When one way to run things does what another one does.**

  The evaluator is described over a runner for what is nested, so two runners give two evaluators.
  If the second runner does what the first one does, unless the first is exhausted, then the same is
  true of every expression, statement and call over them.  It is enough to know this at the depths
  at which nested parts can begin, because every part of a run leaves the depths of the machine as
  it found them, however it ends.
-/
import MemoryShell.Proofs.Script.Congruence
import MemoryShell.Proofs.Script.Runs

namespace MemoryShell.Script

/-! ### Depths and results -/

/-- How deep a machine is: in expressions and statements, and in calls of script functions. -/
structure Depths where
  eval : Nat
  call : Nat
deriving DecidableEq

def Machine.depths {σ : Type} (m : Machine σ) : Depths := ⟨m.evalDepth, m.callDepth⟩

variable {σ α β : Type}

/-- The first result keeps some depths, and the second one is the same unless the first is
    exhausted. -/
structure Result.Follows (d : Depths) (r r' : Result σ α) : Prop where
  depths : (Result.machine r).depths = d
  same : Result.fault? r = some .exhausted ∨ r' = r

/-- From some depths the second act does what the first one does, unless the first is exhausted. -/
def Act.Follows (D : Depths → Prop) (act act' : Act σ α) : Prop :=
  ∀ m, D m.depths → Result.Follows m.depths (act m) (act' m)

/-- Expressions and statements do on the second runner what they do on the first one. -/
structure Runner.FollowsNested (D : Depths → Prop) (r r' : Runner σ) : Prop where
  eval (e : Expr) (env : Env) : Act.Follows D (r.eval e env) (r'.eval e env)
  exec (s : Stmt) (env : Env) : Act.Follows D (r.exec s env) (r'.exec s env)

/-- Calls do so as well. -/
structure Runner.Follows (D : Depths → Prop) (r r' : Runner σ) : Prop
    extends Runner.FollowsNested D r r' where
  call (f this : Value) (args : List Value) :
    Act.Follows D (r.call f this args) (r'.call f this args)

/-- After a value both results are the same. -/
theorem Result.Follows.ok {d : Depths} {a : α} {m : Machine σ} {r' : Result σ α}
    (h : Result.Follows d (.ok a m) r') : m.depths = d ∧ r' = .ok a m := by
  refine ⟨h.depths, ?_⟩
  rcases h.same with hexhausted | hsame
  · cases hexhausted
  · exact hsame

/-- After a fault both results are the same, or the fault is that the first is exhausted. -/
theorem Result.Follows.error {d : Depths} {fault : Fault} {m : Machine σ} {r' : Result σ α}
    (h : Result.Follows d (.error fault m) r') :
    m.depths = d ∧ (fault = .exhausted ∨ r' = .error fault m) := by
  refine ⟨h.depths, ?_⟩
  rcases h.same with hexhausted | hsame
  · exact .inl (Option.some.inj hexhausted)
  · exact .inr hsame

/-- An act in which nothing is nested takes a course, but for a note, a fault and the beginning of a
    turn. -/
theorem Act.Leaf.byCourse [Host σ] {limits : Limits} {P : {α : Type} → Act σ α → Prop}
    (note : ∀ e, P (Act.note e)) (fail : ∀ {α : Type} fault, P (Act.fail fault : Act σ α))
    (beginTurn : P (Act.beginTurn limits))
    (course : ∀ {α : Type} {act : Act σ α}, (∀ k, Within limits k act) → P act) {act : Act σ α}
    (h : act.Leaf limits) : P act := by
  cases h with
  | note e => exact note e
  | fail fault => exact fail fault
  | beginTurn => exact beginTurn
  | pure a => exact course fun _ => .pure a
  | look f => exact course fun _ => .look f
  | throwMistake e => exact course fun _ => .throwMistake e
  | checkText v => exact course fun _ => .checkText v
  | newObject members => exact course fun _ => .newObject members
  | newScope env frame => exact course fun _ => .newScope env frame
  | newClosure d env => exact course fun _ => .newClosure d env
  | variableValue name env => exact course fun _ => .variableValue name env
  | declareVariable env name v isMutable =>
    exact course fun _ => .declareVariable env name v isMutable
  | assignVariable name v env => exact course fun _ => .assignVariable name v env
  | getProperty object key => exact course fun _ => .getProperty object key
  | hoist body env => exact course fun _ => .hoist body env
  | itemScope kind name env item => exact course fun _ => .itemScope kind name env item
  | itemsOf v => exact course fun _ => .itemsOf v
  | numberMethod method x args => exact course fun _ => .numberMethod method x args
  | objectMethod method object args => exact course fun _ => .objectMethod method object args

namespace Act.Follows

variable {D D' : Depths → Prop} {act act' : Act σ α}

/-! ### Sequences -/

theorem bind {next next' : α → Act σ β} (h : Follows D act act')
    (hnext : ∀ a, Follows D (next a) (next' a)) : Follows D (act >>= next) (act' >>= next') := by
  intro m hm
  have hact := h m hm
  cases heq : act m with
  | ok a m₁ =>
    rw [heq] at hact
    obtain ⟨hdepths, hact'⟩ := hact.ok
    rw [bind_of_ok heq, bind_of_ok hact', ← hdepths]
    exact hnext a m₁ (hdepths ▸ hm)
  | error fault m₁ =>
    rw [heq] at hact
    obtain ⟨hdepths, hfault⟩ := hact.error
    rw [bind_of_error heq]
    rcases hfault with rfl | hact'
    · exact ⟨hdepths, .inl rfl⟩
    · rw [bind_of_error hact']
      exact ⟨hdepths, .inr rfl⟩

/-- An act that keeps the depths does what it does itself. -/
theorem same (h : ∀ m, (Result.machine (act m)).depths = m.depths) : Follows D act act := by
  intro m _
  exact ⟨h m, .inr rfl⟩

theorem pure (a : α) : Follows D (Pure.pure a : Act σ α) (Pure.pure a) := same fun _ => rfl

theorem fail (fault : Fault) : Follows D (Act.fail fault : Act σ α) (Act.fail fault) :=
  same fun _ => rfl

theorem note (e : Event) : Follows D (Act.note e : Act σ Unit) (Act.note e) := same fun _ => rfl

/-! ### Acts without anything nested

These take a course, and courses keep the depths. -/

theorem ofWithin [Host σ] {limits : Limits} (h : ∀ k, Within limits k act) : Follows D act act := by
  apply same
  intro m
  have hcourse := h _ m (Nat.le_refl _)
  simp only [Machine.depths, hcourse.evalDepth_eq, hcourse.callDepth_eq]

/-- Most of them do not depend on any limits. -/
theorem leaf [Host σ] (h : ∀ limits k, Within limits k act) : Follows D act act := ofWithin (h {})

theorem beginTurn (limits : Limits) :
    Follows D (Act.beginTurn limits : Act σ Unit) (Act.beginTurn limits) := by
  apply same
  intro m
  by_cases hturns : m.turns < limits.maxTurns
  · rw [beginTurn_of_lt hturns]
    rfl
  · rw [beginTurn_of_le (Nat.le_of_not_lt hturns)]
    rfl

/-! ### Depths that are given and taken back

The depth that is given is there to be taken back, so a fault on the way out stays the fault that it
is. -/

section Levels

variable {m : Machine σ} {given : Machine σ}
  {takeBack : (Machine σ → Result σ α) → Machine σ → Result σ α}

/-- Where a level can be taken back, what is done between giving and taking back follows. -/
theorem takenBack
    (hback : ∀ finish m₁, m₁.depths = given.depths →
      ∃ m₂, m₂.depths = m.depths ∧ takeBack finish m₁ = finish m₂)
    (h : Result.Follows given.depths (act given) (act' given)) :
    Result.Follows m.depths
      (match act given with
        | .ok a m => takeBack (.ok a) m
        | .error f m => takeBack (.error f) m)
      (match act' given with
        | .ok a m => takeBack (.ok a) m
        | .error f m => takeBack (.error f) m) := by
  cases heq : act given with
  | ok a m₁ =>
    rw [heq] at h
    obtain ⟨hdepths, hact'⟩ := h.ok
    obtain ⟨m₂, hm₂, hfinish⟩ := hback (.ok a) m₁ hdepths
    rw [hact']
    simp only [hfinish]
    exact ⟨hm₂, .inr rfl⟩
  | error fault m₁ =>
    rw [heq] at h
    obtain ⟨hdepths, hfault⟩ := h.error
    obtain ⟨m₂, hm₂, hfinish⟩ := hback (.error fault) m₁ hdepths
    simp only [hfinish]
    rcases hfault with rfl | hact'
    · exact ⟨hm₂, .inl rfl⟩
    · rw [hact']
      simp only [hfinish]
      exact ⟨hm₂, .inr rfl⟩

end Levels

theorem deeper {limits : Limits}
    (hD : ∀ d, D d → d.eval < limits.maxEvalDepth → D' ⟨d.eval + 1, d.call⟩)
    (h : Follows D' act act') : Follows D (deeper limits act) (deeper limits act') := by
  intro m hm
  unfold Act.deeper
  by_cases hdepth : m.evalDepth < limits.maxEvalDepth
  · rw [if_pos hdepth, if_pos hdepth]
    apply takenBack _ (h { m with evalDepth := m.evalDepth + 1 } (hD m.depths hm hdepth))
    intro finish m₁ hdepths
    obtain ⟨heval, hcall⟩ := Depths.mk.inj hdepths
    have hpos : 0 < m₁.evalDepth := by rw [heval]; exact Nat.succ_pos _
    refine ⟨{ m₁ with evalDepth := m₁.evalDepth - 1 }, ?_, rise_of_pos hpos⟩
    simp only [Machine.depths, heval, hcall, Nat.add_sub_cancel]
  · rw [if_neg hdepth, if_neg hdepth]
    exact ⟨rfl, .inr rfl⟩

theorem inCall {limits : Limits}
    (hD : ∀ d, D d → d.call < limits.maxCallDepth → D' ⟨d.eval, d.call + 1⟩)
    (h : Follows D' act act') : Follows D (inCall limits act) (inCall limits act') := by
  intro m hm
  unfold Act.inCall
  by_cases hdepth : m.callDepth < limits.maxCallDepth
  · rw [if_pos hdepth, if_pos hdepth]
    apply takenBack _ (h { m with callDepth := m.callDepth + 1 } (hD m.depths hm hdepth))
    intro finish m₁ hdepths
    obtain ⟨heval, hcall⟩ := Depths.mk.inj hdepths
    have hpos : 0 < m₁.callDepth := by rw [hcall]; exact Nat.succ_pos _
    refine ⟨{ m₁ with callDepth := m₁.callDepth - 1 }, ?_, leave_of_pos hpos⟩
    simp only [Machine.depths, heval, hcall, Nat.add_sub_cancel]
  · rw [if_neg hdepth, if_neg hdepth]
    exact ⟨rfl, .inr rfl⟩

/-! ### Failing and cleaning up

A run that is exhausted passes every handler and every finalizer. -/

section Flows

variable {act act' finalizer finalizer' : Act σ Flow}

theorem catching (h : Follows D act act') {handler handler' : Value → Act σ Flow}
    (hhandler : ∀ v, Follows D (handler v) (handler' v)) :
    Follows D (catching act (some handler)) (catching act' (some handler')) := by
  intro m hm
  have hact := h m hm
  unfold Act.catching
  cases heq : act m with
  | ok flow m₁ =>
    rw [heq] at hact
    rw [hact.ok.2]
    exact ⟨hact.ok.1, .inr rfl⟩
  | error fault m₁ =>
    rw [heq] at hact
    obtain ⟨hdepths, hfault⟩ := hact.error
    rcases hfault with rfl | hact'
    · exact ⟨hdepths, .inl rfl⟩
    · rw [hact']
      cases fault with
      | thrown v =>
        rw [← hdepths]
        exact hhandler v m₁ (hdepths ▸ hm)
      | limit | badTarget | busyArray | outOfRange | exhausted => exact ⟨hdepths, .inr rfl⟩

theorem cleanUp (h : Follows D finalizer finalizer') (fault : Fault) :
    Follows D (cleanUp fault finalizer) (cleanUp fault finalizer') := by
  apply h.bind
  intro flow
  cases flow with
  | normal => exact fail fault
  | returned v => exact pure _
  | broken => exact pure _
  | continued => exact pure _

theorem cleanUpLimit (h : Follows D finalizer finalizer') (cause : LimitCause) :
    Follows D (cleanUpLimit cause finalizer) (cleanUpLimit cause finalizer') := by
  intro m hm
  have hfinalizer := h (m.noted (.cleaning cause)) hm
  unfold Act.cleanUpLimit
  cases heq : finalizer (m.noted (.cleaning cause)) with
  | ok flow m₁ =>
    rw [heq] at hfinalizer
    rw [hfinalizer.ok.2]
    cases flow <;> exact ⟨hfinalizer.ok.1, .inr rfl⟩
  | error fault m₁ =>
    rw [heq] at hfinalizer
    obtain ⟨hdepths, hfault⟩ := hfinalizer.error
    rcases hfault with rfl | hfinalizer'
    · exact ⟨hdepths, .inl rfl⟩
    · rw [hfinalizer']
      cases fault <;> exact ⟨hdepths, .inr rfl⟩

theorem finalizing (h : Follows D act act') (hfinalizer : Follows D finalizer finalizer') :
    Follows D (finalizing act finalizer) (finalizing act' finalizer') := by
  intro m hm
  have hact := h m hm
  unfold Act.finalizing
  cases heq : act m with
  | ok flow m₁ =>
    rw [heq] at hact
    obtain ⟨hdepths, hact'⟩ := hact.ok
    have hlast := hfinalizer m₁ (hdepths ▸ hm)
    rw [hact', ← hdepths]
    dsimp only
    cases hend : finalizer m₁ with
    | ok last m₂ =>
      rw [hend] at hlast
      rw [hlast.ok.2]
      cases last <;> exact ⟨hlast.ok.1, .inr rfl⟩
    | error fault m₂ =>
      rw [hend] at hlast
      obtain ⟨hdepths₂, hfault⟩ := hlast.error
      rcases hfault with rfl | hlast'
      · exact ⟨hdepths₂, .inl rfl⟩
      · rw [hlast']
        exact ⟨hdepths₂, .inr rfl⟩
  | error fault m₁ =>
    rw [heq] at hact
    obtain ⟨hdepths, hfault⟩ := hact.error
    rcases hfault with rfl | hact'
    · exact ⟨hdepths, .inl rfl⟩
    · rw [hact']
      cases fault with
      | limit cause =>
        rw [← hdepths]
        exact hfinalizer.cleanUpLimit cause m₁ (hdepths ▸ hm)
      | thrown v =>
        rw [← hdepths]
        exact hfinalizer.cleanUp (.thrown v) m₁ (hdepths ▸ hm)
      | badTarget =>
        rw [← hdepths]
        exact hfinalizer.cleanUp .badTarget m₁ (hdepths ▸ hm)
      | busyArray | outOfRange | exhausted => exact ⟨hdepths, .inr rfl⟩

end Flows

/-! ### What is nested -/

section Nested

variable [Host σ] {limits : Limits} {r r' : Runner σ}

/-- An act in which nothing is nested does what it does itself. -/
theorem ofLeaf (h : act.Leaf limits) : Follows D act act :=
  h.byCourse (P := fun act => Follows D act act) note fail (beginTurn limits) ofWithin

/-- Following at some depths goes through how acts are put together. -/
def congruence (D : Depths → Prop) (limits : Limits) : Congruence σ limits where
  Rel := Follows D
  bind := bind
  catching h := catching h
  finalizing := finalizing
  leaf := ofLeaf
  setProperty object key v := ofWithin fun _ => .setProperty object key v

variable (limits) in
theorem nested (h : r.FollowsNested D r') : (congruence D limits).Nested r r' := ⟨h.eval, h.exec⟩

variable (limits) in
theorem jobs (h : r.Follows D r') : (congruence D limits).Jobs r r' :=
  ⟨nested limits h.toFollowsNested, h.call⟩

theorem evaluate (h : r.Follows D r') (e : Expr) (env : Env) :
    Follows D (evaluate limits r e env) (evaluate limits r' e env) := by
  apply Congruence.Rel.evaluate (jobs limits h)
  intro items _
  apply bind (Congruence.Rel.evalAll (nested limits h.toFollowsNested) items env)
  intro values
  exact leaf fun _ _ => .newArray values.toArray

theorem execBlock (h : r.FollowsNested D r') (body : List Stmt) (env : Env) :
    Follows D (execBlock r body env) (execBlock r' body env) :=
  Congruence.Rel.execBlock (nested {} h) body env

theorem execute (h : r.FollowsNested D r') (s : Stmt) (env : Env) :
    Follows D (execute limits r s env) (execute limits r' s env) :=
  Congruence.Rel.execute (nested limits h) s env

/-- A program follows if its statements do; the globals are made without anything nested. -/
theorem program (h : ∀ s, Follows D (r.exec s globalEnv) (r'.exec s globalEnv))
    (body : List Stmt) :
    Follows D (do installGlobals; Act.hoist body globalEnv; Act.execTop r body : Act σ Unit)
      (do installGlobals; Act.hoist body globalEnv; Act.execTop r' body) :=
  Congruence.Rel.program (C := congruence D {}) (leaf fun _ _ => .installGlobals) h body

theorem runClosure (h : r.FollowsNested D r') (d : FunctionDef) (env : Env) (this : Value)
    (args : List Value) :
    Follows D (runClosure r d env this args) (runClosure r' d env this args) :=
  Congruence.Rel.runClosure (nested {} h) d env this args
    (leaf fun _ _ => .callFrame d.isArrow this args)

theorem arrayResult {call call' : Value → List Value → Act σ Value}
    (h : ∀ f args, Follows D (call f args) (call' f args)) (method : Method) (a : ArrayRef)
    (args : List Value) :
    Follows D (arrayResult limits call method a args) (arrayResult limits call' method a args) := by
  have hcalls : ∀ f args, (congruence D limits).Rel (call f args) (call' f args) := h
  apply Congruence.Rel.arrayResult hcalls
  · exact fun items => leaf fun _ _ => .newArray items
  · exact fun items => leaf fun _ _ => .setElements a items
  · exact ofWithin fun _ => .arrayResult (fun _ _ _ _ => .fail rfl) method a args

theorem callMethod (h : r.Follows D r') (method : Method) (receiver : Value) (args : List Value) :
    Follows D (callMethod limits r method receiver args)
      (callMethod limits r' method receiver args) := by
  apply Congruence.Rel.callMethod (C := congruence D limits)
  · intro s _
    exact ofWithin fun _ => .stringMethod method s args
  · intro a _
    exact arrayResult (fun f args => h.call f .undefined args) method a args

theorem callNative (f : Native) (args : List Value) :
    Follows D (callNative f args : Act σ Value) (callNative f args) :=
  leaf fun _ _ => .callNative f args

theorem refused (v : Value) :
    Follows D (do throwMistake (.notAFunction (← display v)) : Act σ Value)
      (do throwMistake (.notAFunction (← display v))) :=
  Congruence.Rel.refused (C := congruence D {}) v

end Nested

end Act.Follows

end MemoryShell.Script
