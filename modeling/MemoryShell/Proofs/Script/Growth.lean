/-
  MemoryShell/Proofs/Script/Growth.lean
  =====================================
  **Runs in which a text grows too long.**

  A run is measured: it does what the run does, and is broken off as soon as an operator, a
  template, a method or a conversion gives a text that is longer than the limit.  Wherever the
  length is checked that never happens.  It is not checked where the text of an array is taken,
  where a value is converted to text, and where one is written as JSON text.  So a measured run is
  broken off exactly if the run calls one of these three for a text that is too long.
-/
import MemoryShell.Proofs.Script.Moments
import MemoryShell.Proofs.Script.TextLengths

namespace MemoryShell.Script

variable {σ α β : Type}

/-! ### Measured runs -/

/-- Whether an expression gives a text that it makes. -/
def Expr.makesText : Expr → Bool
  | .binary .. | .template _ | .assign (some _) .. => true
  | _ => false

/-- Whether a function gives a text that it makes: a method of a string, a method that gives the
    text of an array, a conversion to text, or the writer of JSON text. -/
def Value.makesText : Value → Bool
  | .method _ _ (.string _) | .method _ .join (.array _) | .method _ .toText (.array _) => true
  | .native _ .toText | .native _ .stringify => true
  | _ => false

/-- Whether a job makes a text that is longer than the limit, by what it gives. -/
def Job.makesLongText (limits : Limits) : {α : Type} → Job α → α → Bool
  | _, .eval e _, v => e.makesText && limits.exceededBy v
  | _, .exec _ _, _ => false
  | _, .call f _ _, v => f.makesText && limits.exceededBy v

/-- Break off after a value that is picked. -/
def Act.breakAfter (picks : α → Bool) (act : Act σ α) : Act σ α := fun m =>
  match act m with
  | .ok a m => if picks a then .error .exhausted m else .ok a m
  | .error fault m => .error fault m

section Measured

variable [Host σ] (limits : Limits)

/-- Run a job, and break off as soon as a job makes a text that is longer than the limit. -/
def runMeasured : Nat → {α : Type} → Job α → Act σ α
  | 0, _, _ => Act.fail .exhausted
  | levels + 1, _, job => do
    Act.note .begun
    Act.breakAfter (job.makesLongText limits) (step limits ⟨runMeasured levels⟩ job)

/-- How a program ends that is run on a host and measured. -/
def runOnMeasured (p : Program) (host : σ) : Result σ Unit :=
  (do
    Act.installGlobals
    Act.hoist p.body globalEnv
    Act.execTop ⟨runMeasured limits limits.levels⟩ p.body : Act σ Unit) (Machine.start host)

/-- Whether a text that is longer than the limit is made in a run. -/
def MakesLongText (p : Program) (host : σ) : Prop :=
  Result.fault? (runOnMeasured limits p host) = some .exhausted

instance (p : Program) (host : σ) : Decidable (MakesLongText limits p host) :=
  decidable_of_iff _ Result.isExhausted_iff

end Measured

/-! ### Calls whose text is not checked -/

/-- The text that a function gives without a check of its length, if it gives one. -/
def Heap.uncheckedText? (h : Heap) (f : Value) (args : List Value) : Option String :=
  match f with
  | .method _ .toText (.array a) => some (h.joinText "," (h.array a).toList)
  | .native _ .toText => some ((args.head?.map h.display).getD "")
  | .native _ .stringify =>
    match h.toDocument maxDocumentLevels (argument args 0) with
    | .ok (some d) => some (d.render (layoutOf (argument args 2)))
    | _ => none
  | _ => none

/-- The moments at which a function is called that gives a text longer than the limit. -/
def callsForLongText (limits : Limits) : Watch σ := fun stack m =>
  match stack with
  | .calling f args :: _ =>
    (m.heap.uncheckedText? f args).any fun s => limits.exceededBy (.string s)
  | _ => false

section Calls

variable [Host σ] {limits : Limits} {r : Runner σ} {f this : Value} {args : List Value}
  {m m' : Machine σ} {v : Value}

/-- A text that is not checked is given as it is. -/
theorem invoke_unchecked (limits : Limits) (r : Runner σ) (this : Value) {text : String}
    (h : m.heap.uncheckedText? f args = some text) :
    Act.invoke limits r f this args m = .ok (.string text) m ∧ f.makesText = true := by
  unfold Heap.uncheckedText? at h
  split at h
  · cases h
    exact ⟨rfl, rfl⟩
  · cases h
    refine ⟨?_, rfl⟩
    cases args <;> rfl
  · split at h
    · cases h
      refine ⟨(Act.stringify_eq _ _ m).trans ?_, rfl⟩
      rw [‹m.heap.toDocument _ _ = _›]
      rfl
    · cases h
  · cases h

/-- A function whose text would be checked, or that gives none, gives no text that is too long. -/
theorem exceededBy_of_checked (h : Act.invoke limits r f this args m = .ok v m')
    (hmakes : f.makesText = true) (hchecked : m.heap.uncheckedText? f args = none) :
    limits.exceededBy v = false := by
  unfold Value.makesText at hmakes
  split at hmakes
  · exact (checksTexts_stringMethod r _ _ args).keeps m v m' h
  · exact (checksTexts_join r _ args).keeps m v m' h
  · cases hchecked
  · cases hchecked
  · have hwritten := (Act.stringify_eq (argument args 0) (argument args 2) m).symm.trans h
    rw [Heap.uncheckedText?] at hchecked
    cases hto : m.heap.toDocument maxDocumentLevels (argument args 0) with
    | error e =>
      rw [hto] at hwritten
      cases hwritten
    | ok document =>
      rw [hto] at hchecked hwritten
      cases document with
      | none =>
        cases hwritten
        rfl
      | some d => cases hchecked
  · cases hmakes

/-- What a function gives is a text that is too long exactly if it is given without a check. -/
theorem makesLongText_eq (h : Act.invoke limits r f this args m = .ok v m')
    (stack : List Activity) :
    (f.makesText && limits.exceededBy v) =
      callsForLongText limits (.calling f args :: stack) m := by
  rw [callsForLongText]
  cases hunchecked : m.heap.uncheckedText? f args with
  | some text =>
    obtain ⟨htext, hmakes⟩ := invoke_unchecked limits r this hunchecked
    rw [htext] at h
    cases h
    rw [hmakes]
    rfl
  | none =>
    cases hmakes : f.makesText with
    | false => rfl
    | true => rw [exceededBy_of_checked h hmakes hunchecked]; rfl

omit [Host σ] in
/-- The value of an expression is never a text that is too long and that the expression makes. -/
theorem evaluate_keeps {e : Expr} {env : Env} (h : Act.evaluate limits r e env m = .ok v m') :
    (e.makesText && limits.exceededBy v) = false := by
  cases hmakes : e.makesText with
  | false => rfl
  | true =>
    unfold Expr.makesText at hmakes
    split at hmakes
    · exact (checksTexts_binary r _ _ _ env).keeps m v m' h
    · exact (checksTexts_template r _ env).keeps m v m' h
    · exact (checksTexts_assign r _ _ _ env).keeps m v m' h
    · cases hmakes

/-- What a job gives is a text that is too long and that it makes exactly if it begins at a moment
    at which a function is called for one. -/
theorem step_makesLongText {a : α} {job : Job α} (h : step limits r job m = .ok a m')
    (stack : List Activity) :
    job.makesLongText limits a = callsForLongText limits (job.activity :: stack) m := by
  cases job with
  | eval e env =>
    obtain ⟨-, n, heval, -⟩ := Act.deeper_eq_ok_iff.mp h
    exact evaluate_keeps heval
  | exec s env => rfl
  | call f this args => exact makesLongText_eq h stack

theorem step_eq_ok {job : Job α} {stack : List Activity}
    (h : callsForLongText limits (job.activity :: stack) m = true) :
    ∃ a m', step limits r job m = .ok a m' := by
  cases job with
  | eval e env => cases h
  | exec s env => cases h
  | call f this args =>
    obtain ⟨text, htext, -⟩ := (Option.any_eq_true _ _).mp h
    exact ⟨_, _, (invoke_unchecked limits r this htext).1⟩

/-- A watch for calls picks no moment behind the one at which a job begins. -/
theorem stepUntil_calls (job : Job α) (stack : List Activity) :
    stepUntil limits (callsForLongText limits (job.activity :: stack)) r job =
      Act.breakIf (callsForLongText limits (job.activity :: stack)) (step limits r job) := by
  cases job with
  | eval e env => rfl
  | exec s env => rfl
  | call f this args => cases f <;> rfl

end Calls

/-! ### Comparing the two ways to break off -/

namespace Act.Follows

section Breaking

variable {D : Depths → Prop} {act act' : Act σ α} {stop : Machine σ → Bool} {picks : α → Bool}

theorem breakIf_breakAfter (h : Follows D act act')
    (hpicks : ∀ m a m', act' m = .ok a m' → picks a = stop m) :
    Follows D (Act.breakIf stop act) (Act.breakAfter picks act') := by
  intro m hm
  have hfollows := h m hm
  unfold Act.breakIf Act.breakAfter
  cases hstop : stop m with
  | true => exact ⟨rfl, .inl rfl⟩
  | false =>
    cases hact : act m with
    | ok a m₁ =>
      rw [hact] at hfollows
      obtain ⟨hdepths, hact'⟩ := hfollows.ok
      have hleft : picks a = false := (hpicks m a m₁ hact').trans hstop
      rw [hact']
      simp only [hleft]
      exact ⟨hdepths, .inr rfl⟩
    | error fault m₁ =>
      rw [hact] at hfollows
      obtain ⟨hdepths, hfault⟩ := hfollows.error
      rcases hfault with rfl | hact'
      · exact ⟨hdepths, .inl rfl⟩
      · rw [hact']
        exact ⟨hdepths, .inr rfl⟩

theorem breakAfter_breakIf (h : Follows D act' act)
    (hpicks : ∀ m a m', act' m = .ok a m' → picks a = stop m)
    (hstop : ∀ m, stop m = true → ∃ a m', act' m = .ok a m') :
    Follows D (Act.breakAfter picks act') (Act.breakIf stop act) := by
  intro m hm
  have hfollows := h m hm
  unfold Act.breakIf Act.breakAfter
  cases hact' : act' m with
  | ok a m₁ =>
    rw [hact'] at hfollows
    obtain ⟨hdepths, hact⟩ := hfollows.ok
    simp only [hpicks m a m₁ hact']
    cases stop m with
    | true => exact ⟨hdepths, .inl rfl⟩
    | false => exact ⟨hdepths, .inr hact⟩
  | error fault m₁ =>
    have hleft : stop m = false := by
      rw [Bool.eq_false_iff]
      intro hpicked
      obtain ⟨a, m₂, hok⟩ := hstop m hpicked
      rw [hact'] at hok
      cases hok
    rw [hact'] at hfollows
    rw [hleft]
    exact hfollows

end Breaking

section Steps

variable [Host σ] {D : Depths → Prop} {limits : Limits} {r r' : Runner σ}

theorem step (h : r.Follows (fun _ => True) r') (job : Job α) :
    Follows (fun _ => True) (step limits r job) (step limits r' job) := by
  cases job with
  | eval e env => exact .deeper (fun _ _ _ => trivial) (.evaluate h e env)
  | exec s env => exact .deeper (fun _ _ _ => trivial) (.execute h.toFollowsNested s env)
  | call f this args =>
    cases f with
    | closure id d env =>
      exact .inCall (fun _ _ _ => trivial) (.runClosure h.toFollowsNested d env this args)
    | native id f => exact .callNative f args
    | method id f receiver => exact .callMethod h f receiver args
    | _ => exact .refused _

end Steps

end Act.Follows

/-! ### Whole runs -/

section Runs

variable [Host σ] (limits : Limits)

omit [Host σ] in
theorem Runner.Follows.of_jobs {D : Depths → Prop} {r r' : Runner σ}
    (h : ∀ {α : Type} (job : Job α), Act.Follows D (r.run job) (r'.run job)) : r.Follows D r' :=
  ⟨⟨fun e env => h (.eval e env), fun s env => h (.exec s env)⟩,
    fun f this args => h (.call f this args)⟩

/-- A run that is measured and one that is watched for calls are broken off together, or else they
    are the same. -/
theorem runMeasured_follows (levels : Nat) (stack : List Activity) (job : Job α) :
    Act.Follows (fun _ => True)
        (runUntil (σ := σ) limits (callsForLongText limits) levels stack job)
        (runMeasured limits levels job) ∧
      Act.Follows (fun _ => True) (runMeasured limits levels job)
        (runUntil (σ := σ) limits (callsForLongText limits) levels stack job) := by
  induction levels generalizing stack α with
  | zero => exact ⟨.fail .exhausted, .fail .exhausted⟩
  | succ levels ih =>
    have hforth : Runner.Follows (fun _ => True)
        ⟨runUntil (σ := σ) limits (callsForLongText limits) levels (job.activity :: stack)⟩
        ⟨runMeasured limits levels⟩ := .of_jobs fun job' => (ih _ job').1
    have hback : Runner.Follows (fun _ => True) ⟨runMeasured limits levels⟩
        ⟨runUntil (σ := σ) limits (callsForLongText limits) levels (job.activity :: stack)⟩ :=
      .of_jobs fun job' => (ih _ job').2
    constructor
    · refine (Act.Follows.note .begun).bind fun _ => ?_
      rw [stepUntil_calls]
      exact .breakIf_breakAfter (.step hforth job) fun m a m' h => step_makesLongText h stack
    · refine (Act.Follows.note .begun).bind fun _ => ?_
      rw [stepUntil_calls]
      exact .breakAfter_breakIf (.step hback job) (fun m a m' h => step_makesLongText h stack)
        fun m h => step_eq_ok h

variable (p : Program) (host : σ)

theorem runOnMeasured_follows :
    Result.Follows ⟨0, 0⟩ (runOnUntil limits (callsForLongText limits) p host)
        (runOnMeasured limits p host) ∧
      Result.Follows ⟨0, 0⟩ (runOnMeasured limits p host)
        (runOnUntil limits (callsForLongText limits) p host) := by
  have hforth : Runner.Follows (fun _ => True)
      ⟨runUntil (σ := σ) limits (callsForLongText limits) limits.levels []⟩
      ⟨runMeasured limits limits.levels⟩ :=
    .of_jobs fun job => (runMeasured_follows limits limits.levels [] job).1
  have hback : Runner.Follows (fun _ => True) ⟨runMeasured limits limits.levels⟩
      ⟨runUntil (σ := σ) limits (callsForLongText limits) limits.levels []⟩ :=
    .of_jobs fun job => (runMeasured_follows limits limits.levels [] job).2
  constructor
  · exact Act.Follows.program (fun s => hforth.exec s globalEnv) p.body (Machine.start host) trivial
  · exact Act.Follows.program (fun s => hback.exec s globalEnv) p.body (Machine.start host) trivial

/-- A text that is too long is made in a run exactly if the run calls a function that gives one
    without a check. -/
theorem makesLongText_iff :
    MakesLongText limits p host ↔ ComesTo limits (callsForLongText limits) p host := by
  obtain ⟨hforth, hback⟩ := runOnMeasured_follows limits p host
  unfold MakesLongText ComesTo
  constructor
  · intro hmeasured
    rcases hforth.same with hexhausted | hsame
    · exact hexhausted
    · rw [← hsame]
      exact hmeasured
  · intro hcomes
    rcases hback.same with hexhausted | hsame
    · exact hexhausted
    · rw [← hsame]
      exact hcomes

/-- A run in which no text that is too long is made is the measured one. -/
theorem runOnMeasured_eq (h : ¬ MakesLongText limits p host) :
    runOnMeasured limits p host = runOn limits p host := by
  have hcomes : ¬ ComesTo limits (callsForLongText limits) p host :=
    fun hcomes => h ((makesLongText_iff limits p host).mpr hcomes)
  have hrun := (comesTo_or_eq limits p host (callsForLongText limits)).resolve_left hcomes
  have hsame := (runOnMeasured_follows limits p host).1.same.resolve_left hcomes
  exact hsame.trans hrun

end Runs

/-! ### Growth -/

/-- Whatever makes a text checks its length, but for the text of an array, the conversion to text
    and the writer of JSON text.  The pieces of a string are not checked, being no longer than it. -/
structure ChecksGrowth (σ : Type) (limits : Limits) (r : Runner σ) : Prop where
  binary (op : BinaryOp) (left right : Expr) (env : Env) :
    ChecksTexts limits fun l => Act.evaluate l r (.binary op left right) env
  assign (op : BinaryOp) (target value : Expr) (env : Env) :
    ChecksTexts limits fun l => Act.evaluate l r (.assign (some op) target value) env
  template (parts : List TemplatePart) (env : Env) :
    ChecksTexts limits fun l => Act.evaluate l r (.template parts) env
  method (method : Method) (s : String) (args : List Value) :
    ChecksTexts limits fun l => Act.callMethod l r method (.string s) args
  split (s : String) (args : List Value) (m m' : Machine σ) (a : ArrayRef) :
    Act.callMethod limits r .split (.string s) args m = .ok (.array a) m' →
      ∀ v ∈ m'.heap.array a, ∃ t, v = .string t ∧ t.utf8ByteSize ≤ s.utf8ByteSize
  join (a : ArrayRef) (args : List Value) :
    ChecksTexts limits fun l => Act.callMethod l r .join (.array a) args

/-- An array of missing values is converted to text. -/
def listedNulls : Program where
  body := [.expr (.call (.ident "output") [.call (.ident "String") [.array [.null, .null, .null]]])]

end MemoryShell.Script
