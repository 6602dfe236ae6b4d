/-
  MemoryShell/Proofs/Script/ArrayGrowth.lean
  ==========================================
  **Runs in which an array grows too long.**

  A run is gauged: it does what the run does, and is broken off as soon as some array on the heap is
  longer than the limit, where a part of the run begins or ends.  Wherever the length is checked
  that never happens.  It is not checked where a literal, a list of arguments, the pieces of a
  string, the members of a value, the names in a directory or a JSON text become an array.  So a
  gauged run is broken off only where one of these is too long, and it is broken off wherever one of
  them is, but for a literal, whose items have their values first.
-/
import MemoryShell.Proofs.Script.Agreement
import MemoryShell.Proofs.Script.Growth

namespace MemoryShell.Script

variable {σ α β : Type}

/-! ### Gauged runs -/

/-- An end that leaves an array longer than the limit is broken off instead. -/
def Result.gauge (limits : Limits) (r : Result σ α) : Result σ α :=
  if (Result.machine r).heap.Fits limits then r else .error .exhausted (Result.machine r)

/-- Act, and break off if some array is longer than the limit, before or afterwards. -/
def Act.gauged (limits : Limits) (act : Act σ α) : Act σ α := fun m =>
  if m.heap.Fits limits then Result.gauge limits (act m) else .error .exhausted m

section Gauged

variable [Host σ] (limits : Limits)

/-- Run a job, and break off as soon as some array is longer than the limit where a job begins or
    ends, or where `stop` holds of a job that begins. -/
def runGauged (stop : Activity → Machine σ → Bool) : Nat → {α : Type} → Job α → Act σ α
  | 0, _, _ => Act.fail .exhausted
  | levels + 1, _, job => do
    Act.note .begun
    Act.gauged limits
      (Act.breakIf (stop job.activity) (step limits ⟨runGauged stop levels⟩ job))

/-- How a program ends that is run on a host and gauged. -/
def runOnGauged (stop : Activity → Machine σ → Bool) (p : Program) (host : σ) : Result σ Unit :=
  (do
    Act.installGlobals
    Act.hoist p.body globalEnv
    Act.execTop ⟨runGauged limits stop limits.levels⟩ p.body : Act σ Unit) (Machine.start host)

/-- Whether a literal for an array has more items than an array may have. -/
def Activity.hasLongLiteral (a : Activity) : Bool :=
  match a with
  | .evaluating (.array items) => limits.maxArrayLength < items.length
  | _ => false

/-- Whether, at a moment of a run, some array is longer than the limit or a literal for one has more
    items than that. -/
def Outgrows (p : Program) (host : σ) : Prop :=
  Result.fault? (runOnGauged limits (fun a _ => a.hasLongLiteral limits) p host) = some .exhausted

instance (p : Program) (host : σ) : Decidable (Outgrows limits p host) :=
  decidable_of_iff _ Result.isExhausted_iff

end Gauged

/-! ### Arrays that are not checked -/

section Unchecked

variable [Host σ] (limits : Limits)

/-- How long the longest array is that a call makes without a check of its length.  A call that is
    too deep makes none. -/
def uncheckedLength (f : Value) (args : List Value) (m : Machine σ) : Nat :=
  match f with
  | .closure _ d _ => if d.isArrow || limits.maxCallDepth ≤ m.callDepth then 0 else args.length
  | .native _ f => Act.nativeLength f args m
  | .method _ method receiver => Act.methodLength method receiver args m.heap
  | _ => 0

/-- Whether an array that is too long has a literal or is called for, where nothing checks its
    length. -/
def Activity.makesLongArray (a : Activity) (m : Machine σ) : Bool :=
  match a with
  | .calling f args => limits.maxArrayLength < uncheckedLength limits f args m
  | a => a.hasLongLiteral limits

/-- The moments at which the innermost activity is one of those that are picked. -/
def Watch.innermost (picks : Activity → Machine σ → Bool) : Watch σ := fun stack m =>
  stack.head?.any fun a => picks a m

end Unchecked

/-! ### Where the granted depth changes nothing -/

/-- What is not picked as an activity begins is not picked once it has been granted its depth. -/
structure Steady (picks : Activity → Machine σ → Bool) : Prop where
  deeper (a : Activity) (m : Machine σ) (n : Nat) :
    picks a m = false → picks a { m with evalDepth := n } = false
  inCall (a : Activity) (m : Machine σ) :
    picks a m = false → picks a { m with callDepth := m.callDepth + 1 } = false

section Watched

variable {limits : Limits} {picks : Activity → Machine σ → Bool} {r : Runner σ}

/-- To break off behind the point where the depth is granted is to break off in front of it. -/
theorem breakIf_granted {stop : Machine σ → Bool} {wrap : Act σ α → Act σ α} {act : Act σ α}
    (h : ∀ m, stop m = false → wrap (Act.breakIf stop act) m = wrap act m) :
    Act.breakIf stop (wrap (Act.breakIf stop act)) = Act.breakIf stop (wrap act) := by
  funext m
  unfold Act.breakIf
  split
  · rfl
  · exact h m (Bool.eq_false_iff.mpr ‹_›)

theorem stepUntil_innermost [Host σ] (h : Steady picks) (job : Job α)
    (stack : List Activity) :
    stepUntil limits (Watch.innermost picks (job.activity :: stack)) r job =
      Act.breakIf (picks job.activity) (step limits r job) := by
  have hdeeper (act : Act σ α) (m : Machine σ) (hm : picks job.activity m = false) :
      Act.deeper limits (Act.breakIf (picks job.activity) act) m = Act.deeper limits act m := by
    have hgranted := h.deeper job.activity m (m.evalDepth + 1) hm
    simp only [Act.deeper, Act.breakIf, hgranted, Bool.false_eq_true, if_false]
  have hinCall (act : Act σ α) (m : Machine σ) (hm : picks job.activity m = false) :
      Act.inCall limits (Act.breakIf (picks job.activity) act) m = Act.inCall limits act m := by
    have hgranted := h.inCall job.activity m hm
    simp only [Act.inCall, Act.breakIf, hgranted, Bool.false_eq_true, if_false]
  cases job with
  | eval e env => exact breakIf_granted (hdeeper _)
  | exec s env => exact breakIf_granted (hdeeper _)
  | call f this args =>
    cases f with
    | closure id d env => exact breakIf_granted (hinCall _)
    | _ => rfl

end Watched

section Picks

variable [Host σ] {limits : Limits}

theorem uncheckedLength_inCall (limits : Limits) (f : Value) (args : List Value) (m : Machine σ) :
    uncheckedLength limits f args { m with callDepth := m.callDepth + 1 } ≤
      uncheckedLength limits f args m := by
  cases f with
  | closure id d env =>
    simp only [uncheckedLength, Bool.or_eq_true, decide_eq_true_eq]
    split
    · exact Nat.zero_le _
    · rename_i hgranted
      rw [if_neg fun hopening => hgranted (hopening.imp_right Nat.le_succ_of_le)]
  | _ => exact Nat.le_refl _

theorem steady_makesLongArray : Steady (Activity.makesLongArray limits (σ := σ)) := by
  constructor
  · intro a m n hm
    cases a with
    | calling f args => cases f <;> exact hm
    | evaluating | executing => exact hm
  · intro a m hm
    cases a with
    | calling f args =>
      have hlength := uncheckedLength_inCall limits f args m
      simp only [Activity.makesLongArray, decide_eq_false_iff_not] at hm ⊢
      omega
    | evaluating | executing => exact hm

end Picks

/-! ### What is not picked keeps the limit -/

namespace Act.Agree

variable {limits : Limits} {act act' : Act σ α}

theorem breakIf {stop : Machine σ → Bool}
    (h : ∀ m, m.heap.Fits limits → stop m = false →
      act' m = act m ∧ (Result.machine (act m)).heap.Fits limits) :
    Agree limits (Act.breakIf stop act) (Act.breakIf stop act') := by
  intro m hm
  unfold Act.breakIf
  split
  · exact ⟨rfl, hm⟩
  · exact h m hm (Bool.eq_false_iff.mpr ‹_›)

/-- An act that keeps every array within the limit may be gauged. -/
theorem gauged (h : Agree limits act act') : Agree limits act (Act.gauged limits act') := by
  intro m hm
  obtain ⟨hsame, hfits⟩ := h m hm
  refine ⟨?_, hfits⟩
  rw [Act.gauged, if_pos hm, hsame, Result.gauge, if_pos hfits]

end Act.Agree

section Keeping

variable [Host σ] {limits : Limits} {r r' : Runner σ} {m : Machine σ}

/-- A call that makes no array too long without a check makes none. -/
theorem invoke_agree (h : (Act.Agree.congruence limits).Jobs r r') (f this : Value)
    (args : List Value) (hm : m.heap.Fits limits)
    (hlength : uncheckedLength limits f args m ≤ limits.maxArrayLength) :
    Act.invoke limits r' f this args m = Act.invoke limits r f this args m ∧
      (Result.machine (Act.invoke limits r f this args m)).heap.Fits limits := by
  cases f with
  | closure id d env =>
    by_cases hdepth : m.callDepth < limits.maxCallDepth
    · refine Act.Agree.inCall (.runClosure h.toNested d env this args ?_) m hm
      cases harrow : d.isArrow with
      | true => exact .inl rfl
      | false =>
        have hcalled := decide_eq_false (Nat.not_le.mpr hdepth)
        rw [uncheckedLength, harrow, Bool.false_or, hcalled] at hlength
        exact .inr hlength
    · have hrefused (r : Runner σ) : Act.invoke limits r (.closure id d env) this args m =
          Act.meetLimit .depth m := if_neg hdepth
      rw [hrefused, hrefused]
      exact ⟨rfl, hm⟩
  | native id f => exact ⟨rfl, (Act.fits_callNative f args m).mpr ⟨hm, hlength⟩⟩
  | method id method receiver =>
    by_cases hsplit : ∀ s, receiver = .string s → method ≠ .split
    · exact Act.Agree.callMethod h method receiver args hsplit m hm
    · push Not at hsplit
      obtain ⟨s, rfl, rfl⟩ := hsplit
      exact ⟨rfl, (Act.fits_split s args m).mpr ⟨hm, hlength⟩⟩
  | undefined | null | bool | number | string | array | object =>
    exact Act.Congruence.Rel.refused (C := Act.Agree.congruence limits) _ m hm

theorem step_agree (h : (Act.Agree.congruence limits).Jobs r r') (job : Job α)
    (hm : m.heap.Fits limits) (hpicked : job.activity.makesLongArray limits m = false) :
    step limits r' job m = step limits r job m ∧
      (Result.machine (step limits r job m)).heap.Fits limits := by
  cases job with
  | eval e env =>
    refine Act.Agree.deeper (.evaluate h e env ?_) m hm
    rintro items rfl
    exact Nat.le_of_not_lt (of_decide_eq_false hpicked)
  | exec s env => exact Act.Agree.deeper (Act.Congruence.Rel.execute h.toNested s env) m hm
  | call f this args =>
    exact invoke_agree h f this args hm (Nat.le_of_not_lt (of_decide_eq_false hpicked))

theorem runGauged_agree (levels : Nat) (stack : List Activity) (job : Job α) :
    Act.Agree limits
      (runUntil limits (Watch.innermost (Activity.makesLongArray limits (σ := σ))) levels stack job)
      (runGauged limits (Activity.makesLongArray limits) levels job) := by
  induction levels generalizing stack α with
  | zero => exact .fail .exhausted
  | succ levels ih =>
    apply (Act.Agree.note .begun).bind
    intro _
    rw [stepUntil_innermost steady_makesLongArray]
    refine .gauged (.breakIf fun m hm hpicked => step_agree ?_ job hm hpicked)
    exact .of_run fun job' => ih _ job'

variable (limits) (p : Program) (host : σ)

/-- A run that is broken off in front of every array that would be made too long without a check
    comes to none that is too long. -/
theorem runOnGauged_makesLongArray :
    runOnGauged limits (Activity.makesLongArray limits) p host =
      runOnUntil limits (Watch.innermost (Activity.makesLongArray limits)) p host := by
  have hprogram : Act.Agree limits
      (do
        Act.installGlobals
        Act.hoist p.body globalEnv
        Act.execTop ⟨runUntil limits (Watch.innermost (Activity.makesLongArray limits (σ := σ)))
          limits.levels []⟩ p.body)
      (do
        Act.installGlobals
        Act.hoist p.body globalEnv
        Act.execTop ⟨runGauged limits (Activity.makesLongArray limits) limits.levels⟩ p.body) := by
    apply Act.Congruence.Rel.program (C := Act.Agree.congruence limits)
    · exact Act.Agree.kept .installGlobals
    · exact fun s => runGauged_agree limits.levels [] (.exec s globalEnv)
  have hstart : (Machine.start host).heap.Fits limits := by
    intro items hitems
    cases Array.not_mem_empty items hitems
  exact (hprogram (Machine.start host) hstart).1

end Keeping

/-! ### What is picked breaks the limit -/

section Breaking

variable {limits : Limits} {act : Act σ α} {m : Machine σ}

/-- Some array is too long however the act ends. -/
def Act.KeepsLong (limits : Limits) (act : Act σ α) : Prop :=
  ∀ m, ¬ m.heap.Fits limits → ¬ (Result.machine (act m)).heap.Fits limits

namespace Act.KeepsLong

theorem bind {next : α → Act σ β} (h : KeepsLong limits act)
    (hnext : ∀ a, KeepsLong limits (next a)) : KeepsLong limits (act >>= next) := by
  intro m hm
  have hact := h m hm
  cases heq : act m with
  | ok a m' =>
    rw [heq] at hact
    rw [bind_of_ok heq]
    exact hnext a m' hact
  | error fault m' =>
    rw [heq] at hact
    rw [bind_of_error heq]
    exact hact

theorem kept (h : act.KeepsArrays) : KeepsLong limits act := fun m hm =>
  mt (Heap.fits_congr (h m)).mp hm

/-- A gauged act does not even begin. -/
theorem gauged : KeepsLong limits (Act.gauged limits act) := by
  intro m hm
  rw [Act.gauged, if_neg hm]
  exact hm

variable [Host σ] {stop : Activity → Machine σ → Bool}

theorem runGauged (levels : Nat) (job : Job α) :
    KeepsLong limits (runGauged limits stop levels job) := by
  cases levels with
  | zero => exact kept (.fail _)
  | succ levels => exact (kept (.note _)).bind fun _ => gauged

theorem execAll (levels : Nat) (env : Env) (body : List Stmt) :
    KeepsLong limits (execAll ⟨Script.runGauged limits stop levels⟩ env body) := by
  induction body with
  | nil => exact kept (.pure _)
  | cons s rest ih =>
    refine (runGauged levels (.exec s env)).bind fun flow => ?_
    cases flow with
    | normal => exact ih
    | returned | broken | continued => exact kept (.pure _)

variable (limits stop)

/-- The arguments of a function that is not an arrow stay on the heap. -/
theorem runClosure (levels : Nat) {d : FunctionDef} (harrow : d.isArrow = false) (env : Env)
    (this : Value) {args : List Value} (hargs : limits.maxArrayLength < args.length)
    (m : Machine σ) :
    ¬ (Result.machine
      (runClosure ⟨Script.runGauged limits stop levels⟩ d env this args m)).heap.Fits limits := by
  have hlong : ¬ (m.heap.newArray args.toArray).2.Fits limits := fun hfits =>
    Nat.not_le.mpr hargs ((Heap.fits_newArray _ _ _).mp hfits).2
  have hframe : ∃ frame, callFrame d.isArrow this args m =
      .ok frame { m with heap := (m.heap.newArray args.toArray).2 } := by
    rw [harrow]
    exact ⟨_, rfl⟩
  obtain ⟨frame, hframe⟩ := hframe
  rw [Act.runClosure, bind_of_ok hframe]
  refine KeepsLong.bind (kept (.newScope _ _)) (fun scope => ?_) _ hlong
  split
  · exact runGauged levels (.eval _ scope)
  · refine KeepsLong.bind ((kept (.hoist _ scope)).bind fun _ => execAll levels scope _)
      fun flow => ?_
    split
    · exact kept (.pure _)
    · exact kept (.pure _)

/-- A call for an array that is too long leaves one, unless the run is broken off before. -/
theorem invoke_long (levels : Nat) (f this : Value) (args : List Value) {m : Machine σ}
    (hlength : limits.maxArrayLength < uncheckedLength limits f args m) :
    ¬ (Result.machine
      (invoke limits ⟨Script.runGauged limits stop levels⟩ f this args m)).heap.Fits limits := by
  cases f with
  | closure id d env =>
    rw [uncheckedLength] at hlength
    split at hlength
    · cases hlength
    · rename_i hmakes
      simp only [Bool.or_eq_true, decide_eq_true_eq, not_or, Nat.not_le,
        Bool.not_eq_true] at hmakes
      have hlong := runClosure limits stop levels hmakes.1 env this hlength
        { m with callDepth := m.callDepth + 1 }
      have hheap := heap_inCall hmakes.2
        (Act.runClosure ⟨Script.runGauged limits stop levels⟩ d env this args)
      rw [← hheap] at hlong
      exact hlong
  | native id f =>
    exact fun hfits => Nat.not_le.mpr hlength ((fits_callNative f args m).mp hfits).2
  | method id method receiver =>
    unfold uncheckedLength methodLength at hlength
    dsimp only at hlength
    split at hlength
    · exact fun hfits => Nat.not_le.mpr hlength ((fits_split _ args m).mp hfits).2
    · cases hlength
  | undefined | null | bool | number | string | array | object => cases hlength

end Act.KeepsLong

/-! ### Comparing the ways to break off -/

namespace Result.Follows

variable {d : Depths} {r r' : Result σ α}

theorem gauge_left (h : Follows d r r') : Follows d (Result.gauge limits r) r' := by
  unfold Result.gauge
  split
  · exact h
  · exact ⟨h.depths, .inl rfl⟩

theorem gauge (h : Follows d r r') :
    Follows d (Result.gauge limits r) (Result.gauge limits r') := by
  rcases h.same with hexhausted | rfl
  · refine ⟨h.gauge_left.depths, .inl ?_⟩
    unfold Result.gauge
    split
    · exact hexhausted
    · rfl
  · exact ⟨h.gauge_left.depths, .inr rfl⟩

end Result.Follows

namespace Act.Follows

variable {D : Depths → Prop} {act act' : Act σ α}

theorem gauged (h : Follows D act act') :
    Follows D (Act.gauged limits act) (Act.gauged limits act') := by
  intro m hm
  unfold Act.gauged
  split
  · exact (h m hm).gauge
  · exact ⟨rfl, .inl rfl⟩

/-- An act that is broken off wherever another one is, if not before, follows it. -/
theorem gauged_breakIf {stop : Machine σ → Bool} (h : Follows D act act')
    (hbroken : ∀ m, stop m = true → Result.fault? (act m) = some .exhausted ∨
      ¬ (Result.machine (act m)).heap.Fits limits) :
    Follows D (Act.gauged limits act) (Act.breakIf stop act') := by
  intro m hm
  unfold Act.gauged Act.breakIf
  split
  · cases hstop : stop m with
    | false => exact (h m hm).gauge_left
    | true =>
      refine ⟨(h m hm).gauge_left.depths, .inl ?_⟩
      unfold Result.gauge
      split
      · exact (hbroken m hstop).resolve_right (not_not_intro ‹_›)
      · rfl
  · exact ⟨rfl, .inl rfl⟩

end Act.Follows

section Runs

variable [Host σ] (limits)

/-- A run that is broken off at fewer moments goes on the same until it is. -/
theorem runGauged_follows {stop stop' : Activity → Machine σ → Bool}
    (hstop : ∀ a m, stop a m = false → stop' a m = false) (levels : Nat) (job : Job α) :
    Act.Follows (fun _ => True) (runGauged limits stop levels job)
      (runGauged limits stop' levels job) := by
  induction levels generalizing α with
  | zero => exact .fail .exhausted
  | succ levels ih =>
    apply (Act.Follows.note .begun).bind
    intro _
    refine .gauged (.breakIf (fun m _ => hstop job.activity m) fun m hm _ => ?_)
    exact Act.Follows.step (.of_jobs ih) job m hm

theorem runGauged_follows_runUntil (levels : Nat) (stack : List Activity) (job : Job α) :
    Act.Follows (fun _ => True)
      (runGauged (σ := σ) limits (fun a _ => a.hasLongLiteral limits) levels job)
      (runUntil limits (Watch.innermost (Activity.makesLongArray limits)) levels stack job) := by
  induction levels generalizing stack α with
  | zero => exact .fail .exhausted
  | succ levels ih =>
    apply (Act.Follows.note .begun).bind
    intro _
    rw [stepUntil_innermost steady_makesLongArray]
    have hrunner : Runner.Follows (fun _ => True)
        ⟨runGauged (σ := σ) limits (fun a _ => a.hasLongLiteral limits) levels⟩
        ⟨runUntil limits (Watch.innermost (Activity.makesLongArray limits)) levels
          (job.activity :: stack)⟩ := .of_jobs fun job' => ih _ job'
    have hnever (act : Act σ α) : act = Act.breakIf (fun _ => false) act := rfl
    refine .gauged_breakIf ?_ fun m hpicked => ?_
    · rw [hnever (step limits ⟨runUntil _ _ _ _⟩ job)]
      exact .breakIf (fun _ _ _ => rfl) fun m hm _ => Act.Follows.step hrunner job m hm
    · cases job with
      | eval e env => exact .inl (congrArg Result.fault? (if_pos hpicked))
      | exec s env => cases hpicked
      | call f this args =>
        exact .inr (Act.KeepsLong.invoke_long limits _ levels f this args
          (of_decide_eq_true hpicked))

variable (p : Program) (host : σ)

theorem runOnGauged_follows :
    Result.Follows ⟨0, 0⟩ (runOnGauged limits (Activity.makesLongArray limits) p host)
        (runOnGauged limits (fun a _ => a.hasLongLiteral limits) p host) ∧
      Result.Follows ⟨0, 0⟩ (runOnGauged limits (fun a _ => a.hasLongLiteral limits) p host)
        (runOnUntil limits (Watch.innermost (Activity.makesLongArray limits)) p host) := by
  constructor
  · have hliteral (a : Activity) (m : Machine σ) (hm : a.makesLongArray limits m = false) :
        a.hasLongLiteral limits = false := by
      cases a with
      | calling => rfl
      | evaluating | executing => exact hm
    have hexec (s : Stmt) := runGauged_follows (σ := σ) limits hliteral limits.levels
      (.exec s globalEnv)
    exact Act.Follows.program hexec p.body (Machine.start host) trivial
  · have hexec (s : Stmt) := runGauged_follows_runUntil (σ := σ) limits limits.levels []
      (.exec s globalEnv)
    exact Act.Follows.program hexec p.body (Machine.start host) trivial

/-- A run outgrows the limit exactly if it comes to a literal or a call for an array that is too
    long and whose length is not checked. -/
theorem outgrows_iff : Outgrows limits p host ↔
    ComesTo limits (Watch.innermost (Activity.makesLongArray limits)) p host := by
  have hwatched := runOnGauged_makesLongArray limits p host
  obtain ⟨hforth, hback⟩ := runOnGauged_follows limits p host
  rw [hwatched] at hforth
  unfold Outgrows ComesTo
  constructor
  · intro houtgrows
    rcases hforth.same with hexhausted | hsame
    · exact hexhausted
    · rw [← hsame]
      exact houtgrows
  · intro hcomes
    rcases hback.same with hexhausted | hsame
    · exact hexhausted
    · rw [← hsame]
      exact hcomes

/-- A run that does not outgrow the limit is the gauged one. -/
theorem runOnGauged_eq (h : ¬ Outgrows limits p host) :
    runOnGauged limits (fun a _ => a.hasLongLiteral limits) p host = runOn limits p host := by
  have hcomes := mt (outgrows_iff limits p host).mpr h
  have hrun := (comesTo_or_eq limits p host _).resolve_left hcomes
  exact ((runOnGauged_follows limits p host).2.same.resolve_left h).symm.trans hrun

end Runs

end Breaking

/-! ### Growth -/

/-- Whatever grows an array checks its length, and what is made of an array element by element is no
    longer than that array. -/
structure ChecksArrays (σ : Type) (limits : Limits) : Prop where
  property (object : Value) (key : String) (v : Value) :
    ChecksLengths limits fun l => (Act.setProperty l object key v : Act σ Unit)
  method (call : Value → List Value → Act σ Value) (method : Method) (a : ArrayRef)
    (args : List Value) : Act.takesFunction method = false → method ≠ .sort →
      ChecksLengths limits fun l => Act.arrayMethod l call method a args
  map (call : Value → List Value → Act σ Value) (a : ArrayRef) (args : List Value)
    (m m' : Machine σ) (v : Value) : Act.arrayMethod limits call .map a args m = .ok v m' →
      ∃ b, v = .array b ∧ (m'.heap.array b).size = (m.heap.array a).size
  filter (call : Value → List Value → Act σ Value) (a : ArrayRef) (args : List Value)
    (m m' : Machine σ) (v : Value) : Act.arrayMethod limits call .filter a args m = .ok v m' →
      ∃ b, v = .array b ∧ (m'.heap.array b).size ≤ (m.heap.array a).size
  sort (call : Value → List Value → Act σ Value) (a : ArrayRef) (args : List Value)
    (m m' : Machine σ) (v : Value) : Act.arrayMethod limits call .sort a args m = .ok v m' →
      v = .array a ∧ (m'.heap.array a).size ≤ (m.heap.array a).size

/-- The letters of a word of three letters are counted. -/
def countedLetters : Program where
  body := [.expr (.call (.ident "output")
    [.member (.call (.member (.string "abc") "split") [.string ""]) "length"])]

end MemoryShell.Script
