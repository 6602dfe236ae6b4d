/-
  MemoryShell/Proofs/Script/Statements.lean
  =========================================
  **Statements take a course.**

  Loops repeat their rounds a bounded number of times.  A round that does not end its loop has taken
  a turn, and there is one more round than there are turns left, so the bound is never what ends a
  loop.
-/
import MemoryShell.Proofs.Script.Expressions

namespace MemoryShell.Script

variable {σ : Type} [Host σ] {limits : Limits} {j k : Nat} {r : Runner σ}

namespace Act.Within

theorem mono {act : Act σ α} (h : Within limits k act) (hle : j ≤ k) : Within limits j act :=
  fun m hm => h m (Nat.le_trans hm hle)

end Act.Within

theorem Runner.Nests.mono (h : r.Nests limits k) (hle : j ≤ k) : r.Nests limits j :=
  ⟨fun e env => (h.eval e env).mono hle, fun s env => (h.exec s env).mono hle⟩

/-! ### Rounds of loops

A loop repeats a round until the round ends it, and each round that goes on took a turn.  So the
turns that are left, and one more, bound the rounds. -/

/-- A round of a loop takes a course, and it takes a turn unless it ends the loop. -/
structure Act.IsRound (limits : Limits) (k : Nat) (round : Act σ (Option Flow)) : Prop where
  within : Act.Within limits k round
  turns_lt {m m'} : limits.budget m ≤ k → round m = .ok none m' →
    m.turns < limits.maxTurns ∧ m.turns < m'.turns

namespace Act.Within

/-- The machine after an act that ends with a value. -/
theorem after {act : Act σ α} {m m' : Machine σ} {a : α} (h : Within limits k act)
    (hm : limits.budget m ≤ k) (heq : act m = .ok a m') :
    m.turns ≤ m'.turns ∧ limits.budget m' ≤ k := by
  have hact := h m hm
  rw [heq] at hact
  exact ⟨hact.turns_le, Nat.le_trans hact.budget_le hm⟩

theorem repeatFrom {round : Act σ (Option Flow)} (h : IsRound limits k round) {rounds : Nat} :
    ∀ m, limits.budget m ≤ k → limits.maxTurns - m.turns < rounds →
      Course limits m (Result.fault? (repeatFrom round rounds m))
        (Result.machine (repeatFrom round rounds m)) := by
  induction rounds with
  | zero => exact fun m _ hrounds => absurd hrounds (Nat.not_lt_zero _)
  | succ rounds ih =>
    intro m hm hrounds
    have hround := h.within m hm
    unfold Act.repeatFrom
    cases heq : round m with
    | error fault m' =>
      rw [heq] at hround
      rw [bind_of_error heq]
      exact hround
    | ok end? m' =>
      rw [heq] at hround
      rw [bind_of_ok heq]
      cases end? with
      | some flow => exact hround
      | none =>
        obtain ⟨hleft, hturns⟩ := h.turns_lt hm heq
        exact hround.trans (ih m' (Nat.le_trans hround.budget_le hm) (by omega))

theorem repeatRound {round : Act σ (Option Flow)} (h : IsRound limits k round) :
    Within limits k (repeatRound limits round) :=
  fun m hm => repeatFrom h m hm (Nat.lt_succ_self _)

/-! ### Bodies -/

theorem execBodyInTurn (h : r.Nests limits k) (body : Stmt) (hj : j + 1 = k) (env : Env) :
    Within limits j (do return endOfLoop (← r.exec body env)) :=
  ((h.mono (by omega)).exec _ _).map _

theorem bodyTurn (h : r.Nests limits k) (body : Stmt) (env : Env) :
    Within limits k (bodyTurn limits r body env) :=
  turn .body (pure ()) fun _ hj _ => execBodyInTurn h body hj env

theorem itemScope (kind : Option DeclKind) (name : String) (env : Env) (item : Value) :
    Within limits k (itemScope kind name env item : Act σ Env) := by
  refine (newScope _ _).bind fun scope => ?_
  split
  · exact (declareVariable _ _ _ _).bind fun _ => .pure _
  · exact (assignVariable _ _ _).bind fun _ => .pure _

theorem itemRound (h : r.Nests limits k) (kind : Option DeclKind) (name : String) (body : Stmt)
    (env : Env) (item : Value) : Within limits k (itemRound limits r kind name body env item) :=
  turn .body (itemScope _ _ _ _) fun _ hj _ => execBodyInTurn h body hj _

/-- A body that was executed in a turn of its own took that turn. -/
theorem bodyTurn_turns_lt (h : r.Nests limits k) {body : Stmt} {env : Env} {m m' : Machine σ}
    {end? : Option Flow} (hm : limits.budget m ≤ k)
    (heq : Act.bodyTurn limits r body env m = .ok end? m') :
    m.turns < limits.maxTurns ∧ m.turns < m'.turns := by
  have hbody : Within limits k (do return endOfLoop (← r.exec body env)) := (h.exec _ _).map _
  unfold Act.bodyTurn at heq
  by_cases hturns : m.turns < limits.maxTurns
  · rw [bind_of_ok (beginTurn_of_lt hturns)] at heq
    obtain ⟨_, m₁, hnote, heq⟩ := bind_eq_ok.mp heq
    cases hnote
    have hbudget :
        limits.budget (({ m with turns := m.turns + 1 } : Machine σ).noted (.worked .body)) ≤ k := by
      simp only [Limits.budget, Machine.noted_turns, Machine.noted_evalDepth] at hm ⊢
      omega
    exact ⟨hturns, (hbody.after hbudget heq).1⟩
  · rw [bind_of_error (beginTurn_of_le (Nat.le_of_not_lt hturns))] at heq
    cases heq

theorem testHolds (h : r.Nests limits k) (test : Option Expr) (env : Env) :
    Within limits k (testHolds r test env) := by
  cases test with
  | none => exact .pure _
  | some e => exact (h.eval _ _).map _

theorem advance (h : r.Nests limits k) (update : Option Expr) (env : Env) :
    Within limits k (advance r update env) := by
  cases update with
  | none => exact .pure _
  | some e => exact (h.eval _ _).map _

theorem testedRound (h : r.Nests limits k) (test update : Option Expr) (body : Stmt) (env : Env) :
    IsRound limits k (testedRound limits r test update body env) := by
  have hupdate : Within limits k (do Act.advance r update env; return none : Act σ (Option Flow)) :=
    (advance h _ _).bind fun _ => .pure _
  constructor
  · refine (testHolds h _ _).bind fun holds => ?_
    split
    · refine (bodyTurn h _ _).bind fun end? => ?_
      cases end? with
      | some flow => exact .pure _
      | none => exact hupdate
    · exact .pure _
  · intro m m' hm heq
    obtain ⟨holds, m₁, htest, heq⟩ := bind_eq_ok.mp heq
    obtain ⟨hle₁, hm₁⟩ := (testHolds h _ _).after hm htest
    cases holds with
    | false => cases heq
    | true =>
      obtain ⟨end?, m₂, hbody, heq⟩ := bind_eq_ok.mp heq
      obtain ⟨hleft, hlt⟩ := bodyTurn_turns_lt h hm₁ hbody
      have hm₂ := ((bodyTurn h _ _).after hm₁ hbody).2
      cases end? with
      | some flow => cases heq
      | none =>
        have hle₂ := (hupdate.after hm₂ heq).1
        omega

theorem testingRound (h : r.Nests limits k) (body : Stmt) (test : Expr) (env : Env) :
    IsRound limits k (testingRound limits r body test env) := by
  constructor
  · refine (bodyTurn h _ _).bind fun end? => ?_
    cases end? with
    | some flow => exact .pure _
    | none =>
      refine (h.eval _ _).bind fun v => ?_
      split
      · exact .pure _
      · exact .pure _
  · intro m m' hm heq
    obtain ⟨end?, m₁, hbody, heq⟩ := bind_eq_ok.mp heq
    obtain ⟨hleft, hlt⟩ := bodyTurn_turns_lt h hm hbody
    have hm₁ := ((bodyTurn h _ _).after hm hbody).2
    cases end? with
    | some flow => cases heq
    | none =>
      obtain ⟨v, m₂, htest, heq⟩ := bind_eq_ok.mp heq
      have hle := ((h.eval _ _).after hm₁ htest).1
      split at heq
      · cases heq
        omega
      · cases heq

/-! ### Loops over items -/

theorem eachItem {round : Value → Act σ (Option Flow)} (h : ∀ item, Within limits k (round item))
    (items : List Value) : Within limits k (eachItem round items) := by
  induction items with
  | nil => exact .pure _
  | cons item rest ih =>
    refine (h item).bind fun end? => ?_
    cases end? with
    | some flow => exact .pure _
    | none => exact ih

theorem itemsOf (v : Value) : Within limits k (itemsOf v : Act σ (List Value)) := by
  unfold Act.itemsOf
  split
  · exact (elements _).map _
  · exact .pure _
  · exact (display _).bind fun _ => .throwMistake _

/-! ### Failing and cleaning up

What a handler or a finalizer may do depends on the fault that is on its way out: an ordinary one
can be caught and replaced, a limit only be replaced, and a final one passes everything. -/

theorem handle (h : r.Nests limits k) (param : Option String) (handler : List Stmt) (env : Env)
    (thrown : Value) : Within limits k (handle r param handler env thrown) := by
  refine (newScope _ _).bind fun scope => ?_
  cases param with
  | some name => exact (declareVariable _ _ _ _).bind fun _ => execBody h _ _
  | none => exact execBody h _ _

theorem catching {act : Act σ Flow} {handler : Option (Value → Act σ Flow)}
    (hact : Within limits k act) (hhandler : ∀ f ∈ handler, ∀ v, Within limits k (f v)) :
    Within limits k (catching act handler) := by
  intro m hm
  have hcourse := hact m hm
  unfold Act.catching
  split <;> rename_i heq
  · rw [heq] at hcourse
    exact .recover rfl hcourse (hhandler _ rfl _ _ (Nat.le_trans hcourse.budget_le hm))
  · exact hcourse

theorem cleanUp {finalizer : Act σ Flow} {fault : Fault} (hfault : fault.isOrdinary)
    (h : Within limits k finalizer) : Within limits k (cleanUp fault finalizer) := by
  refine h.bind fun flow => ?_
  split
  · exact .fail hfault
  · exact .pure _

theorem cleanUpLimit {finalizer : Act σ Flow} {cause : LimitCause} {m m' : Machine σ}
    (h : Within limits k finalizer) (hm' : limits.budget m' ≤ k)
    (hact : Course limits m (some (.limit cause)) m') :
    Course limits m (Result.fault? (cleanUpLimit cause finalizer m'))
      (Result.machine (cleanUpLimit cause finalizer m')) := by
  have hfinalizer := h (m'.noted (.cleaning cause)) hm'
  unfold Act.cleanUpLimit
  split <;> rename_i heq <;> rw [heq] at hfinalizer
  · exact .resume hact hfinalizer
  · exact .discard hact hfinalizer
  · split
    · rename_i hagain
      subst hagain
      exact .renew hact hfinalizer
    · exact .discard hact hfinalizer
  · exact .discard hact hfinalizer

theorem finalizing {act finalizer : Act σ Flow} (hact : Within limits k act)
    (h : Within limits k finalizer) : Within limits k (finalizing act finalizer) := by
  intro m hm
  have hcourse := hact m hm
  have hm' := Nat.le_trans hcourse.budget_le hm
  unfold Act.finalizing
  cases heq : act m with
  | ok flow m' =>
    rw [heq] at hcourse hm'
    have hfinalizer := h m' hm'
    cases hend : finalizer m' with
    | error fault m'' =>
      rw [hend] at hfinalizer
      simp only [hend]
      exact hcourse.trans hfinalizer
    | ok last m'' =>
      rw [hend] at hfinalizer
      cases last <;> simp only [hend] <;> exact hcourse.trans hfinalizer
  | error fault m' =>
    rw [heq] at hcourse hm'
    cases fault with
    | limit cause => exact cleanUpLimit h hm' hcourse
    | busyArray | outOfRange | exhausted => exact hcourse
    | thrown | badTarget => exact .recover rfl hcourse (cleanUp rfl h m' hm')

/-! ### Statements -/

theorem execute (h : r.Nests limits k) (s : Stmt) (env : Env) :
    Within limits k (execute limits r s env) := by
  unfold Act.execute
  split
  · exact (h.eval _ _).bind fun _ => .pure _
  · exact (declareAll h _ _ _).bind fun _ => .pure _
  · exact .pure _
  · exact .pure _
  · refine (h.eval _ _).bind fun v => ?_
    split
    · exact h.exec _ _
    · split
      · exact h.exec _ _
      · exact .pure _
  · exact repeatRound (testedRound h _ _ _ _)
  · exact repeatRound (testingRound h _ _ _)
  · refine (newScope _ _).bind fun scope => ?_
    split
    · exact (h.exec _ _).bind fun _ => repeatRound (testedRound h _ _ _ _)
    · exact repeatRound (testedRound h _ _ _ _)
  · exact (h.eval _ _).bind fun _ => (itemsOf _).bind fun _ =>
      eachItem (itemRound h _ _ _ _) _
  · exact (h.eval _ _).bind fun _ => (lookHeap _).bind fun _ =>
      eachItem (itemRound h _ _ _ _) _
  · exact execBlock h _ _
  · split
    · exact (h.eval _ _).map _
    · exact .pure _
  · exact .pure _
  · exact .pure _
  · exact (h.eval _ _).bind fun _ => .fail rfl
  · rename_i block param handler finalizer
    have hhandler : ∀ f ∈ handler.map fun body => Act.handle r param body env,
        ∀ v, Within limits k (f v) := by
      intro f hf v
      obtain ⟨body, -, rfl⟩ := Option.map_eq_some_iff.mp hf
      exact handle h _ _ _ _
    have hguarded := catching (execBlock h block env) hhandler
    cases finalizer with
    | some f => exact finalizing hguarded (execBlock h _ _)
    | none => exact hguarded

end Act.Within

end MemoryShell.Script
