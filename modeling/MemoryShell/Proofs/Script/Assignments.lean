/-
  MemoryShell/Proofs/Script/Assignments.lean
  ==========================================
  **Properties that are changed: what is read and what is written.**

  A compound assignment, or an increment or decrement, reads what its target names and later writes
  to what the target names then: object and key are evaluated a second time for it.  Beside that
  stands the change that keeps to the place it has read.
-/
import MemoryShell.Proofs.Script.Targets

namespace MemoryShell.Script

variable {σ : Type}

/-! ### Changes -/

/-- The ways to change a property that go by what is there. -/
inductive Change where
  | compound (op : BinaryOp) (value : Expr)
  | count (increment before : Bool)

/-- A change up to the point where it writes: where it has read, what it is to write, and the value
    that it gives. -/
structure Change.Pending where
  place : Place
  written : Value
  given : Value

namespace Change

/-- The expression that makes a change to a target. -/
def on (target : Target) : Change → Expr
  | .compound op value => .assign (some op) target.expr value
  | .count increment before => .update increment before target.expr

variable (limits : Limits) (r : Runner σ)

/-- From the value that was read, the one to write and the one to give. -/
def results (env : Env) (current : Value) : Change → Act σ (Value × Value)
  | .compound op value => do
    let operand ← r.eval value env
    let v ← Act.checkText limits (← Act.lookHeap fun h => h.binary op current operand)
    return (v, v)
  | .count increment before => do
    let old ← Act.number current
    let new := if increment then old + 1 else old - 1
    return (.number new, .number (if before then new else old))

/-- Read what the target names, and make of it what is to be written. -/
def prepare (target : Target) (change : Change) (env : Env) : Act σ Pending := do
  let (place, current) ← target.visit limits r env
  let (written, given) ← change.results limits r env current
  return ⟨place, written, given⟩

/-- Change what was read. -/
def once (target : Target) (change : Change) (env : Env) : Act σ Value := do
  let pending ← change.prepare limits r target env
  pending.place.write limits pending.written
  return pending.given

/-- Change what the target names by the time of the writing. -/
def twice (target : Target) (change : Change) (env : Env) : Act σ Value := do
  let pending ← change.prepare limits r target env
  let place ← target.locate r env
  place.write limits pending.written
  return pending.given

end Change

section Preparing

variable [Host σ] {limits : Limits} {target : Target} {change : Change} {env : Env} {m : Machine σ}

/-- A change evaluates its target twice. -/
theorem evaluate_on :
    Act.evaluate limits (runner (σ := σ) limits) (change.on target) env =
      change.twice limits (runner limits) target env := by
  cases change with
  | compound op value =>
    simp only [Change.on, Act.evaluate, Act.assignedValue, eval_target, assignTo_target,
      Change.twice, Change.prepare, Change.results, bind_assoc, pure_bind]
  | count increment before =>
    simp only [Change.on, Act.evaluate, Act.updated, eval_target, assignTo_target,
      Change.twice, Change.prepare, Change.results, bind_assoc, pure_bind]

theorem Act.Within.prepare (k : Nat) (target : Target) (change : Change) (env : Env) :
    Act.Within limits k (change.prepare limits (runner (σ := σ) limits) target env) := by
  have hvisit : Within limits k (target.visit limits (runner (σ := σ) limits) env) :=
    .begun (.deeper fun j _ => (locate j _ _).bind fun _ => (getProperty _ _).map _)
  refine hvisit.bind fun ⟨place, current⟩ => ?_
  refine bind ?_ fun _ => .pure _
  cases change with
  | compound op value =>
    exact ((runner_nests k).eval _ _).bind fun _ => (lookHeap _).bind fun _ => (checkText _).map _
  | count increment before => exact (number _).map _

theorem lt_of_prepare_eq_ok {pending : Change.Pending} {m' : Machine σ}
    (h : change.prepare limits (runner limits) target env m = .ok pending m') :
    m'.evalDepth < limits.maxEvalDepth := by
  have hwithin : Act.Within limits (limits.budget m)
      (change.prepare limits (runner (σ := σ) limits) target env) := .prepare _ target change env
  have hcourse := hwithin m (Nat.le_refl _)
  rw [h] at hcourse
  obtain ⟨_, n, hvisit, -⟩ := Act.bind_eq_ok.mp h
  have hdepth : m.evalDepth < limits.maxEvalDepth := (Act.deeper_eq_ok_iff.mp hvisit).1
  exact hcourse.evalDepth_eq.trans_lt hdepth

end Preparing

/-! ### Changes as if the target were evaluated once -/

/-- To give a value after an act hides nothing of how the act ends. -/
theorem Result.bare_giving {act act' : Act σ Unit} {m m' : Machine σ} (v : Value) :
    Result.bare ((do act; return v) m) = Result.bare ((do act'; return v) m') ↔
      Result.bare (act m) = Result.bare (act' m') := by
  simp only [Bind.bind, EStateM.bind, Pure.pure, EStateM.pure]
  cases act m <;> cases act' m' <;> simp [Result.bare, Result.trailed]

theorem Result.machine_giving (act : Act σ Unit) (m : Machine σ) (v : Value) :
    Result.machine ((do act; return v) m) = Result.machine (act m) := by
  simp only [Bind.bind, EStateM.bind]
  cases act m <;> rfl

section Once

variable [Host σ] (limits : Limits) (target : Target) (change : Change) (env : Env) (m : Machine σ)

/-- The change comes to what it would if its target were evaluated once: it ends the same, and with
    the same machine but for what was noted. -/
def ChangesOnce : Prop :=
  Result.bare (Act.evaluate limits (runner limits) (change.on target) env m) =
    Result.bare (change.once limits (runner limits) target env m)

section Prepared

variable {limits target change env m} {pending : Change.Pending} {m' : Machine σ}
  (h : change.prepare limits (runner limits) target env m = .ok pending m')
include h

theorem once_of_prepare :
    change.once limits (runner limits) target env m =
      (do pending.place.write limits pending.written; return pending.given) m' :=
  Act.bind_of_ok h

theorem evaluate_of_prepare :
    Act.evaluate limits (runner limits) (change.on target) env m = (do
      (do
        let place ← target.locate (runner limits) env
        place.write limits pending.written)
      return pending.given) m' := by
  rw [evaluate_on, Change.twice, Act.bind_of_ok h]
  simp only [bind_assoc]

/-- Where the second evaluation finds the place again and leaves everything as it is, the change is
    the same as if there were none. -/
theorem changesOnce_of_locate {m'' : Machine σ}
    (hlocate : target.locate (runner limits) env m' = .ok pending.place m'')
    (hsame : m''.trailed [] = m'.trailed []) : ChangesOnce limits target change env m := by
  rw [ChangesOnce, once_of_prepare h, evaluate_of_prepare h, Result.bare_giving,
    Act.bind_of_ok hlocate]
  exact Act.bare_setProperty limits _ _ _ hsame

/-- A target of variables and constants is read where these stand before the change. -/
theorem place_of_prepare {place : Place} (hplace : target.placeIn env m.heap = some place) :
    pending.place = place ∧
      (∀ increment before, change = .count increment before →
        target.placeIn env m'.heap = some place) := by
  obtain ⟨⟨visited, current⟩, n, hvisit, hrest⟩ := Act.bind_eq_ok.mp h
  obtain ⟨⟨written, given⟩, n', hresults, hpending⟩ := Act.bind_eq_ok.mp hrest
  obtain ⟨hvisited, hstays⟩ := visit_of_placeIn hplace hvisit
  cases hpending
  refine ⟨hvisited, ?_⟩
  rintro increment before rfl
  cases hresults
  exact hstays

/-- A target of variables and constants is written where these stand after the value. -/
theorem bare_evaluate_of_placeIn {again : Place}
    (hagain : target.placeIn env m'.heap = some again) :
    Result.bare (Act.evaluate limits (runner limits) (change.on target) env m) =
      Result.bare ((do again.write limits pending.written; return pending.given) m') := by
  obtain ⟨trail, hlocate⟩ := locate_of_placeIn hagain (lt_of_prepare_eq_ok h)
  rw [evaluate_of_prepare h, Result.bare_giving, Act.bind_of_ok hlocate]
  exact Act.bare_setProperty limits _ _ _ rfl

end Prepared

/-- **A target that is changed is evaluated twice.**  A change comes to what it would if its target
    were evaluated once exactly if to evaluate the target again and to write to the place found then
    comes to what writing to the place read would.  Whenever a change gets to write, more has begun
    than if the target were evaluated once.  What it writes to is the place that the second
    evaluation finds, and nothing besides is different from what that left; if it finds the place
    read and leaves everything as it is, the change is as if there were none.  A target of variables
    and constants is read where these stand before the change and written where they stand after the
    value; so to count such a target up or down is always as if it were evaluated once. -/
theorem changesOnce_iff :
    (ChangesOnce limits target change env m ↔
      ∀ pending m', change.prepare limits (runner limits) target env m = .ok pending m' →
        Result.bare ((do
          let place ← target.locate (runner limits) env
          place.write limits pending.written) m') =
            Result.bare (pending.place.write limits pending.written m')) ∧
    (∀ pending m', change.prepare limits (runner limits) target env m = .ok pending m' →
      let once := Result.machine (change.once limits (runner limits) target env m)
      let actual := Result.machine (Act.evaluate limits (runner limits) (change.on target) env m)
      once.timesBegun = m'.timesBegun ∧ m'.timesBegun < actual.timesBegun ∧
        m'.SameBut pending.place.object once ∧
        ∀ again m'', target.locate (runner limits) env m' = .ok again m'' →
          m''.SameBut again.object actual ∧
            (again = pending.place → m''.trailed [] = m'.trailed [] →
              ChangesOnce limits target change env m)) ∧
    ∀ place, target.placeIn env m.heap = some place →
      ((∃ increment before, change = .count increment before) →
        ChangesOnce limits target change env m) ∧
      ∀ pending m', change.prepare limits (runner limits) target env m = .ok pending m' →
        pending.place = place ∧ ∀ again, target.placeIn env m'.heap = some again →
          Result.bare (Act.evaluate limits (runner limits) (change.on target) env m) =
            Result.bare ((do again.write limits pending.written; return pending.given) m') := by
  have hfailed {fault m'}
      (h : change.prepare limits (runner limits) target env m = .error fault m') :
      ChangesOnce limits target change env m := by
    rw [ChangesOnce, evaluate_on, Change.twice, Change.once, Act.bind_of_error h,
      Act.bind_of_error h]
  refine ⟨⟨?_, ?_⟩, ?_, ?_⟩
  · intro honce pending m' h
    rwa [ChangesOnce, once_of_prepare h, evaluate_of_prepare h, Result.bare_giving] at honce
  · intro hsame
    cases h : change.prepare limits (runner limits) target env m with
    | ok pending m' =>
      rw [ChangesOnce, once_of_prepare h, evaluate_of_prepare h, Result.bare_giving]
      exact hsame pending m' h
    | error fault m' => exact hfailed h
  · intro pending m' h
    rw [once_of_prepare h, evaluate_of_prepare h, Result.machine_giving, Result.machine_giving]
    refine ⟨Act.timesBegun_setProperty limits _ _ _ m', ?_,
      Act.sameBut_setProperty limits _ _ _ m', fun again m'' hagain => ?_⟩
    · exact timesBegun_lt_locate (fun k place => .setProperty _ _ _) m'
    · refine ⟨?_, ?_⟩
      · rw [Act.bind_of_ok hagain]
        exact Act.sameBut_setProperty limits _ _ _ m''
      · rintro rfl hsame
        exact changesOnce_of_locate h hagain hsame
  · intro place hplace
    refine ⟨?_, fun pending m' h => ⟨(place_of_prepare h hplace).1, fun again hagain =>
      bare_evaluate_of_placeIn h hagain⟩⟩
    rintro ⟨increment, before, rfl⟩
    cases h : Change.prepare limits (runner limits) target (.count increment before) env m with
    | ok pending m' =>
      obtain ⟨rfl, hstays⟩ := place_of_prepare h hplace
      rw [ChangesOnce, once_of_prepare h]
      exact bare_evaluate_of_placeIn h (hstays increment before rfl)
    | error fault m' => exact hfailed h

end Once

/-- Two numbers in an array, and a variable at zero. -/
def counting : Machine Tree :=
  { Machine.start Tree.root with heap := { Heap.empty with
    frames := #[.ofList [("a", ⟨.array ⟨0⟩, true⟩), ("i", ⟨.number 0, true⟩)]]
    arrays := #[#[.number 1, .number 2]] } }

/-- An element at a variable is counted up as if it were evaluated once. -/
theorem changesOnce_counting :
    ChangesOnce {} (.index (.ident "a") (.ident "i")) (.count true false) [⟨0⟩] counting := by
  have hplace : Target.placeIn [⟨0⟩] counting.heap (.index (.ident "a") (.ident "i")) =
      some ⟨.array ⟨0⟩, counting.heap.display (.number 0)⟩ := by rfl
  exact ((changesOnce_iff _ _ _ _ _).2.2 _ hplace).1 ⟨true, false, rfl⟩

/-- An element at a variable that is counted up on the way is read in one place and written in
    another. -/
theorem not_changesOnce_counting :
    ¬ ChangesOnce {} (.index (.ident "a") (.update true false (.ident "i")))
      (.compound .add (.number 5)) [⟨0⟩] counting := by
  intro h
  have hactual : (Result.machine (Act.evaluate {} (runner {})
      (.assign (some .add) (.index (.ident "a") (.update true false (.ident "i"))) (.number 5))
        [⟨0⟩] counting)).heap.display (.array ⟨0⟩) = "1,6" := by decide +kernel
  have honce : (Result.machine (Change.once {} (runner {})
      (.index (.ident "a") (.update true false (.ident "i"))) (.compound .add (.number 5))
        [⟨0⟩] counting)).heap.display (.array ⟨0⟩) = "6,2" := by decide +kernel
  have hsame := congrArg (fun r => (Result.machine r).heap.display (.array ⟨0⟩)) h
  simp only [Result.heap_bare] at hsame
  exact absurd (hactual.symm.trans (hsame.trans honce)) (by decide)

end MemoryShell.Script
