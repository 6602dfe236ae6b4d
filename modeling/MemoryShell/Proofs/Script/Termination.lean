/-
  MemoryShell/Proofs/Script/Termination.lean
  ==========================================
  **Every run ends, and no bound on a recursion is what ends it.**

  The evaluator, the sort and the texts recurse under bounds.  The bound on the evaluator comes from
  the limits alone: from whatever machine a job starts, it is not met, so a higher one changes
  nothing and the evaluator satisfies the equations that mention no bound.  A sort has as many turns
  as it has values, and more would change nothing.  The bound on texts is enough wherever the text
  has an end at all, which is unless an error holds itself.
-/
import MemoryShell.Proofs.Script.Moments
import MemoryShell.Proofs.Script.Texts

namespace MemoryShell.Script

/-! ### The evaluator -/

section Evaluator

variable {σ : Type} [Host σ] (limits : Limits)

omit [Host σ] in
theorem Limits.budget_le (m : Machine σ) :
    limits.budget m ≤ 2 * limits.maxEvalDepth + limits.maxTurns := by
  rw [budget]
  omega

/-- Whatever machine a job starts from, it takes a course. -/
theorem runner_course {α : Type} (job : Job α) (m : Machine σ) :
    Course limits m (Result.fault? ((runner limits).run job m))
      (Result.machine ((runner limits).run job m)) := by
  have hbudget := limits.budget_le m
  obtain ⟨hnests, hcalls⟩ := @run_within σ _ limits limits.levels
  have hlevels : 2 * limits.maxEvalDepth + limits.maxTurns + 1 < limits.levels := by
    rw [Limits.levels]
    omega
  cases job with
  | eval e env => exact (hnests _ (Nat.lt_of_succ_lt hlevels)).eval e env m hbudget
  | exec s env => exact (hnests _ (Nat.lt_of_succ_lt hlevels)).exec s env m hbudget
  | call f this args => exact hcalls _ hlevels f this args m hbudget

theorem runner_ne_exhausted {α : Type} (job : Job α) (m : Machine σ) :
    Result.fault? ((runner limits).run job m) ≠ some .exhausted := by
  intro hexhausted
  cases (runner_course limits job m).eq_busyArray .exhausted hexhausted rfl

/-- More levels than those of the limits change nothing. -/
theorem run_add_levels {α : Type} (job : Job α) (more : Nat) :
    run (σ := σ) limits (limits.levels + more) job = (runner limits).run job := by
  have hfollows : Act.Follows (fun _ => True)
      (runUntil (σ := σ) limits (fun _ _ => false) limits.levels [] job)
      (runUntil limits (fun _ _ => false) (limits.levels + more) [] job) :=
    runUntil_follows _ _ (admits_true limits) (fun _ _ _ _ _ => rfl) (fun _ _ _ _ _ _ => rfl)
      (Nat.le_add_right limits.levels more) [] job
  rw [runUntil_never, runUntil_never] at hfollows
  funext m
  rcases (hfollows m trivial).same with hexhausted | hsame
  · exact absurd hexhausted (runner_ne_exhausted limits job m)
  · exact hsame

/-- A job is run by its step over the same runner. -/
theorem runner_eq_step {α : Type} (job : Job α) :
    (runner (σ := σ) limits).run job = (do Act.note .begun; step limits (runner limits) job) :=
  (run_add_levels limits job 1).symm

omit [Host σ] in
/-- More rounds than a loop has change nothing, unless it is exhausted. -/
theorem repeatFrom_add_rounds (round : Act σ (Option Flow)) (rounds more : Nat) (m : Machine σ) :
    Result.fault? (Act.repeatFrom round rounds m) = some .exhausted ∨
      Act.repeatFrom round (rounds + more) m = Act.repeatFrom round rounds m := by
  induction rounds generalizing m with
  | zero => exact .inl rfl
  | succ rounds ih =>
    rw [Nat.add_right_comm]
    simp only [Act.repeatFrom]
    cases heq : round m with
    | ok end? m' =>
      rw [Act.bind_of_ok heq, Act.bind_of_ok heq]
      cases end? with
      | none => exact ih m'
      | some flow => exact .inr rfl
    | error fault m' =>
      rw [Act.bind_of_error heq, Act.bind_of_error heq]
      exact .inr rfl

end Evaluator

/-! ### Sorting -/

section Sorting

variable {σ α β : Type}

theorem Act.Gives.bind_congr {act : Act σ α} {P : α → Prop} (hgives : act.Gives P)
    {next next' : α → Act σ β} (h : ∀ a, P a → next a = next' a) :
    (act >>= next) = (act >>= next') := by
  funext m
  cases heq : act m with
  | ok a m' => rw [bind_of_ok heq, bind_of_ok heq, h a (hgives m a m' heq)]
  | error fault m' => rw [bind_of_error heq, bind_of_error heq]

variable (comesAfter : Value → Value → Act σ Bool)

theorem mergeOnto_add_turns (merged : List Value) (turns more : Nat) (as bs : List Value)
    (henough : as.length + bs.length ≤ turns) :
    mergeOnto comesAfter merged (turns + more) as bs = mergeOnto comesAfter merged turns as bs := by
  induction turns generalizing merged as bs with
  | zero =>
    obtain rfl : as = [] := List.length_eq_zero_iff.mp (by omega)
    cases more <;> rfl
  | succ turns ih =>
    rw [Nat.add_right_comm]
    cases as with
    | nil => rfl
    | cons a as =>
      cases bs with
      | nil => rfl
      | cons b bs =>
        rw [List.length_cons, List.length_cons] at henough
        simp only [mergeOnto]
        rw [ih _ (a :: as) bs (by rw [List.length_cons]; omega),
          ih _ as (b :: bs) (by rw [List.length_cons]; omega)]

/-- A pass leaves half of the runs, rounded up. -/
theorem mergePairs_gives (merged runs : List (List Value)) :
    (mergePairs comesAfter merged runs).Gives
      fun runs' => runs'.length = merged.length + (runs.length + 1) / 2 := by
  induction merged, runs using mergePairs.induct with
  | case1 merged as bs rest ih =>
    intro m runs' m' heq
    obtain ⟨run, _, _, hrest⟩ := Act.bind_eq_ok.mp heq
    have hlength := ih run _ _ _ hrest
    rw [List.length_cons] at hlength
    rw [hlength, List.length_cons, List.length_cons]
    omega
  | case2 merged runs hshort =>
    intro m runs' m' heq
    rcases runs with _ | ⟨as, _ | ⟨bs, rest⟩⟩
    · cases heq
      simp
    · cases heq
      simp
    · exact absurd rfl (hshort as bs rest)

theorem mergeRuns_add_turns (turns more : Nat) (runs : List (List Value))
    (henough : runs.length ≤ turns + 1) :
    mergeRuns comesAfter (turns + more) runs = mergeRuns comesAfter turns runs := by
  induction turns generalizing runs with
  | zero =>
    rcases runs with _ | ⟨as, _ | ⟨bs, rest⟩⟩
    · cases more <;> rfl
    · cases more <;> rfl
    · simp only [List.length_cons] at henough
      omega
  | succ turns ih =>
    rw [Nat.add_right_comm]
    rcases runs with _ | ⟨as, _ | ⟨bs, rest⟩⟩
    · rfl
    · rfl
    · apply (mergePairs_gives comesAfter [] (as :: bs :: rest)).bind_congr
      intro runs hlength
      apply ih
      simp only [List.length_nil, List.length_cons] at hlength henough
      omega

/-- A merge has as many turns as it can use. -/
theorem merge_add_turns (as bs : List Value) (more : Nat) :
    mergeOnto comesAfter [] (as.length + bs.length + more) as bs = merge comesAfter as bs :=
  mergeOnto_add_turns comesAfter [] _ more as bs (Nat.le_refl _)

/-- A sort has as many turns as it can use. -/
theorem sortBy_add_turns (values : List Value) (more : Nat) :
    mergeRuns comesAfter (values.length + more) (values.map fun v => [v]) =
      sortBy comesAfter values := by
  apply mergeRuns_add_turns
  rw [List.length_map]
  exact Nat.le_succ _

end Sorting

/-! ### Texts -/

namespace Heap

variable {h : Heap}

/-- Where no error holds itself, the bounded recursion gives the one text of a value. -/
theorem shows_iff_eq_display (hgrounded : h.IsGrounded) (v : Value) (text : String) :
    h.Shows [] v text ↔ text = h.display v := by
  have hshows : h.Shows [] v (h.display v) := (fitsIn_displayFuel hgrounded v).shows
  constructor
  · intro htext
    exact htext.unique hshows
  · rintro rfl
    exact hshows

end Heap

/-! ### Runs -/

/-- The evaluator ends, and its bounds do not matter. -/
structure EvaluatorEnds (σ : Type) [Host σ] (limits : Limits) : Prop where
  /-- No job is exhausted, from whatever machine it starts. -/
  job {α : Type} (job : Job α) (m : Machine σ) :
    Result.fault? ((runner limits).run job m) ≠ some .exhausted
  levels {α : Type} (job : Job α) (more : Nat) :
    run (σ := σ) limits (limits.levels + more) job = (runner limits).run job
  step {α : Type} (job : Job α) :
    (runner (σ := σ) limits).run job = (do Act.note .begun; step limits (runner limits) job)
  rounds (round : Act σ (Option Flow)) (rounds more : Nat) (m : Machine σ) :
    Result.fault? (Act.repeatFrom round rounds m) = some .exhausted ∨
      Act.repeatFrom round (rounds + more) m = Act.repeatFrom round rounds m
  merging (comesAfter : Value → Value → Act σ Bool) (as bs : List Value) (more : Nat) :
    mergeOnto comesAfter [] (as.length + bs.length + more) as bs = merge comesAfter as bs
  sorting (comesAfter : Value → Value → Act σ Bool) (values : List Value) (more : Nat) :
    mergeRuns comesAfter (values.length + more) (values.map fun v => [v]) =
      sortBy comesAfter values

/-- The texts of a heap end, and so does the search for an array that a text is made from. -/
structure Heap.TextsEnd (h : Heap) : Prop where
  display (v : Value) (text : String) : h.Shows [] v text ↔ text = h.display v
  readsArray (target : ArrayRef) (v : Value) :
    h.readsArray target h.displayFuel [] v ↔ h.Reads target [] v

theorem evaluator_ends (σ : Type) [Host σ] (limits : Limits) : EvaluatorEnds σ limits where
  job := runner_ne_exhausted limits
  levels := run_add_levels limits
  step := runner_eq_step limits
  rounds := repeatFrom_add_rounds
  merging := merge_add_turns
  sorting := sortBy_add_turns

/-- An array that holds itself and an error, whose message is that array. -/
def knotted : Heap where
  frames := #[]
  arrays := #[#[.array ⟨0⟩, .object ⟨0⟩]]
  objects := #[⟨true, .ofList [("name", .string "E"), ("message", .array ⟨0⟩)]⟩]
  functions := 0

end MemoryShell.Script
