/-
  MemoryShell/Proofs/Script/Within.lean
  =====================================
  **Acts that take a course, and how such acts are put together.**

  What is left toward the limits is a budget, and an act may be asked to take a course only from
  machines with so much of it left: that is how much a runner that nests a bounded number of levels
  can promise.  Courses never raise the budget, so acts that take one can follow each other.
-/
import MemoryShell.Proofs.Script.Course

namespace MemoryShell.Script

/-- What is left toward the limits.  A level of nesting counts twice, since a call can stand between
    two levels. -/
def Limits.budget {σ : Type} (limits : Limits) (m : Machine σ) : Nat :=
  2 * (limits.maxEvalDepth - m.evalDepth) + (limits.maxTurns - m.turns)

variable {σ : Type} [Host σ] {limits : Limits} {k : Nat}

theorem Course.budget_le {m : Machine σ} {end? m'} (h : Course limits m end? m') :
    limits.budget m' ≤ limits.budget m := by
  have hturns := h.turns_le
  simp only [Limits.budget, h.evalDepth_eq]
  omega

namespace Act

/-- From every machine within a budget the act takes a course. -/
def Within (limits : Limits) (k : Nat) (act : Act σ α) : Prop :=
  ∀ m, limits.budget m ≤ k → Course limits m (Result.fault? (act m)) (Result.machine (act m))

/-- Whenever the act ends with a value, the value has a property. -/
def Gives (act : Act σ α) (P : α → Prop) : Prop := ∀ m a m', act m = .ok a m' → P a

omit [Host σ] in
theorem Gives.map {act : Act σ α} {f : α → β} {P : β → Prop} (h : ∀ a, P (f a)) :
    Gives (do return f (← act)) P := by
  intro m b m' heq
  obtain ⟨a, _, _, hb⟩ := bind_eq_ok.mp heq
  cases hb
  exact h a

omit [Host σ] in
theorem Gives.lookHeap {f : Heap → α} {P : α → Prop} (h : ∀ heap, P (f heap)) :
    Gives (lookHeap f : Act σ α) P := by
  intro m a m' heq
  cases heq
  exact h m.heap

namespace Within

variable {act : Act σ α}

/-! ### Sequences

A sequence takes the courses of its acts one after the other.  `bindOf` carries what is known of the
value over to what follows. -/

theorem pure (a : α) : Within limits k (pure a : Act σ α) := fun m _ => .refl m

/-- What follows an act may count on what that act gives. -/
theorem bindOf {next : α → Act σ β} {P : α → Prop} (h : Within limits k act) (hP : Gives act P)
    (hnext : ∀ a, P a → Within limits k (next a)) : Within limits k (act >>= next) := by
  intro m hm
  have hact := h m hm
  cases heq : act m with
  | ok a m' =>
    rw [heq] at hact
    rw [bind_of_ok heq]
    exact hact.trans (hnext a (hP m a m' heq) m' (Nat.le_trans hact.budget_le hm))
  | error fault m' =>
    rw [heq] at hact
    rw [bind_of_error heq]
    exact hact

theorem bind {next : α → Act σ β} (h : Within limits k act)
    (hnext : ∀ a, Within limits k (next a)) : Within limits k (act >>= next) :=
  h.bindOf (P := fun _ => True) (fun _ _ _ _ => trivial) fun a _ => hnext a

theorem map (f : α → β) (h : Within limits k act) :
    Within limits k (do return f (← act)) := h.bind fun _ => .pure _

theorem mapM {f : α → Act σ β} (h : ∀ a, Within limits k (f a)) (as : List α) :
    Within limits k (as.mapM f) := by
  induction as with
  | nil => exact .pure _
  | cons a as ih =>
    rw [List.mapM_cons]
    exact (h a).bind fun _ => ih.bind fun _ => .pure _

theorem forM {f : α → Act σ PUnit} (h : ∀ a, Within limits k (f a)) (as : List α) :
    Within limits k (as.forM f) := by
  induction as with
  | nil => exact .pure _
  | cons a as ih => exact (h a).bind fun _ => ih

theorem foldlM {f : β → α → Act σ β} (h : ∀ b a, Within limits k (f b a)) (as : List α) (b : β) :
    Within limits k (as.foldlM f b) := by
  induction as generalizing b with
  | nil => exact .pure _
  | cons a as ih =>
    rw [List.foldlM_cons]
    exact (h b a).bind ih

theorem findM? {p : α → Act σ Bool} (h : ∀ a, Within limits k (p a)) (as : List α) :
    Within limits k (as.findM? p) := by
  induction as with
  | nil => exact .pure _
  | cons a as ih =>
    refine (h a).bind fun found => ?_
    cases found with
    | true => exact .pure _
    | false => exact ih

/-! ### Looking and changing -/

theorem fail {fault : Fault} (h : fault.isOrdinary) : Within limits k (fail fault : Act σ α) :=
  fun m _ => .fail m h

theorem look (f : Machine σ → α) : Within limits k (look f) := fun m _ => .refl m

theorem lookHeap (f : Heap → α) : Within limits k (lookHeap f : Act σ α) := .look _

theorem display (v : Value) : Within limits k (display v : Act σ String) := .look _

theorem number (v : Value) : Within limits k (number v : Act σ Float) := .look _

theorem changeHeap {f : Heap → Heap} (h : ∀ heap, Heap.Step heap (f heap)) :
    Within limits k (changeHeap f : Act σ Unit) := fun m _ => .heap m (h m.heap).steps

theorem withHeap {f : Heap → α × Heap} (h : ∀ heap, Heap.Steps heap (f heap).2) :
    Within limits k (withHeap f : Act σ α) := fun m _ => .heap m (h m.heap)

theorem newArray (items : Array Value) : Within limits k (newArray items : Act σ Value) :=
  .withHeap fun heap => (Heap.Step.newArray heap items).steps

theorem newObject (members : Dict Value) : Within limits k (newObject members : Act σ Value) :=
  .withHeap fun heap => (Heap.Step.newObject heap _).steps

theorem newScope (env : Env) (frame : Frame) : Within limits k (newScope env frame : Act σ Env) :=
  .withHeap fun heap => (Heap.Step.newFrame heap frame).steps

theorem newClosure (d : FunctionDef) (env : Env) :
    Within limits k (newClosure d env : Act σ Value) :=
  .withHeap fun heap => (Heap.Step.newFunction heap).steps

theorem newNative (f : Native) : Within limits k (newNative f : Act σ Value) :=
  .withHeap fun heap => (Heap.Step.newFunction heap).steps

theorem newMethod (method : Method) (receiver : Value) :
    Within limits k (newMethod method receiver : Act σ Value) :=
  .withHeap fun heap => (Heap.Step.newFunction heap).steps

theorem throwMistake (e : Mistake) : Within limits k (throwMistake e : Act σ α) :=
  bind (.withHeap fun heap => (Heap.Step.newObject heap _).steps) fun _ => .fail rfl

theorem write (line : String) :
    Within limits k (write (line ++ Console.lineBreak) : Act σ Unit) := fun m _ => .write m line

theorem checkText (v : Value) : Within limits k (checkText limits v : Act σ Value) := by
  unfold Act.checkText
  split
  · split
    · exact .throwMistake _
    · exact .pure _
  · exact .pure _

/-! ### The host -/

theorem askHost (f : σ → Except Tree.Error α) : Within limits k (askHost f) := by
  intro m hm
  unfold Act.askHost
  split
  · exact .refl m
  · exact throwMistake _ m hm

theorem changeHost {change : σ → Except Tree.Error Unit × σ} (h : Host.Request change) :
    Within limits k (changeHost change) := by
  intro m hm
  have hhost : Course limits m none _ := .host m h
  unfold Act.changeHost
  split <;> rename_i heq
  · rw [heq] at hhost
    exact hhost
  · rw [heq] at hhost
    exact hhost.trans (throwMistake _ _ (Nat.le_trans hhost.budget_le hm))

/-! ### Limits

A turn and a level of nesting are where the budget gets smaller.  The depth that an act is given is
taken back at its end however it ends, and there is always a level to take back. -/

/-- Work in a turn of its own.  The turn that is granted leaves a smaller budget to the work. -/
theorem turn {setup : Act σ α} {next : α → Act σ β} (work : Work) (hsetup : Within limits k setup)
    (hnext : ∀ j, j + 1 = k → ∀ a, Within limits j (next a)) :
    Within limits k (do
      beginTurn limits
      let a ← setup
      note (.worked work)
      next a) := by
  intro m hm
  by_cases hturns : m.turns < limits.maxTurns
  · have hbudget : limits.budget { m with turns := m.turns + 1 } + 1 = limits.budget m := by
      simp only [Limits.budget]
      omega
    have hset := hsetup { m with turns := m.turns + 1 } (by omega)
    rw [bind_of_ok (beginTurn_of_lt hturns)]
    cases heq : setup { m with turns := m.turns + 1 } with
    | ok a m' =>
      rw [heq] at hset
      rw [bind_of_ok heq]
      obtain ⟨j, rfl⟩ : ∃ j, k = j + 1 := ⟨k - 1, by omega⟩
      have hle : limits.budget (m'.noted (.worked work)) ≤ j :=
        Nat.le_trans hset.budget_le (by omega)
      exact .turn work hturns hset (hnext j rfl a _ hle)
    | error fault m' =>
      rw [heq] at hset
      rw [bind_of_error heq]
      exact .idleTurn hturns hset
  · rw [bind_of_error (beginTurn_of_le (Nat.le_of_not_lt hturns))]
    exact .meetTurns m (Nat.le_of_not_lt hturns)

/-- An act one level of nesting deeper has the budget of that level less. -/
theorem deeper (h : ∀ j, j + 2 = k → Within limits j act) :
    Within limits k (deeper limits act) := by
  intro m hm
  unfold Act.deeper
  split
  · rename_i hdepth
    have hbudget : limits.budget { m with evalDepth := m.evalDepth + 1 } + 2 = limits.budget m := by
      simp only [Limits.budget]
      omega
    obtain ⟨j, rfl⟩ : ∃ j, k = j + 2 := ⟨k - 2, by omega⟩
    have hact := h j rfl { m with evalDepth := m.evalDepth + 1 } (by omega)
    cases heq : act { m with evalDepth := m.evalDepth + 1 } with
    | ok a m' =>
      rw [heq] at hact
      have hpos : 0 < m'.evalDepth := Nat.lt_of_lt_of_eq (Nat.succ_pos _) hact.evalDepth_eq.symm
      dsimp only
      rw [rise_of_pos hpos]
      exact .deeper hdepth hact
    | error fault m' =>
      rw [heq] at hact
      have hpos : 0 < m'.evalDepth := Nat.lt_of_lt_of_eq (Nat.succ_pos _) hact.evalDepth_eq.symm
      dsimp only
      rw [rise_of_pos hpos]
      exact .deeper hdepth hact
  · exact .meetDepth m (.inl (by omega))

theorem inCall (h : Within limits k act) : Within limits k (inCall limits act) := by
  intro m hm
  unfold Act.inCall
  split
  · rename_i hdepth
    have hact := h { m with callDepth := m.callDepth + 1 } hm
    cases heq : act { m with callDepth := m.callDepth + 1 } with
    | ok a m' =>
      rw [heq] at hact
      have hpos : 0 < m'.callDepth := Nat.lt_of_lt_of_eq (Nat.succ_pos _) hact.callDepth_eq.symm
      dsimp only
      rw [leave_of_pos hpos]
      exact .inCall hdepth hact
    | error fault m' =>
      rw [heq] at hact
      have hpos : 0 < m'.callDepth := Nat.lt_of_lt_of_eq (Nat.succ_pos _) hact.callDepth_eq.symm
      dsimp only
      rw [leave_of_pos hpos]
      exact .inCall hdepth hact
  · exact .meetDepth m (.inr (by omega))

end Within

end Act

end MemoryShell.Script
