/-
  MemoryShell/Proofs/Session.lean
  ===============================
  **Sessions keep their trees consistent.**

  Only lines reach the tree of a session; what is shown and what comes back from the network does
  not.  So the tree is consistent after any inputs, whatever they are.
-/
import MemoryShell.Proofs.Tree.Commands
import MemoryShell.Session

namespace MemoryShell.Session

/-! ### Inputs -/

/-- What can happen to a session. -/
inductive Input where
  | submit (line : String)
  | execute (line : String)
  /-- The request at a position comes back. -/
  | finish (i : Nat)
  | settle

/-- The session after an input. -/
def step (s : Session) : Input → Session
  | .submit line => (s.submit line).2
  | .execute line => (s.execute line).2
  | .finish i => s.finish i
  | .settle => s.settle

/-- The session after some inputs. -/
def after (s : Session) (inputs : List Input) : Session := inputs.foldl step s

/-! ### What does not reach the tree -/

@[simp] theorem startFetch_tree (s : Session) (request : Request) :
    (s.startFetch request).tree = s.tree := by
  unfold startFetch
  split <;> rfl

@[simp] theorem act_tree (s : Session) (a : Command.Action) : (s.act a).tree = s.tree := by
  cases a with
  | clearScreen => rfl
  | fetch request => exact s.startFetch_tree request

@[simp] theorem showExecuted_tree (s : Session) (e : Command.Executed) :
    (s.showExecuted e).tree = s.tree := by
  unfold showExecuted
  simp only
  split
  · exact act_tree _ _
  · rfl

theorem foldl_tree {f : Session → α → Session} (hf : ∀ s a, (f s a).tree = s.tree) (as : List α)
    (s : Session) :
    (as.foldl f s).tree = s.tree := by
  induction as generalizing s with
  | nil => rfl
  | cons a as ih => rw [List.foldl_cons, ih, hf]

@[simp] theorem finish_tree (s : Session) (i : Nat) : (s.finish i).tree = s.tree := by
  unfold finish
  split <;> rfl

@[simp] theorem settle_tree (s : Session) : (s.settle).tree = s.tree := by
  have hshow (s : Session) (request : Request) :
      (s.showOutput (s.answer request)).tree = s.tree := rfl
  exact foldl_tree hshow s.pending s

theorem execute_tree (s : Session) (line : String) :
    (s.execute line).2.tree = (Command.executeLine s.limits line s.tree).2 :=
  foldl_tree showExecuted_tree _ _

/-! ### The invariant -/

theorem execute_consistent {s : Session} (h : s.tree.Consistent) (line : String) :
    (s.execute line).2.tree.Consistent := by
  rw [execute_tree]
  exact Tree.Consistent.executeAll _ _ h

/-- Each input keeps the tree consistent. -/
theorem step_consistent {s : Session} (h : s.tree.Consistent) (input : Input) :
    (s.step input).tree.Consistent := by
  cases input with
  | submit line =>
    exact execute_consistent (s := { s with history := s.history.record line }) h line
  | execute line => exact execute_consistent h line
  | finish i => rw [step, finish_tree]; exact h
  | settle => rw [step, settle_tree]; exact h

theorem after_consistent {s : Session} (h : s.tree.Consistent) (inputs : List Input) :
    (s.after inputs).tree.Consistent := by
  induction inputs generalizing s with
  | nil => exact h
  | cons input rest ih => exact ih (step_consistent h input)

end MemoryShell.Session
