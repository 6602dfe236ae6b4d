/-
  MemoryShell/Proofs/Tree/Commands.lean
  =====================================
  **Scripts and commands keep trees consistent.**

  Whatever a script or a command names is first resolved against the current directory, which gives
  a canonical path, and what then changes the tree is one operation.  A script may make many such
  requests and may end anywhere between two of them.
-/
import MemoryShell.Command.Run
import MemoryShell.Proofs.Script.Runs
import MemoryShell.Proofs.Tree.Removal

namespace MemoryShell.Tree.Consistent

open MemoryShell.Path (Canonical)

variable {t : Tree} (h : t.Consistent)
include h

theorem resolve_canonical (path : String) : Canonical (t.resolve path) :=
  Path.normalize_canonical (h.canonical (exists?_of_isDirectory h.currentDir)) path

/-! ### Scripts -/

theorem commit {changed : Except Error Tree} (hok : ∀ t', changed = .ok t' → t'.Consistent) :
    (t.commit changed).2.Consistent := by
  cases changed with
  | ok t' => exact hok t' rfl
  | error => exact h

/-- Each request of a script keeps the tree consistent. -/
theorem request {change : Tree → Except Error Unit × Tree} (hchange : Script.Host.Request change) :
    (change t).2.Consistent := by
  cases hchange with
  | write path content => exact h.commit fun _ hok => h.write (h.resolve_canonical path) hok
  | unlink path => exact h.commit fun _ hok => h.removeFile hok
  | makeDirectory path =>
    refine h.commit fun t' hok => ?_
    unfold ensureDirectory at hok
    split at hok
    · cases hok
      exact h
    · exact h.makeDirectory (h.resolve_canonical path) hok

/-- A run leaves a consistent tree however it ends. -/
theorem runOn (limits : Script.Limits) (p : Script.Program) :
    (Script.runOn limits p t).machine.host.Consistent :=
  (Script.runOn_course limits p t).host_keeps (fun _ hchange _ ht => ht.request hchange) h

theorem runSource (limits : Script.Limits) (source : String) :
    (Script.runSource limits source t).tree.Consistent := by
  unfold Script.runSource
  split
  · rename_i p _
    have hrun := h.runOn limits p
    cases hresult : Script.runOn limits p t <;> rw [hresult] at hrun <;> exact hrun
  · exact h

/-! ### Commands -/

theorem ofChange {changed : Except Error Tree} {failure : Error → Command.Failure}
    (hok : ∀ t', changed = .ok t' → t'.Consistent) :
    (Command.Effect.ofChange t changed failure).2.Consistent := by
  cases changed with
  | ok t' => exact hok t' rfl
  | error => exact h

theorem withOperand {command : Command.Builtin} {args : List String} {f : String → Command.Effect}
    (hf : ∀ word, (f word).2.Consistent) : (Command.withOperand command args t f).2.Consistent := by
  cases args with
  | nil => exact h
  | cons word rest => exact hf word

theorem cat (args : List String) (redirect : Option String) :
    (Command.cat args redirect t).2.Consistent := by
  unfold Command.cat
  split
  · exact h
  · exact h.ofChange fun _ hok => h.write (h.resolve_canonical _) hok
  · simp only
    split
    · exact h
    · exact h

theorem rm (args : List String) : (Command.rm args t).2.Consistent := by
  refine h.withOperand fun word => ?_
  simp only
  split
  · split
    · exact h
    · exact h
  · exact h.ofChange fun _ hok => h.removeFile hok
  · split
    · exact h.ofChange fun _ hok => h.removeDirectory hok
    · exact h

theorem runBuiltin (b : Command.Builtin) (words : Command.Words) :
    (Command.runBuiltin b words t).2.Consistent := by
  cases b with
  | ls | clear | pwd | curl | man => exact h
  | cat => exact h.cat _ _
  | cd => exact h.withOperand fun word => h.ofChange fun _ hok => h.changeDirectory hok
  | mkdir =>
    exact h.withOperand fun word => h.ofChange fun _ hok =>
      h.makeDirectory (h.resolve_canonical word) hok
  | touch =>
    exact h.withOperand fun word => h.ofChange fun _ hok => h.touch (h.resolve_canonical word) hok
  | rm => exact h.rm _

theorem runScript (limits : Script.Limits) (word : String) :
    (Command.runScript limits word t).2.Consistent := by
  unfold Command.runScript
  simp only
  split
  · split
    · exact h.runSource limits _
    · exact h
  · exact h

theorem execute (limits : Script.Limits) (input : String) :
    (Command.execute limits input t).2.Consistent := by
  unfold Command.execute
  simp only
  split
  · exact h.runBuiltin _ _
  · exact h.runScript limits _
  · exact h
  · exact h

omit h in
theorem executeAll (limits : Script.Limits) (inputs : List String) {t : Tree} (h : t.Consistent) :
    (Command.executeAll limits inputs t).2.Consistent := by
  induction inputs generalizing t with
  | nil => exact h
  | cons input rest ih => exact ih (h.execute limits input)

end MemoryShell.Tree.Consistent
