/-
  MemoryShell/Proofs/Tree/Failures.lean
  =====================================
  **A failure changes nothing.**

  A sub-command comes down to one task: an answer, one change of the tree, or a script.  A change is
  tried in place, and what was done before a failure stays done; but on a consistent tree nothing
  was, since the checks of each operation come first and no step inside a removal fails.  A script
  never makes its sub-command fail.
-/
import MemoryShell.Command.Run
import MemoryShell.Proofs.Tree.InPlace

namespace MemoryShell.Command

open Tree (Change)

/-! ### Tasks

A sub-command looks at the tree once, and what it then does to the tree is one of three things. -/

/-- What a sub-command comes down to. -/
inductive Task where
  | answer (r : Result)
  | change (c : Change) (failure : Tree.Error → Failure)
  | script (source : String)

namespace Task

def ofCat (args : List String) (redirect : Option String) (t : Tree) : Task :=
  match args, redirect with
  | _ :: words, some target =>
    let path := t.resolve target
    .change (.write path (" ".intercalate words)) fun e => .notWritten path e.reason
  | _, _ => .answer (cat args redirect t).1

/-- The task of a command that needs an argument. -/
def ofOperand (command : Builtin) (args : List String) (f : String → Task) : Task :=
  match args with
  | word :: _ => f word
  | [] => .answer (.failure (.missingOperand command))

def ofRm (args : List String) (t : Tree) : Task :=
  let force := args.contains "-f"
  ofOperand .rm (args.filter fun word => !Curl.isOption word) fun word =>
    let path := t.resolve word
    let failure (e : Tree.Error) : Failure := .notRemoved word e.reason
    match t.kind? path with
    | none => .answer (if force then .silent else .failure (.notRemoved word noSuchFile))
    | some .file => .change (.removeFile path force) failure
    | some .directory =>
      if args.contains "-r" then .change (.removeDirectory path force) failure
      else .answer (.failure .isDirectory)

def ofBuiltin (b : Builtin) (words : Words) (t : Tree) : Task :=
  match b with
  | .cat => ofCat words.args words.redirect t
  | .cd =>
    ofOperand .cd words.args fun word =>
      .change (.changeDirectory (t.resolve word)) fun _ => .noDirectory word
  | .mkdir =>
    ofOperand .mkdir words.args fun word =>
      .change (.makeDirectory (t.resolve word)) fun e =>
        if e.cause = .alreadyExists then .directoryExists (t.resolve word)
        else .noParent (t.resolve word)
  | .touch =>
    ofOperand .touch words.args fun word =>
      .change (.touch (t.resolve word)) fun _ => .notTouched (t.resolve word)
  | .rm => ofRm words.args t
  | .ls | .clear | .pwd | .curl | .man => .answer (runBuiltin b words t).1

def ofScript (word : String) (t : Tree) : Task :=
  let path := t.resolve word
  match t.read path with
  | .ok source =>
    if scriptEnding.isSuffixOf path.toList then .script source
    else .answer (.failure (.notExecutable word))
  | .error _ => .answer (.failure (.notExecutable word))

def ofText (input : String) (t : Tree) : Task :=
  let words := Words.ofText input
  match Invocation.ofName words.name with
  | .builtin b => ofBuiltin b words t
  | .runScript word => ofScript word t
  | .permissionDenied => .answer (.failure .permissionDenied)
  | .unknown name => .answer (.failure (.unknown name))

/-! ### Doing a task -/

/-- What a sub-command reports of a change. -/
def report (failure : Tree.Error → Failure) : Except Tree.Error Unit → Result
  | .ok () => .silent
  | .error e => .failure (failure e)

/-- Do a task, with a change that leaves the whole tree that it makes or none. -/
def run (limits : Script.Limits) (t : Tree) : Task → Effect
  | .answer r => (r, t)
  | .change c failure => .ofChange t (t.apply c) failure
  | .script source =>
    let outcome := Script.runSource limits source t
    (.success outcome.output, outcome.tree)

/-- Do a task, with a change that is made in place. -/
def runInPlace (limits : Script.Limits) (t : Tree) : Task → Option Effect
  | .answer r => some (r, t)
  | .change c failure =>
    (Tree.InPlace.runOn (Tree.InPlace.apply c) t).map fun (ended, t) => (report failure ended, t)
  | .script source =>
    let outcome := Script.runSource limits source t
    some (.success outcome.output, outcome.tree)

end Task

/-- Run a sub-command on a tree that is changed in place; `none` if it never ends. -/
def executeInPlace (limits : Script.Limits) (input : String) (t : Tree) : Option Effect :=
  (Task.ofText input t).runInPlace limits t

/-! ### Sub-commands do their tasks -/

namespace Task

variable (limits : Script.Limits) (t : Tree)

theorem run_ofCat (args : List String) (redirect : Option String) :
    (ofCat args redirect t).run limits t = cat args redirect t := by
  cases args with
  | nil => cases redirect <;> rfl
  | cons word words =>
    cases redirect with
    | some target => rfl
    | none =>
      unfold ofCat cat
      simp only
      cases t.read (t.resolve word) <;> rfl

theorem run_ofOperand (command : Builtin) (args : List String) {f : String → Task}
    {g : String → Effect} (h : ∀ word, (f word).run limits t = g word) :
    (ofOperand command args f).run limits t = withOperand command args t g := by
  cases args with
  | nil => rfl
  | cons word rest => exact h word

theorem run_ofRm (args : List String) : (ofRm args t).run limits t = rm args t := by
  refine run_ofOperand limits t .rm _ fun word => ?_
  simp only
  cases t.kind? (t.resolve word) with
  | none => cases args.contains "-f" <;> rfl
  | some kind =>
    cases kind with
    | file => rfl
    | directory => cases args.contains "-r" <;> rfl

theorem run_ofBuiltin (b : Builtin) (words : Words) :
    (ofBuiltin b words t).run limits t = runBuiltin b words t := by
  cases b with
  | ls | clear | pwd | curl | man => rfl
  | cat => exact run_ofCat limits t _ _
  | cd => exact run_ofOperand limits t .cd _ fun _ => rfl
  | mkdir => exact run_ofOperand limits t .mkdir _ fun _ => rfl
  | touch => exact run_ofOperand limits t .touch _ fun _ => rfl
  | rm => exact run_ofRm limits t _

theorem run_ofScript (word : String) :
    (ofScript word t).run limits t = runScript limits word t := by
  unfold ofScript runScript
  simp only
  cases t.read (t.resolve word) with
  | error e => rfl
  | ok source => cases scriptEnding.isSuffixOf (t.resolve word).toList <;> rfl

theorem run_ofText (input : String) : (ofText input t).run limits t = execute limits input t := by
  unfold ofText execute
  simp only
  cases Invocation.ofName (Words.ofText input).name with
  | builtin b => exact run_ofBuiltin limits t b _
  | runScript word => exact run_ofScript limits t word
  | permissionDenied | unknown => rfl

/-- A task that reports a failure is an answer or a change that failed. -/
theorem run_unchanged (task : Task) (hstderr : (task.run limits t).1.stderr ≠ "") :
    (task.run limits t).2 = t := by
  cases task with
  | answer r => rfl
  | change c failure =>
    rw [run] at hstderr ⊢
    cases hchanged : t.apply c with
    | ok t' =>
      rw [hchanged] at hstderr
      exact absurd rfl hstderr
    | error e => rfl
  | script source => exact absurd rfl hstderr

/-- On a consistent tree a task that is done in place comes to the same. -/
theorem runInPlace_eq {t : Tree} (h : t.Consistent) (task : Task) :
    task.runInPlace limits t = some (task.run limits t) := by
  cases task with
  | answer r => rfl
  | change c failure =>
    rw [runInPlace, run, h.runOn_apply c]
    cases t.apply c <;> rfl
  | script source => rfl

end Task

end MemoryShell.Command

namespace MemoryShell.Tree

open MemoryShell.Command (executeInPlace execute)

variable {t : Tree}

/-- A commit that reports a failure leaves the tree as it was. -/
theorem commit_unchanged {changed : Except Error Tree} {e : Error}
    (h : (t.commit changed).1 = .error e) : (t.commit changed).2 = t := by
  cases changed with
  | ok t' => cases h
  | error e' => rfl

/-- On a consistent tree every change ends, and so does every sub-command, also when the tree is
    changed in place; and if a change fails or a sub-command reports a failure, then the tree is the
    one it was. -/
theorem Consistent.unchanged_of_failure (h : t.Consistent) :
    (∀ c, ∃ ended t', InPlace.runOn (InPlace.apply c) t = some (ended, t') ∧
      t.commit (t.apply c) = (ended, t') ∧ ∀ e, ended = .error e → t' = t) ∧
    ∀ limits input, ∃ result t', executeInPlace limits input t = some (result, t') ∧
      Command.execute limits input t = (result, t') ∧ (result.stderr ≠ "" → t' = t) := by
  constructor
  · intro c
    exact ⟨_, _, h.runOn_apply c, rfl, fun e he => commit_unchanged he⟩
  · intro limits input
    have heq := Command.Task.run_ofText limits t input
    refine ⟨(Command.execute limits input t).1, (Command.execute limits input t).2, ?_, rfl, ?_⟩
    · rw [executeInPlace, Command.Task.runInPlace_eq limits h, heq]
    · rw [← heq]
      exact Command.Task.run_unchanged limits t _

/-- The root cannot go, and a directory cannot be made where one stands; both leave the tree. -/
theorem siblings_unchanged :
    siblings.Consistent ∧
      InPlace.runOn (InPlace.apply (.removeDirectory "/" true)) siblings =
        some (.error ⟨.rootRemoval, .removeDirectory, "/"⟩, siblings) ∧
      executeInPlace {} "mkdir /ab" siblings =
        some (.failure (.directoryExists "/ab"), siblings) := by
  obtain ⟨hchange, hcommand⟩ := siblings_consistent.unchanged_of_failure
  refine ⟨siblings_consistent, ?_, ?_⟩
  · obtain ⟨ended, t', hrun, hcommit, hkept⟩ := hchange (.removeDirectory "/" true)
    have hended : Except.error ⟨.rootRemoval, .removeDirectory, "/"⟩ = ended :=
      congrArg Prod.fst hcommit
    rw [hrun, hkept _ hended.symm, hended]
  · obtain ⟨result, t', hrun, hexecute, hkept⟩ := hcommand {} "mkdir /ab"
    have hresult : Command.Result.failure (.directoryExists "/ab") = result :=
      congrArg Prod.fst hexecute
    rw [hrun, hkept (by rw [← hresult]; decide +kernel), hresult]

end MemoryShell.Tree
