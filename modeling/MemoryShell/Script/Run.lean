/-
  MemoryShell/Script/Run.lean
  ===========================
  **Running the source of a script on a host.**

  A run always has an output.  A script that ends with a fault, or whose source is no program, ends
  its output with one line that says so.
-/
import MemoryShell.Script.Console
import MemoryShell.Script.Evaluation
import MemoryShell.Script.Grammar

namespace MemoryShell.Script

/-- The output of a run and the host that it leaves. -/
structure Outcome (σ : Type) where
  output : String
  host : σ

/-- The tree of files that a run on one leaves. -/
abbrev Outcome.tree (o : Outcome Tree) : Tree := o.host

/-- The text for an assignment to what cannot be assigned to. -/
def badTargetText : String := "SyntaxError: Invalid left-hand side in assignment (line 0, column 0)"

/-- The text for a run that was given up. -/
def givenUpText : String := "internal error"

def Fault.message (h : Heap) : Fault → String
  | .thrown v => h.errorMessage v
  | .limit cause => cause.message
  | .badTarget => badTargetText
  | .busyArray | .outOfRange | .exhausted => givenUpText

namespace Act

/-- Execute the statements of a program until one returns. -/
def execTop (r : Runner σ) : List Stmt → Act σ Unit
  | [] => return ()
  | s :: rest => do
    match ← r.exec s globalEnv with
    | .returned _ => return ()
    | _ => execTop r rest

def runProgram [Host σ] (limits : Limits) (p : Program) : Act σ Unit := do
  installGlobals
  hoist p.body globalEnv
  execTop (runner limits) p.body

end Act

/-- The outcome of an act that is a whole run.  A final fault takes the output with it. -/
def Outcome.ofResult : Result σ Unit → Outcome σ
  | .ok _ m => ⟨Console.finish m.console, m.host⟩
  | .error fault m =>
    let line := Console.executionError (fault.message m.heap)
    ⟨Console.finish (if fault.isFinal then line else m.console ++ line), m.host⟩

/-- How a program ends that is run on a host. -/
def runOn [Host σ] (limits : Limits) (p : Program) (host : σ) : Result σ Unit :=
  Act.runProgram limits p (Machine.start host)

def runSource [Host σ] (limits : Limits) (source : String) (host : σ) : Outcome σ :=
  match parse source with
  | .ok p => .ofResult (runOn limits p host)
  | .error e => ⟨Console.finish (Console.executionError e.message), host⟩

end MemoryShell.Script
