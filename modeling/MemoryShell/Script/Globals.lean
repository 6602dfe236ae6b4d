/-
  MemoryShell/Script/Globals.lean
  ===============================
  **What every script finds in its outermost scope.**

  The outermost scope is the first frame of the heap.  Names in it are ordinary variables: a script
  may give them other values.
-/
import MemoryShell.Script.Functions

namespace MemoryShell.Script

def globalFrame : FrameRef := ⟨0⟩

def globalEnv : Env := [globalFrame]

/-- The machine before a run: a host and an outermost scope without names. -/
def Machine.start (host : σ) : Machine σ where
  heap := (Heap.empty.newFrame .empty).2
  host := host
  console := ""
  random := 1
  turns := 0
  callDepth := 0
  evalDepth := 0
  trail := []

/-- The ratio of a circle's circumference to its diameter. -/
def circleRatio : Float := 3.141592653589793

/-- The base of the natural logarithms. -/
def naturalBase : Float := 2.718281828459045

def mathFunctions : List Native := [
  .floor, .ceil, .round, .trunc, .abs, .sign, .sqrt, .pow, .min, .max, .random]

/-- The functions that have a name of their own in the outermost scope. -/
def globalFunctions : List Native := [
  .output, .toNumber, .toText, .toBool, .parseInt, .parseFloat, .isNaN, .isFinite,
  .makeError .error, .makeError .typeError, .makeError .rangeError]

namespace Act

def declareGlobal (name : String) (v : Value) : Act σ Unit :=
  changeHeap fun h => h.declare globalFrame name v true

def newRecord (members : List (String × Value)) : Act σ Value := newObject (.ofList members)

def newMath : Act σ Value := do
  let functions ← mathFunctions.mapM fun f => do return (f.name, ← newNative f)
  newRecord (("PI", .number circleRatio) :: ("E", .number naturalBase) :: functions)

def newProcess [Host σ] : Act σ Value := do
  let settings ← look fun m => Host.environment m.host
  let env ← newRecord (settings.map fun e => (e.1, .string e.2))
  let cwd ← newNative .cwd
  let exit ← newNative .exit
  newRecord [("env", env), ("cwd", cwd), ("exit", exit)]

def installGlobals [Host σ] : Act σ Unit := do
  let console ← newNamespace [.consoleLog, .consoleWarn, .consoleError]
  let process ← newProcess
  let require ← newNative .require
  let env ← newNative .env
  let global ← newRecord
    [("process", process), ("console", console), ("require", require), ("env", env)]
  declareGlobal "global" global
  declareGlobal "console" console
  declareGlobal "require" require
  declareGlobal "process" process
  declareGlobal "Math" (← newMath)
  declareGlobal "JSON" (← newNamespace [.stringify, .parseJson])
  declareGlobal "Object" (← newNamespace [.keys, .values, .entries, .assign])
  declareGlobal "Array" (← newNamespace [.isArray])
  globalFunctions.forM fun f => do declareGlobal f.name (← newNative f)
  declareGlobal "NaN" (.number notANumber)
  declareGlobal "Infinity" (.number infinity)

end Act

end MemoryShell.Script
