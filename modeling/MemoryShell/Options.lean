/-
  MemoryShell/Options.lean
  ========================
  **The options of a session, and reading them from a file of settings.**

  Every option has a default, and settings that are not known are passed over.  A group of options
  may also be given as an array, which gives the options in their order.
-/
import MemoryShell.Display.Buffer
import MemoryShell.Script.Limits
import MemoryShell.Toml.Reader

namespace MemoryShell

/-- Options for web requests; the time to wait is in milliseconds. -/
structure NetworkOptions where
  isEnabled : Bool := true
  timeout : Nat := 30000
deriving DecidableEq, Repr

/-- The options of a session. -/
structure Options where
  maxLines : Nat := Display.defaultCap
  isSeeded : Bool := true
  limits : Script.Limits := {}
  network : NetworkOptions := {}
deriving DecidableEq, Repr

namespace Options

open Toml

/-! ### Single settings -/

def natural? : Item → Option Nat
  | .integer n => if n < 0 then none else some n.toNat
  | _ => none

def truth? : Item → Option Bool
  | .boolean b => some b
  | _ => none

/-- A setting of a name, or the default if there is none; a setting of the wrong kind is refused. -/
def setting (members : Members) (name : String) (read : Item → Option α) (default : α) : Option α :=
  match members.lookup name with
  | some item => read item
  | none => some default

/-! ### Groups of settings -/

/-- The settings in a group whose names are given in order.  A date has none of them. -/
def group? (names : List String) : Item → Option Members
  | .table _ members | .inlineTable members => some members
  | .array items => some (names.zip items)
  | .tables each => some (names.zip (each.map (.table .header)))
  | .dateTime => some []
  | _ => none

def limits? (item : Item) : Option Script.Limits := do
  let members ← group? ["max_loop_iterations", "max_call_depth", "max_eval_depth",
    "max_array_length", "max_string_length"] item
  let default : Script.Limits := {}
  return {
    maxTurns := ← setting members "max_loop_iterations" natural? default.maxTurns
    maxCallDepth := ← setting members "max_call_depth" natural? default.maxCallDepth
    maxEvalDepth := ← setting members "max_eval_depth" natural? default.maxEvalDepth
    maxArrayLength := ← setting members "max_array_length" natural? default.maxArrayLength
    maxStringLength := ← setting members "max_string_length" natural? default.maxStringLength }

def network? (item : Item) : Option NetworkOptions := do
  let members ← group? ["enabled", "timeout_ms"] item
  let default : NetworkOptions := {}
  return {
    isEnabled := ← setting members "enabled" truth? default.isEnabled
    timeout := ← setting members "timeout_ms" natural? default.timeout }

def ofMembers? (members : Members) : Option Options := do
  let default : Options := {}
  return {
    maxLines := ← setting members "max_lines" natural? default.maxLines
    isSeeded := ← setting members "seed" truth? default.isSeeded
    limits := ← setting members "sandbox" limits? default.limits
    network := ← setting members "network" network? default.network }

/-- The options that a text gives, if it is well formed and its settings are of the right kinds. -/
def ofText? (text : String) : Option Options := do ofMembers? (← Toml.ofText? text)

/-! ### Files -/

/-- Why a file gives no options. -/
inductive LoadError where
  | missing (path : String)
  | malformed (path : String)
deriving DecidableEq, Repr

def LoadError.message : LoadError → String
  | .missing path =>
    "cannot read config file " ++ path ++ ": No such file or directory (os error 2)"
  | .malformed path => "invalid config file " ++ path

/-- The options in a file, given its content if it is there. -/
def load (path : String) (content : Option String) : Except LoadError Options :=
  match content with
  | none => .error (.missing path)
  | some text =>
    match ofText? text with
    | some options => .ok options
    | none => .error (.malformed path)

end Options

end MemoryShell
