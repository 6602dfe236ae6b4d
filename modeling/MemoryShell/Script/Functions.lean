/-
  MemoryShell/Script/Functions.lean
  =================================
  **What the ready-made functions do.**

  Files are those of the host.  Reading what is no file gives the empty text; every other failure of
  the host is a mistake of the script.
-/
import MemoryShell.Script.Console
import MemoryShell.Script.Exchange
import MemoryShell.Script.Property
import MemoryShell.Script.Position

namespace MemoryShell.Script

/-! ### Files and chance -/

def fileFunctions : List Native := [
  .readFile, .writeFile, .unlink, .makeDirectory, .fileExists, .readDirectory]

/-- The next state behind random numbers. -/
def nextRandom (state : Nat) : Nat :=
  (6364136223846793005 * state + 1442695040888963407) % Decimal.twoTo 64

/-- The random number of a state: at least zero and less than one. -/
def randomNumber (state : Nat) : Float :=
  Float.ofNat (state / Decimal.twoTo 11) / Float.ofNat (Decimal.twoTo 53)

/-! ### Numbers -/

/-- The sign of a number: minus one, one, or the number itself if it is zero or none. -/
def signum (x : Float) : Float := if x.isNaN || x == 0 then x else signOf x

/-- The lesser of two numbers; the first of two equal ones. -/
def lesser (x y : Float) : Float := if y < x then y else x

/-- The greater of two numbers; the first of two equal ones. -/
def greater (x y : Float) : Float := if x < y then y else x

/-- Choose among numbers, beginning with one; if any is none, the result is none. -/
def chosen (choose : Float → Float → Float) (start : Float) (xs : List Float) : Float :=
  if xs.any Float.isNaN then notANumber else xs.foldl choose start

namespace Act

/-! ### Objects -/

def newNamespace (functions : List Native) : Act σ Value := do
  let members ← functions.mapM fun f => do return (f.name, ← newNative f)
  newObject (.ofList members)

def ownEntries (v : Value) : Act σ (List (String × Value)) := do
  (← lookHeap fun h => h.ownKeys v).mapM fun key => do return (key, ← getProperty v key)

def assignFrom (r : ObjectRef) (source : Value) : Act σ Unit := do
  (← ownEntries source).forM fun e => changeHeap fun h => h.setMember r e.1 e.2

/-! ### Dispatch -/

def firstText (args : List Value) : Act σ String := display (argument args 0)

def onNumber (f : Float → Float) (args : List Value) : Act σ Value := do
  return .number (f (← number (argument args 0)))

/-- The base that a value names; undefined names base ten. -/
def radixOf (v : Value) : Act σ Nat :=
  match v with
  | .undefined => pure 10
  | v => do return (integerPart (← number v)).toUInt32.toNat

/-- A line for the console, made from the texts of the arguments. -/
def writeLine (line : List String → String) (args : List Value) : Act σ Value := do
  write (line (← args.mapM display))
  return .undefined

def callNative [Host σ] (f : Native) (args : List Value) : Act σ Value := do
  let first := argument args 0
  match f with
  | .consoleLog => writeLine Console.log args
  | .consoleWarn => writeLine Console.warn args
  | .consoleError => writeLine Console.error args
  | .output =>
    write (Console.plain (← firstText args))
    return .undefined
  | .require =>
    let module ← firstText args
    if module = "fs" then newNamespace fileFunctions else throwMistake (.unknownModule module)
  | .env =>
    let name ← firstText args
    look fun m => (((Host.environment m.host).lookup name).map Value.string).getD .undefined
  | .cwd => look fun m => .string (Host.currentDir m.host)
  | .exit => throwMistake (.exited (← firstText args))
  | .readFile =>
    let path ← firstText args
    look fun m => .string ((Host.read path m.host).getD "")
  | .writeFile =>
    let path ← firstText args
    let content ← display (argument args 1)
    changeHost (Host.write path content)
    return .undefined
  | .unlink =>
    let path ← firstText args
    changeHost (Host.unlink path)
    return .undefined
  | .makeDirectory =>
    let path ← firstText args
    changeHost (Host.makeDirectory path)
    return .undefined
  | .fileExists =>
    let path ← firstText args
    look fun m => .bool (Host.isThere path m.host)
  | .readDirectory =>
    let path ← firstText args
    let names ← askHost (Host.list path)
    newArray (names.map Value.string).toArray
  | .floor => onNumber Float.floor args
  | .ceil => onNumber Float.ceil args
  | .round => onNumber (fun x => (x + 0.5).floor) args
  | .trunc => onNumber Decimal.trunc args
  | .abs => onNumber Float.abs args
  | .sign => onNumber signum args
  | .sqrt => onNumber Float.sqrt args
  | .pow => return .number ((← number first).pow (← number (argument args 1)))
  | .min => return .number (chosen lesser infinity (← args.mapM number))
  | .max => return .number (chosen greater (-infinity) (← args.mapM number))
  | .random => fun m => .ok (.number (randomNumber m.random)) { m with random := nextRandom m.random }
  | .stringify => stringify first (argument args 2)
  | .parseJson => parseText (← firstText args)
  | .keys => newArray ((← lookHeap fun h => h.ownKeys first).map Value.string).toArray
  | .values => newArray ((← ownEntries first).map Prod.snd).toArray
  | .entries =>
    let pairs ← (← ownEntries first).mapM fun e => newArray #[.string e.1, e.2]
    newArray pairs.toArray
  | .assign =>
    match first with
    | .object r => (args.drop 1).forM (assignFrom r)
    | _ => pure ()
    return first
  | .isArray => return .bool (match first with | .array _ => true | _ => false)
  | .toNumber => if args.isEmpty then return .number 0 else onNumber id args
  | .toText => if args.isEmpty then return .string "" else return .string (← display first)
  | .toBool => return .bool first.truthy
  | .parseInt =>
    let text ← firstText args
    return .number (readInteger text (← radixOf (argument args 1)))
  | .parseFloat => return .number (readFloat (← firstText args))
  | .isNaN => return .bool (← number first).isNaN
  | .isFinite => return .bool (← number first).isFinite
  | .makeError kind =>
    let message ← match first with
      | .undefined => pure ""
      | v => display v
    withHeap fun h =>
      let (r, h) := h.newError kind message
      (.object r, h)

end Act

end MemoryShell.Script
