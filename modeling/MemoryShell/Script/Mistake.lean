/-
  MemoryShell/Script/Mistake.lean
  ===============================
  **What a script can do wrong, as far as it can catch it.**

  Every mistake becomes an error object with a name and a message.  The texts of the values in a
  mistake are made when it happens, since the values may change before anyone reads the message.
-/
import MemoryShell.Tree.Error
import MemoryShell.Script.Library

namespace MemoryShell.Script

/-- Mistakes of a script. -/
inductive Mistake where
  /-- A name that no scope declares. -/
  | notDefined (name : String)
  | constantAssignment
  | notIterable (value : String)
  | notAFunction (value : String)
  | notAConstructor (value : String)
  /-- A property of a missing value. -/
  | readOfMissing (value key : String)
  | writeOfMissing (value key : String)
  | arrayLength
  | stringLength
  | repeatCount (count : String)
  /-- A fold of no values without a first one. -/
  | emptyFold
  | circularJson
  | malformedJson (message : String)
  | unknownModule (name : String)
  /-- A script that ends itself. -/
  | exited (code : String)
  | tree (error : Tree.Error)
deriving DecidableEq, Repr

namespace Mistake

/-- The kind of error object that a mistake becomes. -/
def kind : Mistake → ErrorKind
  | .notDefined _ => .referenceError
  | .constantAssignment | .notIterable _ | .notAFunction _ | .notAConstructor _
  | .readOfMissing _ _ | .writeOfMissing _ _ | .emptyFold | .circularJson => .typeError
  | .arrayLength | .stringLength | .repeatCount _ => .rangeError
  | .malformedJson _ => .syntaxError
  | .unknownModule _ | .exited _ | .tree _ => .error

def message : Mistake → String
  | .notDefined name => name ++ " is not defined"
  | .constantAssignment => "Assignment to constant variable."
  | .notIterable value => value ++ " is not iterable"
  | .notAFunction value => value ++ " is not a function"
  | .notAConstructor value => value ++ " is not a constructor"
  | .readOfMissing value key =>
    "Cannot read properties of " ++ value ++ " (reading '" ++ key ++ "')"
  | .writeOfMissing value key =>
    "Cannot set properties of " ++ value ++ " (setting '" ++ key ++ "')"
  | .arrayLength => "Invalid array length"
  | .stringLength => "Invalid string length"
  | .repeatCount count => "Invalid count value: " ++ count
  | .emptyFold => "Reduce of empty array with no initial value"
  | .circularJson => "Converting circular structure to JSON"
  | .malformedJson message => message
  | .unknownModule name => "Cannot find module '" ++ name ++ "'"
  | .exited code => "Process exited with code " ++ code
  | .tree error => error.message

end Mistake

end MemoryShell.Script
