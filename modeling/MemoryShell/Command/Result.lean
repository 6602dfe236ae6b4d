/-
  MemoryShell/Command/Result.lean
  ===============================
  **What comes of a sub-command: output, a failure, or something for the session to do.**

  A failure never stops the sub-commands behind it.  Some failures name a path as it was typed,
  others the path that it stands for; which one is part of each command's text.
-/
import MemoryShell.Command.Builtin
import MemoryShell.Command.Curl

namespace MemoryShell.Command

/-- Why a sub-command fails. -/
inductive Failure where
  | missingOperand (command : Builtin)
  | noDirectory (word : String)
  | notListed (path : String)
  | catUsage
  | notRead (path : String)
  | notWritten (path reason : String)
  | directoryExists (path : String)
  | noParent (path : String)
  | notTouched (path : String)
  | notRemoved (word reason : String)
  | isDirectory
  | noManual (name : String)
  | request (error : Curl.RequestError)
  | notExecutable (word : String)
  | permissionDenied
  | unknown (name : String)
deriving DecidableEq, Repr

def noSuchFile : String := "No such file or directory"

def Failure.message : Failure → String
  | .missingOperand command => command.name ++ ": missing operand"
  | .noDirectory word => "cd: no such file or directory: " ++ word
  | .notListed path => "ls: cannot access '" ++ path ++ "': " ++ noSuchFile
  | .catUsage => "Usage: cat <filename> [<content>]"
  | .notRead path => "cat: " ++ path ++ ": " ++ noSuchFile
  | .notWritten path reason => "cat: " ++ path ++ ": " ++ reason
  | .directoryExists path => "mkdir: cannot create directory ‘" ++ path ++ "’: File exists"
  | .noParent path => "mkdir: cannot create directory ‘" ++ path ++ "’: " ++ noSuchFile
  | .notTouched path => "touch: cannot touch '" ++ path ++ "': " ++ noSuchFile
  | .notRemoved word reason => "rm: cannot remove '" ++ word ++ "': " ++ reason
  | .isDirectory => "rm: cannot remove directory"
  | .noManual name => "No manual entry for " ++ name
  | .request error => error.message
  | .notExecutable word => word ++ ": " ++ noSuchFile ++ " or not executable"
  | .permissionDenied => "zsh: permission denied: ./"
  | .unknown name => "Command not found: " ++ name

/-- What a sub-command asks of the session. -/
inductive Action where
  | clearScreen
  | fetch (request : Request)
deriving Repr

/-- What comes of a sub-command. -/
inductive Result where
  | success (output : String)
  | failure (f : Failure)
  | action (a : Action)
deriving Repr

namespace Result

def silent : Result := .success ""

def stdout : Result → String
  | .success output => output
  | .failure _ | .action _ => ""

def stderr : Result → String
  | .failure f => f.message
  | .success _ | .action _ => ""

def action? : Result → Option Action
  | .action a => some a
  | .success _ | .failure _ => none

def shown (r : Result) : String :=
  match r with
  | .failure f => f.message
  | r => r.stdout

end Result

end MemoryShell.Command
