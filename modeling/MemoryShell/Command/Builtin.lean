/-
  MemoryShell/Command/Builtin.lean
  ================================
  **The built-in commands: their names and manual pages, and what a name stands for.**
-/

namespace MemoryShell.Command

/-- The built-in commands. -/
inductive Builtin where
  | ls
  | cat
  | cd
  | mkdir
  | clear
  | pwd
  | touch
  | rm
  | curl
  | man
deriving DecidableEq, Repr

namespace Builtin

def all : List Builtin := [.ls, .cat, .cd, .mkdir, .clear, .pwd, .touch, .rm, .curl, .man]

def name : Builtin → String
  | .ls => "ls"
  | .cat => "cat"
  | .cd => "cd"
  | .mkdir => "mkdir"
  | .clear => "clear"
  | .pwd => "pwd"
  | .touch => "touch"
  | .rm => "rm"
  | .curl => "curl"
  | .man => "man"

/-- The command of a name, letters compared as they are. -/
def ofName? (name : String) : Option Builtin := all.find? fun b => b.name = name

theorem ofName?_name (b : Builtin) : ofName? b.name = some b := by cases b <;> decide

def manual : Builtin → String
  | .ls => "Usage: ls\nList directory contents"
  | .cat => "Usage: cat <filename> [<content>]\nConcatenate and display file content"
  | .cd => "Usage: cd <directory>\nChange the current directory"
  | .mkdir => "Usage: mkdir <directory>\nCreate a new directory"
  | .clear => "Usage: clear\nClear the terminal screen"
  | .pwd => "Usage: pwd\nPrint the current working directory"
  | .touch => "Usage: touch <filename>\nCreate an empty file or update the timestamp"
  | .rm =>
    "Usage: rm [options] <file|directory>\nRemove files or directories\nOptions:\n" ++
      "  -r  Recursively remove directories\n" ++
      "  -f  Force remove files and directories"
  | .curl =>
    "Usage: curl [options] <url>\nRetrieve data from a URL\nOptions:\n" ++
      "  -X <method>  Specify request method (GET, POST, etc.)\n" ++
      "  -d <data>    Send data in a POST request\n" ++
      "  -H <header>  Include a header in the request\n" ++
      "  -i           Include response headers in the output\n\n" ++
      "hint: if it fails, try switching to a different browser"
  | .man => "Usage: man <command>\nDisplay the manual page for a command"

end Builtin

/-- What the first word of a sub-command asks for. -/
inductive Invocation where
  | builtin (b : Builtin)
  | runScript (word : String)
  | permissionDenied
  | unknown (name : String)
deriving DecidableEq, Repr

/-- A word that starts with `./` names a script, unless nothing follows. -/
def Invocation.ofName (name : String) : Invocation :=
  match Builtin.ofName? name with
  | some b => .builtin b
  | none =>
    if name = "./" then .permissionDenied
    else if ['.', '/'].isPrefixOf name.toList then .runScript name
    else .unknown name

end MemoryShell.Command
