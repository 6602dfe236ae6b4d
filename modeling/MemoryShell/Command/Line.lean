/-
  MemoryShell/Command/Line.lean
  =============================
  **From a typed line to sub-commands and their words.**

  A line holds sub-commands separated by semicolons.  In a sub-command the text up to the first `>`
  is the command and its arguments, separated by blanks, and the text from there up to the next `>`
  is the target of a redirect; what follows a second `>` is ignored.
-/
import MemoryShell.Text.Blank
import MemoryShell.Text.Search

namespace MemoryShell.Command

/-- The words of a sub-command. -/
structure Words where
  name : String
  args : List String
  redirect : Option String
deriving DecidableEq, Repr

/-- The sub-commands of a line: trimmed, empty ones left out. -/
def splitLine (line : String) : List String :=
  ((Text.splitOnChar ';' line).map Text.trim).filter fun part => !part.isEmpty

/-- The target of a redirect, given all that follows the first `>`. -/
def redirectTarget (rest : List Char) : Option String :=
  let target := Text.trimChars (rest.takeWhile (· ≠ '>'))
  if target.isEmpty then none else some (String.ofList target)

/-- The words of a sub-command. -/
def Words.ofText (input : String) : Words :=
  let (command, redirect) :=
    match Text.cutAt '>' input.toList with
    | some (command, rest) => (command, redirectTarget rest)
    | none => (input.toList, none)
  match (Text.wordsFrom [] command).map String.ofList with
  | [] => ⟨"", [], redirect⟩
  | name :: args => ⟨name, args, redirect⟩

end MemoryShell.Command
