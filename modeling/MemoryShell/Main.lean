/-
  MemoryShell/Main.lean
  =====================
  **The program: reads its arguments, its file of settings and its lines, and writes.**

  There is no client for web requests here, so requests find no network.
-/
import MemoryShell.CommandLine

namespace MemoryShell.CommandLine

def emit (text : String) : IO Unit := do
  let out ← IO.getStdout
  out.putStr text
  out.flush

/-- The content of a file, if it can be read. -/
def contentOf (path : String) : IO (Option String) := do
  match ← (IO.FS.readFile path).toBaseIO with
  | .ok content => return some content
  | .error _ => return none

/-- Answer lines until the input ends. -/
partial def answerLines (asMarkup : Bool) (s : Session) : IO Unit := do
  emit (prompt s)
  let line ← (← IO.getStdin).getLine
  if line.isEmpty then return
  let (text, s) := respondTyped asMarkup s line
  emit text
  answerLines asMarkup s

/-- Run with arguments that can be used. -/
def runWith (a : Arguments) : IO UInt32 := do
  let content ← match a.config with
    | some path => contentOf path
    | none => pure none
  match optionsOf a fun _ => content with
  | .error e =>
    IO.eprintln ("Error: " ++ e.message)
    return failedCode.toUInt32
  | .ok options =>
    let s := start a options none
    if a.lines.isEmpty then answerLines a.asMarkup s
    else emit (runLines a.asMarkup s a.lines)
    return 0

end MemoryShell.CommandLine

open MemoryShell.CommandLine

def main (args : List String) : IO UInt32 := do
  match Usage.ofArguments args with
  | .help =>
    emit helpText
    return 0
  | .version =>
    emit versionText
    return 0
  | .refused =>
    IO.eprintln usageText
    return refusedCode.toUInt32
  | .run a => runWith a
