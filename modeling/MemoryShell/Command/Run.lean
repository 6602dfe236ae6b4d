/-
  MemoryShell/Command/Run.lean
  ============================
  **Running sub-commands and lines.**

  The sub-commands of a line run one after the other on the same tree, whatever comes of each.  Only
  `cat` heeds a redirect.  A script runs if its file is there and its path ends in `.js`.
-/
import MemoryShell.Command.Files
import MemoryShell.Script.Run

namespace MemoryShell.Command

/-- Describe a web request for the session to make. -/
def curl (args : List String) : Result :=
  match Curl.request args with
  | .ok request => .action (.fetch request)
  | .error e => .failure (.request e)

def man (args : List String) : Result :=
  match args with
  | [] => .failure (.missingOperand .man)
  | name :: _ =>
    match Builtin.ofName? name with
    | some b => .success b.manual
    | none => .failure (.noManual name)

def scriptEnding : List Char := ".js".toList

def runScript (limits : Script.Limits) (word : String) (t : Tree) : Effect :=
  let path := t.resolve word
  match t.read path with
  | .ok source =>
    if scriptEnding.isSuffixOf path.toList then
      let outcome := Script.runSource limits source t
      (.success outcome.output, outcome.tree)
    else (.failure (.notExecutable word), t)
  | .error _ => (.failure (.notExecutable word), t)

def runBuiltin (b : Builtin) (words : Words) (t : Tree) : Effect :=
  match b with
  | .ls => (ls words.args t, t)
  | .cat => cat words.args words.redirect t
  | .cd => cd words.args t
  | .mkdir => mkdir words.args t
  | .clear => (.action .clearScreen, t)
  | .pwd => (pwd t, t)
  | .touch => touch words.args t
  | .rm => rm words.args t
  | .curl => (curl words.args, t)
  | .man => (man words.args, t)

def execute (limits : Script.Limits) (input : String) (t : Tree) : Effect :=
  let words := Words.ofText input
  match Invocation.ofName words.name with
  | .builtin b => runBuiltin b words t
  | .runScript word => runScript limits word t
  | .permissionDenied => (.failure .permissionDenied, t)
  | .unknown name => (.failure (.unknown name), t)

/-- A sub-command and what came of it. -/
structure Executed where
  input : String
  result : Result
deriving Repr

def executeAll (limits : Script.Limits) : List String → Tree → List Executed × Tree
  | [], t => ([], t)
  | input :: rest, t =>
    let (result, t) := execute limits input t
    let (executed, t) := executeAll limits rest t
    (⟨input, result⟩ :: executed, t)

def executeLine (limits : Script.Limits) (line : String) (t : Tree) : List Executed × Tree :=
  executeAll limits (splitLine line) t

end MemoryShell.Command
