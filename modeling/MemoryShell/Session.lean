/-
  MemoryShell/Session.lean
  ========================
  **A session: a tree of files, the lines typed, the display, and requests on their way.**

  A line first runs as a whole; then its sub-commands are shown in order, each followed by its
  output.  A request either is answered at once, or waits and shows its answer later.  `finish` lets
  any of the waiting requests come back; `settle` lets all of them come back in the order of their
  start.
-/
import MemoryShell.Command.Run
import MemoryShell.Display.Buffer
import MemoryShell.History

namespace MemoryShell

/-- How a session makes requests. -/
inductive Network where
  /-- There is no collaborator. -/
  | none
  /-- Every request is answered at once. -/
  | immediate (fetch : Fetch)
  /-- Requests wait until they come back. -/
  | deferred (fetch : Fetch)

/-- A session. -/
structure Session where
  tree : Tree
  history : History
  display : Display
  limits : Script.Limits
  network : Network
  /-- The requests on their way, in the order of their start. -/
  pending : List Request

namespace Session

def new (tree : Tree) (maxLines : Nat) (limits : Script.Limits) (network : Network) : Session where
  tree := tree
  history := {}
  display := Display.new maxLines
  limits := limits
  network := network
  pending := []

/-! ### Showing -/

def showOutput (s : Session) (text : String) : Session :=
  { s with display := s.display.pushOutput text }

def startFetch (s : Session) (request : Request) : Session :=
  match s.network with
  | .none => s.showOutput Curl.networkUnavailable
  | .immediate fetch => s.showOutput (Curl.perform (some fetch) request)
  | .deferred _ => { s with pending := s.pending ++ [request] }

def act (s : Session) : Command.Action → Session
  | .clearScreen => { s with display := s.display.clear }
  | .fetch request => s.startFetch request

def showExecuted (s : Session) (e : Command.Executed) : Session :=
  let s := { s with display := s.display.pushPrompt e.input }
  match e.result with
  | .action a => s.act a
  | result => s.showOutput result.shown

/-! ### Lines -/

/-- Run a line and show its sub-commands; also what came of each. -/
def execute (s : Session) (line : String) : List Command.Result × Session :=
  let (executed, tree) := Command.executeLine s.limits line s.tree
  (executed.map Command.Executed.result, executed.foldl showExecuted { s with tree })

def submit (s : Session) (line : String) : List Command.Result × Session :=
  { s with history := s.history.record line }.execute line

/-! ### Requests on their way -/

/-- The answer of a request as it is shown. -/
def answer (s : Session) (request : Request) : String :=
  match s.network with
  | .none => Curl.perform Option.none request
  | .immediate fetch | .deferred fetch => Curl.perform (some fetch) request

def finish (s : Session) (i : Nat) : Session :=
  match s.pending[i]? with
  | Option.none => s
  | some request => { s.showOutput (s.answer request) with pending := s.pending.eraseIdx i }

/-- Let all requests come back, in the order of their start. -/
def settle (s : Session) : Session :=
  { s.pending.foldl (fun s request => s.showOutput (s.answer request)) s with pending := [] }

end Session

end MemoryShell
