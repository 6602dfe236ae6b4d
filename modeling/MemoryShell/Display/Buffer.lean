/-
  MemoryShell/Display/Buffer.lean
  ===============================
  **The display: the newest lines, and the events that lead to them.**

  Text is appended as whole display lines, and only the newest ones are kept, as many as the cap
  allows.  Beside the lines a queue of events is kept for whoever draws the display step by step: a
  line came, or all was cleared.  The queue is bounded by the same cap, so whoever looks rarely
  still learns of every line that is on display and of no other.
-/
import MemoryShell.Text.Search

namespace MemoryShell

/-! ### Lines and events -/

/-- What a display line shows. -/
inductive LineKind where
  | prompt
  | output
deriving DecidableEq, Repr

/-- One line of the display. -/
structure DisplayLine where
  kind : LineKind
  text : String
deriving DecidableEq, Repr

/-- A display line as plain text; a typed command stands behind an arrow. -/
def DisplayLine.render (line : DisplayLine) : String :=
  match line.kind with
  | .prompt => "> " ++ line.text
  | .output => line.text

/-- One step in the life of the display. -/
inductive DisplayEvent where
  | line (line : DisplayLine)
  | clear
deriving DecidableEq, Repr

def DisplayEvent.isLine : DisplayEvent → Bool
  | .line _ => true
  | .clear => false

/-- The lines kept, the cap on their number, and the events not yet taken. -/
structure Display where
  lines : List DisplayLine
  cap : Nat
  events : List DisplayEvent
deriving Repr

namespace Display

/-! ### Splitting text into display lines -/

/-- The mark that ends a line of marked-up text. -/
def lineBreak : List Char := "<br>".toList

/-- The display lines of a text.  Marked-up text is cut behind each line break, plain text at each
    newline; no text gives no line. -/
def renderedLines (text : String) : List String :=
  let cs := text.toList
  if cs.isEmpty then []
  else if Text.occurs lineBreak cs then (Text.splitAfter lineBreak cs).map String.ofList
  else (Text.splitOn ['\n'] cs).map String.ofList

/-! ### Operations -/

/-- The cap of a display that is not told one. -/
def defaultCap : Nat := 100

/-- The display without a line.  A cap of zero acts as one. -/
def new (cap : Nat) : Display := ⟨[], max cap 1, []⟩

def newest (n : Nat) (xs : List α) : List α := xs.drop (xs.length - n)

/-- Take out the first event that brings a line. -/
def dropFirstLine : List DisplayEvent → List DisplayEvent
  | [] => []
  | .line _ :: rest => rest
  | .clear :: rest => .clear :: dropFirstLine rest

def push (d : Display) (line : DisplayLine) : Display :=
  let events := d.events ++ [.line line]
  { d with
    lines := newest d.cap (d.lines ++ [line])
    events := if events.countP DisplayEvent.isLine > d.cap then dropFirstLine events else events }

def pushPrompt (d : Display) (input : String) : Display := d.push ⟨.prompt, input⟩

def pushOutput (d : Display) (text : String) : Display :=
  (renderedLines text).foldl (fun d line => d.push ⟨.output, line⟩) d

def clear (d : Display) : Display := { d with lines := [], events := [.clear] }

/-- Take the events that have come since they were last taken. -/
def takeEvents (d : Display) : List DisplayEvent × Display := (d.events, { d with events := [] })

def render (d : Display) : String := "\n".intercalate (d.lines.map DisplayLine.render)

end Display

end MemoryShell
