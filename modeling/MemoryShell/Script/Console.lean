/-
  MemoryShell/Script/Console.lean
  ===============================
  **What a script writes: marked-up lines, each ended by one line break.**

  The texts of a script are written as they are, markup included.  A logged line shows every text in
  a span of its own; a warning or an error shows them together behind a label.
-/
import MemoryShell.Text.Blank

namespace MemoryShell.Script.Console

def span (color text : String) : String :=
  "<span style=\"color: " ++ color ++ ";\">" ++ text ++ "</span>"

def lineBreak : String := "<br>"

def labelled (color label text : String) : String :=
  span color (label ++ ": " ++ text) ++ lineBreak

/-- A logged line: a green span for each text. -/
def log (texts : List String) : String :=
  " ".intercalate (texts.map (span "#33FF33")) ++ lineBreak

def warn (texts : List String) : String := labelled "yellow" "Warning" (" ".intercalate texts)

def error (texts : List String) : String := labelled "red" "Error" (" ".intercalate texts)

def plain (text : String) : String := text ++ lineBreak

def executionError (message : String) : String := labelled "red" "Execution Error" message

/-- All that was written, without the blanks around it. -/
def finish (written : String) : String := Text.trim written

end MemoryShell.Script.Console
