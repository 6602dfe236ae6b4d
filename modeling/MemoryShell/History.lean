/-
  MemoryShell/History.lean
  ========================
  **The lines typed so far, and a cursor that walks over them.**

  The cursor stands before an entry or behind the last one.  Recording a line puts it behind the
  last entry again, even when the line is blank and not kept.
-/
import MemoryShell.Text.Blank

namespace MemoryShell

/-- Entries, oldest first, and the number of entries before the cursor. -/
structure History where
  entries : List String := []
  cursor : Nat := 0
deriving Repr

namespace History

/-- Record a typed line, trimmed; a blank one is not kept. -/
def record (h : History) (line : String) : History :=
  let kept := Text.trim line
  let entries := if kept.isEmpty then h.entries else h.entries ++ [kept]
  ⟨entries, entries.length⟩

/-- Step back to the entry before the cursor, if there is one. -/
def previous (h : History) : Option String × History :=
  match h.cursor with
  | 0 => (none, h)
  | n + 1 => (h.entries[n]?, { h with cursor := n })

/-- Step forward; behind the newest entry stands the empty line. -/
def next (h : History) : Option String × History :=
  if h.cursor ≥ h.entries.length then (none, h)
  else (some (h.entries[h.cursor + 1]?.getD ""), { h with cursor := h.cursor + 1 })

end History

end MemoryShell
