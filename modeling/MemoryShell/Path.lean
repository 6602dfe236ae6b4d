/-
  MemoryShell/Path.lean
  =====================
  **Paths: slash-separated names, by text alone.**

  A path is a text.  Resolving one against a base walks its segments over a stack: an empty segment
  and `.` change nothing, `..` drops the last name, any other segment is a name and goes on top.
  Nothing here asks whether a path exists, so nothing here can fail.
-/
import MemoryShell.Text.Search

namespace MemoryShell.Path

/-! ### Segments -/

/-- The segments of a path: the texts between its slashes, empty ones included. -/
def segments (path : String) : List (List Char) := Text.splitOn ['/'] path.toList

/-- Follow one segment; the stack holds the names that are kept, last one first. -/
def follow (stack : List (List Char)) (segment : List Char) : List (List Char) :=
  if segment = [] ∨ segment = ['.'] then stack
  else if segment = ['.', '.'] then stack.tail
  else segment :: stack

/-- Write the names of an absolute path, each behind a slash; no names at all is the root. -/
def render (names : List (List Char)) : String :=
  String.ofList ('/' :: List.intercalate ['/'] names)

/-- Resolve a path against a base.  The empty path is the base as it stands; a path that starts with
    a slash does not look at the base. -/
def normalize (path base : String) : String :=
  if path.isEmpty then base
  else
    let whole := if path.toList.head? = some '/' then path else base ++ "/" ++ path
    render ((segments whole).foldl follow []).reverse

/-! ### Parent, base name, child -/

/-- Cut a text at its last slash: what stands before it and behind it. -/
def cutLast (path : List Char) : Option (List Char × List Char) :=
  (Text.cutAt '/' path.reverse).map fun (name, dir) => (dir.reverse, name.reverse)

/-- The directory that a path lies in.  The root lies in none; a path without a slash lies in the
    root. -/
def parent (path : String) : Option String :=
  if path = "/" then none
  else
    match cutLast path.toList with
    | some (dir, _) => some (if dir.isEmpty then "/" else String.ofList dir)
    | none => some "/"

def basename (path : String) : String :=
  match cutLast path.toList with
  | some (_, name) => String.ofList name
  | none => path

def join (dir name : String) : String :=
  if dir = "/" then "/" ++ name else dir ++ "/" ++ name

end MemoryShell.Path
