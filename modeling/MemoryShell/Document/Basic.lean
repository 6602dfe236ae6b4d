/-
  MemoryShell/Document/Basic.lean
  ===============================
  **JSON documents.**

  Scripts exchange data as JSON text.  A document is what such a text says; a member that is written
  twice stands in it twice, in the order of writing, and it is for the reader of the document to
  give that a meaning.
-/

namespace MemoryShell

/-- Documents. -/
inductive Document where
  | null
  | bool (b : Bool)
  | number (x : Float)
  | string (s : String)
  | array (items : List Document)
  | object (members : List (String × Document))

end MemoryShell
