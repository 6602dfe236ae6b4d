/-
  MemoryShell/Script/Host.lean
  ============================
  **What a script can ask of the world around it.**

  A host keeps files and knows the current directory and the environment.  It is given paths as the
  script writes them and resolves them itself.  A request that fails may still leave another host
  behind.  The usual host is a tree of files; there a failure changes nothing.
-/
import MemoryShell.Tree.Basic

namespace MemoryShell.Script

/-- Hosts, with their states. -/
class Host (σ : Type) where
  currentDir : σ → String
  environment : σ → List (String × String)
  /-- The content of a file, if there is one at a path. -/
  read : String → σ → Option String
  write : String → String → σ → Except Tree.Error Unit × σ
  unlink : String → σ → Except Tree.Error Unit × σ
  /-- Make a directory, unless it is there. -/
  makeDirectory : String → σ → Except Tree.Error Unit × σ
  isThere : String → σ → Bool
  list : String → σ → Except Tree.Error (List String)

/-- The environment that scripts see on a tree of files. -/
def environment : List (String × String) := [
  ("PATH", "/usr/local/bin:/usr/bin:/bin"),
  ("HOME", "/root"),
  ("USER", "user")]

end MemoryShell.Script

namespace MemoryShell.Tree

/-- Put a change of a tree into effect; one that failed leaves the tree as it was. -/
def commit (t : Tree) (changed : Except Error Tree) : Except Error Unit × Tree :=
  match changed with
  | .ok t => (.ok (), t)
  | .error e => (.error e, t)

/-- Make a directory, unless it is there. -/
def ensureDirectory (t : Tree) (path : String) : Except Error Tree :=
  if t.isDirectory path then .ok t else t.makeDirectory path

instance : Script.Host Tree where
  currentDir t := t.currentDir
  environment _ := Script.environment
  read path t :=
    match t.read (t.resolve path) with
    | .ok content => some content
    | .error _ => none
  write path content t := t.commit (t.write (t.resolve path) content)
  unlink path t := t.commit (t.removeFile (t.resolve path) false)
  makeDirectory path t := t.commit (t.ensureDirectory (t.resolve path))
  isThere path t := t.exists? (t.resolve path)
  list path t := t.list (t.resolve path)

end MemoryShell.Tree
