/-
  MemoryShell/Tree/Basic.lean
  ===========================
  **The tree of files: entries keyed by path, and a current directory.**

  Every path that exists has one entry.  A directory lists the names of its children in the order in
  which they were created, and that list is the only source of listings; so each operation that adds
  or removes an entry also touches the list of its parent.  An operation that can fail gives either
  the tree it leaves or the failure, never half of a change.
-/
import MemoryShell.Dict
import MemoryShell.Path
import MemoryShell.Tree.Error

namespace MemoryShell

/-! ### Entries and trees -/

/-- What stands at a path. -/
inductive Entry where
  | file (content : String)
  | directory (children : List String)
deriving Repr

/-- The two kinds of entry. -/
inductive EntryKind where
  | file
  | directory
deriving DecidableEq, Repr

def Entry.kind : Entry → EntryKind
  | .file _ => .file
  | .directory _ => .directory

/-- The entries by path, and the path of the current directory. -/
structure Tree where
  entries : Dict Entry
  currentDir : String
deriving Repr

namespace Tree

/-- The content of the first file of a seeded tree. -/
def greeting : String := "hi"

/-- The content of the second file of a seeded tree. -/
def greetingScript : String :=
  "console.log(\"Hello from script.js\"); console.warn(\"This is a warning!\"); " ++
    "console.error(\"This is an error >:(\");"

def root : Tree := ⟨Dict.ofList [("/", .directory [])], "/"⟩

/-! ### Looking -/

def entry? (t : Tree) (path : String) : Option Entry := t.entries.find? path

def kind? (t : Tree) (path : String) : Option EntryKind := (t.entry? path).map Entry.kind

def exists? (t : Tree) (path : String) : Bool := (t.entry? path).isSome

def isDirectory (t : Tree) (path : String) : Bool := t.kind? path == some .directory

/-- The path that a typed path names, seen from the current directory. -/
def resolve (t : Tree) (path : String) : String := Path.normalize path t.currentDir

/-- Every path that exists, in the order of code points. -/
def paths (t : Tree) : List String := t.entries.keys.mergeSort fun a b => decide (a ≤ b)

/-- The names in a directory, in order of creation. -/
def list (t : Tree) (path : String) : Except Error (List String) :=
  match t.entry? path with
  | some (.directory children) => .ok children
  | some (.file _) => .error ⟨.notADirectory, .scan, path⟩
  | none => .error ⟨.notFound, .scan, path⟩

def read (t : Tree) (path : String) : Except Error String :=
  match t.entry? path with
  | some (.file content) => .ok content
  | some (.directory _) => .error ⟨.isDirectory, .read, path⟩
  | none => .error ⟨.notFound, .openFile, path⟩

/-! ### Parents and their lists of children -/

def put (t : Tree) (path : String) (e : Entry) : Tree := { t with entries := t.entries.insert path e }

/-- Add a name to the children of a directory, at the end, unless it is there. -/
def register (t : Tree) (dir name : String) : Tree :=
  match t.entry? dir with
  | some (.directory children) =>
    if name ∈ children then t else t.put dir (.directory (children ++ [name]))
  | _ => t

/-- Take the name of a path out of the children of its parent. -/
def unregister (t : Tree) (path : String) : Tree :=
  match Path.parent path with
  | none => t
  | some dir =>
    match t.entry? dir with
    | some (.directory children) =>
      t.put dir (.directory (children.filter fun n => n ≠ Path.basename path))
    | _ => t

/-- Take out the entry at a path, and its name from its parent. -/
def remove (t : Tree) (path : String) : Tree :=
  unregister { t with entries := t.entries.erase path } path

/-- The parent of a path, if it is a directory that exists. -/
def existingParent (t : Tree) (path : String) (operation : Operation) : Except Error String :=
  match Path.parent path with
  | some dir => if t.isDirectory dir then .ok dir else .error ⟨.parentNotFound, operation, path⟩
  | none => .error ⟨.parentNotFound, operation, path⟩

/-- Put a new or changed entry at a path whose parent exists. -/
def place (t : Tree) (path : String) (e : Entry) (operation : Operation) : Except Error Tree := do
  let dir ← t.existingParent path operation
  return (t.put path e).register dir (Path.basename path)

/-! ### Changing -/

/-- Create or overwrite a file.  Its directory has to exist. -/
def write (t : Tree) (path content : String) : Except Error Tree :=
  if t.isDirectory path then .error ⟨.isDirectory, .write, path⟩
  else t.place path (.file content) .openFile

/-- Create an empty directory.  The one around it has to exist. -/
def makeDirectory (t : Tree) (path : String) : Except Error Tree :=
  if t.exists? path then .error ⟨.alreadyExists, .makeDirectory, path⟩
  else t.place path (.directory []) .makeDirectory

/-- Create an empty file unless something stands at the path. -/
def touch (t : Tree) (path : String) : Except Error Tree :=
  if t.exists? path then .ok t else t.write path ""

def changeDirectory (t : Tree) (path : String) : Except Error Tree :=
  match t.kind? path with
  | some .directory => .ok { t with currentDir := path }
  | some .file => .error ⟨.notADirectory, .changeDirectory, path⟩
  | none => .error ⟨.notFound, .changeDirectory, path⟩

/-- Remove a file.  With `force` it does not matter whether it is there. -/
def removeFile (t : Tree) (path : String) (force : Bool) : Except Error Tree :=
  match t.kind? path with
  | some .file => .ok (t.remove path)
  | some .directory => .error ⟨.isDirectory, .unlink, path⟩
  | none => if force then .ok t else .error ⟨.notFound, .unlink, path⟩

/-- Climb from a path to the nearest directory that exists; `fuel` bounds the number of steps. -/
def nearestDirectory (t : Tree) : Nat → String → String
  | 0, path => path
  | fuel + 1, path =>
    if t.isDirectory path then path
    else
      match Path.parent path with
      | some up => t.nearestDirectory fuel up
      | none => path

/-- Move the current directory up to the nearest one that exists.  A parent is shorter than its
    path, so the length of the path bounds the climb. -/
def repairCurrentDir (t : Tree) : Tree :=
  { t with currentDir := t.nearestDirectory (t.currentDir.length + 2) t.currentDir }

/-- Remove a directory and all beneath it, children first.  Every level goes to an entry with a
    longer path, so the number of entries bounds the depth and serves as `fuel`. -/
def removeBelow (force : Bool) : Nat → Tree → String → Except Error Tree
  | 0, t, _ => .ok t
  | fuel + 1, t, path =>
    if path = "/" then .error ⟨.rootRemoval, .removeDirectory, path⟩
    else
      match t.entry? path with
      | none => .error ⟨.notFound, .removeDirectory, path⟩
      | some (.file _) => .error ⟨.notADirectory, .removeDirectory, path⟩
      | some (.directory children) => do
        let emptied ← children.foldlM (fun t name =>
          let child := Path.join path name
          if t.isDirectory child then removeBelow force fuel t child
          else t.removeFile child force) t
        return (emptied.remove path).repairCurrentDir

/-- Remove a directory and all beneath it.  The root stays. -/
def removeDirectory (t : Tree) (path : String) (force : Bool) : Except Error Tree :=
  removeBelow force (t.entries.entries.length + 1) t path

/-! ### Seeded trees -/

/-- The tree that a session starts from unless it is asked for the root alone: two small files. -/
def seeded : Tree :=
  let withGreeting := (root.put "/hello_world.txt" (.file greeting)).register "/" "hello_world.txt"
  (withGreeting.put "/script.js" (.file greetingScript)).register "/" "script.js"

end Tree

end MemoryShell
