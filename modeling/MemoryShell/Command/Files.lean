/-
  MemoryShell/Command/Files.lean
  ==============================
  **The commands on the tree of files.**

  Each takes its words and the tree, and gives a result and the tree that it leaves.  A failure
  leaves the tree as it was.
-/
import MemoryShell.Tree.Basic
import MemoryShell.Command.Line
import MemoryShell.Command.Result

namespace MemoryShell.Command

/-- A result, and the tree that a sub-command leaves. -/
abbrev Effect := Result × Tree

/-- The effect of a change of the tree that may fail. -/
def Effect.ofChange (t : Tree) (changed : Except Tree.Error Tree) (failure : Tree.Error → Failure) :
    Effect :=
  match changed with
  | .ok t => (.silent, t)
  | .error e => (.failure (failure e), t)

/-- Give the first argument to a command that needs one. -/
def withOperand (command : Builtin) (args : List String) (t : Tree) (f : String → Effect) : Effect :=
  match args with
  | word :: _ => f word
  | [] => (.failure (.missingOperand command), t)

/-! ### Looking -/

def ls (args : List String) (t : Tree) : Result :=
  let path := t.resolve (args.head?.getD "")
  match t.list path with
  | .ok names => .success (" ".intercalate names)
  | .error _ => .failure (.notListed path)

def pwd (t : Tree) : Result := .success t.currentDir

/-! ### Changing -/

/-- Show a file; with a redirect, write all arguments but the first into its target instead. -/
def cat (args : List String) (redirect : Option String) (t : Tree) : Effect :=
  match args, redirect with
  | [], _ => (.failure .catUsage, t)
  | _ :: words, some target =>
    let path := t.resolve target
    .ofChange t (t.write path (" ".intercalate words)) fun e => .notWritten path e.reason
  | word :: _, none =>
    let path := t.resolve word
    match t.read path with
    | .ok content => (.success content, t)
    | .error _ => (.failure (.notRead path), t)

def cd (args : List String) (t : Tree) : Effect :=
  withOperand .cd args t fun word =>
    .ofChange t (t.changeDirectory (t.resolve word)) fun _ => .noDirectory word

def mkdir (args : List String) (t : Tree) : Effect :=
  withOperand .mkdir args t fun word =>
    let path := t.resolve word
    .ofChange t (t.makeDirectory path) fun e =>
      if e.cause = .alreadyExists then .directoryExists path else .noParent path

/-- Make an empty file, unless something is there. -/
def touch (args : List String) (t : Tree) : Effect :=
  withOperand .touch args t fun word =>
    let path := t.resolve word
    .ofChange t (t.touch path) fun _ => .notTouched path

/-- Remove what the first argument that is no option names. -/
def rm (args : List String) (t : Tree) : Effect :=
  let force := args.contains "-f"
  withOperand .rm (args.filter fun word => !Curl.isOption word) t fun word =>
    let path := t.resolve word
    let remove (changed : Except Tree.Error Tree) : Effect :=
      .ofChange t changed fun e => .notRemoved word e.reason
    match t.kind? path with
    | none => if force then (.silent, t) else (.failure (.notRemoved word noSuchFile), t)
    | some .file => remove (t.removeFile path force)
    | some .directory =>
      if args.contains "-r" then remove (t.removeDirectory path force) else (.failure .isDirectory, t)

end MemoryShell.Command
