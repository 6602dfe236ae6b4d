/-
  MemoryShell/Tree/Error.lean
  ===========================
  **Why an operation on the tree of files can fail.**

  A failure has a cause, names the operation that met it and the path it was about.  Scripts see the
  long text of a failure, commands print the short one.
-/

namespace MemoryShell.Tree

/-- What the tree was asked to do when it failed. -/
inductive Operation where
  | scan
  | read
  | openFile
  | write
  | makeDirectory
  | changeDirectory
  | unlink
  | removeDirectory
deriving DecidableEq, Repr

/-- The word for an operation in the text of a failure. -/
def Operation.word : Operation → String
  | .scan => "scandir"
  | .read => "read"
  | .openFile => "open"
  | .write => "write"
  | .makeDirectory => "mkdir"
  | .changeDirectory => "chdir"
  | .unlink => "unlink"
  | .removeDirectory => "rmdir"

/-- The causes of failure. -/
inductive Cause where
  | notFound
  | notADirectory
  | isDirectory
  | alreadyExists
  | parentNotFound
  | rootRemoval
deriving DecidableEq, Repr

/-- The opening of the long text, with its code. -/
def Cause.description : Cause → String
  | .notFound => "ENOENT: no such file or directory"
  | .notADirectory => "ENOTDIR: not a directory"
  | .isDirectory => "EISDIR: illegal operation on a directory"
  | .alreadyExists => "EEXIST: file already exists"
  | .parentNotFound => "ENOENT: no such parent directory"
  | .rootRemoval => "EPERM: operation not permitted"

def Cause.reason : Cause → String
  | .notFound | .parentNotFound => "No such file or directory"
  | .notADirectory => "Not a directory"
  | .isDirectory => "Is a directory"
  | .alreadyExists => "File exists"
  | .rootRemoval => "Operation not permitted"

/-- A failed operation. -/
structure Error where
  cause : Cause
  operation : Operation
  path : String
deriving DecidableEq, Repr

def Error.message (e : Error) : String :=
  e.cause.description ++ ", " ++ e.operation.word ++ " '" ++ e.path ++ "'"

def Error.reason (e : Error) : String := e.cause.reason

end MemoryShell.Tree
