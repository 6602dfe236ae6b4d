/-
  MemoryShell/Script/Limits.lean
  ==============================
  **How much a script may do, and the ways in which it can do too much.**

  Work is counted in turns: one for each round of a loop, each call that an array method makes and
  each comparison of a sort.  Depth is counted twice, for calls of functions and for the nesting of
  statements and expressions.
-/

namespace MemoryShell.Script

/-- Limits on a run.  The length of a string is that of its UTF-8 form. -/
structure Limits where
  maxTurns : Nat := 100000
  maxCallDepth : Nat := 256
  maxEvalDepth : Nat := 2000
  maxArrayLength : Nat := 1000000
  maxStringLength : Nat := 16777216
deriving DecidableEq, Repr

/-- A limit that a run has met. -/
inductive LimitCause where
  | turns (max : Nat)
  | depth
deriving DecidableEq, Repr

/-- The text for a limit that a run has met. -/
def LimitCause.message : LimitCause → String
  | .turns max => "Loop iteration limit exceeded (" ++ toString max ++ ")"
  | .depth => "Maximum call stack size exceeded"

end MemoryShell.Script
