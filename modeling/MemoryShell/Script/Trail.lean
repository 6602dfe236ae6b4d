/-
  MemoryShell/Script/Trail.lean
  =============================
  **What a run leaves behind as it goes.**

  A run notes when a part of it begins, when it does a piece of work, and what becomes of the limits
  that it meets.  No step of a run looks at its trail.
-/
import MemoryShell.Script.Limits

namespace MemoryShell.Script

/-- Pieces of work that take a turn. -/
inductive Work where
  /-- The body of a loop. -/
  | body
  /-- The call of a function by a method of an array. -/
  | callback
  /-- A comparison of a sort. -/
  | comparison
deriving DecidableEq, Repr

/-- What a run notes. -/
inductive Event where
  /-- An expression, a statement or a call begins. -/
  | begun
  | worked (work : Work)
  /-- A limit is met. -/
  | met (cause : LimitCause)
  /-- A finalizer begins while a limit is on its way out. -/
  | cleaning (cause : LimitCause)
  /-- That finalizer ended normally: the limit goes on its way. -/
  | resumed (cause : LimitCause)
  /-- That finalizer met the same limit again, which goes on its way in place of the other. -/
  | renewed (cause : LimitCause)
  /-- That finalizer ended otherwise: how it ended stands, and the limit is gone. -/
  | discarded (cause : LimitCause)
  /-- The length of an array is given as a value whose text needs that same array. -/
  | blocked
deriving DecidableEq, Repr

end MemoryShell.Script
