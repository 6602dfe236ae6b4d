/-
  MemoryShell/Proofs/Script/Heaps.lean
  ====================================
  **All that can happen to a heap.**

  A heap changes in steps of a few kinds.  Whatever is made of such steps keeps what every step
  keeps, so a fact about the heaps of a run comes down to one case for each kind of step.
-/
import Mathlib.Logic.Relation
import MemoryShell.Script.Exchange

namespace MemoryShell.Script

namespace Heap

/-! ### Steps -/

/-- One change of a heap. -/
inductive Step : Heap → Heap → Prop where
  | newArray (h) (items : Array Value) : Step h (h.newArray items).2
  | newObject (h) (o : ScriptObject) : Step h (h.newObject o).2
  | newFrame (h) (f : Frame) : Step h (h.newFrame f).2
  | newFunction (h) : Step h h.newFunction.2
  | changeArray (h) (r : ArrayRef) (f : Array Value → Array Value) : Step h (h.changeArray r f)
  | setMember (h) (r : ObjectRef) (name : String) (v : Value) : Step h (h.setMember r name v)
  | declare (h) (r : FrameRef) (name : String) (v : Value) (isMutable : Bool) :
    Step h (h.declare r name v isMutable)
  | assign (h) (env : Env) (name : String) (v : Value) : Step h (h.assign env name v).2

theorem arrays_assign (h : Heap) (env : Env) (name : String) (v : Value) :
    (h.assign env name v).2.arrays = h.arrays := by
  unfold assign
  split
  · rfl
  · split <;> rfl

/-- Any number of changes, one after the other. -/
abbrev Steps : Heap → Heap → Prop := Relation.ReflTransGen Step

theorem Step.steps {h h' : Heap} (hstep : Step h h') : Steps h h' := .single hstep

/-- What every step keeps, any number of steps keep. -/
theorem Steps.keeps {P : Heap → Prop} (hstep : ∀ {h h'}, Step h h' → P h → P h') {h h' : Heap}
    (hsteps : Steps h h') (hP : P h) : P h' := by
  induction hsteps with
  | refl => exact hP
  | tail _ hlast ih => exact hstep hlast ih

/-! ### Documents

The parts of a document are made before what holds them. -/

mutual

theorem steps_ofDocument : (d : Document) → (h : Heap) → Steps h (h.ofDocument d).2
  | .null, _ | .bool _, _ | .number _, _ | .string _, _ => .refl
  | .array items, h => (steps_ofItems items h).tail (.newArray _ _)
  | .object members, h => (steps_ofMembers members h).tail (.newObject _ _)

theorem steps_ofItems : (ds : List Document) → (h : Heap) → Steps h (h.ofItems ds).2
  | [], _ => .refl
  | d :: ds, h => (steps_ofDocument d h).trans (steps_ofItems ds _)

theorem steps_ofMembers : (ds : List (String × Document)) → (h : Heap) → Steps h (h.ofMembers ds).2
  | [], _ => .refl
  | (_, d) :: ds, h => (steps_ofDocument d h).trans (steps_ofMembers ds _)

end

end Heap

/-! ### Depths -/

variable {σ α : Type} {limits : Limits}

/-- Giving and taking back depth leaves the heap alone. -/
theorem Act.heap_deeper {m : Machine σ} (h : m.evalDepth < limits.maxEvalDepth) (act : Act σ α) :
    (Result.machine (deeper limits act m)).heap =
      (Result.machine (act { m with evalDepth := m.evalDepth + 1 })).heap := by
  rw [deeper, if_pos h]
  cases act { m with evalDepth := m.evalDepth + 1 } <;>
    · dsimp only
      unfold rise
      split <;> rfl

theorem Act.heap_inCall {m : Machine σ} (h : m.callDepth < limits.maxCallDepth) (act : Act σ α) :
    (Result.machine (inCall limits act m)).heap =
      (Result.machine (act { m with callDepth := m.callDepth + 1 })).heap := by
  rw [inCall, if_pos h]
  cases act { m with callDepth := m.callDepth + 1 } <;>
    · dsimp only
      unfold leave
      split <;> rfl

end MemoryShell.Script
