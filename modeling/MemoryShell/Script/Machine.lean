/-
  MemoryShell/Script/Machine.lean
  ===============================
  **The state of a run, and the acts that every step of it is made of.**

  An act takes a machine and ends either with a value or with a fault, and with the machine as it is
  by then in both cases: a fault does not undo anything.  Values that a script throws are one kind
  of fault and can be caught; a limit cannot.
-/
import MemoryShell.Script.Coercion
import MemoryShell.Script.Host
import MemoryShell.Script.Mistake
import MemoryShell.Script.Trail

namespace MemoryShell.Script

/-! ### Machines, faults and acts -/

/-- All that a run can change: the heap, the host, the text on the console, the state behind random
    numbers, and what counts toward the limits. -/
structure Machine (σ : Type) where
  heap : Heap
  host : σ
  console : String
  random : Nat
  /-- The turns that were granted. -/
  turns : Nat
  callDepth : Nat
  evalDepth : Nat
  /-- What was noted, latest first. -/
  trail : List Event

/-- The machine with one more event noted. -/
def Machine.noted (m : Machine σ) (e : Event) : Machine σ := { m with trail := e :: m.trail }

namespace Machine

variable (m : Machine σ) (e : Event)

@[simp] theorem noted_heap : (m.noted e).heap = m.heap := rfl
@[simp] theorem noted_host : (m.noted e).host = m.host := rfl
@[simp] theorem noted_console : (m.noted e).console = m.console := rfl
@[simp] theorem noted_turns : (m.noted e).turns = m.turns := rfl
@[simp] theorem noted_callDepth : (m.noted e).callDepth = m.callDepth := rfl
@[simp] theorem noted_evalDepth : (m.noted e).evalDepth = m.evalDepth := rfl
@[simp] theorem noted_trail : (m.noted e).trail = e :: m.trail := rfl

end Machine

/-- Why an act ends without a value. -/
inductive Fault where
  | thrown (value : Value)
  | limit (cause : LimitCause)
  /-- An assignment to what cannot be assigned to. -/
  | badTarget
  /-- The length of an array was given as a value whose text needs that same array.  The run ends at
      once and what it wrote is lost. -/
  | busyArray
  /-- A position lies outside of what it is used on, or a count would fall below zero.  The run ends
      at once as well. -/
  | outOfRange
  /-- The bound on the recursion was too low. -/
  | exhausted

/-- Whether a fault ends the run at once, without the finalizers on the way out. -/
def Fault.isFinal : Fault → Bool
  | .busyArray | .outOfRange | .exhausted => true
  | .thrown _ | .limit _ | .badTarget => false

/-- How an act ends: with a value or a fault, and with the machine as it is by then. -/
abbrev Result (σ α : Type) := EStateM.Result Fault (Machine σ) α

def Result.machine : Result σ α → Machine σ
  | .ok _ m | .error _ m => m

/-- The fault that an act ends with, if it does not end with a value. -/
def Result.fault? : Result σ α → Option Fault
  | .ok _ _ => none
  | .error fault _ => some fault

/-- Acts on a machine. -/
abbrev Act (σ : Type) := EStateM Fault (Machine σ)

namespace Act

/-! ### Sequences -/

/-- What follows an act that ends with a value. -/
theorem bind_of_ok {act : Act σ α} {next : α → Act σ β} {m m' : Machine σ} {a : α}
    (h : act m = .ok a m') : (act >>= next) m = next a m' := by
  simp only [Bind.bind, EStateM.bind, h]

/-- Nothing follows an act that ends with a fault. -/
theorem bind_of_error {act : Act σ α} {next : α → Act σ β} {m m' : Machine σ} {fault : Fault}
    (h : act m = .error fault m') : (act >>= next) m = .error fault m' := by
  simp only [Bind.bind, EStateM.bind, h]

/-- A sequence ends with a value if both of its acts do. -/
theorem bind_eq_ok {act : Act σ α} {next : α → Act σ β} {m m'' : Machine σ} {b : β} :
    (act >>= next) m = .ok b m'' ↔ ∃ a m', act m = .ok a m' ∧ next a m' = .ok b m'' := by
  cases h : act m with
  | ok a m' => rw [bind_of_ok h]; grind
  | error fault m' => rw [bind_of_error h]; grind

/-! ### Looking and changing -/

def fail (f : Fault) : Act σ α := fun m => .error f m

/-- Go on with what has to be there. -/
def need : Option α → Act σ α
  | some a => pure a
  | none => fail .outOfRange

theorem need_some_bind (a : α) (next : α → Act σ β) : (need (some a) >>= next) = next a := rfl

/-- A value that depends on the machine, which stays as it is. -/
def look (f : Machine σ → α) : Act σ α := fun m => .ok (f m) m

/-- A value that depends on the heap, which stays as it is. -/
def lookHeap (f : Heap → α) : Act σ α := look fun m => f m.heap

def changeHeap (f : Heap → Heap) : Act σ Unit := fun m => .ok () { m with heap := f m.heap }

/-- Change the heap and take something from the change. -/
def withHeap (f : Heap → α × Heap) : Act σ α := fun m =>
  let { heap, host, console, random, turns, callDepth, evalDepth, trail } := m
  let (a, heap) := f heap
  .ok a { heap, host, console, random, turns, callDepth, evalDepth, trail }

def note (e : Event) : Act σ Unit := fun m => .ok () (m.noted e)

/-- Throw the error object of a mistake. -/
def throwMistake (e : Mistake) : Act σ α := do
  let r ← withHeap fun h => h.newError e.kind e.message
  fail (.thrown (.object r))

def write (text : String) : Act σ Unit := fun m => .ok () { m with console := m.console ++ text }

def display (v : Value) : Act σ String := lookHeap fun h => h.display v

def number (v : Value) : Act σ Float := lookHeap fun h => h.toNumber v

/-! ### Making values -/

def newArray (items : Array Value) : Act σ Value := withHeap fun h =>
  let (r, h) := h.newArray items
  (.array r, h)

/-- A new object that is no error. -/
def newObject (members : Dict Value) : Act σ Value := withHeap fun h =>
  let (r, h) := h.newObject ⟨false, members⟩
  (.object r, h)

def newScope (env : Env) (frame : Frame) : Act σ Env := withHeap fun h =>
  let (r, h) := h.newFrame frame
  (r :: env, h)

def newClosure (definition : FunctionDef) (env : Env) : Act σ Value := withHeap fun h =>
  let (id, h) := h.newFunction
  (.closure id definition env, h)

def newNative (function : Native) : Act σ Value := withHeap fun h =>
  let (id, h) := h.newFunction
  (.native id function, h)

/-- A new value for a method of a receiver. -/
def newMethod (method : Method) (receiver : Value) : Act σ Value := withHeap fun h =>
  let (id, h) := h.newFunction
  (.method id method receiver, h)

/-! ### The host -/

/-- Ask the host for something that it may not have; a failure is a mistake of the script. -/
def askHost (f : σ → Except Tree.Error α) : Act σ α := fun m =>
  match f m.host with
  | .ok a => .ok a m
  | .error e => throwMistake (.tree e) m

/-- Change the host; a failure is a mistake of the script. -/
def changeHost (f : σ → Except Tree.Error Unit × σ) : Act σ Unit := fun m =>
  match f m.host with
  | (.ok (), host) => .ok () { m with host }
  | (.error e, host) => throwMistake (.tree e) { m with host }

/-! ### Limits -/

variable (limits : Limits)

/-- End because a limit is met. -/
def meetLimit (cause : LimitCause) : Act σ α := do
  note (.met cause)
  fail (.limit cause)

/-- Begin a turn, if one is left. -/
def beginTurn : Act σ Unit := fun m =>
  if m.turns < limits.maxTurns then .ok () { m with turns := m.turns + 1 }
  else meetLimit (.turns limits.maxTurns) m

theorem beginTurn_of_lt {limits : Limits} {m : Machine σ} (h : m.turns < limits.maxTurns) :
    beginTurn limits m = .ok () { m with turns := m.turns + 1 } := if_pos h

theorem beginTurn_of_le {limits : Limits} {m : Machine σ} (h : limits.maxTurns ≤ m.turns) :
    beginTurn limits m =
      .error (.limit (.turns limits.maxTurns)) (m.noted (.met (.turns limits.maxTurns))) :=
  if_neg (Nat.not_lt.mpr h)

def turnsLeft : Act σ Nat := look fun m => limits.maxTurns - m.turns

/-- End one level of nesting higher. -/
@[inline] def rise (finish : Machine σ → Result σ α) (m : Machine σ) : Result σ α :=
  if m.evalDepth = 0 then .error .outOfRange m
  else finish { m with evalDepth := m.evalDepth - 1 }

theorem rise_of_pos {finish : Machine σ → Result σ α} {m : Machine σ} (h : 0 < m.evalDepth) :
    rise finish m = finish { m with evalDepth := m.evalDepth - 1 } := if_neg (Nat.ne_of_gt h)

def deeper (act : Act σ α) : Act σ α := fun m =>
  if m.evalDepth < limits.maxEvalDepth then
    match act { m with evalDepth := m.evalDepth + 1 } with
    | .ok a m => rise (.ok a) m
    | .error f m => rise (.error f) m
  else meetLimit .depth m

/-- An act one level deeper ends with a value if there is such a level and the act ends with the
    value on it. -/
theorem deeper_eq_ok_iff {limits : Limits} {act : Act σ α} {m m' : Machine σ} {a : α} :
    deeper limits act m = .ok a m' ↔ m.evalDepth < limits.maxEvalDepth ∧
      ∃ n, act { m with evalDepth := m.evalDepth + 1 } = .ok a n ∧ 0 < n.evalDepth ∧
        m' = { n with evalDepth := n.evalDepth - 1 } := by
  unfold deeper
  by_cases hdepth : m.evalDepth < limits.maxEvalDepth
  · rw [if_pos hdepth]
    cases act { m with evalDepth := m.evalDepth + 1 } with
    | ok b n =>
      dsimp only
      unfold rise
      split <;> grind
    | error fault n =>
      dsimp only
      unfold rise
      split <;> grind
  · rw [if_neg hdepth]
    exact ⟨nofun, fun h => absurd h.1 hdepth⟩

/-- End outside of the innermost call. -/
@[inline] def leave (finish : Machine σ → Result σ α) (m : Machine σ) : Result σ α :=
  if m.callDepth = 0 then .error .outOfRange m
  else finish { m with callDepth := m.callDepth - 1 }

theorem leave_of_pos {finish : Machine σ → Result σ α} {m : Machine σ} (h : 0 < m.callDepth) :
    leave finish m = finish { m with callDepth := m.callDepth - 1 } := if_neg (Nat.ne_of_gt h)

def inCall (act : Act σ α) : Act σ α := fun m =>
  if m.callDepth < limits.maxCallDepth then
    match act { m with callDepth := m.callDepth + 1 } with
    | .ok a m => leave (.ok a) m
    | .error f m => leave (.error f) m
  else meetLimit .depth m

/-- Refuse a string that is too long; any other value passes. -/
def checkText (v : Value) : Act σ Value :=
  match v with
  | .string s => if s.utf8ByteSize > limits.maxStringLength then throwMistake .stringLength else pure v
  | v => pure v

end Act

end MemoryShell.Script
