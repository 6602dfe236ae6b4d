/-
  MemoryShell/Script/Value.lean
  =============================
  **Values, and the heap that holds what can change.**

  Arrays, objects and scopes are shared and change under whoever holds them, so a value only refers
  to them; they live on the heap.  A function never changes, so it is held in the value itself, with
  a number that tells it from every other function made in the run.  A scope chain is a list of
  references to frames, innermost first: it is finite and has no cycle by its form.
-/
import MemoryShell.Dict
import MemoryShell.Script.Program
import MemoryShell.Script.Library

namespace MemoryShell.Script

/-! ### References and values -/

/-- A place on the heap for the variables of one scope. -/
structure FrameRef where
  index : Nat
deriving DecidableEq, Repr

/-- A place on the heap for an array. -/
structure ArrayRef where
  index : Nat
deriving DecidableEq, Repr

/-- A place on the heap for an object. -/
structure ObjectRef where
  index : Nat
deriving DecidableEq, Repr

/-- A scope chain: the frames that are visible, innermost first. -/
abbrev Env := List FrameRef

/-- Values. -/
inductive Value where
  | undefined
  | null
  | bool (b : Bool)
  | number (x : Float)
  | string (s : String)
  | array (ref : ArrayRef)
  | object (ref : ObjectRef)
  | closure (id : Nat) (definition : FunctionDef) (env : Env)
  | native (id : Nat) (function : Native)
  | method (id : Nat) (method : Method) (receiver : Value)

instance : Inhabited Value := ⟨.undefined⟩

namespace Value

/-- Whether a value is missing: undefined or null. -/
def isNullish : Value → Bool
  | .undefined | .null => true
  | _ => false

/-- Whether a value is a function of any sort. -/
def isFunction : Value → Bool
  | .closure .. | .native .. | .method .. => true
  | _ => false

def truthy : Value → Bool
  | .undefined | .null => false
  | .bool b => b
  | .number x => x != 0 && !x.isNaN
  | .string s => !s.isEmpty
  | _ => true

def typeName : Value → String
  | .undefined => "undefined"
  | .null | .array _ | .object _ => "object"
  | .bool _ => "boolean"
  | .number _ => "number"
  | .string _ => "string"
  | .closure .. | .native .. | .method .. => "function"

/-- Equality of values: shared ones by where they live, functions by their numbers, others by what
    they are. -/
def strictEquals : Value → Value → Bool
  | .undefined, .undefined | .null, .null => true
  | .bool a, .bool b => a == b
  | .number x, .number y => x == y
  | .string s, .string t => s == t
  | .array a, .array b => a == b
  | .object a, .object b => a == b
  | .closure i .., .closure j .. => i == j
  | .native i _, .native j _ => i == j
  | .method i .., .method j .. => i == j
  | _, _ => false

end Value

/-! ### The heap -/

/-- A variable: its value, and whether it may be given another one. -/
structure Binding where
  value : Value
  isMutable : Bool

/-- The variables of one scope. -/
abbrev Frame := Dict Binding

/-- An object: whether it is an error, and its members. -/
structure ScriptObject where
  isError : Bool
  members : Dict Value

/-- All that can change, and the number of functions made. -/
structure Heap where
  frames : Array Frame
  arrays : Array (Array Value)
  objects : Array ScriptObject
  functions : Nat
  /-- What was declared in each frame, latest first.  Nothing looks at it. -/
  declared : Array (List (String × Binding)) := #[]

namespace Heap

def empty : Heap := ⟨#[], #[], #[], 0, #[]⟩

def array (h : Heap) (r : ArrayRef) : Array Value := h.arrays[r.index]?.getD #[]

def object (h : Heap) (r : ObjectRef) : ScriptObject := h.objects[r.index]?.getD ⟨false, .empty⟩

def frame (h : Heap) (r : FrameRef) : Frame := h.frames[r.index]?.getD .empty

def newArray (h : Heap) (items : Array Value) : ArrayRef × Heap :=
  (⟨h.arrays.size⟩, { h with arrays := h.arrays.push items })

/-- Make an object. -/
def newObject (h : Heap) (o : ScriptObject) : ObjectRef × Heap :=
  (⟨h.objects.size⟩, { h with objects := h.objects.push o })

/-- Make a frame.  The variables that it comes with are declared in it. -/
def newFrame (h : Heap) (f : Frame) : FrameRef × Heap :=
  (⟨h.frames.size⟩,
    { h with frames := h.frames.push f, declared := h.declared.push f.entries })

/-- Take a number for a new function. -/
def newFunction (h : Heap) : Nat × Heap := (h.functions, { h with functions := h.functions + 1 })

def changeArray (h : Heap) (r : ArrayRef) (f : Array Value → Array Value) : Heap :=
  { h with arrays := h.arrays.modify r.index f }

def setMember (h : Heap) (r : ObjectRef) (name : String) (v : Value) : Heap :=
  { h with objects := h.objects.modify r.index fun o => { o with members := o.members.insert name v } }

/-- Make an error object with a name and a message. -/
def newError (h : Heap) (kind : ErrorKind) (message : String) : ObjectRef × Heap :=
  h.newObject ⟨true, .ofList [("name", .string kind.name), ("message", .string message)]⟩

/-! ### Variables -/

/-- Declare a variable in a frame, or declare it anew. -/
def declare (h : Heap) (r : FrameRef) (name : String) (v : Value) (isMutable : Bool) : Heap :=
  { h with
    frames := h.frames.modify r.index fun f => f.insert name ⟨v, isMutable⟩
    declared := h.declared.modify r.index fun ds => (name, ⟨v, isMutable⟩) :: ds }

/-- Put a binding in the place of another one. -/
def rebind (h : Heap) (r : FrameRef) (name : String) (b : Binding) : Heap :=
  { h with frames := h.frames.modify r.index fun f => f.insert name b }

/-- The innermost frame of a chain that has a variable, and the variable. -/
def resolve (h : Heap) (env : Env) (name : String) : Option (FrameRef × Binding) :=
  match env with
  | [] => none
  | r :: outer =>
    match (h.frame r).find? name with
    | some b => some (r, b)
    | none => h.resolve outer name

/-- The value of the innermost variable of a name. -/
def lookup (h : Heap) (env : Env) (name : String) : Option Value :=
  (h.resolve env name).map fun found => found.2.value

end Heap

/-- What comes of giving a variable a value. -/
inductive Assignment where
  | assigned
  | constant
  | undeclared
deriving DecidableEq, Repr

/-- Give the innermost variable of a name a value, if it may have one. -/
def Heap.assign (h : Heap) (env : Env) (name : String) (v : Value) : Assignment × Heap :=
  match h.resolve env name with
  | none => (.undeclared, h)
  | some (r, b) =>
    if b.isMutable then (.assigned, h.rebind r name { b with value := v }) else (.constant, h)

end MemoryShell.Script
