/-
  MemoryShell/Script/Property.lean
  ================================
  **Properties of values: elements, members, lengths and methods.**

  What a key means depends on the kind of value.  Strings and arrays have a length and elements at
  whole numbers; objects have members; every other key of a value names one of its methods or
  nothing.  Fetching a method makes a new function each time.
-/
import MemoryShell.Script.Machine

namespace MemoryShell.Script

/-! ### Keys -/

/-- The index that a key is: a natural number below `2 ^ 64` in its shortest decimal form. -/
def index? (key : String) : Option Nat :=
  let digits := key.toList
  if digits.isEmpty || digits.length > 20 || !digits.all Char.isDigit then none
  else if digits.head? == some '0' && digits.length > 1 then none
  else
    let n := Decimal.decimalValue digits
    if n < Decimal.twoTo 64 then some n else none

def indexKeys (n : Nat) : List String := (List.range n).map toString

/-- The keys of the elements or members of a value, in order. -/
def Heap.ownKeys (h : Heap) : Value → List String
  | .object r => (h.object r).members.keys
  | .array r => indexKeys (h.array r).size
  | .string s => indexKeys s.length
  | _ => []

namespace Act

/-! ### Reading -/

/-- The method of a name of a value, if there is one. -/
def methodOrNothing (methods : List Method) (receiver : Value) (name : String) : Act σ Value :=
  match Method.named? methods name with
  | some method => newMethod method receiver
  | none => pure .undefined

def getProperty (object : Value) (key : String) : Act σ Value :=
  match object with
  | .undefined | .null => do throwMistake (.readOfMissing (← display object) key)
  | .string s =>
    if key = "length" then pure (.number (Float.ofNat s.length))
    else
      match index? key with
      | some i => pure (((s.toList[i]?).map fun c => .string c.toString).getD .undefined)
      | none => methodOrNothing Method.ofStrings object key
  | .array r =>
    if key = "length" then lookHeap fun h => .number (Float.ofNat (h.array r).size)
    else
      match index? key with
      | some i => lookHeap fun h => (h.array r)[i]?.getD .undefined
      | none => methodOrNothing Method.ofArrays object key
  | .number _ => methodOrNothing Method.ofNumbers object key
  | .bool _ => methodOrNothing Method.ofBools object key
  | .object r => do
    let o ← lookHeap fun h => h.object r
    match o.members.find? key with
    | some v => pure v
    | none =>
      if o.isError && key == "stack" then return .string (← display object)
      else methodOrNothing Method.ofObjects object key
  | .closure _ d _ => pure (if key = "name" then .string (d.name.getD "") else .undefined)
  | .native _ f => pure (if key = "name" then .string f.name else .undefined)
  | .method .. => pure .undefined

/-! ### Writing -/

variable (limits : Limits)

/-- The greatest length of arrays in the language. -/
def maxArrayIndex : Nat := Decimal.twoTo 32 - 1

/-- Refuse a length that no array may have. -/
def checkLength (n : Nat) : Act σ Nat :=
  if n ≤ maxArrayIndex ∧ n ≤ limits.maxArrayLength then pure n else throwMistake .arrayLength

def lengthOf (x : Float) : Act σ Nat :=
  if x ≥ 0 && Decimal.isInteger x then checkLength limits x.toUInt64.toNat
  else throwMistake .arrayLength

/-- The items brought to a length: cut, or filled up with undefined. -/
def resized (n : Nat) (items : Array Value) : Array Value :=
  if n ≤ items.size then items.take n else items ++ Array.replicate (n - items.size) .undefined

/-- Write an element of an array; the array grows up to it. -/
def setElement (r : ArrayRef) (i : Nat) (v : Value) : Act σ Unit := do
  if i < (← lookHeap fun h => (h.array r).size) then
    changeHeap fun h => h.changeArray r fun items => items.setIfInBounds i v
  else
    let n ← checkLength limits (i + 1)
    if i < n then
      changeHeap fun h => h.changeArray r fun items => (resized n items).setIfInBounds i v
    else fail .outOfRange

/-- Write the length of an array.  While the value becomes a number the array must not be read. -/
def setLength (r : ArrayRef) (v : Value) : Act σ Unit := do
  let isBusy ← lookHeap fun h =>
    match v with
    | .array _ => h.readsArray r h.displayFuel [] v
    | _ => false
  if isBusy then do
    note .blocked
    fail .busyArray
  else
    let n ← lengthOf limits (← number v)
    changeHeap fun h => h.changeArray r fun items => resized n items

/-- Write a property of a value.  What cannot be written is passed over in silence, except for
    missing values. -/
def setProperty (object : Value) (key : String) (v : Value) : Act σ Unit :=
  match object with
  | .undefined | .null => do throwMistake (.writeOfMissing (← display object) key)
  | .object r => changeHeap fun h => h.setMember r key v
  | .array r =>
    match index? key with
    | some i => setElement limits r i v
    | none => if key = "length" then setLength limits r v else pure ()
  | _ => pure ()

end Act

end MemoryShell.Script
