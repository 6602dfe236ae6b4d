/-
  MemoryShell/Script/Arrays.lean
  ==============================
  **The methods of arrays.**

  Methods that call a function of the script work on the elements as they were when the method was
  called, whatever the function does to the array meanwhile.  Every such call takes a turn.  Methods
  that make an array longer check its length first.
-/
import MemoryShell.Script.Property
import MemoryShell.Script.Position
import MemoryShell.Script.Sorting

namespace MemoryShell.Script

namespace Act

variable (limits : Limits) (call : Value → List Value → Act σ Value)

/-- The elements of an array as they are now. -/
def elements (r : ArrayRef) : Act σ (Array Value) := lookHeap fun h => h.array r

def setElements (r : ArrayRef) (items : Array Value) : Act σ Unit :=
  changeHeap fun h => h.changeArray r fun _ => items

/-! ### Calling for each element -/

/-- The elements of an array, each with its position. -/
def numbered (r : ArrayRef) : Act σ (List (Value × Nat)) := do
  return (← elements r).toList.zipIdx

/-- Call a function in a turn of its own. -/
def callInTurn (f : Value) (args : List Value) : Act σ Value := do
  beginTurn limits
  note (.worked .callback)
  call f args

/-- Call a function with an element, its position and the array. -/
def visit (f : Value) (r : ArrayRef) (item : Value × Nat) : Act σ Value :=
  callInTurn limits call f [item.1, .number (Float.ofNat item.2), .array r]

/-- What a function gives for each element. -/
def mapped (f : Value) (r : ArrayRef) : Act σ (Array Value) := do
  (← numbered r).foldlM (fun made item => do return made.push (← visit limits call f r item)) #[]

/-- The elements for which a function gives something true. -/
def filtered (f : Value) (r : ArrayRef) : Act σ (Array Value) := do
  (← numbered r).foldlM (fun kept item => do
    return if (← visit limits call f r item).truthy then kept.push item.1 else kept) #[]

/-- The first element for which a function gives something true, or something not true. -/
def found (wanted : Bool) (f : Value) (r : ArrayRef) : Act σ (Option (Value × Nat)) := do
  (← numbered r).findM? fun item => do return (← visit limits call f r item).truthy == wanted

/-- Combine the elements from left to right, beginning with a value. -/
def folded (f : Value) (r : ArrayRef) (start : Value) (items : List (Value × Nat)) : Act σ Value :=
  items.foldlM (fun acc item =>
    callInTurn limits call f [acc, item.1, .number (Float.ofNat item.2), .array r]) start

/-- Combine the elements of an array; without a value to begin with the first element is it. -/
def reduced (f : Value) (r : ArrayRef) (start : Option Value) : Act σ Value := do
  match start, ← numbered r with
  | some v, items => folded limits call f r v items
  | none, (first, _) :: items => folded limits call f r first items
  | none, [] => throwMistake .emptyFold

/-- Whether a value comes after another one, as a comparison says or by itself. -/
def compared (comparison : Value) (a b : Value) : Act σ Bool := do
  if comparison.isFunction then return (← number (← call comparison [a, b])) > 0
  else lookHeap fun h => h.comesAfter a b

/-- Compare two values in a turn of its own. -/
def sortsAfter (comparison : Value) (a b : Value) : Act σ Bool := do
  beginTurn limits
  note (.worked .comparison)
  compared call comparison a b

/-! ### Changing the length -/

/-- Refuse more elements than an array may have. -/
def checkGrowth (r : ArrayRef) (extra : Nat) : Act σ Unit := do
  if (← elements r).size + extra > limits.maxArrayLength then throwMistake .arrayLength

def pushed (r : ArrayRef) (values : List Value) : Act σ Value := do
  checkGrowth limits r values.length
  changeHeap fun h => h.changeArray r fun items => items ++ values
  lookHeap fun h => .number (Float.ofNat (h.array r).size)

def popped (r : ArrayRef) : Act σ Value := do
  let last ← lookHeap fun h => (h.array r).back?
  changeHeap fun h => h.changeArray r Array.pop
  return last.getD .undefined

def shifted (r : ArrayRef) : Act σ Value := do
  let items ← elements r
  if items.isEmpty then return .undefined
  else
    let first ← need items[0]?
    setElements r (items.extract 1)
    return first

def unshifted (r : ArrayRef) (values : List Value) : Act σ Value := do
  checkGrowth limits r values.length
  changeHeap fun h => h.changeArray r fun items => values.toArray ++ items
  lookHeap fun h => .number (Float.ofNat (h.array r).size)

/-- A count that is at most the given one, which stands for a missing count. -/
def countUpTo (most : Nat) (count : Option Value) : Act σ Nat :=
  match count with
  | none => pure most
  | some v => do return clamped (← number v) most

/-- Take elements out of an array and put values in their place; without a count, all elements from
    the position on. -/
def spliced (r : ArrayRef) (args : List Value) : Act σ Value := do
  checkGrowth limits r (args.length - 2)
  let items ← elements r
  let start := clampedFromEnd (← number (argument args 0)) items.size
  let count ← countUpTo (← need (without? items.size start)) args[1]?
  let taken ← need (itemsBetween? start (start + count) items)
  setElements r
    (items.extract 0 start ++ args.drop 2 ++ items.extract (start + count) items.size)
  newArray taken

/-- The elements that a value adds to others: those of an array, else the value itself. -/
def joinedElements (v : Value) : Act σ (Array Value) :=
  match v with
  | .array r => elements r
  | v => pure #[v]

/-- The elements of an array and of some values, as a new array. -/
def concatenated (r : ArrayRef) (values : List Value) : Act σ Value := do
  let parts ← values.mapM joinedElements
  checkGrowth limits r (parts.foldl (fun n part => n + part.size) 0)
  newArray (parts.foldl (fun all part => all ++ part) (← elements r))

/-! ### Text and searching -/

/-- The texts of the elements with a separator between them. -/
def joined (r : ArrayRef) (separator : Value) : Act σ Value := do
  let separator ← match separator with
    | .undefined => pure ","
    | v => display v
  let count := (← elements r).size
  if separator.utf8ByteSize * (count - 1) > limits.maxStringLength then throwMistake .stringLength
  else
    checkText limits (← lookHeap fun h => .string (h.joinText separator (h.array r).toList))

/-- Whether two values are the same; here no number is the same as itself. -/
def sameValue (a b : Value) : Bool :=
  match a, b with
  | .number x, .number y => x == y || (x.isNaN && y.isNaN)
  | a, b => a.strictEquals b

def positionOf (v : Value) (items : Array Value) : Option Nat :=
  items.findIdx? fun item => item.strictEquals v

def lastPositionOf (v : Value) (items : Array Value) : Option Nat :=
  (items.zipIdx.findRev? fun item => item.1.strictEquals v).map Prod.snd

/-! ### Dispatch -/

def takesFunction : Method → Bool
  | .map | .filter | .forEach | .find | .findIndex | .some | .every | .reduce => true
  | _ => false

def arrayResult (method : Method) (r : ArrayRef) (args : List Value) : Act σ Value := do
  let first := argument args 0
  match method with
  | .push => pushed limits r args
  | .pop => popped r
  | .shift => shifted r
  | .unshift => unshifted limits r args
  | .splice => spliced limits r args
  | .concat => concatenated limits r args
  | .join => joined limits r first
  | .toText => lookHeap fun h => .string (h.joinText "," (h.array r).toList)
  | .at_ =>
    let x ← number first
    lookHeap fun h =>
      let items := h.array r
      ((elementAt? x items.size).bind fun i => items[i]?).getD .undefined
  | .indexOf => return positionValue (positionOf first (← elements r))
  | .lastIndexOf => return positionValue (lastPositionOf first (← elements r))
  | .includes => return .bool ((← elements r).any (sameValue first))
  | .slice =>
    let items ← elements r
    let (start, stop) ← lookHeap fun h => h.part first (argument args 1) items.size
    newArray (← need (itemsBetween? start (max start stop) items))
  | .reverse =>
    changeHeap fun h => h.changeArray r Array.reverse
    return .array r
  | .sort =>
    let sorted ← sortBy (sortsAfter limits call first) (← elements r).toList
    setElements r sorted.toArray
    return .array r
  | .map => newArray (← mapped limits call first r)
  | .filter => newArray (← filtered limits call first r)
  | .forEach =>
    let _ ← mapped limits call first r
    return .undefined
  | .find => return ((← found limits call true first r).map Prod.fst).getD .undefined
  | .findIndex => return positionValue ((← found limits call true first r).map Prod.snd)
  | .some => return .bool (← found limits call true first r).isSome
  | .every => return .bool (← found limits call false first r).isNone
  | .reduce => reduced limits call first r args[1]?
  | _ => return .undefined

/-- What a method of an array gives; a method that calls a function wants one. -/
def arrayMethod (method : Method) (r : ArrayRef) (args : List Value) : Act σ Value := do
  if takesFunction method && !(argument args 0).isFunction then
    throwMistake (.notAFunction (← display (argument args 0)))
  else arrayResult limits call method r args

end Act

end MemoryShell.Script
