/-
  MemoryShell/Script/Coercion.lean
  ================================
  **Values as text and as numbers, and what operators make of them.**

  The text of an array is that of its elements with commas between them.  Arrays can hold
  themselves: an array that is already on the way has no text, and neither has one that lies too
  deep.  An error shows its name and message, which may be any values.  All this only looks at the
  heap.
-/
import MemoryShell.Script.Value
import MemoryShell.Script.Number

namespace MemoryShell.Script

/-! ### Text -/

/-- How many arrays may be on the way before a further one has no text. -/
def maxJoinDepth : Nat := 1000

/-- The text of a function with a given body. -/
def functionText (name : String) (params : List String) (body : String) : String :=
  "function " ++ name ++ "(" ++ ", ".intercalate params ++ ") \x7b " ++ body ++ " \x7d"

/-- The text of an error with a name and a message. -/
def errorText (name message : String) : String :=
  if message.isEmpty then name else name ++ ": " ++ message

/-- Whether an array has no text for those on the way to it. -/
def skipsArray (joining : List ArrayRef) (r : ArrayRef) : Bool :=
  decide (joining.length ≥ maxJoinDepth) || joining.contains r

/-- The text of a value below some arrays.  `fuel` bounds the depth; an error that holds itself
    would have none. -/
def Heap.displayBelow (h : Heap) : Nat → List ArrayRef → Value → String
  | 0, _, _ => ""
  | fuel + 1, joining, v =>
    match v with
    | .undefined => "undefined"
    | .null => "null"
    | .bool b => if b then "true" else "false"
    | .number x => numberText x
    | .string s => s
    | .array r =>
      if skipsArray joining r then ""
      else
        ",".intercalate <| (h.array r).toList.map fun v =>
          if v.isNullish then "" else h.displayBelow fuel (r :: joining) v
    | .object r =>
      let o := h.object r
      if o.isError then
        errorText (((o.members.find? "name").map (h.displayBelow fuel joining)).getD "Error")
          (((o.members.find? "message").map (h.displayBelow fuel joining)).getD "")
      else "[object Object]"
    | .closure _ d _ => functionText (d.name.getD "") d.params "[code]"
    | .native _ f => functionText f.name [] "[native code]"
    | .method _ m _ => functionText m.name [] "[native code]"

/-- How deep the text of a value can go: at most so many arrays, and between two of them every error
    at most once. -/
def Heap.displayFuel (h : Heap) : Nat := (maxJoinDepth + 2) * (h.objects.size + 2)

def Heap.display (h : Heap) (v : Value) : String := h.displayBelow h.displayFuel [] v

/-- The texts of some values with a separator between them; missing values have none. -/
def Heap.joinText (h : Heap) (separator : String) (items : List Value) : String :=
  separator.intercalate (items.map fun v => if v.isNullish then "" else h.display v)

/-- The text of a value that ends a script as an error: the message of an error, else its text. -/
def Heap.errorMessage (h : Heap) (v : Value) : String :=
  match v with
  | .object r =>
    let o := h.object r
    if o.isError then ((o.members.find? "message").map h.display).getD "" else h.display v
  | v => h.display v

/-- Whether the text of a value is made from the elements of an array.  The recursion is that of the
    text. -/
def Heap.readsArray (h : Heap) (target : ArrayRef) : Nat → List ArrayRef → Value → Bool
  | 0, _, _ => false
  | fuel + 1, joining, v =>
    match v with
    | .array r =>
      if skipsArray joining r then false
      else
        r == target ||
          (h.array r).toList.any fun v => h.readsArray target fuel (r :: joining) v
    | .object r =>
      let o := h.object r
      o.isError &&
        ((((o.members.find? "name").map (h.readsArray target fuel joining)).getD false) ||
          (((o.members.find? "message").map (h.readsArray target fuel joining)).getD false))
    | _ => false

/-! ### Numbers -/

def Heap.toNumber (h : Heap) : Value → Float
  | .undefined => notANumber
  | .null => 0
  | .bool b => if b then 1 else 0
  | .number x => x
  | .string s => textToNumber s
  | .array r => textToNumber (h.display (.array r))
  | _ => notANumber

/-! ### Comparison -/

/-- Equality after bringing two values to one kind. -/
def Heap.looseEquals (h : Heap) (a b : Value) : Bool :=
  if a.isNullish && b.isNullish then true
  else if a.isNullish || b.isNullish then false
  else
    match a, b with
    | .number _, .string _ | .string _, .number _ | .bool _, _ | _, .bool _ =>
      h.toNumber a == h.toNumber b
    | .array _, .string _ | .array _, .number _ | .object _, .string _ | .object _, .number _
    | .string _, .array _ | .string _, .object _ | .number _, .array _ | .number _, .object _ =>
      h.display a == h.display b
    | _, _ => a.strictEquals b

/-- Whether one text stands before another in the order of code points. -/
def textBefore (s t : String) : Bool := decide (s < t)

/-- Comparison by order: of two strings as texts, of other values as numbers. -/
def Heap.compare (h : Heap) (texts : String → String → Bool) (numbers : Float → Float → Bool)
    (a b : Value) : Bool :=
  match a, b with
  | .string s, .string t => texts s t
  | _, _ => numbers (h.toNumber a) (h.toNumber b)

/-! ### Operators -/

def Value.addsAsText : Value → Bool
  | .undefined | .null | .bool _ | .number _ => false
  | _ => true

def Heap.binary (h : Heap) (op : BinaryOp) (a b : Value) : Value :=
  match op with
  | .add =>
    if a.addsAsText || b.addsAsText then .string (h.display a ++ h.display b)
    else .number (h.toNumber a + h.toNumber b)
  | .subtract => .number (h.toNumber a - h.toNumber b)
  | .multiply => .number (h.toNumber a * h.toNumber b)
  | .divide => .number (h.toNumber a / h.toNumber b)
  | .remainder => .number (Decimal.remainder (h.toNumber a) (h.toNumber b))
  | .power => .number ((h.toNumber a).pow (h.toNumber b))
  | .equal => .bool (h.looseEquals a b)
  | .unequal => .bool !(h.looseEquals a b)
  | .strictEqual => .bool (a.strictEquals b)
  | .strictUnequal => .bool !(a.strictEquals b)
  | .less => .bool (h.compare textBefore (fun x y => x < y) a b)
  | .greater => .bool (h.compare (fun s t => textBefore t s) (fun x y => y < x) a b)
  | .atMost => .bool (h.compare (fun s t => !textBefore t s) (fun x y => x ≤ y) a b)
  | .atLeast => .bool (h.compare (fun s t => !textBefore s t) (fun x y => y ≤ x) a b)

def Heap.unary (h : Heap) (op : UnaryOp) (v : Value) : Value :=
  match op with
  | .not => .bool !v.truthy
  | .negate => .number (-(h.toNumber v))
  | .plus => .number (h.toNumber v)
  | .typeOf => .string v.typeName

end MemoryShell.Script
