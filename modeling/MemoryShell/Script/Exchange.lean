/-
  MemoryShell/Script/Exchange.lean
  ================================
  **Values as documents, and documents as values.**

  A document has no place for functions and missing values: they are left out of objects and stand
  as null in arrays.  Errors have no members worth writing.  Values can hold themselves, so they are
  followed only to a fixed depth.
-/
import MemoryShell.Document.Printer
import MemoryShell.Document.Reader
import MemoryShell.Script.Machine

namespace MemoryShell.Script

/-! ### Values as documents -/

/-- How many levels of a value a document can have, the value itself included. -/
def maxDocumentLevels : Nat := 129

/-- The document of a value, if it has one, within a number of levels. -/
def Heap.toDocument (h : Heap) : Nat → Value → Except Mistake (Option Document)
  | 0, _ => .error .circularJson
  | levels + 1, v =>
    match v with
    | .undefined | .closure .. | .native .. | .method .. => .ok none
    | .null => .ok (some .null)
    | .bool b => .ok (some (.bool b))
    | .number x => .ok (some (.number x))
    | .string s => .ok (some (.string s))
    | .array r => do
      let items ← (h.array r).toList.mapM (h.toDocument levels)
      return some (.array (items.map fun d => d.getD .null))
    | .object r => do
      let o := h.object r
      if o.isError then return some (.object [])
      else
        let members ← o.members.entries.mapM fun (name, v) => do
          return (← h.toDocument levels v).map fun d => (name, d)
        return some (.object (members.filterMap id))

def maxIndent : Nat := 10

/-- The layout that a value asks for: a number of blanks, or the beginning of a text. -/
def layoutOf : Value → Document.Layout
  | .number x =>
    let width := min (integerPart x).toUInt64.toNat maxIndent
    if width = 0 then .compact else .lines (List.replicate width ' ')
  | .string s => if s.isEmpty then .compact else .lines (s.toList.take maxIndent)
  | _ => .compact

/-! ### Documents as values -/

mutual

/-- The value of a document; its arrays and objects are made on the heap. -/
def Heap.ofDocument (h : Heap) : Document → Value × Heap
  | .null => (.null, h)
  | .bool b => (.bool b, h)
  | .number x => (.number x, h)
  | .string s => (.string s, h)
  | .array items =>
    let (values, h) := h.ofItems items
    let (r, h) := h.newArray values.toArray
    (.array r, h)
  | .object members =>
    let (values, h) := h.ofMembers members
    let (r, h) := h.newObject ⟨false, .ofList values⟩
    (.object r, h)

def Heap.ofItems (h : Heap) : List Document → List Value × Heap
  | [] => ([], h)
  | d :: rest =>
    let (v, h) := h.ofDocument d
    let (vs, h) := h.ofItems rest
    (v :: vs, h)

def Heap.ofMembers (h : Heap) : List (String × Document) → List (String × Value) × Heap
  | [] => ([], h)
  | (name, d) :: rest =>
    let (v, h) := h.ofDocument d
    let (vs, h) := h.ofMembers rest
    ((name, v) :: vs, h)

end

/-! ### As acts -/

namespace Act

/-- Write a value as text, laid out as another value asks. -/
def stringify (v layout : Value) : Act σ Value := do
  match ← lookHeap fun h => h.toDocument maxDocumentLevels v with
  | .ok (some d) => return .string (d.render (layoutOf layout))
  | .ok none => return .undefined
  | .error e => throwMistake e

theorem stringify_eq (v layout : Value) (m : Machine σ) :
    stringify v layout m =
      (match m.heap.toDocument maxDocumentLevels v with
        | .ok (some d) => return .string (d.render (layoutOf layout))
        | .ok none => return .undefined
        | .error e => throwMistake e : Act σ Value) m := rfl

def parseText (source : String) : Act σ Value :=
  match Document.ofText source with
  | .ok d => withHeap fun h => h.ofDocument d
  | .error message => throwMistake (.malformedJson message)

end Act

end MemoryShell.Script
