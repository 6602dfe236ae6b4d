/-
  MemoryShell/Toml/Reader.lean
  ============================
  **Reading a TOML document.**

  A document is read line by line.  The header that was read last says in which table the keys
  behind it are defined; before the first header that is the document itself.
-/
import MemoryShell.Toml.Scalar

namespace MemoryShell.Toml

namespace Read

/-! ### Keys -/

def isBare (c : Char) : Bool := c.isAlphanum || c == '_' || c == '-'

def keyPart : Read String := do
  match ← peek with
  | some '"' => quoted '"' true
  | some '\'' => quoted '\'' false
  | _ =>
    let name ← spanOf isBare
    if name.isEmpty then fail else return String.ofList name

/-- The parts of a key behind the first, with points before them. -/
def keyRest : Nat → Read (List String)
  | 0 => fail
  | n + 1 => do
    space
    if ← at? ['.'] then
      skip 1
      space
      let part ← keyPart
      return part :: (← keyRest n)
    else return []

/-- How many parts a key may have, and how deep values may nest, less one. -/
def maxNesting : Nat := 79

def key : Read (List String) := do
  space
  let part ← keyPart
  let parts := part :: (← keyRest (← turns))
  if parts.length ≤ maxNesting then return parts else fail

/-- Define the last part of a key below the others. -/
def defineKey (parts : List String) (item : Item) (members : Members) : Option Members :=
  match parts.getLast? with
  | some last => members.define last item parts.dropLast
  | none => none

/-! ### Values -/

def binding (value : Read Item) : Read (List String × Item) := do
  let parts ← key
  char '='
  space
  return (parts, ← value)

/-- The items of an array behind its opening.  A comma may follow the last one. -/
def arrayFrom (value : Read Item) : Nat → Read (List Item)
  | 0 => fail
  | n + 1 => do
    gap
    if ← at? [']'] then
      skip 1
      return []
    else
      let item ← value
      gap
      if ← at? [','] then
        skip 1
        return item :: (← arrayFrom value n)
      else
        char ']'
        return [item]

/-- The members of an inline table behind its opening and those that are read. -/
def inlineFrom (value : Read Item) (members : Members) : Nat → Read Members
  | 0 => fail
  | n + 1 => do
    let (parts, item) ← binding value
    match defineKey parts item members with
    | none => fail
    | some members =>
      space
      if ← at? [','] then
        skip 1
        inlineFrom value members n
      else
        char '\x7d'
        return members

def inlineTable (value : Read Item) : Read Item := do
  skip 1
  space
  if ← at? ['\x7d'] then
    skip 1
    return .inlineTable []
  else return .inlineTable (← inlineFrom value [] (← turns))

/-- A value, given a reader for the values nested in it, if there is one. -/
def valueOf (nested : Option (Read Item)) : Read Item := do
  match ← peek with
  | some '"' | some '\'' => return .string (← string)
  | some '[' =>
    match nested with
    | some value => do
      skip 1
      return .array (← arrayFrom value (← turns))
    | none => fail
  | some '\x7b' =>
    match nested with
    | some value => inlineTable value
    | none => fail
  | some 't' => do
    exactly "true".toList
    return .boolean true
  | some 'f' => do
    exactly "false".toList
    return .boolean false
  | _ => numberOrDate

/-- A value in which arrays and inline tables nest at most so many levels deep. -/
def value : Nat → Read Item
  | 0 => valueOf none
  | levels + 1 => valueOf (some (value levels))

/-! ### Lines -/

/-- The members that are defined, and the path of the table that keys are defined in. -/
structure Progress where
  members : Members
  path : List String

def openHeader (parts : List String) (opening : String → Members → Option Members)
    (p : Progress) : Option Progress := do
  let last ← parts.getLast?
  let members ← p.members.changeAt (opening last) parts.dropLast
  return ⟨members, parts⟩

/-- What was made of a line, if it could be. -/
def orFail (made : Option α) : Read α :=
  match made with
  | some a => pure a
  | none => fail

def headerLine (p : Progress) : Read Progress := do
  if ← at? ['[', '['] then
    skip 2
    let parts ← key
    exactly [']', ']']
    lineRest
    orFail (openHeader parts (fun name members => members.openNext name) p)
  else
    skip 1
    let parts ← key
    char ']'
    lineRest
    orFail (openHeader parts (fun name members => members.openTable name) p)

def bindingLine (p : Progress) : Read Progress := do
  let (parts, item) ← binding (value maxNesting)
  lineRest
  let members ← orFail (p.members.changeAt (defineKey parts item) p.path)
  return { p with members }

def linesFrom (p : Progress) : Nat → Read Members
  | 0 => fail
  | n + 1 => do
    space
    match ← peek with
    | none => return p.members
    | some '#' => do
      comment
      lineEnd
      linesFrom p n
    | some '\n' | some '\r' => do
      newline
      linesFrom p n
    | some '[' => do linesFrom (← headerLine p) n
    | some _ => do linesFrom (← bindingLine p) n

/-- A whole document; it may begin with a mark of byte order. -/
def document : Read Members := do
  if ← at? ['\uFEFF'] then skip 1
  linesFrom ⟨[], []⟩ (← turns)

end Read

/-- The members of the document that a text is, if it is one. -/
def ofText? (text : String) : Option Members := (Read.document text.toList).map Prod.fst

end MemoryShell.Toml
