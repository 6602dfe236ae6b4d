/-
  MemoryShell/Toml/Item.lean
  ==========================
  **What a TOML document defines, and what may not be defined twice.**

  A table comes to be in one of three ways: by its own header, because a header or a value below it
  needs it, or by a dotted key.  Which of them it was decides what may be added later.  Tables
  written inline are closed.
-/

namespace MemoryShell.Toml

/-- How a table came to be. -/
inductive Origin where
  /-- It has a header of its own. -/
  | header
  /-- A header below it needs it. -/
  | implied
  /-- It is named in a dotted key. -/
  | dotted
deriving DecidableEq, Repr

/-- What a key stands for. -/
inductive Item where
  | string (s : String)
  | integer (n : Int)
  | float (x : Float)
  | boolean (b : Bool)
  | dateTime
  | array (items : List Item)
  | inlineTable (members : List (String × Item))
  | table (origin : Origin) (members : List (String × Item))
  /-- Tables that share a name, each with a header of its own. -/
  | tables (each : List (List (String × Item)))

/-- The members of a table, in order of definition. -/
abbrev Members := List (String × Item)

namespace Members

/-! ### Changing one member -/

/-- The members with another item under a key that is there. -/
def replace (members : Members) (key : String) (item : Item) : Members :=
  members.map fun m => if m.1 = key then (key, item) else m

def append (members : Members) (key : String) (item : Item) : Members := members ++ [(key, item)]

def changeLast (change : Members → Option Members) (each : List Members) : Option (List Members) :=
  match each.getLast? with
  | none => none
  | some last => (change last).map fun last => each.dropLast ++ [last]

/-! ### Values -/

/-- Define a key at the end of a path of dotted keys.  The tables on the path may not have headers
    of their own, and the last one must be a dotted one. -/
def define (key : String) (item : Item) : List String → Members → Option Members
  | [], members =>
    if (members.lookup key).isSome then none else some (members.append key item)
  | name :: path, members =>
    match members.lookup name with
    | none => (define key item path []).map fun inner => members.append name (.table .dotted inner)
    | some (.table origin inner) =>
      if origin = .header ∨ (path.isEmpty ∧ origin ≠ .dotted) then none
      else (define key item path inner).map fun inner => members.replace name (.table origin inner)
    | some (.tables each) =>
      if path.isEmpty then none
      else (changeLast (define key item path) each).map fun each => members.replace name (.tables each)
    | some _ => none

/-! ### Headers -/

/-- Change the table that a header's path leads to.  Missing tables on the way are made; of tables
    that share a name the last one counts. -/
def changeAt (change : Members → Option Members) : List String → Members → Option Members
  | [], members => change members
  | name :: path, members =>
    match members.lookup name with
    | none => (changeAt change path []).map fun inner => members.append name (.table .implied inner)
    | some (.table origin inner) =>
      (changeAt change path inner).map fun inner => members.replace name (.table origin inner)
    | some (.tables each) =>
      (changeLast (changeAt change path) each).map fun each => members.replace name (.tables each)
    | some _ => none

/-- Open a table by its header; it may be there only because something below it needed it. -/
def openTable (key : String) (members : Members) : Option Members :=
  match members.lookup key with
  | none => some (members.append key (.table .header []))
  | some (.table .implied inner) => some (members.replace key (.table .header inner))
  | some _ => none

/-- Open one more of the tables that share a name. -/
def openNext (key : String) (members : Members) : Option Members :=
  match members.lookup key with
  | none => some (members.append key (.tables [[]]))
  | some (.tables each) => some (members.replace key (.tables (each ++ [[]])))
  | some _ => none

end Members

end MemoryShell.Toml
