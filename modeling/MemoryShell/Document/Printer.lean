/-
  MemoryShell/Document/Printer.lean
  =================================
  **Documents as text, on one line or with one item to a line.**

  An integer below `2 ^ 53` is written as an integer.  Any other finite number has the fewest digits
  that read back and shows that it is no integer by a point or an exponent.  What is no finite
  number is written as null.
-/
import MemoryShell.Document.Basic
import MemoryShell.Decimal.Text

namespace MemoryShell.Document

/-! ### Numbers -/

/-- The integers below this are written as integers. -/
def plainIntegers : Nat := Decimal.twoTo 53

/-- The least decimal exponent that is written without an exponent. -/
def minPositional : Int := -5

/-- The greatest decimal exponent that is written without an exponent. -/
def maxPositional : Int := 15

/-- Digits with a point behind the first of them, unless there is no other, and an exponent. -/
def scientific (digits : List Char) (exponent : Int) : List Char :=
  let sign := if exponent < 0 then '-' else '+'
  let power := 'e' :: sign :: Decimal.digitsOf exponent.natAbs
  match digits with
  | d :: e :: rest => d :: '.' :: e :: rest ++ power
  | ds => ds ++ power

/-- Digits as a number that shows that it is no integer. -/
def fractionText (d : Decimal.Digits) : List Char :=
  let digits := Decimal.digitsOf d.value
  let exponent : Int := digits.length - 1 + d.exponent
  if minPositional ≤ exponent ∧ exponent ≤ maxPositional then
    if d.exponent ≥ 0 then d.positional ++ ['.', '0'] else d.positional
  else scientific digits exponent

def numberText (x : Float) : List Char :=
  match Decimal.Parts.ofFloat x with
  | .nan | .infinite _ => "null".toList
  | .finite negative mantissa exponent =>
    let (num, den) := Decimal.ratio mantissa exponent
    if mantissa = 0 then ['0']
    else
      let digits :=
        if num % den = 0 ∧ num / den < plainIntegers then Decimal.digitsOf (num / den)
        else fractionText (Decimal.shortest .even mantissa exponent)
      if negative then '-' :: digits else digits

/-! ### Strings -/

/-- The two hexadecimal digits of a number below 256. -/
def hexPair (n : Nat) : List Char := [Decimal.radixDigit (n / 16), Decimal.radixDigit (n % 16)]

def escapeChar (c : Char) : List Char :=
  if c = '"' then ['\\', '"']
  else if c = '\\' then ['\\', '\\']
  else if c = '\n' then ['\\', 'n']
  else if c = '\r' then ['\\', 'r']
  else if c = '\t' then ['\\', 't']
  else if c = '\x08' then ['\\', 'b']
  else if c = '\x0c' then ['\\', 'f']
  else if c.toNat < 32 then '\\' :: 'u' :: '0' :: '0' :: hexPair c.toNat
  else [c]

def stringText (s : String) : List Char := '"' :: s.toList.flatMap escapeChar ++ ['"']

/-! ### Layout -/

/-- How the items of arrays and objects are set apart: nothing, or a line for each item, indented by
    so many copies of a text. -/
inductive Layout where
  | compact
  | lines (indent : List Char)

namespace Layout

/-- A line break and the indentation of a depth. -/
def newline (layout : Layout) (depth : Nat) : List Char :=
  match layout with
  | .compact => []
  | .lines indent => '\n' :: (List.replicate depth indent).flatten

def colon (layout : Layout) : List Char :=
  match layout with
  | .compact => [':']
  | .lines _ => [':', ' ']

def enclose (layout : Layout) (opening closing : Char) (depth : Nat) (items : List (List Char)) :
    List Char :=
  if items.isEmpty then [opening, closing]
  else
    opening :: layout.newline (depth + 1) ++
      (',' :: layout.newline (depth + 1)).intercalate items ++
      layout.newline depth ++ [closing]

end Layout

mutual

def textAt (layout : Layout) (depth : Nat) : Document → List Char
  | .null => "null".toList
  | .bool b => if b then "true".toList else "false".toList
  | .number x => numberText x
  | .string s => stringText s
  | .array items => layout.enclose '[' ']' depth (itemTexts layout (depth + 1) items)
  | .object members => layout.enclose '\x7b' '\x7d' depth (memberTexts layout (depth + 1) members)

def itemTexts (layout : Layout) (depth : Nat) : List Document → List (List Char)
  | [] => []
  | d :: rest => textAt layout depth d :: itemTexts layout depth rest

def memberTexts (layout : Layout) (depth : Nat) : List (String × Document) → List (List Char)
  | [] => []
  | (name, d) :: rest =>
    (stringText name ++ layout.colon ++ textAt layout depth d) :: memberTexts layout depth rest

end

def render (layout : Layout) (d : Document) : String := String.ofList (textAt layout 0 d)

end MemoryShell.Document
