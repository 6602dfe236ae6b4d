/-
  MemoryShell/Toml/Scalar.lean
  ============================
  **Reading the strings, numbers and dates of TOML.**

  Only whether a text is well formed matters, not why it is not, so a reader that fails has no more
  to say.  The readers follow the grammar of TOML 1.0.
-/
import MemoryShell.Decimal.Reading
import MemoryShell.Toml.Item

namespace MemoryShell.Toml

/-- Readers of a part of a document: what was read and the text behind it, if it is well formed. -/
abbrev Read := StateT (List Char) Option

namespace Read

/-! ### Characters -/

def fail : Read α := fun _ => none

def peek : Read (Option Char) := fun text => some (text.head?, text)

def skip (n : Nat) : Read Unit := fun text => some ((), text.drop n)

/-- Whether the text goes on in a given way. -/
def at? (start : List Char) : Read Bool := fun text => some (start.isPrefixOf text, text)

def one (p : Char → Bool) : Read Char := fun text =>
  match text with
  | c :: rest => if p c then some (c, rest) else none
  | [] => none

def char (c : Char) : Read Unit := do let _ ← one fun d => d == c

def exactly (start : List Char) : Read Unit := do
  if ← at? start then skip start.length else fail

def spanOf (p : Char → Bool) : Read (List Char) := fun text => some (text.takeWhile p, text.dropWhile p)

def either (first second : Read α) : Read α := fun text =>
  match first text with
  | some r => some r
  | none => second text

def optional? (read : Read α) : Read (Option α) :=
  either (do return some (← read)) (pure none)

/-- The length of the text that is left, and one more. -/
def turns : Read Nat := fun text => some (text.length + 1, text)

/-! ### Blanks, line ends and comments -/

def isSpace (c : Char) : Bool := c == ' ' || c == '\t'

/-- Characters that may stand in a comment: all but control characters, the tab allowed. -/
def isPlain (c : Char) : Bool := c == '\t' || (c.toNat ≥ 32 && c.toNat ≠ 127)

def space : Read Unit := do let _ ← spanOf isSpace

def newline : Read Unit := either (char '\n') (exactly ['\r', '\n'])

/-- The end of a line or of the text. -/
def lineEnd : Read Unit := do if (← peek).isSome then newline

def comment : Read Unit := do
  char '#'
  let _ ← spanOf isPlain

/-- What may follow on a line that is complete. -/
def lineRest : Read Unit := do
  space
  if ← at? ['#'] then comment
  lineEnd

def gapFrom : Nat → Read Unit
  | 0 => pure ()
  | n + 1 => do
    space
    match ← peek with
    | some '#' => do
      comment
      newline
      gapFrom n
    | some '\n' | some '\r' => do
      newline
      gapFrom n
    | _ => pure ()

def gap : Read Unit := do gapFrom (← turns)

/-! ### Strings -/

def hexDigit? (c : Char) : Option Nat :=
  if c.isDigit then some (c.toNat - 48)
  else if 'a' ≤ c ∧ c ≤ 'f' then some (c.toNat - 87)
  else if 'A' ≤ c ∧ c ≤ 'F' then some (c.toNat - 55)
  else none

/-- The character whose code has so many hexadecimal digits; a surrogate is no character. -/
def hexChar (digits : Nat) : Read Char := fun text => do
  let ds ← (text.take digits).mapM hexDigit?
  let n := ds.foldl (fun n d => 16 * n + d) 0
  if ds.length = digits ∧ n.isValidChar then some (Char.ofNat n, text.drop digits) else none

/-- The character of an escape, the backslash being read. -/
def escape : Read Char := do
  match ← one fun _ => true with
  | 'b' => return '\x08'
  | 't' => return '\t'
  | 'n' => return '\n'
  | 'f' => return '\x0c'
  | 'r' => return '\r'
  | '"' => return '"'
  | '\\' => return '\\'
  | 'u' => hexChar 4
  | 'U' => hexChar 8
  | _ => fail

/-- The rest of a string on one line, up to its quote; `acc` holds what is read, backwards. -/
def quotedFrom (quote : Char) (escapes : Bool) (acc : List Char) : Nat → Read String
  | 0 => fail
  | n + 1 => do
    let c ← one isPlain
    if c = quote then return String.ofList acc.reverse
    else if escapes && c == '\\' then quotedFrom quote escapes ((← escape) :: acc) n
    else quotedFrom quote escapes (c :: acc) n

def quoted (quote : Char) (escapes : Bool) : Read String := do
  char quote
  quotedFrom quote escapes [] (← turns)

def blankLinesFrom : Nat → Read Unit
  | 0 => pure ()
  | n + 1 => do
    space
    match ← optional? newline with
    | some _ => blankLinesFrom n
    | none => pure ()

/-- Pass over a line end behind a backslash, and all blanks and line ends behind it. -/
def continuation : Read Unit := do
  space
  newline
  blankLinesFrom (← turns)

/-- The rest of a string of several lines.  Of more than three quotes at its end, up to two belong
    to it. -/
def blockFrom (quote : Char) (escapes : Bool) (acc : List Char) : Nat → Read String
  | 0 => fail
  | n + 1 => do
    let quotes := (← (fun text => some (text.takeWhile fun c => c == quote, text))).length
    if quotes ≥ 3 then
      let own := min (quotes - 3) 2
      skip (own + 3)
      return String.ofList (List.replicate own quote ++ acc).reverse
    else
      match ← optional? newline with
      | some _ => blockFrom quote escapes ('\n' :: acc) n
      | none =>
        let c ← one isPlain
        if escapes && c == '\\' then
          match ← optional? continuation with
          | some _ => blockFrom quote escapes acc n
          | none => blockFrom quote escapes ((← escape) :: acc) n
        else blockFrom quote escapes (c :: acc) n

/-- A string of several lines; a line end right behind its opening does not belong to it. -/
def block (quote : Char) (escapes : Bool) : Read String := do
  exactly [quote, quote, quote]
  let _ ← optional? newline
  blockFrom quote escapes [] (← turns)

def string : Read String := do
  match ← peek with
  | some '"' => either (block '"' true) (quoted '"' true)
  | _ => either (block '\'' false) (quoted '\'' false)

/-! ### Numbers -/

/-- Digits of a class, with single underscores between them; the underscores are left out. -/
def digitsFrom (isDigit : Char → Bool) : Nat → Read (List Char)
  | 0 => pure []
  | n + 1 => do
    match ← peek with
    | some '_' => do
      skip 1
      let d ← one isDigit
      return d :: (← digitsFrom isDigit n)
    | some c =>
      if isDigit c then
        skip 1
        return c :: (← digitsFrom isDigit n)
      else pure []
    | none => pure []

/-- At least one digit of a class, with single underscores between them. -/
def digits (isDigit : Char → Bool) : Read (List Char) := do
  let d ← one isDigit
  return d :: (← digitsFrom isDigit (← turns))

def sign : Read (List Char) := do
  match ← peek with
  | some '+' => do
    skip 1
    return ['+']
  | some '-' => do
    skip 1
    return ['-']
  | _ => return []

/-- A decimal integer as it is written, without underscores; only zero begins with a zero. -/
def decimal : Read (List Char) := do
  let s ← sign
  if ← at? ['0'] then
    skip 1
    return s ++ ['0']
  else return s ++ (← digits Char.isDigit)

def decimalValue (written : List Char) : Int :=
  let (negative, ds) := Decimal.readSign written
  if negative then -(Decimal.decimalValue ds : Int) else Decimal.decimalValue ds

/-- Whether an integer is in the range of TOML. -/
def inRange (n : Int) : Bool := -(Decimal.twoTo 63 : Int) ≤ n && n < (Decimal.twoTo 63 : Int)

/-- An integer in a base that its mark names. -/
def marked (mark : Char) (base : Nat) : Read Int := do
  exactly ['0', mark]
  let ds ← digits fun c => ((hexDigit? c).filter fun d => decide (d < base)).isSome
  let n := (ds.filterMap hexDigit?).foldl (fun n d => base * n + d) 0
  return n

def anyInteger : Read Int := do
  if ← at? ['0', 'x'] then marked 'x' 16
  else if ← at? ['0', 'o'] then marked 'o' 8
  else if ← at? ['0', 'b'] then marked 'b' 2
  else return decimalValue (← decimal)

def integer : Read Item := do
  let n ← anyInteger
  if inRange n then return .integer n else fail

def exponent : Read (List Char) := do
  let _ ← one fun c => c == 'e' || c == 'E'
  let s ← sign
  return 'e' :: s ++ (← digits Char.isDigit)

/-- The places of a number, its point included, and the exponent behind them. -/
def places : Read (List Char) := do
  char '.'
  let ds ← digits Char.isDigit
  return '.' :: ds ++ ((← optional? exponent).getD [])

/-- A number with a point or an exponent.  It may not be too great, but it may be too small. -/
def finiteFloat : Read Item := do
  let written := (← decimal) ++ (← either exponent places)
  match Decimal.read? written with
  | some x => if x.isInf && x > 0 then fail else return .float x
  | none => fail

/-- Infinity, or no number. -/
def namedFloat : Read Item := do
  let s ← sign
  let x ← either (do exactly "inf".toList; return 1.0 / 0.0) (do exactly "nan".toList; return 0.0 / 0.0)
  return .float (if s = ['-'] then -x else x)

/-! ### Dates and times -/

def twoDigits (low high : Nat) : Read Nat := do
  let a ← one Char.isDigit
  let b ← one Char.isDigit
  let n := Decimal.decimalValue [a, b]
  if low ≤ n ∧ n ≤ high then return n else fail

def daysIn (year month : Nat) : Nat :=
  if month = 2 then
    if year % 4 = 0 ∧ (year % 100 ≠ 0 ∨ year % 400 = 0) then 29 else 28
  else if month = 4 ∨ month = 6 ∨ month = 9 ∨ month = 11 then 30
  else 31

def date : Read Unit := do
  let century ← twoDigits 0 99
  let year := 100 * century + (← twoDigits 0 99)
  char '-'
  let month ← twoDigits 1 12
  char '-'
  let _ ← twoDigits 1 (daysIn year month)

/-- Parts of a second. -/
def secondParts : Read Unit := do
  char '.'
  let _ ← one Char.isDigit
  let _ ← spanOf Char.isDigit

def time : Read Unit := do
  let _ ← twoDigits 0 23
  char ':'
  let _ ← twoDigits 0 59
  char ':'
  let _ ← twoDigits 0 60
  let _ ← optional? secondParts

def offset : Read Unit := do
  let c ← one fun c => c == 'Z' || c == 'z' || c == '+' || c == '-'
  if c == '+' || c == '-' then
    let _ ← twoDigits 0 23
    char ':'
    let _ ← twoDigits 0 59

def timeOfDate : Read Unit := do
  let _ ← one fun c => c == 'T' || c == 't' || c == ' '
  time
  let _ ← optional? offset

/-- A date with or without a time, or a time. -/
def dateTime : Read Item := do
  either (do date; let _ ← optional? timeOfDate) time
  return .dateTime

/-- A number or a date. -/
def numberOrDate : Read Item :=
  either dateTime (either finiteFloat (either namedFloat integer))

end Read

end MemoryShell.Toml
