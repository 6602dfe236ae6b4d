/-
  MemoryShell/Document/Reader.lean
  ================================
  **Reading documents, and saying exactly where reading stops.**

  A reader takes the text that is left and gives what it read and the text behind it.  A failure
  names its cause and the place: lines are counted from one and columns are bytes of UTF-8, so a
  place can lie inside a character.  Failures about a character that was only looked at point behind
  its first byte.
-/
import MemoryShell.Decimal.Power
import MemoryShell.Document.Basic
import MemoryShell.Text.Letter

namespace MemoryShell.Document

/-! ### Failures -/

/-- Why a text is no document. -/
inductive ReadCause where
  | valueExpected
  | valueEnds
  | listEnds
  | objectEnds
  | stringEnds
  | colonExpected
  | listCommaExpected
  | objectCommaExpected
  | wordExpected
  | keyExpected
  | trailingComma
  | trailingCharacters
  | badNumber
  | numberOutOfRange
  | badEscape
  | escapeEnds
  | loneSurrogate
  | controlCharacter
  | tooDeep
deriving DecidableEq, Repr

def ReadCause.message : ReadCause → String
  | .valueExpected => "expected value"
  | .valueEnds => "EOF while parsing a value"
  | .listEnds => "EOF while parsing a list"
  | .objectEnds => "EOF while parsing an object"
  | .stringEnds => "EOF while parsing a string"
  | .colonExpected => "expected \x60:\x60"
  | .listCommaExpected => "expected \x60,\x60 or \x60]\x60"
  | .objectCommaExpected => "expected \x60,\x60 or \x60\x7d\x60"
  | .wordExpected => "expected ident"
  | .keyExpected => "key must be a string"
  | .trailingComma => "trailing comma"
  | .trailingCharacters => "trailing characters"
  | .badNumber => "invalid number"
  | .numberOutOfRange => "number out of range"
  | .badEscape => "invalid escape"
  | .escapeEnds => "unexpected end of hex escape"
  | .loneSurrogate => "lone leading surrogate in hex escape"
  | .controlCharacter =>
    "control character (\\u0000-\\u001F) found while parsing a string"
  | .tooDeep => "recursion limit exceeded"

/-- A failure: its cause, the text that was left, and how many bytes of that text lie before the
    place. -/
structure Stop where
  cause : ReadCause
  rest : List Char
  ahead : Nat

def byteCount (text : List Char) : Nat := text.foldl (fun n c => n + c.utf8Size) 0

/-- The line of a place, and the bytes of its line that lie before it. -/
def place (before : List UInt8) : Nat × Nat :=
  (1 + before.count 10, (before.reverse.takeWhile fun b => b != 10).length)

/-- The text of a failure to read a source. -/
def Stop.message (source : String) (stop : Stop) : String :=
  let offset := source.utf8ByteSize - byteCount stop.rest + stop.ahead
  let (line, column) := place (source.toUTF8.toList.take offset)
  stop.cause.message ++ " at line " ++ toString line ++ " column " ++ toString column

/-! ### Readers -/

/-- Readers of a part of a document. -/
abbrev Read := StateT (List Char) (Except Stop)

namespace Read

def fail (cause : ReadCause) : Read α := fun text => .error ⟨cause, text, 0⟩

/-- Fail a number of bytes further on. -/
def failAhead (cause : ReadCause) (ahead : Nat) : Read α := fun text => .error ⟨cause, text, ahead⟩

/-- Fail because of the next character, or of the end. -/
def failAtNext (cause : ReadCause) : Read α := fun text =>
  .error ⟨cause, text, if text.isEmpty then 0 else 1⟩

def peek : Read (Option Char) := fun text => .ok (text.head?, text)

def skip : Read Unit := fun text => .ok ((), text.tail)

/-- The next character, or the end as a failure. -/
def peekOr (atEnd : ReadCause) : Read Char := do
  match ← peek with
  | some c => return c
  | none => fail atEnd

def isSpace (c : Char) : Bool := c == ' ' || c == '\n' || c == '\t' || c == '\r'

def skipSpace : Read Unit := fun text => .ok ((), text.dropWhile isSpace)

/-- The next character behind white space, or the end as a failure. -/
def nextOr (atEnd : ReadCause) : Read Char := do
  skipSpace
  peekOr atEnd

/-! ### Words -/

def word : List Char → Read Unit
  | [] => pure ()
  | w :: ws => do
    if (← peekOr .valueEnds) = w then
      skip
      word ws
    else failAhead .wordExpected 1

/-! ### Numbers -/

/-- The first number that does not fit the significand. -/
def significandBound : Nat := Decimal.twoTo 64

/-- The first number that does not fit the exponent. -/
def exponentBound : Nat := Decimal.twoTo 31

def isDigit? (c : Option Char) : Bool := (c.map Char.isDigit).getD false

/-- Take digits as long as the number they make stays below a bound; also how many they are. -/
def digitsBelow (bound : Nat) (n count : Nat) : List Char → (Nat × Nat) × List Char
  | [] => ((n, count), [])
  | c :: cs =>
    let next := 10 * n + (c.toNat - 48)
    if c.isDigit && decide (next < bound) then digitsBelow bound next (count + 1) cs
    else ((n, count), c :: cs)

/-- Read digits onto a significand as long as it fits; also how many they are. -/
def significandFrom (n : Nat) : Read (Nat × Nat) := fun text =>
  .ok (digitsBelow significandBound n 0 text)

def skipDigits : Read Nat := fun text =>
  .ok ((text.takeWhile Char.isDigit).length, text.dropWhile Char.isDigit)

/-- A power of ten up to the greatest that is finite. -/
def tenToThe (n : Nat) : Float := Float.ofScientific 1 false n

/-- The greatest power of ten that is finite. -/
def maxTen : Nat := 308

/-- A double times a power of ten, by one multiplication or division where the power is finite; none
    if it leaves the range.  Three divisions by the greatest power turn any word into zero. -/
def scale : Nat → Float → Int → Option Float
  | 0, x, _ => some x
  | turns + 1, x, exponent =>
    if exponent.natAbs ≤ maxTen then
      if exponent ≥ 0 then
        let y := x * tenToThe exponent.toNat
        if y.isInf then none else some y
      else some (x / tenToThe exponent.natAbs)
    else if x == 0 then some x
    else if exponent ≥ 0 then none
    else scale turns (x / tenToThe maxTen) (exponent + maxTen)

/-- How many divisions `scale` can need. -/
def scaleTurns : Nat := 4

def assemble (significand : Nat) (exponent : Int) : Read Float :=
  match scale scaleTurns (Float.ofNat significand) exponent with
  | some x => pure x
  | none => fail .numberOutOfRange

/-- The number whose exponent follows, its mark being next. -/
def exponentRest (significand : Nat) (start : Int) : Read Float := do
  skip
  let sign ← peek
  let negative := sign == some '-'
  if negative || sign == some '+' then skip
  if isDigit? (some (← peekOr .valueEnds)) then
    let (n, _) ← (fun text => .ok (digitsBelow exponentBound 0 0 text) : Read (Nat × Nat))
    if isDigit? (← peek) then
      if significand ≠ 0 && !negative then
        skip
        fail .numberOutOfRange
      else
        let _ ← skipDigits
        return 0
    else assemble significand (if negative then start - n else start + n)
  else failAhead .badNumber 1

/-- A number behind its digits, if an exponent may follow. -/
def exponentOrEnd (significand : Nat) (exponent : Int) : Read Float := do
  let next ← peek
  if next == some 'e' || next == some 'E' then exponentRest significand exponent
  else assemble significand exponent

/-- The number whose places follow, the point being next.  Digits that do not fit the significand
    are passed over. -/
def placesRest (significand : Nat) (exponent : Int) : Read Float := do
  skip
  let (significand, count) ← significandFrom significand
  if isDigit? (← peek) then
    let _ ← skipDigits
    exponentOrEnd significand (exponent - count)
  else if count = 0 then failAtNext (if (← peek).isNone then .valueEnds else .badNumber)
  else exponentOrEnd significand (exponent - count)

/-- A number without a sign.  Digits of an integer that do not fit the significand count toward the
    exponent. -/
def unsigned : Read Float := do
  let first ← peekOr .valueEnds
  if !first.isDigit then failAhead .badNumber 1
  else
    let (significand, exponent) ← (do
      if first = '0' then
        skip
        if isDigit? (← peek) then failAtNext .badNumber else return (0, 0)
      else
        let (n, _) ← significandFrom 0
        return (n, ← skipDigits))
    if (← peek) == some '.' then placesRest significand exponent
    else exponentOrEnd significand exponent

/-! ### Strings -/

def hexDigit? (c : Char) : Option Nat :=
  if c.isDigit then some (c.toNat - 48)
  else if 'a' ≤ c ∧ c ≤ 'f' then some (c.toNat - 87)
  else if 'A' ≤ c ∧ c ≤ 'F' then some (c.toNat - 55)
  else none

/-- Four hexadecimal digits; the next four bytes are taken whatever they are. -/
def hexWord : Read Nat := fun text =>
  if byteCount (text.take 4) < 4 then .error ⟨.stringEnds, [], 0⟩
  else
    match (text.take 4).mapM hexDigit? with
    | some ds => .ok (ds.foldl (fun n d => 16 * n + d) 0, text.drop 4)
    | none => .error ⟨.badEscape, text, 4⟩

/-- Whether a number is a leading surrogate. -/
def isLeading (n : Nat) : Bool := 0xD800 ≤ n && n ≤ 0xDBFF

/-- Whether a number is a trailing surrogate. -/
def isTrailing (n : Nat) : Bool := 0xDC00 ≤ n && n ≤ 0xDFFF

/-- One character that an escape needs next. -/
def escapePart (c : Char) : Read Unit := do
  if (← peekOr .stringEnds) = c then skip else failAhead .escapeEnds 1

/-- The character of a hexadecimal escape, its mark being read: one word, or two surrogates. -/
def hexEscape : Read Char := do
  let n ← hexWord
  if isTrailing n then fail .loneSurrogate
  else if isLeading n then
    escapePart '\\'
    escapePart 'u'
    let k ← hexWord
    if isTrailing k then return Char.ofNat (0x10000 + (n - 0xD800) * 0x400 + (k - 0xDC00))
    else fail .loneSurrogate
  else return Char.ofNat n

/-- The character of an escape, the backslash being read. -/
def escape : Read Char := do
  let c ← peekOr .stringEnds
  match c with
  | '"' | '\\' | '/' => do skip; return c
  | 'b' => do skip; return '\x08'
  | 'f' => do skip; return '\x0c'
  | 'n' => do skip; return '\n'
  | 'r' => do skip; return '\r'
  | 't' => do skip; return '\t'
  | 'u' => do skip; hexEscape
  | _ => failAhead .badEscape 1

/-- The rest of a string; `acc` holds what is read, backwards, and every turn takes a character. -/
def stringFrom : Nat → List Char → Read String
  | 0, _ => fail .stringEnds
  | left + 1, acc => do
    let c ← peekOr .stringEnds
    if c = '"' then
      skip
      return String.ofList acc.reverse
    else if c = '\\' then
      skip
      let e ← escape
      stringFrom left (e :: acc)
    else if c.toNat < 32 then failAhead .controlCharacter 1
    else
      skip
      stringFrom left (c :: acc)

/-! From here on `turns` bounds the turns of every walk along the text.  A turn takes a character,
so more turns than the whole text has characters are always enough. -/

variable (turns : Nat)

def string : Read String := stringFrom turns []

/-! ### Arrays and objects -/

/-- The rest of an array behind its first item. -/
def itemsFrom (item : Read Document) : Nat → Read (List Document)
  | 0 => fail .listEnds
  | left + 1 => do
    match ← nextOr .listEnds with
    | ']' => do
      skip
      return []
    | ',' => do
      skip
      if (← nextOr .valueEnds) = ']' then failAtNext .trailingComma
      else
        let d ← item
        return d :: (← itemsFrom item left)
    | _ => failAtNext .listCommaExpected

def items (item : Read Document) : Read (List Document) := do
  if (← nextOr .listEnds) = ']' then
    skip
    return []
  else
    let d ← item
    return d :: (← itemsFrom item turns)

/-- A name, its quote being next, and its value. -/
def member (item : Read Document) : Read (String × Document) := do
  skip
  let name ← string turns
  if (← nextOr .objectEnds) = ':' then
    skip
    return (name, ← item)
  else failAtNext .colonExpected

/-- The rest of an object behind its first member. -/
def membersFrom (item : Read Document) : Nat → Read (List (String × Document))
  | 0 => fail .objectEnds
  | left + 1 => do
    match ← nextOr .objectEnds with
    | '\x7d' => do
      skip
      return []
    | ',' => do
      skip
      match ← nextOr .valueEnds with
      | '"' => do
        let m ← member turns item
        return m :: (← membersFrom item left)
      | '\x7d' => failAtNext .trailingComma
      | _ => failAtNext .keyExpected
    | _ => failAtNext .objectCommaExpected

def members (item : Read Document) : Read (List (String × Document)) := do
  match ← nextOr .objectEnds with
  | '\x7d' => do
    skip
    return []
  | '"' => do
    let m ← member turns item
    return m :: (← membersFrom turns item turns)
  | _ => failAtNext .keyExpected

/-! ### Values -/

/-- The reader of what lies one level deeper, if there is such a level. -/
def below (nested : Option (Read Document)) (read : Read Document → Read Document) :
    Read Document :=
  match nested with
  | none => failAtNext .tooDeep
  | some item => do
    skip
    read item

/-- A value, given a reader for the values nested in it. -/
def valueOf (nested : Option (Read Document)) : Read Document := do
  match ← nextOr .valueEnds with
  | 'n' => do
    word "null".toList
    return .null
  | 't' => do
    word "true".toList
    return .bool true
  | 'f' => do
    word "false".toList
    return .bool false
  | '"' => do
    skip
    return .string (← string turns)
  | '-' => do
    skip
    return .number (-(← unsigned))
  | '[' => below nested fun item => do return .array (← items turns item)
  | '\x7b' => below nested fun item => do return .object (← members turns item)
  | c => if c.isDigit then return .number (← unsigned) else failAtNext .valueExpected

/-- A value in which arrays and objects nest at most so many levels deep. -/
def value : Nat → Read Document
  | 0 => valueOf turns none
  | levels + 1 => valueOf turns (some (value levels))

/-- How many levels deep arrays and objects may nest. -/
def maxLevels : Nat := 127

def whole : Read Document := do
  let d ← value turns maxLevels
  skipSpace
  if (← peek).isSome then failAtNext .trailingCharacters else return d

end Read

def ofText (source : String) : Except String Document :=
  match (Read.whole (source.length + 1)).run source.toList with
  | .ok (d, _) => .ok d
  | .error stop => .error (stop.message source)

end MemoryShell.Document
