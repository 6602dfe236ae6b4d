/-
  MemoryShell/Script/Number.lean
  ==============================
  **Numbers of the script language as text, and text as numbers.**

  A number is written without an exponent: an integer below `10 ^ 21` in full, any other number with
  the fewest digits that read back.  Text is read more or less strictly, depending on who asks: the
  whole text as one number, or the longest number at its beginning.
-/
import MemoryShell.Decimal.Text
import MemoryShell.Decimal.Reading
import MemoryShell.Text.Blank
import MemoryShell.Text.Search

namespace MemoryShell.Script

def notANumber : Float := 0.0 / 0.0

def infinity : Float := 1.0 / 0.0

/-! ### Numbers as text -/

/-- The integers below this are written in full. -/
def fullIntegers : Nat := Decimal.tenTo 21

def numberText (x : Float) : String :=
  match Decimal.Parts.ofFloat x with
  | .nan => "NaN"
  | .infinite negative => if negative then "-Infinity" else "Infinity"
  | .finite negative mantissa exponent =>
    let (num, den) := Decimal.ratio mantissa exponent
    if mantissa = 0 then "0"
    else if num % den = 0 ∧ num / den < fullIntegers then
      Decimal.signed negative (Decimal.digitsOf (num / den))
    else Decimal.signed negative (Decimal.shortest .up mantissa exponent).positional

/-- The integer part of a number; what is no number has zero. -/
def integerPart (x : Float) : Float := if x.isNaN then 0 else Decimal.trunc x

/-- A power of ten by repeated squaring. -/
def tenToThe (n : Nat) : Float := squaring n.log2.succ n 10 1
where
  /-- Multiply the squares of the base that belong to the bits of the exponent. -/
  squaring : Nat → Nat → Float → Float → Float
  | 0, _, _, acc => acc
  | turns + 1, n, base, acc =>
    squaring turns (n / 2) (base * base) (if n % 2 = 1 then acc * base else acc)

/-- The sign of a number that is not zero, as one or minus one. -/
def signOf (x : Float) : Float := if x < 0 then -1 else 1

/-- A number with a fixed number of places.  A number exactly half-way, as far as scaling it shows,
    goes away from zero; any other is rounded by its exact value. -/
def fixedText (x : Float) (places : Nat) : String :=
  let scale := tenToThe places
  let scaled := x.abs * scale
  let rounded := if Decimal.fract scaled == 0.5 then signOf x * scaled.ceil / scale else x
  match Decimal.Parts.ofFloat rounded with
  | .finite negative mantissa exponent =>
    Decimal.signed negative (Decimal.fixed mantissa exponent places)
  | _ => numberText x

/-- The numeral of an integer in a base from 2 to 36; the integer is taken as a 64-bit word, so
    larger ones become the largest word.  Any other number, and any other base, gives the decimal
    text. -/
def radixText (x : Float) (radix : Nat) : String :=
  if radix < 2 ∨ radix > 36 ∨ radix = 10 ∨ !Decimal.isInteger x then numberText x
  else
    let magnitude := x.abs.toUInt64.toNat
    Decimal.signed (x < 0 && magnitude ≠ 0) (Decimal.numeral radix magnitude)

/-! ### Text as numbers -/

/-- The value of a character as a digit of bases up to 36. -/
def digitOf? (c : Char) : Option Nat :=
  if c.isDigit then some (c.toNat - 48)
  else if 'a' ≤ c ∧ c ≤ 'z' then some (c.toNat - 87)
  else if 'A' ≤ c ∧ c ≤ 'Z' then some (c.toNat - 55)
  else none

/-- The value of a character as a digit of a base. -/
def digitIn? (radix : Nat) (c : Char) : Option Nat :=
  (digitOf? c).filter fun d => decide (d < radix)

def isNumberChar (c : Char) : Bool :=
  c.isDigit || c == '+' || c == '-' || c == '.' || c == 'e' || c == 'E'

/-- The mark of hexadecimal text, and what follows it. -/
def afterHexMark? : List Char → Option (List Char)
  | '0' :: 'x' :: rest | '0' :: 'X' :: rest => some rest
  | _ => none

/-- Read hexadecimal digits, a sign allowed before them, as a 64-bit signed word. -/
def readHex (text : List Char) : Float :=
  let (negative, digits) := Decimal.readSign text
  match digits.mapM (digitIn? 16) with
  | none | some [] => notANumber
  | some ds =>
    let n := ds.foldl (fun n d => 16 * n + d) 0
    if negative then if n ≤ Decimal.twoTo 63 then -(Float.ofNat n) else notANumber
    else if n < Decimal.twoTo 63 then Float.ofNat n
    else notANumber

/-- Read a whole text as a number, blanks around it allowed.  No text is zero; hexadecimal text has
    a mark; what is no number is none. -/
def textToNumber (s : String) : Float :=
  let text := Text.trimChars s.toList
  if text.isEmpty then 0
  else if text = "Infinity".toList ∨ text = "+Infinity".toList then infinity
  else if text = "-Infinity".toList then -infinity
  else
    match afterHexMark? text with
    | some digits => readHex digits
    | none => if text.all isNumberChar then (Decimal.read? text).getD notANumber else notANumber

/-- Read the integer at the beginning of a text, blanks before it allowed.  The hexadecimal mark may
    stand before digits of base 16 and makes base 10 hexadecimal; base zero is base 10. -/
def readInteger (s : String) (radix : Nat) : Float :=
  let (negative, text) := Decimal.readSign (Text.trimStartChars s.toList)
  let radix := if radix = 0 then 10 else radix
  let (radix, text) :=
    match if radix = 10 ∨ radix = 16 then afterHexMark? text else none with
    | some rest => (16, rest)
    | none => (radix, text)
  if radix < 2 ∨ radix > 36 then notANumber
  else
    let digits := (text.map (digitIn? radix)).takeWhile Option.isSome |>.filterMap id
    if digits.isEmpty then notANumber
    else
      let x := digits.foldl (fun x d => x * Float.ofNat radix + Float.ofNat d) 0
      if negative then -x else x

/-- The longest beginning of a text, of at most so many characters, that is a decimal. -/
def longestDecimal (text : List Char) : Nat → Option Float
  | 0 => none
  | n + 1 =>
    match Decimal.read? (text.take (n + 1)) with
    | some x => some x
    | none => longestDecimal text n

/-- Read the decimal at the beginning of a text, blanks before it allowed. -/
def readFloat (s : String) : Float :=
  let text := Text.trimStartChars s.toList
  let unsigned := text.dropWhile fun c => c == '+' || c == '-'
  if "Infinity".toList.isPrefixOf unsigned then
    if text.head? = some '-' then -infinity else infinity
  else
    let candidate := text.takeWhile isNumberChar
    (longestDecimal candidate candidate.length).getD notANumber

end MemoryShell.Script
