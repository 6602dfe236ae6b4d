/-
  MemoryShell/Decimal/Reading.lean
  ================================
  **Reading decimal text: a sign, digits around a point, an exponent.**

  The value is the double nearest to what is written.  Before rounding, the number is compared by
  its order of magnitude with the range of doubles, so that no written exponent makes the exact
  integers large.
-/
import MemoryShell.Decimal.Power

namespace MemoryShell.Decimal

/-- A decimal as written: its digits as one integer, and the power of ten that they are times. -/
structure Written where
  negative : Bool
  digits : Nat
  exponent : Int
deriving DecidableEq, Repr

def decimalValue (digits : List Char) : Nat :=
  digits.foldl (fun n c => 10 * n + (c.toNat - 48)) 0

/-- Read an optional sign. -/
def readSign : List Char → Bool × List Char
  | '-' :: rest => (true, rest)
  | '+' :: rest => (false, rest)
  | rest => (false, rest)

/-- Read an exponent that reaches to the end of the text; no text is the exponent zero. -/
def readExponent : List Char → Option Int
  | [] => some 0
  | mark :: rest =>
    if mark = 'e' ∨ mark = 'E' then
      let (negative, digits) := readSign rest
      if digits.isEmpty || !digits.all Char.isDigit then none
      else
        let n : Int := decimalValue digits
        some (if negative then -n else n)
    else none

/-- Read a whole text as a decimal.  At least one digit stands before or behind the point. -/
def Written.ofText? (text : List Char) : Option Written :=
  let (negative, rest) := readSign text
  let whole := rest.takeWhile Char.isDigit
  let rest := rest.dropWhile Char.isDigit
  let (places, rest) :=
    match rest with
    | '.' :: rest => (rest.takeWhile Char.isDigit, rest.dropWhile Char.isDigit)
    | _ => ([], rest)
  if whole.isEmpty && places.isEmpty then none
  else
    (readExponent rest).map fun exponent =>
      ⟨negative, decimalValue (whole ++ places), exponent - places.length⟩

/-- The double nearest to a decimal.  From `10 ^ 310` on it is infinite, and below `10 ^ -326` zero,
    whatever the digits are. -/
def Written.toFloat (w : Written) : Float :=
  let order : Int := (Nat.toDigits 10 w.digits).length + w.exponent
  let magnitude : Float :=
    if w.digits = 0 then 0
    else if order > 310 then 1.0 / 0.0
    else if order < -326 then 0
    else if w.exponent ≥ 0 then Float.ofScientific (w.digits * tenTo w.exponent.toNat) false 0
    else Float.ofScientific w.digits true (-w.exponent).toNat
  if w.negative then -magnitude else magnitude

def read? (text : List Char) : Option Float := (Written.ofText? text).map Written.toFloat

end MemoryShell.Decimal
