/-
  MemoryShell/Decimal/Text.lean
  =============================
  **Laying digits out: positional, with a fixed number of places, and in any base.**
-/
import MemoryShell.Decimal.Shortest

namespace MemoryShell.Decimal

/-! ### Positional notation -/

def digitsOf (n : Nat) : List Char := Nat.toDigits 10 n

/-- Digits with a point before the last `places` of them; at least one digit stands before it. -/
def withPoint (digits : List Char) (places : Nat) : List Char :=
  if places = 0 then digits
  else
    let padded := List.replicate (places + 1 - digits.length) '0' ++ digits
    let whole := padded.length - places
    padded.take whole ++ '.' :: padded.drop whole

/-- Digits times a power of ten, written without an exponent. -/
def Digits.positional (d : Digits) : List Char :=
  if d.exponent ≥ 0 then digitsOf d.value ++ List.replicate d.exponent.toNat '0'
  else withPoint (digitsOf d.value) (-d.exponent).toNat

def signed (negative : Bool) (digits : List Char) : String :=
  String.ofList (if negative then '-' :: digits else digits)

/-! ### Fixed places -/

/-- The integer nearest to `num / den`, the even one of two. -/
def roundHalfEven (num den : Nat) : Nat :=
  let down := num / den
  let rest := num % den
  if 2 * rest > den ∨ (2 * rest = den ∧ down % 2 = 1) then down + 1 else down

/-- `mantissa * 2 ^ exponent` rounded to a number of decimal places. -/
def fixed (mantissa : Nat) (exponent : Int) (places : Nat) : List Char :=
  let (num, den) := ratio mantissa exponent
  withPoint (digitsOf (roundHalfEven (num * tenTo places) den)) places

/-! ### Other bases -/

/-- A digit up to 35: decimal digits, then small letters. -/
def radixDigit (n : Nat) : Char := if n < 10 then Char.ofNat (48 + n) else Char.ofNat (87 + n)

/-- The digits of a natural number in a base above one, before digits that are already there.  A
    quotient has at least one bit less, so the number of bits bounds the turns. -/
def radixDigits (base : Nat) : Nat → Nat → List Char → List Char
  | 0, _, acc => acc
  | turns + 1, n, acc =>
    if n = 0 then acc else radixDigits base turns (n / base) (radixDigit (n % base) :: acc)

/-- The numeral of a natural number in a base above one. -/
def numeral (base n : Nat) : List Char :=
  if n = 0 then ['0'] else radixDigits base (n.log2 + 1) n []

end MemoryShell.Decimal
