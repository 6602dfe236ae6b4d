/-
  MemoryShell/Decimal/Shortest.lean
  =================================
  **The fewest decimal digits that read back as the same double.**

  The reals that round to a double form an interval around it, closed if its mantissa is even.  On a
  grid of multiples of a power of ten the two neighbours of the double are the only candidates worth
  a look.  The grids are tried from coarse to fine, one more digit each time; on the first grid with
  a neighbour inside the interval the nearer one wins.
-/
import MemoryShell.Decimal.Double

namespace MemoryShell.Decimal

/-- Which of two equally near neighbours wins. -/
inductive Tie where
  | up
  | even
deriving DecidableEq, Repr

/-- Decimal digits as one integer, times a power of ten. -/
structure Digits where
  value : Nat
  exponent : Int
deriving DecidableEq, Repr

def digitCount (n : Nat) : Nat := (Nat.toDigits 10 n).length

/-- The exponent of the greatest power of ten that is at most `num / den`, both positive. -/
def leadingExponent (num den : Nat) : Int :=
  if den ≤ num then (digitCount (num / den) : Int) - 1
  else -(digitCount ((den + num - 1) / num - 1) : Int)

/-- The reals that round to a double, over a common denominator. -/
structure Interval where
  low : Nat
  value : Nat
  high : Nat
  denominator : Nat
  closed : Bool

/-- The interval of a positive double.  The gap below a power of two is half of that above. -/
def Interval.ofParts (mantissa : Nat) (exponent : Int) : Interval :=
  let below := if mantissa = minNormal ∧ exponent > minExponent then 1 else 2
  let (unit, denominator) := ratio 1 (exponent - 2)
  { low := (4 * mantissa - below) * unit
    value := 4 * mantissa * unit
    high := (4 * mantissa + 2) * unit
    denominator
    closed := mantissa % 2 = 0 }

def Interval.contains (i : Interval) (n d : Nat) : Bool :=
  let x := n * i.denominator
  if i.closed then decide (i.low * d ≤ x) && decide (x ≤ i.high * d)
  else decide (i.low * d < x) && decide (x < i.high * d)

/-- The winner on the grid of multiples of `10 ^ exponent`, if one of the two neighbours of the
    double lies in its interval. -/
def onGrid (tie : Tie) (i : Interval) (exponent : Int) : Option Nat :=
  let unit := tenTo exponent.toNat
  let parts := tenTo (-exponent).toNat
  let num := i.value * parts
  let den := i.denominator * unit
  let down := num / den
  let rest := num % den
  let downFits := i.contains (down * unit) parts
  let upFits := i.contains ((down + 1) * unit) parts
  let preferUp : Bool :=
    if 2 * rest = den then
      match tie with
      | .up => true
      | .even => down % 2 == 1
    else decide (2 * rest > den)
  if downFits && upFits then some (if preferUp then down + 1 else down)
  else if downFits then some down
  else if upFits then some (down + 1)
  else none

/-- Try grids from coarse to fine. -/
def firstGrid (tie : Tie) (i : Interval) : Nat → Int → Digits
  | 0, exponent =>
    ⟨i.value * tenTo (-exponent).toNat / (i.denominator * tenTo exponent.toNat), exponent⟩
  | turns + 1, exponent =>
    match onGrid tie i exponent with
    | some value => ⟨value, exponent⟩
    | none => firstGrid tie i turns (exponent - 1)

/-- Move zeros at the end of the digits into the exponent. -/
def Digits.strip : Nat → Digits → Digits
  | 0, d => d
  | turns + 1, d =>
    if d.value ≠ 0 ∧ d.value % 10 = 0 then Digits.strip turns ⟨d.value / 10, d.exponent + 1⟩ else d

/-- Seventeen digits always suffice. -/
def maxDigits : Nat := 17

/-- The fewest digits that read back as the positive double `mantissa * 2 ^ exponent`. -/
def shortest (tie : Tie) (mantissa : Nat) (exponent : Int) : Digits :=
  let i := Interval.ofParts mantissa exponent
  (firstGrid tie i maxDigits (leadingExponent i.value i.denominator)).strip maxDigits

end MemoryShell.Decimal
