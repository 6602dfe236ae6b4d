/-
  MemoryShell/Decimal/Double.lean
  ===============================
  **Double-precision numbers taken apart.**

  A finite double is an integer times a power of two, with a sign.  Every rule about the text of a
  number, and the remainder of a division, is stated and computed on these integers; floating-point
  operations come in only where the rule itself is one.
-/
import MemoryShell.Decimal.Power

namespace MemoryShell.Decimal

/-- A double: no number, an infinity, or a signed integer times a power of two. -/
inductive Parts where
  | nan
  | infinite (negative : Bool)
  | finite (negative : Bool) (mantissa : Nat) (exponent : Int)
deriving DecidableEq, Repr

def minExponent : Int := -1074

/-- The mantissa from which on a double is not subnormal. -/
def minNormal : Nat := twoTo 52

/-- Take a double apart by the fields of its bits. -/
def Parts.ofFloat (x : Float) : Parts :=
  let bits := x.toBits.toNat
  let negative := decide (bits / twoTo 63 % 2 = 1)
  let biased : Nat := bits / twoTo 52 % twoTo 11
  let fraction : Nat := bits % twoTo 52
  if biased = 2047 then if fraction = 0 then .infinite negative else .nan
  else if biased = 0 then .finite negative fraction minExponent
  else .finite negative (fraction + minNormal) ((biased : Int) - 1075)

/-- The double of an integer below `2 ^ 53` times a power of two, if there is one. -/
def ofParts (negative : Bool) (mantissa : Nat) (exponent : Int) : Float :=
  let magnitude := (Float.ofNat mantissa).scaleB exponent
  if negative then -magnitude else magnitude

/-- A nonnegative rational number as numerator and denominator: an integer times a power of two. -/
def ratio (mantissa : Nat) (exponent : Int) : Nat × Nat :=
  if exponent ≥ 0 then (mantissa * twoTo exponent.toNat, 1) else (mantissa, twoTo (-exponent).toNat)

/-- The integer next to a double in the direction of zero.  The sign of a zero is kept.  A double
    with bits behind the point is below `2 ^ 53`, so its integer is a double as well. -/
def trunc (x : Float) : Float :=
  match Parts.ofFloat x with
  | .finite negative mantissa exponent =>
    if exponent < 0 then
      let whole := Float.ofNat (mantissa / twoTo (-exponent).toNat)
      if negative then -whole else whole
    else x
  | _ => x

/-- The fractional part of a double, with its sign. -/
def fract (x : Float) : Float := x - trunc x

def isInteger (x : Float) : Bool :=
  match Parts.ofFloat x with
  | .finite _ mantissa exponent =>
    let (num, den) := ratio mantissa exponent
    num % den == 0
  | _ => false

/-! ### Remainder -/

/-- The remainder of the division whose quotient is rounded toward zero, exactly; it has the sign of
    the dividend. -/
def remainder (x y : Float) : Float :=
  match Parts.ofFloat x, Parts.ofFloat y with
  | .finite negative m e, .finite _ n f =>
    if n = 0 then 0.0 / 0.0
    else
      let g := min e f
      let rest := (m * twoTo (e - g).toNat) % (n * twoTo (f - g).toNat)
      ofParts negative rest g
  | .finite _ _ _, .infinite _ => x
  | _, _ => 0.0 / 0.0

end MemoryShell.Decimal
