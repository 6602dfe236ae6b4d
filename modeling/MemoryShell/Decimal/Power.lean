/-
  MemoryShell/Decimal/Power.lean
  ==============================
  **Powers of the two bases that numbers are written in.**

  Bounds of machine words are powers of two, and places of decimals are powers of ten.
-/

namespace MemoryShell.Decimal

def twoTo (n : Nat) : Nat := Nat.pow 2 n

def tenTo (n : Nat) : Nat := Nat.pow 10 n

theorem twoTo_succ (n : Nat) : twoTo (n + 1) = twoTo n * 2 := rfl

theorem tenTo_succ (n : Nat) : tenTo (n + 1) = tenTo n * 10 := rfl

theorem twoTo_pos (n : Nat) : 0 < twoTo n := Nat.pow_pos (by decide)

theorem tenTo_pos (n : Nat) : 0 < tenTo n := Nat.pow_pos (by decide)

end MemoryShell.Decimal
