/-
  MemoryShell/Script/Position.lean
  ================================
  **Numbers as positions in strings and arrays.**

  A position given by a script is any value.  Its integer part counts, from the end if it is
  negative; depending on the method a position outside is moved to the nearest end or means nothing.
-/
import MemoryShell.Script.Coercion

namespace MemoryShell.Script

/-- An integral number of positions, counted from the end if it is negative. -/
def fromEnd (x : Float) (length : Nat) : Float := if x < 0 then Float.ofNat length + x else x

/-- The position of an element that a number names, counted from the end if it is negative. -/
def elementAt? (x : Float) (length : Nat) : Option Nat :=
  let i := fromEnd (integerPart x) length
  if i ≥ 0 && i < Float.ofNat length then some i.toUInt64.toNat else none

/-- The position of an element that a number names from the start. -/
def plainElementAt? (x : Float) (length : Nat) : Option Nat :=
  let i := integerPart x
  if i ≥ 0 && i.toUInt64.toNat < length then some i.toUInt64.toNat else none

theorem plainElementAt?_lt {x : Float} {length i : Nat} (h : plainElementAt? x length = some i) :
    i < length := by
  unfold plainElementAt? at h
  simp only [Bool.and_eq_true, decide_eq_true_eq] at h
  split at h
  · rename_i hbounds
    cases h
    exact hbounds.2
  · cases h

/-- A number as a position from the start, moved to the nearest end. -/
def clamped (x : Float) (length : Nat) : Nat := min (integerPart x).toUInt64.toNat length

theorem clamped_le (x : Float) (length : Nat) : clamped x length ≤ length := Nat.min_le_right _ _

/-- A number as a position, counted from the end if it is negative and moved to the nearest end. -/
def clampedFromEnd (x : Float) (length : Nat) : Nat :=
  min (fromEnd (integerPart x) length).toUInt64.toNat length

theorem clampedFromEnd_le (x : Float) (length : Nat) : clampedFromEnd x length ≤ length :=
  Nat.min_le_right _ _

/-- Where a part begins and ends; without an end it reaches to the end. -/
def Heap.part (h : Heap) (start stop : Value) (length : Nat) : Nat × Nat :=
  (clampedFromEnd (h.toNumber start) length,
    match stop with
    | .undefined => length
    | v => clampedFromEnd (h.toNumber v) length)

theorem Heap.part_le (h : Heap) (start stop : Value) (length : Nat) :
    (h.part start stop length).1 ≤ length ∧ (h.part start stop length).2 ≤ length := by
  refine ⟨clampedFromEnd_le _ _, ?_⟩
  unfold Heap.part
  dsimp only
  split
  · exact Nat.le_refl _
  · exact clampedFromEnd_le _ _

/-- The characters from one position up to another, if these are positions in order. -/
def between? (start stop : Nat) (text : List Char) : Option (List Char) :=
  if start ≤ stop ∧ stop ≤ text.length then some ((text.take stop).drop start) else none

theorem between?_of_le {start stop : Nat} {text : List Char} (hstart : start ≤ stop)
    (hstop : stop ≤ text.length) : between? start stop text = some ((text.take stop).drop start) :=
  if_pos ⟨hstart, hstop⟩

/-- The items from one position up to another, if these are positions in order. -/
def itemsBetween? (start stop : Nat) (items : Array Value) : Option (Array Value) :=
  if start ≤ stop ∧ stop ≤ items.size then some (items.extract start stop) else none

theorem itemsBetween?_of_le {start stop : Nat} {items : Array Value} (hstart : start ≤ stop)
    (hstop : stop ≤ items.size) : itemsBetween? start stop items = some (items.extract start stop) :=
  if_pos ⟨hstart, hstop⟩

/-- What is left of a number of items without some of them, if there are so many. -/
def without? (all taken : Nat) : Option Nat := if taken ≤ all then some (all - taken) else none

theorem without?_of_le {all taken : Nat} (h : taken ≤ all) : without? all taken = some (all - taken) :=
  if_pos h

/-- An argument of a call; missing ones are undefined. -/
def argument (args : List Value) (i : Nat) : Value := args[i]?.getD .undefined

/-- A position as a number, or minus one. -/
def positionValue (i : Option Nat) : Value :=
  .number (match i with
    | some i => Float.ofNat i
    | none => -1)

end MemoryShell.Script
