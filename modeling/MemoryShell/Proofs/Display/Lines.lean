/-
  MemoryShell/Proofs/Display/Lines.lean
  =====================================
  **The lines of a display.**

  A display is what is left of all lines that came if only the newest are kept, and keeping the
  newest after each line is the same as keeping them once at the end.
-/
import MemoryShell.Display.Buffer

namespace MemoryShell.Display

variable {α : Type} {n : Nat} {xs ys : List α}

/-! ### The newest of a list -/

@[simp] theorem newest_nil (n : Nat) : newest n ([] : List α) = [] := List.drop_nil

theorem newest_of_length_le (h : xs.length ≤ n) : newest n xs = xs := by
  rw [newest, Nat.sub_eq_zero_of_le h, List.drop_zero]

theorem length_newest (n : Nat) (xs : List α) : (newest n xs).length = min n xs.length := by
  rw [newest, List.length_drop]
  omega

theorem length_newest_le (n : Nat) (xs : List α) : (newest n xs).length ≤ n :=
  Nat.le_trans (Nat.le_of_eq (length_newest n xs)) (Nat.min_le_left _ _)

theorem newest_isSuffix (n : Nat) (xs : List α) : newest n xs <:+ xs := List.drop_suffix _ _

/-- Of a list with enough at its end, the beginning does not matter. -/
theorem newest_append_of_le_length (h : n ≤ ys.length) : newest n (xs ++ ys) = newest n ys := by
  have hsplit : (xs ++ ys).length - n = xs.length + (ys.length - n) := by
    rw [List.length_append]
    omega
  rw [newest, hsplit, List.drop_append, List.drop_eq_nil_of_le (Nat.le_add_right _ _),
    List.nil_append, Nat.add_sub_cancel_left, newest]

/-- What was dropped before more came would be dropped afterwards as well. -/
theorem newest_newest_append (n : Nat) (xs ys : List α) :
    newest n (newest n xs ++ ys) = newest n (xs ++ ys) := by
  by_cases h : xs.length ≤ n
  · rw [newest_of_length_le h]
  · have hsplit : xs.take (xs.length - n) ++ newest n xs = xs := List.take_append_drop _ _
    have hlength : n ≤ (newest n xs ++ ys).length := by
      rw [newest, List.length_append, List.length_drop]
      omega
    calc newest n (newest n xs ++ ys)
        = newest n (xs.take (xs.length - n) ++ (newest n xs ++ ys)) :=
          (newest_append_of_le_length hlength).symm
      _ = newest n (xs ++ ys) := by rw [← List.append_assoc, hsplit]

/-! ### Lines that come -/

@[simp] theorem push_cap (d : Display) (line : DisplayLine) : (d.push line).cap = d.cap := rfl

@[simp] theorem push_lines (d : Display) (line : DisplayLine) :
    (d.push line).lines = newest d.cap (d.lines ++ [line]) := rfl

/-- The display lines that an output is shown as. -/
def outputLines (text : String) : List DisplayLine :=
  (renderedLines text).map fun line => ⟨.output, line⟩

theorem pushOutput_eq (d : Display) (text : String) :
    d.pushOutput text = (outputLines text).foldl push d := by
  rw [outputLines, List.foldl_map]
  rfl

theorem foldl_push_cap (lines : List DisplayLine) (d : Display) :
    (lines.foldl push d).cap = d.cap := by
  induction lines generalizing d with
  | nil => rfl
  | cons line lines ih => rw [List.foldl_cons, ih, push_cap]

theorem foldl_push_lines (lines : List DisplayLine) {d : Display} (h : d.lines.length ≤ d.cap) :
    (lines.foldl push d).lines = newest d.cap (d.lines ++ lines) := by
  induction lines generalizing d with
  | nil => rw [List.append_nil, newest_of_length_le h]; rfl
  | cons line lines ih =>
    rw [List.foldl_cons, ih (length_newest_le _ _), push_cap, push_lines, newest_newest_append,
      List.append_assoc, List.singleton_append]

/-- A display holds the newest of some lines. -/
structure Holds (d : Display) (cap : Nat) (came : List DisplayLine) : Prop where
  cap_eq : d.cap = cap
  lines_eq : d.lines = newest cap came

theorem Holds.push {d : Display} {cap : Nat} {came : List DisplayLine} (h : Holds d cap came)
    (lines : List DisplayLine) : Holds (lines.foldl Display.push d) cap (came ++ lines) := by
  have hlength : d.lines.length ≤ d.cap := by
    rw [h.cap_eq, h.lines_eq]
    exact length_newest_le _ _
  refine ⟨(foldl_push_cap lines d).trans h.cap_eq, ?_⟩
  rw [foldl_push_lines lines hlength, h.cap_eq, h.lines_eq, newest_newest_append]

end MemoryShell.Display
