/-
  MemoryShell/Text/Blank.lean
  ===========================
  **White space, trimming and words.**

  Command lines, scripts and displayed text agree on one notion of blank: the Unicode property
  White_Space.  It is wider than core's `Char.isWhitespace`; `isBlank_of_isWhitespace` says that it
  contains it.
-/

namespace MemoryShell.Text

/-! ### The property White_Space -/

/-- The property White_Space. -/
def isBlank (c : Char) : Bool :=
  let n := c.toNat
  (9 ≤ n && n ≤ 13) || n == 0x20 || n == 0x85 || n == 0xa0 || n == 0x1680 ||
    (0x2000 ≤ n && n ≤ 0x200a) || n == 0x2028 || n == 0x2029 || n == 0x202f || n == 0x205f ||
    n == 0x3000

/-- Every blank of core is a blank here. -/
theorem isBlank_of_isWhitespace {c : Char} (h : c.isWhitespace = true) : isBlank c = true := by
  simp only [Char.isWhitespace, Bool.or_eq_true, decide_eq_true_eq] at h
  rcases h with ((rfl | rfl) | rfl) | rfl <;> rfl

/-! ### Trimming -/

def trimStartChars (cs : List Char) : List Char := cs.dropWhile isBlank

def trimEndChars (cs : List Char) : List Char := (cs.reverse.dropWhile isBlank).reverse

/-- A text without the blanks at both its ends. -/
def trimChars (cs : List Char) : List Char := trimEndChars (trimStartChars cs)

def trimStart (s : String) : String := String.ofList (trimStartChars s.toList)

def trimEnd (s : String) : String := String.ofList (trimEndChars s.toList)

/-- A text without the blanks at both its ends. -/
def trim (s : String) : String := String.ofList (trimChars s.toList)

/-! ### Words -/

/-- The maximal runs without a blank; `word` holds the run that is being read, last character
    first. -/
def wordsFrom (word : List Char) : List Char → List (List Char)
  | [] => if word.isEmpty then [] else [word.reverse]
  | c :: cs =>
    if isBlank c then
      if word.isEmpty then wordsFrom [] cs else word.reverse :: wordsFrom [] cs
    else wordsFrom (c :: word) cs

/-- The maximal runs of a text that hold no blank, in order. -/
def words (s : String) : List String := (wordsFrom [] s.toList).map String.ofList

end MemoryShell.Text
