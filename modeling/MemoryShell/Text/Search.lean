/-
  MemoryShell/Text/Search.lean
  ============================
  **Finding, cutting and replacing a pattern in a text.**

  A text is searched as its list of characters, so positions count code points.  Cutting and
  replacing look for occurrences from left to right and never let two of them overlap; a counter
  says how many characters of the last occurrence are still to be passed over, which makes every
  scan a recursion on the text itself.
-/

namespace MemoryShell.Text

/-! ### Positions -/

/-- The first position, counted from `i`, at which the pattern stands. -/
def firstFrom (pattern : List Char) (i : Nat) : List Char → Option Nat
  | [] => if pattern.isEmpty then some i else none
  | c :: cs => if pattern.isPrefixOf (c :: cs) then some i else firstFrom pattern (i + 1) cs

/-- The last position, counted from `i`, at which the pattern stands, or `found` if there is none.
    -/
def lastFrom (pattern : List Char) (i : Nat) (found : Option Nat) : List Char → Option Nat
  | [] => if pattern.isEmpty then some i else found
  | c :: cs =>
    lastFrom pattern (i + 1) (if pattern.isPrefixOf (c :: cs) then some i else found) cs

def first? (pattern text : List Char) : Option Nat := firstFrom pattern 0 text

def last? (pattern text : List Char) : Option Nat := lastFrom pattern 0 none text

def occurs (pattern text : List Char) : Bool := (first? pattern text).isSome

/-! ### Cutting -/

/-- Cut at every occurrence of a separator that is not empty.  `skip` characters of the last
    occurrence remain, `piece` holds the piece that is being read and `done` the finished ones, both
    backwards. -/
def splitFrom (separator : List Char) :
    Nat → List Char → List (List Char) → List Char → List (List Char)
  | _, piece, done, [] => (piece.reverse :: done).reverse
  | skip + 1, piece, done, _ :: cs => splitFrom separator skip piece done cs
  | 0, piece, done, c :: cs =>
    if separator.isPrefixOf (c :: cs) then
      splitFrom separator (separator.length - 1) [] (piece.reverse :: done) cs
    else splitFrom separator 0 (c :: piece) done cs

/-- The pieces of a text between the occurrences of a separator that is not empty. -/
def splitOn (separator text : List Char) : List (List Char) := splitFrom separator 0 [] [] text

/-- Cut behind every occurrence of a separator that is not empty; the arguments are those of
    `splitFrom`. -/
def splitAfterFrom (separator : List Char) :
    Nat → List Char → List (List Char) → List Char → List (List Char)
  | _, piece, done, [] => (if piece.isEmpty then done else piece.reverse :: done).reverse
  | skip + 1, piece, done, _ :: cs => splitAfterFrom separator skip piece done cs
  | 0, piece, done, c :: cs =>
    if separator.isPrefixOf (c :: cs) then
      splitAfterFrom separator (separator.length - 1) [] ((piece.reverse ++ separator) :: done) cs
    else splitAfterFrom separator 0 (c :: piece) done cs

/-- The pieces of a text, each but possibly the last ending with the separator. -/
def splitAfter (separator text : List Char) : List (List Char) :=
  splitAfterFrom separator 0 [] [] text

/-- The pieces of a text between the occurrences of one character. -/
def splitOnChar (separator : Char) (s : String) : List String :=
  (splitOn [separator] s.toList).map String.ofList

/-- What stands before and behind the first occurrence of a character. -/
def cutAt (c : Char) : List Char → Option (List Char × List Char)
  | [] => none
  | d :: ds => if d = c then some ([], ds) else (cutAt c ds).map fun (a, b) => (d :: a, b)

/-! ### Replacing -/

/-- Replace every occurrence of a pattern that is not empty; `skip` characters of the last
    occurrence remain and `acc` holds the result backwards. -/
def replaceFrom (pattern new : List Char) : Nat → List Char → List Char → List Char
  | _, acc, [] => acc.reverse
  | skip + 1, acc, _ :: cs => replaceFrom pattern new skip acc cs
  | 0, acc, c :: cs =>
    if pattern.isPrefixOf (c :: cs) then
      replaceFrom pattern new (pattern.length - 1) (new.reverse ++ acc) cs
    else replaceFrom pattern new 0 (c :: acc) cs

/-- Replace every occurrence of a pattern.  The empty pattern stands before each character and at
    the end. -/
def replaceAll (pattern new text : List Char) : List Char :=
  if pattern.isEmpty then new ++ text.flatMap fun c => c :: new
  else replaceFrom pattern new 0 [] text

def replaceFirst (pattern new text : List Char) : List Char :=
  match first? pattern text with
  | some i => text.take i ++ new ++ text.drop (i + pattern.length)
  | none => text

end MemoryShell.Text
