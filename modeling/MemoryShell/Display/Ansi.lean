/-
  MemoryShell/Display/Ansi.lean
  =============================
  **Display lines on a terminal.**

  Scripts mark their output up with coloured spans and line breaks.  On a terminal a span becomes
  the escape sequence of its colour around its text, and a line break becomes a newline; all other
  markup stays as it is.  A span reaches from its opening tag to the first closing tag behind it,
  over any characters between.
-/
import MemoryShell.Display.Buffer
import MemoryShell.Text.Blank

namespace MemoryShell.Ansi

/-! ### Escape sequences -/

/-- Clear the screen and go to its first position. -/
def clearScreen : String := "\x1b[2J\x1b[H"

def reset : String := "\x1b[0m"

def faint : String := "\x1b[2m"

/-- The escape sequence of a colour by its name in a style, letters of either case; an unknown
    colour has none. -/
def color (name : String) : Option String :=
  let plain := (Text.trim name).map Char.toLower
  if plain = "#33ff33" ∨ plain = "green" then some "\x1b[32m"
  else if plain = "yellow" then some "\x1b[33m"
  else if plain = "red" then some "\x1b[31m"
  else none

/-! ### Spans -/

/-- How a coloured span opens, up to its colour. -/
def spanOpen : List Char := "<span style=\"color: ".toList

/-- What stands between the colour and the text of a span. -/
def spanMiddle : List Char := ";\">".toList

def spanClose : List Char := "</span>".toList

def afterPrefix? (start text : List Char) : Option (List Char) :=
  if start.isPrefixOf text then some (text.drop start.length) else none

/-- Read a coloured span at the start of a text: its colour, its text, and its whole length. -/
def span? (cs : List Char) : Option (List Char × List Char × Nat) := do
  let rest ← afterPrefix? spanOpen cs
  let name := rest.takeWhile fun c => c ≠ ';' && c ≠ '\x22'
  if name.isEmpty then failure
  let inner ← afterPrefix? spanMiddle (rest.drop name.length)
  let size ← Text.first? spanClose inner
  return (name, inner.take size,
    spanOpen.length + name.length + spanMiddle.length + size + spanClose.length)

/-- A span on a terminal: its text in its colour. -/
def colored (name inner : List Char) : List Char :=
  match color (String.ofList name) with
  | some code => code.toList ++ inner ++ reset.toList
  | none => inner

/-- Replace every span; `skip` characters of the last one remain and `acc` holds the result
    backwards. -/
def replaceSpans : Nat → List Char → List Char → List Char
  | _, acc, [] => acc.reverse
  | skip + 1, acc, _ :: cs => replaceSpans skip acc cs
  | 0, acc, c :: cs =>
    match span? (c :: cs) with
    | some (name, inner, size) => replaceSpans (size - 1) ((colored name inner).reverse ++ acc) cs
    | none => replaceSpans 0 (c :: acc) cs

/-! ### Line breaks -/

/-- The blanks of ASCII. -/
def isAsciiBlank (c : Char) : Bool := (9 ≤ c.toNat && c.toNat ≤ 13) || c == ' '

/-- Read a line break at the start of a text, blanks and a slash allowed before its end, and give
    its length. -/
def break? (cs : List Char) : Option Nat := do
  let rest ← afterPrefix? "<br".toList cs
  let blanks := (rest.takeWhile isAsciiBlank).length
  match rest.drop blanks with
  | '>' :: _ => some (blanks + 4)
  | '/' :: '>' :: _ => some (blanks + 5)
  | _ => none

/-- Replace every line break by a newline; the arguments are those of `replaceSpans`. -/
def replaceBreaks : Nat → List Char → List Char → List Char
  | _, acc, [] => acc.reverse
  | skip + 1, acc, _ :: cs => replaceBreaks skip acc cs
  | 0, acc, c :: cs =>
    match break? (c :: cs) with
    | some size => replaceBreaks (size - 1) ('\n' :: acc) cs
    | none => replaceBreaks 0 (c :: acc) cs

/-! ### Texts and lines -/

/-- A text without the newline at its end, if it has one. -/
def dropLastNewline (cs : List Char) : List Char :=
  if cs.getLast? = some '\n' then cs.dropLast else cs

/-- Marked-up text as text for a terminal.  One line break at the end is dropped. -/
def ofMarkup (text : String) : String :=
  String.ofList (dropLastNewline (replaceBreaks 0 [] (replaceSpans 0 [] text.toList)))

/-- A display line as text for a terminal; the echo of a command is faint. -/
def renderLine (line : DisplayLine) : String :=
  match line.kind with
  | .prompt => faint ++ line.render ++ reset
  | .output => ofMarkup line.text

end MemoryShell.Ansi
