/-
  MemoryShell/Script/Lexer.lean
  =============================
  **From the text of a script to its tokens.**

  The source is read as a list of glyphs: characters that know their place.  So what is left of the
  source also says where it begins, and no reader has to count.  Blanks and comments stand between
  tokens and leave no trace but whether a line ended.  A template is one token with the text between
  its marks as it is written; the braces of its substitutions have to match.
-/
import MemoryShell.Decimal.Power
import MemoryShell.Script.Token
import MemoryShell.Text.Blank
import MemoryShell.Text.Letter

namespace MemoryShell.Script

/-! ### Glyphs -/

/-- A character of a source and its place. -/
structure Glyph where
  char : Char
  position : Position
deriving DecidableEq, Repr

def Position.after (p : Position) (c : Char) : Position :=
  if c = '\n' then ⟨p.line + 1, 1⟩ else ⟨p.line, p.column + 1⟩

/-- Give the characters of a text their places, from a given one on, and say where the text ends.
    The glyphs read so far are held backwards. -/
def glyphsFrom : Position → List Glyph → List Char → List Glyph × Position
  | p, done, [] => (done.reverse, p)
  | p, done, c :: cs => glyphsFrom (p.after c) (⟨c, p⟩ :: done) cs

def glyphs (source : String) : List Glyph × Position := glyphsFrom ⟨1, 1⟩ [] source.toList

def here (stop : Position) : List Glyph → Position
  | [] => stop
  | g :: _ => g.position

def failHere (stop : Position) (rest : List Glyph) (cause : SyntaxCause) : Except SyntaxError α :=
  .error ⟨cause, here stop rest⟩

/-- The longest beginning whose characters are all in a class, and the rest. -/
def spanChars (p : Char → Bool) (gs : List Glyph) : List Char × List Glyph :=
  ((gs.takeWhile fun g => p g.char).map Glyph.char, gs.dropWhile fun g => p g.char)

/-- Whether a rest begins with a character of a class. -/
def startsIn (p : Char → Bool) : List Glyph → Bool
  | [] => false
  | g :: _ => p g.char

/-! ### Character classes -/

def isNameStart (c : Char) : Bool := Text.isAlphabetic c || c == '_' || c == '$'

def isNamePart (c : Char) : Bool := Text.isAlphanumeric c || c == '_' || c == '$'

def isHexDigit (c : Char) : Bool :=
  c.isDigit || ('a' ≤ c && c ≤ 'f') || ('A' ≤ c && c ≤ 'F')

def hexDigitValue (c : Char) : Nat :=
  if c.isDigit then c.toNat - 48
  else if 'a' ≤ c && c ≤ 'f' then c.toNat - 87
  else c.toNat - 55

def hexValue (digits : List Char) : Nat := digits.foldl (fun n c => 16 * n + hexDigitValue c) 0

/-! ### Blanks and comments -/

/-- What is being passed over: blanks, a comment to the end of its line, or a comment between marks,
    with one state for the second character of each mark. -/
inductive Gap where
  | blank
  | line
  | opening
  | block
  | closing
deriving DecidableEq, Repr

/-- Pass over blanks and comments; the flag says whether a line has ended. -/
def skipGap (stop : Position) :
    Gap → Bool → List Glyph → Except SyntaxError (Bool × List Glyph)
  | .block, _, [] => .error ⟨.unterminatedComment, stop⟩
  | .opening, _, [] => .error ⟨.unterminatedComment, stop⟩
  | _, newline, [] => .ok (newline, [])
  | .blank, newline, g :: gs =>
    if g.char = '\n' then skipGap stop .blank true gs
    else if Text.isBlank g.char then skipGap stop .blank newline gs
    else if g.char = '/' && startsIn (· == '/') gs then skipGap stop .line newline gs
    else if g.char = '/' && startsIn (· == '*') gs then skipGap stop .opening newline gs
    else .ok (newline, g :: gs)
  | .line, newline, g :: gs =>
    if g.char = '\n' then skipGap stop .blank true gs else skipGap stop .line newline gs
  | .opening, newline, _ :: gs => skipGap stop .block newline gs
  | .block, newline, g :: gs =>
    if g.char = '*' && startsIn (· == '/') gs then skipGap stop .closing newline gs
    else skipGap stop .block (newline || g.char == '\n') gs
  | .closing, newline, _ :: gs => skipGap stop .blank newline gs

/-! ### Numbers -/

def maxHexLiteral : Nat := Decimal.twoTo 63 - 1

/-- Read what follows the mark of a hexadecimal literal; its text is its value in decimal. -/
def hexLiteral (stop : Position) (gs : List Glyph) : Except SyntaxError (List Char × List Glyph) :=
  let (digits, rest) := spanChars isHexDigit gs
  let value := hexValue digits
  if digits.isEmpty || value > maxHexLiteral then failHere stop rest .invalidHexLiteral
  else .ok (Nat.toDigits 10 value, rest)

/-- Read the point of a number and the digits behind it.  A point without digits is passed over
    unless a name follows. -/
def fraction (gs : List Glyph) : List Char × List Glyph :=
  match gs with
  | [] => ([], gs)
  | g :: rest =>
    if g.char = '.' then
      if startsIn Char.isDigit rest then
        let (digits, rest) := spanChars Char.isDigit rest
        ('.' :: digits, rest)
      else if startsIn isNameStart rest then ([], gs)
      else ([], rest)
    else ([], gs)

/-- Read the exponent of a number, if one is written in full. -/
def exponent (gs : List Glyph) : List Char × List Glyph :=
  match gs with
  | [] => ([], gs)
  | e :: rest =>
    if e.char = 'e' || e.char = 'E' then
      if startsIn Char.isDigit rest then
        let (digits, rest) := spanChars Char.isDigit rest
        (e.char :: digits, rest)
      else
        match rest with
        | sign :: rest =>
          if (sign.char = '+' || sign.char = '-') && startsIn Char.isDigit rest then
            let (digits, rest) := spanChars Char.isDigit rest
            (e.char :: sign.char :: digits, rest)
          else ([], gs)
        | [] => ([], gs)
    else ([], gs)

/-- Read a number.  Underscores may stand between the digits before the point. -/
def number (stop : Position) (gs : List Glyph) : Except SyntaxError (List Char × List Glyph) :=
  match gs with
  | zero :: x :: rest =>
    if zero.char = '0' && (x.char = 'x' || x.char = 'X') then hexLiteral stop rest
    else .ok (decimal gs)
  | _ => .ok (decimal gs)
where
  /-- Read a number that is written in decimal. -/
  decimal (gs : List Glyph) : List Char × List Glyph :=
    let (digits, rest) := spanChars (fun c => c.isDigit || c == '_') gs
    let (fraction, rest) := fraction rest
    let (exponent, rest) := exponent rest
    (digits.filter (· != '_') ++ fraction ++ exponent, rest)

/-! ### Strings -/

/-- The code of an escape: digits, a plus sign allowed before them, of a value below `2 ^ 32`. -/
def escapeCode? (text : List Char) : Option Nat :=
  let digits := if text.head? = some '+' then text.tail else text
  if digits.isEmpty || !digits.all isHexDigit then none
  else
    let code := hexValue digits
    if code < Decimal.twoTo 32 then some code else none

/-- The character of a code, or the replacement character if the code has none. -/
def charOfCode (code : Nat) : Char :=
  if code < 0xd800 || (0xdfff < code && code < 0x110000) then Char.ofNat code
  else Char.ofNat 0xfffd

/-- Read the code of an escape: exactly `count` characters. -/
def fixedEscape (stop : Position) (count : Nat) (cause : SyntaxCause) (gs : List Glyph) :
    Except SyntaxError (List Char × List Glyph) :=
  let text := (gs.take count).map Glyph.char
  let rest := gs.drop count
  match if text.length = count then escapeCode? text else none with
  | some code => .ok ([charOfCode code], rest)
  | none => failHere stop rest cause

/-- Read the code of an escape up to a closing brace, or to the end of the source. -/
def bracedEscape (stop : Position) (gs : List Glyph) :
    Except SyntaxError (List Char × List Glyph) :=
  let (text, rest) := spanChars (· != '\x7d') gs
  let rest := rest.drop 1
  match escapeCode? text with
  | some code => .ok ([charOfCode code], rest)
  | none => failHere stop rest .invalidUnicodeEscape

/-- Read what follows a backslash in a string: the characters it stands for, and the rest. -/
def escape (stop : Position) (gs : List Glyph) : Except SyntaxError (List Char × List Glyph) :=
  match gs with
  | [] => .error ⟨.invalidToken, stop⟩
  | g :: rest =>
    match g.char with
    | 'n' => .ok (['\n'], rest)
    | 't' => .ok (['\t'], rest)
    | 'r' => .ok (['\r'], rest)
    | 'b' => .ok (['\x08'], rest)
    | 'f' => .ok (['\x0c'], rest)
    | 'v' => .ok (['\x0b'], rest)
    | '0' => .ok (['\x00'], rest)
    | 'x' => fixedEscape stop 2 .invalidHexEscape rest
    | 'u' =>
      match rest with
      | brace :: inner =>
        if brace.char = '\x7b' then bracedEscape stop inner
        else fixedEscape stop 4 .invalidUnicodeEscape rest
      | [] => fixedEscape stop 4 .invalidUnicodeEscape rest
    | '\n' => .ok ([], rest)
    | '\x00' => failHere stop rest .invalidToken
    | c => .ok ([c], rest)

/-- Read a string behind its opening quote.  Every turn takes a glyph, so the length of the rest
    bounds the turns; `acc` holds the text backwards. -/
def stringFrom (stop : Position) (quote : Char) :
    Nat → List Char → List Glyph → Except SyntaxError (List Char × List Glyph)
  | 0, _, gs => failHere stop gs .invalidToken
  | _ + 1, _, [] => .error ⟨.invalidToken, stop⟩
  | fuel + 1, acc, g :: rest =>
    if g.char = '\n' then .error ⟨.invalidToken, g.position⟩
    else if g.char = quote then .ok (acc.reverse, rest)
    else if g.char = '\\' then do
      let (chars, rest) ← escape stop rest
      stringFrom stop quote fuel (chars.reverse ++ acc) rest
    else stringFrom stop quote fuel (g.char :: acc) rest

def stringBody (stop : Position) (quote : Char) (gs : List Glyph) :
    Except SyntaxError (List Char × List Glyph) :=
  stringFrom stop quote gs.length [] gs

/-! ### Templates -/

/-- Read a template behind its opening mark, as it is written.  `depth` counts the braces that are
    open, beginning with that of a substitution; `acc` holds the text backwards. -/
def templateFrom (stop : Position) :
    Nat → List Char → List Glyph → Except SyntaxError (List Char × List Glyph)
  | _, _, [] => .error ⟨.unterminatedTemplate, stop⟩
  | depth, acc, g :: rest =>
    match g.char, rest with
    | '\\', escaped :: rest => templateFrom stop depth (escaped.char :: '\\' :: acc) rest
    | '\\', [] => .error ⟨.unterminatedTemplate, stop⟩
    | '$', brace :: inner =>
      if brace.char = '\x7b' then templateFrom stop (depth + 1) ('\x7b' :: '$' :: acc) inner
      else templateFrom stop depth ('$' :: acc) (brace :: inner)
    | c, rest =>
      if c = '\x60' && depth == 0 then .ok (acc.reverse, rest)
      else if c = '\x7b' && depth > 0 then templateFrom stop (depth + 1) (c :: acc) rest
      else if c = '\x7d' && depth > 0 then templateFrom stop (depth - 1) (c :: acc) rest
      else templateFrom stop depth (c :: acc) rest

/-! ### Symbols -/

/-- The first symbol of a table that stands at the beginning of a text. -/
def symbol? (table : List (String × Symbol)) (cs : List Char) : Option (String × Symbol) :=
  table.find? fun entry => entry.1.toList.isPrefixOf cs

/-- The greatest length of a symbol. -/
def maxSymbolLength : Nat := 3

/-! ### Tokens -/

/-- Read one token: its kind, its text and the rest. -/
def token (stop : Position) (gs : List Glyph) :
    Except SyntaxError (TokenKind × List Char × List Glyph) :=
  match gs with
  | [] => .ok (.stop, [], [])
  | g :: rest =>
    if g.char.isDigit || (g.char = '.' && startsIn Char.isDigit rest) then do
      let (text, rest) ← number stop gs
      return (.number, text, rest)
    else if g.char = '\x22' || g.char = '\x27' then do
      let (text, rest) ← stringBody stop g.char rest
      return (.string, text, rest)
    else if g.char = '\x60' then do
      let (text, rest) ← templateFrom stop 0 [] rest
      return (.template, text, rest)
    else if isNameStart g.char then
      let (name, rest) := spanChars isNamePart gs
      match Keyword.ofText? (String.ofList name) with
      | some word => .ok (.keyword word, name, rest)
      | none => .ok (.identifier, name, rest)
    else
      match symbol? Symbol.table ((gs.take maxSymbolLength).map Glyph.char) with
      | some (text, symbol) => .ok (.symbol symbol, text.toList, gs.drop text.length)
      | none => .error ⟨.invalidCharacter g.char, g.position⟩

/-- Read what stands before the next token, and the token: what was read, and the rest. -/
def nextToken (stop : Position) (gs : List Glyph) : Except SyntaxError (Token × List Glyph) := do
  let (afterNewline, rest) ← skipGap stop .blank false gs
  let (kind, text, rest') ← token stop rest
  return (⟨kind, String.ofList text, here stop rest, afterNewline⟩, rest')

/-- Read tokens to the end.  Every turn takes a glyph, so the length of the rest bounds the turns;
    `done` holds the tokens backwards. -/
def tokensFrom (stop : Position) :
    Nat → List Token → List Glyph → Except SyntaxError TokenList
  | 0, done, gs => do
    let (read, _) ← nextToken stop gs
    if read.kind = .stop then return ⟨done.reverse, read⟩
    return ⟨(read :: done).reverse, ⟨.stop, "", stop, false⟩⟩
  | fuel + 1, done, gs => do
    let (read, rest) ← nextToken stop gs
    if read.kind = .stop then return ⟨done.reverse, read⟩
    tokensFrom stop fuel (read :: done) rest

def tokenize (source : String) : Except SyntaxError TokenList :=
  let (gs, stop) := glyphs source
  tokensFrom stop gs.length [] gs

end MemoryShell.Script
