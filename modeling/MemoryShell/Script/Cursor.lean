/-
  MemoryShell/Script/Cursor.lean
  ==============================
  **A place among the tokens, and the steps every reader is made of.**

  A reader takes a cursor and gives either what it read and a cursor further on, or a syntax error.
  The cursor never runs out: behind the last token stands the end of the source, which can be looked
  at as often as one likes.  It also carries the depth of nesting, which is bounded, so that no
  source can make a tree too deep to walk.
-/
import MemoryShell.Script.Token
import MemoryShell.Script.Program
import MemoryShell.Text.Letter

namespace MemoryShell.Script

/-! ### Cursors and readers -/

/-- The tokens that are left, the end behind them, and the depth of nesting. -/
structure Cursor where
  rest : List Token
  stop : Token
  depth : Nat

/-- The cursor before the first token, at depth zero. -/
def Cursor.start (l : TokenList) : Cursor := ⟨l.tokens, l.stop, 0⟩

def Cursor.current (c : Cursor) : Token := c.rest.head?.getD c.stop

/-- Readers of a grammar. -/
abbrev Parse := StateT Cursor (Except SyntaxError)

namespace Parse

/-- The deepest nesting of statements and expressions. -/
def maxDepth : Nat := 500

/-! ### Looking and moving -/

def current : Parse Token := fun c => .ok (c.current, c)

/-- Whether the token at the cursor is of a kind. -/
def check (kind : TokenKind) : Parse Bool := fun c => .ok (c.current.kind == kind, c)

/-- Whether the token at the cursor is a symbol. -/
def checkSymbol (s : Symbol) : Parse Bool := check (.symbol s)

/-- Whether the token behind that at the cursor is a symbol. -/
def checkNextSymbol (s : Symbol) : Parse Bool := fun c =>
  .ok ((c.rest[1]?.map Token.kind) == some (.symbol s), c)

def advance : Parse Token := fun c => .ok (c.current, { c with rest := c.rest.tail })

/-- Take the token at the cursor if it is of a kind, and say whether it was. -/
def eat (kind : TokenKind) : Parse Bool := fun c =>
  if c.current.kind == kind then .ok (true, { c with rest := c.rest.tail }) else .ok (false, c)

/-- Take a symbol if it stands at the cursor, and say whether it did. -/
def eatSymbol (s : Symbol) : Parse Bool := eat (.symbol s)

/-- Take a keyword if it stands at the cursor, and say whether it did. -/
def eatKeyword (k : Keyword) : Parse Bool := eat (.keyword k)

/-! ### Failing -/

def failWith (cause : SyntaxCause) : Parse α := fun c => .error ⟨cause, c.current.position⟩

def unexpected : Parse α := fun c =>
  let t := c.current
  if t.kind = .stop then .error ⟨.unexpectedEnd, t.position⟩
  else .error ⟨.unexpectedToken t.text, t.position⟩

def expect (kind : TokenKind) : Parse Token := do
  if ← check kind then advance else unexpected

def expectSymbol (s : Symbol) : Parse Unit := do
  let _ ← expect (.symbol s)

def expectKeyword (k : Keyword) : Parse Unit := do
  let _ ← expect (.keyword k)

def identifier : Parse String := do
  let t ← expect .identifier
  return t.text

/-- End a statement: at a semicolon, before a closing brace, at the end, or where a line ends. -/
def endStatement : Parse Unit := do
  if ← eatSymbol .semicolon then return
  let t ← current
  if t.kind = .symbol .rightBrace ∨ t.kind = .stop ∨ t.afterNewline then return
  unexpected

/-! ### Depth -/

def depth : Parse Nat := fun c => .ok (c.depth, c)

def setDepth (n : Nat) : Parse Unit := fun c => .ok ((), { c with depth := n })

def enter : Parse Unit := fun c =>
  if c.depth + 1 > maxDepth then .error ⟨.nestingTooDeep, c.current.position⟩
  else .ok ((), { c with depth := c.depth + 1 })

def nested (p : Parse α) : Parse α := do
  enter
  let a ← p
  setDepth ((← depth) - 1)
  return a

/-! ### Repetition -/

/-- Let an expression grow while a step has something to add; `fuel` bounds the turns. -/
def growFrom (step : Expr → Parse (Option Expr)) : Nat → Expr → Parse Expr
  | 0, e => return e
  | fuel + 1, e => do
    match ← step e with
    | some e => growFrom step fuel e
    | none => return e

/-- Let an expression grow while a step has something to add.  A step that adds something goes one
    level deeper, so the greatest depth bounds the turns; at the end the depth is what it was. -/
def grow (step : Expr → Parse (Option Expr)) (first : Parse Expr) : Parse Expr := do
  let base ← depth
  let e ← growFrom step (maxDepth + 1) (← first)
  setDepth base
  return e

/-- How many tokens are left.  Every item of a list takes at least one, so this bounds the turns of
    the readers of lists that can still read something. -/
def remaining : Parse Nat := fun c => .ok (c.rest.length, c)

/-- Read items separated by commas up to a closing symbol; a comma may stand before it. -/
def itemsFrom (close : Symbol) (item : Parse α) : Nat → Parse (List α)
  | 0 => do
    expectSymbol close
    return []
  | fuel + 1 => do
    if ← eatSymbol close then return []
    let a ← item
    if ← eatSymbol .comma then return a :: (← itemsFrom close item fuel)
    expectSymbol close
    return [a]

/-- Read items separated by commas up to a closing symbol; a comma may stand before it.  Where no
    token is left an item is still asked for, so that the item says what is missing: this is the one
    turn more. -/
def items (close : Symbol) (item : Parse α) : Parse (List α) := do
  itemsFrom close item ((← remaining) + 1)

def commaSeparatedFrom (item : Parse α) : Nat → Parse (List α)
  | 0 => return [← item]
  | fuel + 1 => do
    let a ← item
    if ← eatSymbol .comma then return a :: (← commaSeparatedFrom item fuel)
    return [a]

def commaSeparated (item : Parse α) : Parse (List α) := do
  commaSeparatedFrom item (← remaining)

/-- Read items up to the end of the source. -/
def untilStopFrom (item : Parse α) : Nat → Parse (List α)
  | 0 => return []
  | fuel + 1 => do
    if ← check .stop then return []
    let a ← item
    return a :: (← untilStopFrom item fuel)

/-- Read items up to the end of the source. -/
def untilStop (item : Parse α) : Parse (List α) := do
  untilStopFrom item (← remaining)

/-- Read items up to a closing brace, which has to come. -/
def untilBraceFrom (item : Parse α) : Nat → Parse (List α)
  | 0 => do
    expectSymbol .rightBrace
    return []
  | fuel + 1 => do
    if ← eatSymbol .rightBrace then return []
    if ← check .stop then unexpected
    let a ← item
    return a :: (← untilBraceFrom item fuel)

/-- Read items up to a closing brace, which has to come. -/
def untilBrace (item : Parse α) : Parse (List α) := do
  untilBraceFrom item (← remaining)

end Parse

end MemoryShell.Script
