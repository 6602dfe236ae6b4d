/-
  MemoryShell/Script/Grammar.lean
  ===============================
  **The grammar: from tokens to programs.**

  The grammar is a table of readers for its phrases.  The readers do not call one another where
  phrases nest; they call the reader of phrases one level deeper, which they are given.  So the
  grammar itself does not recur, and the nesting of phrases is a recursion on the levels that are
  left.  A substitution in a template is a source of its own: it begins again at depth zero, with
  positions of its own, and it is shorter than the source around it.
-/
import MemoryShell.Script.Cursor
import MemoryShell.Script.Lexer
import MemoryShell.Script.Template
import MemoryShell.Decimal.Reading
import MemoryShell.Script.Number

namespace MemoryShell.Script

open Parse

/-! ### Phrases -/

/-- The phrases that nest, by what they are read as. -/
inductive Phrase : Type → Type where
  | statement : Phrase Stmt
  | assignment : Phrase Expr
  | power : Phrase Expr
  | unary : Phrase Expr

/-- What the readers of a grammar are given: readers for nested phrases, and for the sources of
    substitutions. -/
structure Readers where
  phrase : {α : Type} → Phrase α → Parse α
  fragment : List Char → Except SyntaxError Expr

namespace Grammar

/-- Whether a token may name a member of an object, keywords included: its text begins like a
    name. -/
def isMemberName (t : Token) : Bool :=
  match t.text.toList with
  | c :: _ => isNameStart c
  | [] => false

/-- A token that holds a number, as a double. -/
def numberValue? (t : Token) : Option Float := Decimal.read? t.text.toList

variable (readers : Readers)

/-! ### Blocks and functions -/

def expression : Parse Expr := readers.phrase .assignment

def block : Parse (List Stmt) := do
  expectSymbol .leftBrace
  untilBrace (readers.phrase .statement)

def parameters : Parse (List String) := do
  expectSymbol .leftParen
  items .rightParen identifier

/-- A function behind its keyword: a name, which may be missing unless it is needed, parameters and
    a body. -/
def functionRest (needsName : Bool) : Parse FunctionDef := do
  let name ←
    if ← check .identifier then some <$> identifier
    else if needsName then unexpected
    else pure none
  let params ← parameters
  let body ← block readers
  return .mk name params (.block body) false

def arrowRest (params : List String) : Parse Expr := do
  expectSymbol .arrow
  if ← checkSymbol .leftBrace then
    return .function (.mk none params (.block (← block readers)) true)
  return .function (.mk none params (.expr (← readers.phrase .assignment)) true)

/-- Whether tokens behind an opening parenthesis are the parameters of an arrow: names and commas,
    then a closing parenthesis and an arrow. -/
def startsArrow : List Token → Bool
  | [] => false
  | t :: rest =>
    match t.kind with
    | .identifier | .symbol .comma => startsArrow rest
    | .symbol .rightParen => (rest.head?.map Token.kind) == some (.symbol .arrow)
    | _ => false

/-- Whether the parameters of an arrow stand at the cursor. -/
def atArrow : Parse Bool := fun c =>
  .ok (c.current.kind == .symbol .leftParen && startsArrow c.rest.tail, c)

/-! ### Primary expressions -/

/-- A member of an object in braces: a key and its value, a method, or a name that is both. -/
def objectMember : Parse (String × Expr) := do
  let t ← current
  let key ←
    match t.kind with
    | .string => pure t.text
    | .number => pure (numberText ((numberValue? t).getD (0.0 / 0.0)))
    | _ => if isMemberName t then pure t.text else unexpected
  let _ ← advance
  if ← eatSymbol .colon then return (key, ← readers.phrase .assignment)
  if ← checkSymbol .leftParen then
    let params ← parameters
    let body ← block readers
    return (key, .function (.mk (some key) params (.block body) false))
  if t.kind = .identifier then return (key, .ident key)
  unexpected

def primary : Parse Expr := do
  let t ← current
  match t.kind with
  | .number =>
    let _ ← advance
    match numberValue? t with
    | some x => return .number x
    | none => fun _ => .error ⟨.invalidNumber, t.position⟩
  | .string =>
    let _ ← advance
    return .string t.text
  | .template =>
    let _ ← advance
    return .template (← templateParts readers.fragment t)
  | .keyword .trueWord =>
    let _ ← advance
    return .bool true
  | .keyword .falseWord =>
    let _ ← advance
    return .bool false
  | .keyword .nullWord =>
    let _ ← advance
    return .null
  | .identifier =>
    let _ ← advance
    return if t.text = "undefined" then .undefined else .ident t.text
  | .symbol .leftParen =>
    let _ ← advance
    let e ← expression readers
    expectSymbol .rightParen
    return e
  | .symbol .leftBracket =>
    let _ ← advance
    return .array (← items .rightBracket (readers.phrase .assignment))
  | .symbol .leftBrace =>
    let _ ← advance
    return .object (← items .rightBrace (objectMember readers))
  | .keyword .functionWord =>
    let _ ← advance
    return .function (← functionRest readers false)
  | _ => unexpected

/-! ### Members, calls and updates -/

def arguments : Parse (List Expr) := do
  expectSymbol .leftParen
  items .rightParen (readers.phrase .assignment)

/-- What may follow an expression: a member, an index or, if that is allowed, a call. -/
def suffix (allowCall : Bool) (e : Expr) : Parse (Option Expr) := do
  match (← current).kind with
  | .symbol .dot =>
    enter
    let _ ← advance
    let t ← current
    if isMemberName t then
      let _ ← advance
      return some (.member e t.text)
    unexpected
  | .symbol .leftBracket =>
    enter
    let _ ← advance
    let key ← expression readers
    expectSymbol .rightBracket
    return some (.index e key)
  | .symbol .leftParen =>
    enter
    if allowCall then return some (.call e (← arguments readers))
    return none
  | _ => return none

def construction : Parse Expr := do
  let callee ← grow (suffix readers false) (primary readers)
  if ← checkSymbol .leftParen then return .construct callee (← arguments readers)
  return .construct callee []

def callMember : Parse Expr :=
  grow (suffix readers true) do
    if ← eatKeyword .newWord then construction readers else primary readers

/-- Whether a token raises or lowers its target, if it does either. -/
def updateOf? (t : Token) : Option Bool :=
  match t.kind with
  | .symbol .increment => some true
  | .symbol .decrement => some false
  | _ => none

/-- An expression with an update behind it, on the same line. -/
def postfixUpdate : Parse Expr := do
  let e ← callMember readers
  let t ← current
  match updateOf? t with
  | some increment =>
    if t.afterNewline then return e
    if !e.isTarget then failWith .invalidPostfixUpdate
    let _ ← advance
    return .update increment false e
  | none => return e

/-! ### Operators -/

/-- The operator on one value that a token is. -/
def unaryOf? (t : Token) : Option UnaryOp :=
  match t.kind with
  | .symbol .not => some .not
  | .symbol .minus => some .negate
  | .symbol .plus => some .plus
  | .keyword .typeofWord => some .typeOf
  | _ => none

def unary : Parse Expr := do
  let t ← current
  match unaryOf? t, updateOf? t with
  | some op, _ =>
    let _ ← advance
    return .unary op (← readers.phrase .unary)
  | none, some increment =>
    let _ ← advance
    let target ← readers.phrase .unary
    if !target.isTarget then failWith .invalidPrefixUpdate
    return .update increment true target
  | none, none => postfixUpdate readers

/-- Powers group to the right. -/
def power : Parse Expr := do
  let base ← readers.phrase .unary
  if ← eatSymbol .power then return .binary .power base (← readers.phrase .power)
  return base

/-- One level of operators that group to the left: the operands are read by `operand`, and `combine`
    says which tokens are operators of the level. -/
def level (combine : TokenKind → Option (Expr → Expr → Expr)) (operand : Parse Expr) : Parse Expr :=
  grow (fun left => do
    match combine (← current).kind with
    | none => return none
    | some make =>
      let _ ← advance
      enter
      return some (make left (← operand))) operand

def productOf? : TokenKind → Option (Expr → Expr → Expr)
  | .symbol .times => some (.binary .multiply)
  | .symbol .divide => some (.binary .divide)
  | .symbol .remainder => some (.binary .remainder)
  | _ => none

def sumOf? : TokenKind → Option (Expr → Expr → Expr)
  | .symbol .plus => some (.binary .add)
  | .symbol .minus => some (.binary .subtract)
  | _ => none

def relationOf? : TokenKind → Option (Expr → Expr → Expr)
  | .symbol .less => some (.binary .less)
  | .symbol .greater => some (.binary .greater)
  | .symbol .atMost => some (.binary .atMost)
  | .symbol .atLeast => some (.binary .atLeast)
  | _ => none

def equalityOf? : TokenKind → Option (Expr → Expr → Expr)
  | .symbol .equal => some (.binary .equal)
  | .symbol .strictEqual => some (.binary .strictEqual)
  | .symbol .unequal => some (.binary .unequal)
  | .symbol .strictUnequal => some (.binary .strictUnequal)
  | _ => none

def conjunctionOf? : TokenKind → Option (Expr → Expr → Expr)
  | .symbol .and => some (.logical .and)
  | _ => none

/-- Disjunction, and the operator that replaces a missing value. -/
def disjunctionOf? : TokenKind → Option (Expr → Expr → Expr)
  | .symbol .or => some (.logical .or)
  | .symbol .nullish => some (.logical .nullish)
  | _ => none

/-- All levels of operators that group to the left, the loosest outside. -/
def disjunction : Parse Expr :=
  level disjunctionOf? <| level conjunctionOf? <| level equalityOf? <| level relationOf? <|
    level sumOf? <| level productOf? <| power readers

def conditional : Parse Expr := do
  let test ← disjunction readers
  if ← eatSymbol .question then
    let consequent ← readers.phrase .assignment
    expectSymbol .colon
    let alternate ← readers.phrase .assignment
    return .conditional test consequent alternate
  return test

/-- The operator that an assignment applies, if a token is an assignment. -/
def assignmentOf? : TokenKind → Option (Option BinaryOp)
  | .symbol .assign => some none
  | .symbol .plusAssign => some (some .add)
  | .symbol .minusAssign => some (some .subtract)
  | .symbol .timesAssign => some (some .multiply)
  | .symbol .divideAssign => some (some .divide)
  | .symbol .remainderAssign => some (some .remainder)
  | _ => none

/-- An arrow, an assignment, or what is tighter than both. -/
def assignment : Parse Expr := do
  if (← check .identifier) && (← checkNextSymbol .arrow) then
    let param ← identifier
    return ← arrowRest readers [param]
  if ← atArrow then
    let params ← parameters
    return ← arrowRest readers params
  let left ← conditional readers
  match assignmentOf? (← current).kind with
  | none => return left
  | some op =>
    if !left.isTarget then failWith .invalidAssignment
    let _ ← advance
    return .assign op left (← readers.phrase .assignment)

/-! ### Statements -/

def declKindOf? : TokenKind → Option DeclKind
  | .keyword .varWord => some .varKind
  | .keyword .letWord => some .letKind
  | .keyword .constWord => some .constKind
  | _ => none

/-- One declared variable; a constant has to be given its value. -/
def declaration (kind : DeclKind) : Parse (String × Option Expr) := do
  let name ← identifier
  if ← eatSymbol .assign then return (name, some (← readers.phrase .assignment))
  if kind = .constKind then failWith .missingInitializer
  return (name, none)

def declarations (kind : DeclKind) : Parse Stmt := do
  return .varDecl kind (← commaSeparated (declaration readers kind))

def parenthesized : Parse Expr := do
  expectSymbol .leftParen
  let e ← expression readers
  expectSymbol .rightParen
  return e

def ifRest : Parse Stmt := do
  let test ← parenthesized readers
  let consequent ← readers.phrase .statement
  if ← eatKeyword .elseWord then
    return .ifElse test consequent (some (← readers.phrase .statement))
  return .ifElse test consequent none

/-- What runs over the elements or the keys of a value: `true` for elements. -/
def eachOf? (t : Token) : Option Bool :=
  if t.kind = .identifier ∧ t.text = "of" then some true
  else if t.kind = .keyword .inWord then some false
  else none

/-- Look for a loop over elements or keys: a declaring keyword, which may be missing, a name, and
    the word that tells the two apart. -/
def eachAhead (declared : Bool) : Parse (Option Bool) := fun c =>
  let rest := if declared then c.rest.tail else c.rest
  match rest with
  | name :: after :: _ => .ok (if name.kind = .identifier then eachOf? after else none, c)
  | _ => .ok (none, c)

/-- A loop over elements or keys, behind its opening parenthesis. -/
def eachRest (kind : Option DeclKind) (elements : Bool) : Parse Stmt := do
  if kind.isSome then
    let _ ← advance
  let name ← identifier
  let _ ← advance
  let source ← expression readers
  expectSymbol .rightParen
  let body ← readers.phrase .statement
  return if elements then .forOf kind name source body else .forIn kind name source body

/-- Read something unless a symbol stands at the cursor. -/
def unlessSymbol (s : Symbol) (p : Parse α) : Parse (Option α) := do
  if ← checkSymbol s then return none
  return some (← p)

def forRest : Parse Stmt := do
  expectSymbol .leftParen
  let kind := declKindOf? (← current).kind
  match ← eachAhead kind.isSome with
  | some elements => eachRest readers kind elements
  | none =>
    let start ← unlessSymbol .semicolon do
      match kind with
      | some kind =>
        let _ ← advance
        declarations readers kind
      | none => return .expr (← expression readers)
    expectSymbol .semicolon
    let test ← unlessSymbol .semicolon (expression readers)
    expectSymbol .semicolon
    let update ← unlessSymbol .rightParen (expression readers)
    expectSymbol .rightParen
    let body ← readers.phrase .statement
    return .forLoop start test update body

/-- A guarded block behind its keyword; it needs a handler or a finalizer. -/
def tryRest : Parse Stmt := do
  let guarded ← block readers
  let (param, handler) ←
    if ← eatKeyword .catchWord then
      let param ←
        if ← eatSymbol .leftParen then
          let name ← identifier
          expectSymbol .rightParen
          pure (some name)
        else pure none
      let body ← block readers
      pure (param, some body)
    else pure (none, none)
  let finalizer ←
    if ← eatKeyword .finallyWord then some <$> block readers else pure none
  if handler.isNone && finalizer.isNone then failWith .missingHandler
  return .tryCatch guarded param handler finalizer

/-- A return behind its keyword; its value has to begin on the same line. -/
def returnRest : Parse Stmt := do
  let t ← current
  let bare := t.afterNewline || t.kind == .symbol .semicolon || t.kind == .symbol .rightBrace ||
    t.kind == .stop
  let value ← if bare then pure none else some <$> expression readers
  endStatement
  return .returnWith value

def statement : Parse Stmt := do
  match (← current).kind with
  | .symbol .leftBrace => return .block (← block readers)
  | .symbol .semicolon =>
    let _ ← advance
    return .empty
  | .keyword .varWord =>
    let _ ← advance
    let s ← declarations readers .varKind
    endStatement
    return s
  | .keyword .letWord =>
    let _ ← advance
    let s ← declarations readers .letKind
    endStatement
    return s
  | .keyword .constWord =>
    let _ ← advance
    let s ← declarations readers .constKind
    endStatement
    return s
  | .keyword .functionWord =>
    let _ ← advance
    return .functionDecl (← functionRest readers true)
  | .keyword .ifWord =>
    let _ ← advance
    ifRest readers
  | .keyword .whileWord =>
    let _ ← advance
    let test ← parenthesized readers
    return .whileLoop test (← readers.phrase .statement)
  | .keyword .doWord =>
    let _ ← advance
    let body ← readers.phrase .statement
    expectKeyword .whileWord
    let test ← parenthesized readers
    let _ ← eatSymbol .semicolon
    return .doWhile body test
  | .keyword .forWord =>
    let _ ← advance
    forRest readers
  | .keyword .returnWord =>
    let _ ← advance
    returnRest readers
  | .keyword .breakWord =>
    let _ ← advance
    endStatement
    return .breakLoop
  | .keyword .continueWord =>
    let _ ← advance
    endStatement
    return .continueLoop
  | .keyword .throwWord =>
    let _ ← advance
    if (← current).afterNewline then unexpected
    let value ← expression readers
    endStatement
    return .throwValue value
  | .keyword .tryWord =>
    let _ ← advance
    tryRest readers
  | _ =>
    let e ← expression readers
    endStatement
    return .expr e

/-- The reader of each phrase, given readers for the phrases nested in it. -/
def phrase : {α : Type} → Phrase α → Parse α
  | _, .statement => statement readers
  | _, .assignment => assignment readers
  | _, .power => power readers
  | _, .unary => unary readers

end Grammar

/-! ### Sources -/

/-- Read a phrase with a number of levels left below it. -/
def phraseAt (fragment : List Char → Except SyntaxError Expr) :
    Nat → {α : Type} → Phrase α → Parse α
  | 0, _, _ => failWith .nestingTooDeep
  | levels + 1, _, p => nested (Grammar.phrase ⟨phraseAt fragment levels, fragment⟩ p)

/-- Read one expression from the source of a substitution.  It is shorter than the source around it,
    so the length of that one bounds how deep substitutions nest. -/
def fragmentOf : Nat → List Char → Except SyntaxError Expr
  | 0, _ => .error ⟨.nestingTooDeep, ⟨1, 1⟩⟩
  | size + 1, source => do
    let tokens ← tokenize (String.ofList source)
    let (e, c) ← (phraseAt (fragmentOf size) maxDepth .assignment).run (Cursor.start tokens)
    if c.current.kind = .stop then return e
    let (e, _) ← (unexpected : Parse Expr).run c
    return e

def parse (source : String) : Except SyntaxError Program := do
  let tokens ← tokenize source
  let statement := phraseAt (fragmentOf source.length) maxDepth .statement
  let (body, _) ← (untilStop statement).run (Cursor.start tokens)
  return ⟨body⟩

end MemoryShell.Script
