/-
  MemoryShell/Script/Token.lean
  =============================
  **Positions, tokens, and the words and symbols of the script language.**

  Keywords and symbols are kept in two tables of spellings.  The order of the table of symbols is
  the order in which the lexer tries them: a symbol that is the beginning of another one stands
  behind it, so the first that fits is the longest.
-/

namespace MemoryShell.Script

/-! ### Positions and errors -/

/-- A place in a source, line and column counted from one. -/
structure Position where
  line : Nat
  column : Nat
deriving DecidableEq, Repr

/-- Why a text is no script. -/
inductive SyntaxCause where
  | unterminatedComment
  | unterminatedTemplate
  | invalidHexLiteral
  | invalidHexEscape
  | invalidUnicodeEscape
  | invalidToken
  | invalidCharacter (c : Char)
  | invalidNumber
  | unexpectedEnd
  | unexpectedToken (text : String)
  | nestingTooDeep
  | missingInitializer
  | missingHandler
  | invalidAssignment
  | invalidPrefixUpdate
  | invalidPostfixUpdate
deriving DecidableEq, Repr

def SyntaxCause.message : SyntaxCause → String
  | .unterminatedComment => "Unterminated comment"
  | .unterminatedTemplate => "Unterminated template literal"
  | .invalidHexLiteral => "Invalid hexadecimal literal"
  | .invalidHexEscape => "Invalid hexadecimal escape"
  | .invalidUnicodeEscape => "Invalid Unicode escape"
  | .invalidToken => "Invalid or unexpected token"
  | .invalidCharacter c => "Invalid or unexpected token '" ++ c.toString ++ "'"
  | .invalidNumber => "Invalid number"
  | .unexpectedEnd => "Unexpected end of input"
  | .unexpectedToken text => "Unexpected token '" ++ text ++ "'"
  | .nestingTooDeep => "Maximum nesting depth exceeded"
  | .missingInitializer => "Missing initializer in const declaration"
  | .missingHandler => "Missing catch or finally after try"
  | .invalidAssignment => "Invalid left-hand side in assignment"
  | .invalidPrefixUpdate => "Invalid left-hand side expression in prefix operation"
  | .invalidPostfixUpdate => "Invalid left-hand side expression in postfix operation"

/-- A cause and the place it was met at. -/
structure SyntaxError where
  cause : SyntaxCause
  position : Position
deriving DecidableEq, Repr

/-- The text of a syntax error, its place included. -/
def SyntaxError.message (e : SyntaxError) : String :=
  "SyntaxError: " ++ e.cause.message ++ " (line " ++ toString e.position.line ++ ", column " ++
    toString e.position.column ++ ")"

/-! ### Keywords and symbols -/

/-- Words that are no identifiers. -/
inductive Keyword where
  | varWord
  | letWord
  | constWord
  | functionWord
  | returnWord
  | ifWord
  | elseWord
  | whileWord
  | doWord
  | forWord
  | inWord
  | breakWord
  | continueWord
  | throwWord
  | tryWord
  | catchWord
  | finallyWord
  | newWord
  | typeofWord
  | trueWord
  | falseWord
  | nullWord
deriving DecidableEq, Repr

def Keyword.table : List (String × Keyword) := [
  ("var", .varWord), ("let", .letWord), ("const", .constWord), ("function", .functionWord),
  ("return", .returnWord), ("if", .ifWord), ("else", .elseWord), ("while", .whileWord),
  ("do", .doWord), ("for", .forWord), ("in", .inWord), ("break", .breakWord),
  ("continue", .continueWord), ("throw", .throwWord), ("try", .tryWord), ("catch", .catchWord),
  ("finally", .finallyWord), ("new", .newWord), ("typeof", .typeofWord), ("true", .trueWord),
  ("false", .falseWord), ("null", .nullWord)]

def Keyword.ofText? (text : String) : Option Keyword := Keyword.table.lookup text

/-- Operators and punctuation. -/
inductive Symbol where
  | strictEqual
  | strictUnequal
  | power
  | arrow
  | equal
  | unequal
  | atMost
  | atLeast
  | and
  | or
  | nullish
  | increment
  | decrement
  | plusAssign
  | minusAssign
  | timesAssign
  | divideAssign
  | remainderAssign
  | plus
  | minus
  | times
  | divide
  | remainder
  | less
  | greater
  | not
  | assign
  | question
  | colon
  | dot
  | comma
  | semicolon
  | leftParen
  | rightParen
  | leftBrace
  | rightBrace
  | leftBracket
  | rightBracket
deriving DecidableEq, Repr

/-- The spellings of the symbols, in the order in which they are tried. -/
def Symbol.table : List (String × Symbol) := [
  ("===", .strictEqual), ("!==", .strictUnequal), ("**", .power), ("=>", .arrow),
  ("==", .equal), ("!=", .unequal), ("<=", .atMost), (">=", .atLeast), ("&&", .and), ("||", .or),
  ("??", .nullish), ("++", .increment), ("--", .decrement), ("+=", .plusAssign),
  ("-=", .minusAssign), ("*=", .timesAssign), ("/=", .divideAssign), ("%=", .remainderAssign),
  ("+", .plus), ("-", .minus), ("*", .times), ("/", .divide), ("%", .remainder), ("<", .less),
  (">", .greater), ("!", .not), ("=", .assign), ("?", .question), (":", .colon), (".", .dot),
  (",", .comma), (";", .semicolon), ("(", .leftParen), (")", .rightParen),
  ("\x7b", .leftBrace), ("\x7d", .rightBrace), ("[", .leftBracket), ("]", .rightBracket)]

/-! ### Tokens -/

/-- The kinds of token.  `stop` is the end of the source. -/
inductive TokenKind where
  | number
  | string
  | template
  | identifier
  | keyword (word : Keyword)
  | symbol (symbol : Symbol)
  | stop
deriving DecidableEq, Repr

/-- A token: its kind, its text, where it begins, and whether a line ended between it and the token
    before it.  The text of a string is what it stands for, that of a template what is written in
    it, and that of a number its decimal digits. -/
structure Token where
  kind : TokenKind
  text : String
  position : Position
  afterNewline : Bool
deriving DecidableEq, Repr

/-- The tokens of a source, and the end behind them. -/
structure TokenList where
  tokens : List Token
  stop : Token
deriving DecidableEq, Repr

def TokenList.toList (l : TokenList) : List Token := l.tokens ++ [l.stop]

end MemoryShell.Script
