/-
  MemoryShell/Script/Program.lean
  ===============================
  **Programs: expressions, statements and function definitions.**

  The language is small: variables in block scopes, functions and arrows, loops, exceptions, arrays,
  objects and templates.  A parsed program keeps nothing of its text but names, numbers and strings.
-/

namespace MemoryShell.Script

/-! ### Operators -/

/-- Operators on two values that are both evaluated. -/
inductive BinaryOp where
  | add
  | subtract
  | multiply
  | divide
  | remainder
  | power
  | equal
  | strictEqual
  | unequal
  | strictUnequal
  | less
  | greater
  | atMost
  | atLeast
deriving DecidableEq, Repr

/-- Operators that may leave their right operand alone. -/
inductive LogicalOp where
  | and
  | or
  | nullish
deriving DecidableEq, Repr

/-- Operators on one value. -/
inductive UnaryOp where
  | not
  | negate
  | plus
  | typeOf
deriving DecidableEq, Repr

/-- How a variable is declared. -/
inductive DeclKind where
  | varKind
  | letKind
  | constKind
deriving DecidableEq, Repr

/-! ### Expressions and statements -/

mutual

/-- Expressions. -/
inductive Expr where
  | number (value : Float)
  | string (value : String)
  | bool (value : Bool)
  | null
  | undefined
  | template (parts : List TemplatePart)
  | ident (name : String)
  | array (items : List Expr)
  | object (members : List (String × Expr))
  | function (definition : FunctionDef)
  | unary (op : UnaryOp) (operand : Expr)
  | binary (op : BinaryOp) (left right : Expr)
  | logical (op : LogicalOp) (left right : Expr)
  | conditional (test consequent alternate : Expr)
  /-- An assignment; with an operator, of the target's value combined with the given one. -/
  | assign (op : Option BinaryOp) (target value : Expr)
  /-- One more or one less; its value is the new one if the operator stands before the target. -/
  | update (increment before : Bool) (target : Expr)
  | member (object : Expr) (name : String)
  | index (object key : Expr)
  | call (callee : Expr) (args : List Expr)
  | construct (callee : Expr) (args : List Expr)

/-- The parts of a template: text, and expressions in it. -/
inductive TemplatePart where
  | literal (text : String)
  | expr (e : Expr)

/-- A function: its name if it has one, its parameters, its body, and whether it is an arrow. -/
inductive FunctionDef where
  | mk (name : Option String) (params : List String) (body : FunctionBody) (isArrow : Bool)

/-- The body of a function; an arrow may have an expression. -/
inductive FunctionBody where
  | block (body : List Stmt)
  | expr (e : Expr)

/-- Statements. -/
inductive Stmt where
  | expr (e : Expr)
  | varDecl (kind : DeclKind) (declarations : List (String × Option Expr))
  | functionDecl (definition : FunctionDef)
  | ifElse (test : Expr) (consequent : Stmt) (alternate : Option Stmt)
  | whileLoop (test : Expr) (body : Stmt)
  | doWhile (body : Stmt) (test : Expr)
  | forLoop (start : Option Stmt) (test update : Option Expr) (body : Stmt)
  | forOf (kind : Option DeclKind) (name : String) (iterable : Expr) (body : Stmt)
  | forIn (kind : Option DeclKind) (name : String) (object : Expr) (body : Stmt)
  | block (body : List Stmt)
  | returnWith (value : Option Expr)
  | breakLoop
  | continueLoop
  | throwValue (value : Expr)
  | tryCatch (block : List Stmt) (param : Option String) (handler finalizer : Option (List Stmt))
  | empty

end

def FunctionDef.name : FunctionDef → Option String
  | .mk name _ _ _ => name

def FunctionDef.params : FunctionDef → List String
  | .mk _ params _ _ => params

def FunctionDef.body : FunctionDef → FunctionBody
  | .mk _ _ body _ => body

def FunctionDef.isArrow : FunctionDef → Bool
  | .mk _ _ _ isArrow => isArrow

/-- Whether a value can be given to what an expression names. -/
def Expr.isTarget : Expr → Bool
  | .ident _ | .member _ _ | .index _ _ => true
  | _ => false

/-- A program: its statements. -/
structure Program where
  body : List Stmt

end MemoryShell.Script
