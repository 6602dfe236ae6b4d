/-
  MemoryShell/Script/Evaluation.lean
  ==================================
  **What expressions, statements and calls do.**

  Each is described in terms of a runner for whatever is nested in it, so nothing here refers to
  itself but the walks over lists and the rounds of loops.  `run` ties the knot: it runs a job with
  a runner for jobs one level down.  How deep jobs nest is bounded by the limits, since every job
  counts toward one of them.
-/
import MemoryShell.Script.Arrays
import MemoryShell.Script.Globals
import MemoryShell.Script.Strings

namespace MemoryShell.Script

/-! ### Jobs and runners -/

/-- How a statement ends. -/
inductive Flow where
  | normal
  | returned (v : Value)
  | broken
  | continued

/-- What there is to run. -/
inductive Job : Type → Type where
  | eval (e : Expr) (env : Env) : Job Value
  | exec (s : Stmt) (env : Env) : Job Flow
  | call (f this : Value) (args : List Value) : Job Value

/-- A way to run jobs. -/
structure Runner (σ : Type) where
  run : {α : Type} → Job α → Act σ α

namespace Runner

def eval (r : Runner σ) (e : Expr) (env : Env) : Act σ Value := r.run (.eval e env)

def exec (r : Runner σ) (s : Stmt) (env : Env) : Act σ Flow := r.run (.exec s env)

def call (r : Runner σ) (f this : Value) (args : List Value) : Act σ Value := r.run (.call f this args)

end Runner

namespace Act

variable (limits : Limits) (r : Runner σ)

/-! ### Variables -/

/-- The value of a variable.  The receiver of a call is undefined where there is none. -/
def variableValue (name : String) (env : Env) : Act σ Value := do
  match ← lookHeap fun h => h.lookup env name with
  | some v => return v
  | none => if name = "this" then return .undefined else throwMistake (.notDefined name)

def declareVariable (env : Env) (name : String) (v : Value) (isMutable : Bool) : Act σ Unit :=
  match env with
  | frame :: _ => changeHeap fun h => h.declare frame name v isMutable
  | [] => pure ()

/-- Give a variable a value; one that no scope declares is made in the outermost scope. -/
def assignVariable (name : String) (v : Value) (env : Env) : Act σ Unit := do
  match ← withHeap fun h => h.assign env name v with
  | .assigned => return ()
  | .constant => throwMistake .constantAssignment
  | .undeclared => declareGlobal name v

/-! ### Assignment -/

def evalKey (e : Expr) (env : Env) : Act σ String := do display (← r.eval e env)

/-- Give what an expression names a value. -/
def assignTo (target : Expr) (v : Value) (env : Env) : Act σ Unit := do
  match target with
  | .ident name => assignVariable name v env
  | .member object name => setProperty limits (← r.eval object env) name v
  | .index object key =>
    let object ← r.eval object env
    setProperty limits object (← evalKey r key env) v
  | _ => fail .badTarget

/-- The value that an assignment gives: that of the expression, or of an operator on the target's
    value and it. -/
def assignedValue (op : Option BinaryOp) (target value : Expr) (env : Env) : Act σ Value :=
  match op with
  | none => r.eval value env
  | some op => do
    let current ← r.eval target env
    let operand ← r.eval value env
    checkText limits (← lookHeap fun h => h.binary op current operand)

/-- One more or one less for what an expression names; the new number and the old one. -/
def updated (increment : Bool) (target : Expr) (env : Env) : Act σ (Float × Float) := do
  let old ← number (← r.eval target env)
  let new := if increment then old + 1 else old - 1
  assignTo limits r target (.number new) env
  return (new, old)

/-! ### Calls -/

/-- An expression as it is named in messages. -/
def describe : Expr → String
  | .ident name => name
  | .member object name => describe object ++ "." ++ name
  | .index object _ => describe object ++ "[...]"
  | .call callee _ => describe callee ++ "(...)"
  | .string s => "\"" ++ s ++ "\""
  | .number x => numberText x
  | _ => "expression"

/-- The receiver of a call and the function called. -/
def calleeOf (callee : Expr) (env : Env) : Act σ (Value × Value) := do
  match callee with
  | .member object name =>
    let object ← r.eval object env
    return (object, ← getProperty object name)
  | .index object key =>
    let object ← r.eval object env
    let key ← evalKey r key env
    return (object, ← getProperty object key)
  | e => return (.undefined, ← r.eval e env)

/-- The values of some expressions, from left to right. -/
def evalAll (es : List Expr) (env : Env) : Act σ (List Value) := es.mapM fun e => r.eval e env

def evalCall (callee : Expr) (args : List Expr) (env : Env) : Act σ Value := do
  let (receiver, f) ← calleeOf r callee env
  if f.isFunction then r.call f receiver (← evalAll r args env)
  else throwMistake (.notAFunction (describe callee))

/-- Whether a value is an object or an array. -/
def isShared : Value → Bool
  | .array _ | .object _ => true
  | _ => false

/-- The value of a construction: what the function gives if that is an object or an array, else the
    new object that it was called on. -/
def construct (f : Value) (args : List Value) (callee : Expr) : Act σ Value := do
  match f with
  | .closure _ d _ =>
    if d.isArrow then throwMistake (.notAConstructor (describe callee))
    else
      let made ← newObject .empty
      let result ← r.call f made args
      return if isShared result then result else made
  | .native _ _ => r.call f .undefined args
  | _ => throwMistake (.notAConstructor (describe callee))

/-! ### Expressions -/

def partText (env : Env) : TemplatePart → Act σ String
  | .literal s => pure s
  | .expr e => evalKey r e env

/-- The name of the kind of a variable's value; a variable that is not declared is undefined. -/
def typeOfVariable (name : String) (env : Env) : Act σ Value := lookHeap fun h =>
  .string ((h.lookup env name).getD .undefined).typeName

/-- Whether an operator leaves its right operand alone. -/
def settles (op : LogicalOp) (left : Value) : Bool :=
  match op with
  | .and => !left.truthy
  | .or => left.truthy
  | .nullish => !left.isNullish

def evaluate (e : Expr) (env : Env) : Act σ Value := do
  match e with
  | .number x => return .number x
  | .string s => return .string s
  | .bool b => return .bool b
  | .null => return .null
  | .undefined => return .undefined
  | .template parts => checkText limits (.string (String.join (← parts.mapM (partText r env))))
  | .ident name => variableValue name env
  | .array items => newArray (← evalAll r items env).toArray
  | .object members =>
    newObject (← members.foldlM (fun d m => do return d.insert m.1 (← r.eval m.2 env)) .empty)
  | .function d => newClosure d env
  | .unary .typeOf (.ident name) => typeOfVariable name env
  | .unary op operand =>
    let v ← r.eval operand env
    lookHeap fun h => h.unary op v
  | .binary op left right =>
    let a ← r.eval left env
    let b ← r.eval right env
    checkText limits (← lookHeap fun h => h.binary op a b)
  | .logical op left right =>
    let v ← r.eval left env
    if settles op v then return v else r.eval right env
  | .conditional test consequent alternate =>
    if (← r.eval test env).truthy then r.eval consequent env else r.eval alternate env
  | .assign op target value =>
    let v ← assignedValue limits r op target value env
    assignTo limits r target v env
    return v
  | .update increment before target =>
    let (new, old) ← updated limits r increment target env
    return .number (if before then new else old)
  | .member object name => getProperty (← r.eval object env) name
  | .index object key =>
    let object ← r.eval object env
    getProperty object (← evalKey r key env)
  | .call callee args => evalCall r callee args env
  | .construct callee args =>
    let f ← r.eval callee env
    construct r f (← evalAll r args env) callee

/-! ### Blocks -/

/-- Declare the functions of a body before anything in it runs. -/
def hoist (body : List Stmt) (env : Env) : Act σ Unit :=
  body.forM fun s =>
    match s with
    | .functionDecl (.mk (some name) params body isArrow) => do
      declareVariable env name (← newClosure (.mk (some name) params body isArrow) env) true
    | _ => pure ()

/-- Execute statements until one of them ends otherwise than normally. -/
def execAll (env : Env) : List Stmt → Act σ Flow
  | [] => return .normal
  | s :: rest => do
    match ← r.exec s env with
    | .normal => execAll env rest
    | flow => return flow

def execBody (body : List Stmt) (env : Env) : Act σ Flow := do
  hoist body env
  execAll r env body

/-- Execute a body in a scope of its own. -/
def execBlock (body : List Stmt) (env : Env) : Act σ Flow := do
  execBody r body (← newScope env .empty)

/-! ### Loops -/

/-- How a loop ends after its body, if it does. -/
def endOfLoop : Flow → Option Flow
  | .broken => some .normal
  | .returned v => some (.returned v)
  | .normal | .continued => none

def execLoopBody (body : Stmt) (env : Env) : Act σ (Option Flow) := do
  note (.worked .body)
  return endOfLoop (← r.exec body env)

/-- Execute the body of a loop in a turn of its own. -/
def bodyTurn (body : Stmt) (env : Env) : Act σ (Option Flow) := do
  beginTurn limits
  execLoopBody r body env

/-- Repeat a round until one ends the loop.  A round that does not takes a turn, so one more round
    than there are turns left is enough. -/
def repeatFrom (round : Act σ (Option Flow)) : Nat → Act σ Flow
  | 0 => fail .exhausted
  | rounds + 1 => do
    match ← round with
    | some flow => return flow
    | none => repeatFrom round rounds

def repeatRound (round : Act σ (Option Flow)) : Act σ Flow := do
  repeatFrom round ((← turnsLeft limits) + 1)

/-- Whether the test of a loop holds; no test always does. -/
def testHolds (test : Option Expr) (env : Env) : Act σ Bool :=
  match test with
  | none => pure true
  | some e => do return (← r.eval e env).truthy

/-- The update of a loop; one that is left out does nothing. -/
def advance (update : Option Expr) (env : Env) : Act σ Unit :=
  match update with
  | some e => do let _ ← r.eval e env
  | none => pure ()

def testedRound (test update : Option Expr) (body : Stmt) (env : Env) : Act σ (Option Flow) := do
  if ← testHolds r test env then
    match ← bodyTurn limits r body env with
    | some flow => return some flow
    | none =>
      advance r update env
      return none
  else return some .normal

def testingRound (body : Stmt) (test : Expr) (env : Env) : Act σ (Option Flow) := do
  match ← bodyTurn limits r body env with
  | some flow => return some flow
  | none => if (← r.eval test env).truthy then return none else return some .normal

/-- The scope of a round with an item: either it declares a variable for the item, or the item is
    given to one that is there. -/
def itemScope (kind : Option DeclKind) (name : String) (env : Env) (item : Value) : Act σ Env := do
  let scope ← newScope env .empty
  match kind with
  | some kind => declareVariable scope name item (kind != .constKind)
  | none => assignVariable name item env
  return scope

/-- A round with an item, in a scope of its own. -/
def itemRound (kind : Option DeclKind) (name : String) (body : Stmt) (env : Env) (item : Value) :
    Act σ (Option Flow) := do
  beginTurn limits
  let scope ← itemScope kind name env item
  execLoopBody r body scope

/-- A round for each item until one ends the loop. -/
def eachItem (round : Value → Act σ (Option Flow)) : List Value → Act σ Flow
  | [] => return .normal
  | item :: rest => do
    match ← round item with
    | some flow => return flow
    | none => eachItem round rest

/-- The items of a value that has some: elements or characters. -/
def itemsOf (v : Value) : Act σ (List Value) := do
  match v with
  | .array a => return (← elements a).toList
  | .string s => return s.toList.map fun c => textValue [c]
  | v => throwMistake (.notIterable (← display v))

/-! ### Failing and cleaning up -/

def handle (param : Option String) (handler : List Stmt) (env : Env) (thrown : Value) : Act σ Flow := do
  let scope ← newScope env .empty
  match param with
  | some name => declareVariable scope name thrown true
  | none => pure ()
  execBody r handler scope

/-- Act, and let a handler act on what is thrown; no other fault reaches it. -/
def catching (act : Act σ Flow) (handler : Option (Value → Act σ Flow)) : Act σ Flow := fun m =>
  match act m, handler with
  | .error (.thrown v) m, some handler => handler v m
  | result, _ => result

/-- Clean up while a fault is on its way out.  A finalizer that ends otherwise than normally has the
    last word. -/
def cleanUp (fault : Fault) (finalizer : Act σ Flow) : Act σ Flow := do
  match ← finalizer with
  | .normal => fail fault
  | flow => return flow

/-- Clean up while a limit is on its way out, and note what becomes of the limit. -/
def cleanUpLimit (cause : LimitCause) (finalizer : Act σ Flow) : Act σ Flow := fun m =>
  match finalizer (m.noted (.cleaning cause)) with
  | .ok .normal m => .error (.limit cause) (m.noted (.resumed cause))
  | .ok flow m => .ok flow (m.noted (.discarded cause))
  | .error (.limit again) m =>
    .error (.limit again) (m.noted (if again = cause then .renewed cause else .discarded cause))
  | .error fault m => .error fault (m.noted (.discarded cause))

/-- Act, and let a finalizer act however that ends.  A finalizer that ends otherwise than normally
    has the last word. -/
def finalizing (act finalizer : Act σ Flow) : Act σ Flow := fun m =>
  match act m with
  | .ok flow m =>
    match finalizer m with
    | .ok .normal m => .ok flow m
    | result => result
  | .error (.limit cause) m => cleanUpLimit cause finalizer m
  | .error fault m => if fault.isFinal then .error fault m else cleanUp fault finalizer m

/-! ### Statements -/

def declareAll (kind : DeclKind) (env : Env) (declarations : List (String × Option Expr)) :
    Act σ Unit :=
  declarations.forM fun d => do
    let v ← match d.2 with
      | some e => r.eval e env
      | none => pure .undefined
    declareVariable env d.1 v (kind != .constKind)

def execute (s : Stmt) (env : Env) : Act σ Flow := do
  match s with
  | .expr e =>
    let _ ← r.eval e env
    return .normal
  | .varDecl kind declarations =>
    declareAll r kind env declarations
    return .normal
  | .functionDecl _ | .empty => return .normal
  | .ifElse test consequent alternate =>
    if (← r.eval test env).truthy then r.exec consequent env
    else
      match alternate with
      | some s => r.exec s env
      | none => return .normal
  | .whileLoop test body => repeatRound limits (testedRound limits r (some test) none body env)
  | .doWhile body test => repeatRound limits (testingRound limits r body test env)
  | .forLoop start test update body =>
    let scope ← newScope env .empty
    match start with
    | some s => do let _ ← r.exec s scope
    | none => pure ()
    repeatRound limits (testedRound limits r test update body scope)
  | .forOf kind name iterable body =>
    let items ← itemsOf (← r.eval iterable env)
    eachItem (itemRound limits r kind name body env) items
  | .forIn kind name object body =>
    let v ← r.eval object env
    let keys ← lookHeap fun h => h.ownKeys v
    eachItem (itemRound limits r kind name body env) (keys.map .string)
  | .block body => execBlock r body env
  | .returnWith value =>
    match value with
    | some e => return .returned (← r.eval e env)
    | none => return .returned .undefined
  | .breakLoop => return .broken
  | .continueLoop => return .continued
  | .throwValue e => fail (.thrown (← r.eval e env))
  | .tryCatch block param handler finalizer =>
    let guarded := catching (execBlock r block env) (handler.map fun h => handle r param h env)
    match finalizer with
    | some f => finalizing guarded (execBlock r f env)
    | none => guarded

/-! ### Functions -/

/-- Declare parameters with their arguments; missing ones are undefined. -/
def bindParams (frame : Frame) : List String → List Value → Frame
  | [], _ => frame
  | p :: ps, [] => bindParams (frame.insert p ⟨.undefined, true⟩) ps []
  | p :: ps, v :: vs => bindParams (frame.insert p ⟨v, true⟩) ps vs

/-- The names that a call declares besides the parameters: the receiver and all arguments, but not
    for an arrow. -/
def callFrame (isArrow : Bool) (this : Value) (args : List Value) : Act σ Frame := do
  if isArrow then return .empty
  else
    let all ← newArray args.toArray
    return .ofList [("this", ⟨this, false⟩), ("arguments", ⟨all, true⟩)]

def runClosure (d : FunctionDef) (env : Env) (this : Value) (args : List Value) : Act σ Value := do
  let frame ← callFrame d.isArrow this args
  let scope ← newScope env (bindParams frame d.params args)
  match d.body with
  | .expr e => r.eval e scope
  | .block body =>
    match ← execBody r body scope with
    | .returned v => return v
    | _ => return .undefined

def objectMethod (method : Method) (object : ObjectRef) (args : List Value) : Act σ Value := do
  match method with
  | .hasOwnProperty =>
    let key ← match args with
      | [] => pure ""
      | v :: _ => display v
    lookHeap fun h => .bool ((h.object object).members.contains key)
  | _ => return .string (← display (.object object))

def callMethod (method : Method) (receiver : Value) (args : List Value) : Act σ Value := do
  match receiver with
  | .string s => stringMethod limits method s args
  | .array a => arrayMethod limits (fun f args => r.call f .undefined args) method a args
  | .number x => numberMethod method x args
  | .object o => objectMethod method o args
  | v => return .string (← display v)

def invoke [Host σ] (f this : Value) (args : List Value) : Act σ Value := do
  match f with
  | .closure _ d env => inCall limits (runClosure r d env this args)
  | .native _ f => callNative f args
  | .method _ method receiver => callMethod limits r method receiver args
  | v => throwMistake (.notAFunction (← display v))

end Act

/-! ### Running -/

/-- What a job does, given a runner for the jobs nested in it. -/
def step [Host σ] (limits : Limits) (r : Runner σ) : {α : Type} → Job α → Act σ α
  | _, .eval e env => Act.deeper limits (Act.evaluate limits r e env)
  | _, .exec s env => Act.deeper limits (Act.execute limits r s env)
  | _, .call f this args => Act.invoke limits r f this args

/-- Run a job in which jobs nest less than a number of levels deep. -/
def run [Host σ] (limits : Limits) : Nat → {α : Type} → Job α → Act σ α
  | 0, _, _ => Act.fail .exhausted
  | levels + 1, _, job => do
    Act.note .begun
    step limits ⟨run limits levels⟩ job

/-- How deep jobs can nest.  Expressions and statements count toward one limit; a call comes from an
    expression or takes a turn. -/
def Limits.levels (limits : Limits) : Nat := 2 * limits.maxEvalDepth + limits.maxTurns + 2

/-- A runner that nothing within the limits exhausts. -/
def runner [Host σ] (limits : Limits) : Runner σ := ⟨run limits limits.levels⟩

end MemoryShell.Script
