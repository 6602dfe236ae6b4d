/-
  MemoryShell/Proofs/Script/Expressions.lean
  ==========================================
  **Expressions take a course.**

  The evaluator is described over a runner for what is nested in it.  If what is nested takes a
  course within a budget, so does each expression, and so do the declarations of a block.
-/
import MemoryShell.Proofs.Script.Methods

namespace MemoryShell.Script

variable {σ : Type} [Host σ] {limits : Limits} {k : Nat} {r : Runner σ}

/-- Expressions and statements that are nested take a course. -/
structure Runner.Nests (r : Runner σ) (limits : Limits) (k : Nat) : Prop where
  eval (e : Expr) (env : Env) : Act.Within limits k (r.eval e env)
  exec (s : Stmt) (env : Env) : Act.Within limits k (r.exec s env)

/-- Calls take a course. -/
def Runner.Calls (r : Runner σ) (limits : Limits) (k : Nat) : Prop :=
  ∀ f this args, Act.Within limits k (r.call f this args)

namespace Act.Within

/-! ### Variables and assignment -/

theorem variableValue (name : String) (env : Env) :
    Within limits k (variableValue name env : Act σ Value) := by
  refine (lookHeap _).bind fun found => ?_
  split
  · exact .pure _
  · split
    · exact .pure _
    · exact .throwMistake _

theorem declareVariable (env : Env) (name : String) (v : Value) (isMutable : Bool) :
    Within limits k (declareVariable env name v isMutable : Act σ Unit) := by
  unfold Act.declareVariable
  split
  · exact .changeHeap fun heap => .declare heap _ name v isMutable
  · exact .pure _

theorem assignVariable (name : String) (v : Value) (env : Env) :
    Within limits k (assignVariable name v env : Act σ Unit) := by
  refine (withHeap fun heap => (Heap.Step.assign heap env name v).steps).bind fun outcome => ?_
  split
  · exact .pure _
  · exact .throwMistake _
  · exact .declareGlobal _ _

theorem evalKey (h : r.Nests limits k) (e : Expr) (env : Env) :
    Within limits k (evalKey r e env) := (h.eval _ _).bind fun _ => .display _

theorem assignTo (h : r.Nests limits k) (target : Expr) (v : Value) (env : Env) :
    Within limits k (assignTo limits r target v env) := by
  unfold Act.assignTo
  split
  · exact .assignVariable _ _ _
  · exact (h.eval _ _).bind fun _ => .setProperty _ _ _
  · exact (h.eval _ _).bind fun _ => (evalKey h _ _).bind fun _ => .setProperty _ _ _
  · exact .fail rfl

theorem assignedValue (h : r.Nests limits k) (op : Option BinaryOp) (target value : Expr)
    (env : Env) : Within limits k (assignedValue limits r op target value env) := by
  cases op with
  | none => exact h.eval _ _
  | some op =>
    exact (h.eval _ _).bind fun _ => (h.eval _ _).bind fun _ => (lookHeap _).bind fun _ =>
      .checkText _

theorem updated (h : r.Nests limits k) (increment : Bool) (target : Expr) (env : Env) :
    Within limits k (updated limits r increment target env) :=
  (h.eval _ _).bind fun _ => (number _).bind fun _ => (assignTo h _ _ _).bind fun _ => .pure _

/-! ### Calls -/

theorem calleeOf (h : r.Nests limits k) (callee : Expr) (env : Env) :
    Within limits k (calleeOf r callee env) := by
  unfold Act.calleeOf
  split
  · exact (h.eval _ _).bind fun _ => (getProperty _ _).map _
  · exact (h.eval _ _).bind fun _ => (evalKey h _ _).bind fun _ => (getProperty _ _).map _
  · exact (h.eval _ _).map _

theorem evalAll (h : r.Nests limits k) (es : List Expr) (env : Env) :
    Within limits k (evalAll r es env) := .mapM (fun _ => h.eval _ _) _

theorem evalCall (h : r.Nests limits k) (hcall : r.Calls limits k) (callee : Expr)
    (args : List Expr) (env : Env) : Within limits k (evalCall r callee args env) := by
  refine (calleeOf h _ _).bind fun callee => ?_
  obtain ⟨receiver, f⟩ := callee
  simp only
  split
  · exact (evalAll h _ _).bind fun _ => hcall _ _ _
  · exact .throwMistake _

theorem construct (hcall : r.Calls limits k) (f : Value) (args : List Value) (callee : Expr) :
    Within limits k (construct r f args callee) := by
  unfold Act.construct
  split
  · split
    · exact .throwMistake _
    · exact (newObject _).bind fun _ => (hcall _ _ _).map _
  · exact hcall _ _ _
  · exact .throwMistake _

/-! ### Expressions -/

theorem partText (h : r.Nests limits k) (env : Env) (part : TemplatePart) :
    Within limits k (partText r env part) := by
  cases part with
  | literal s => exact .pure _
  | expr e => exact evalKey h _ _

theorem evaluate (h : r.Nests limits k) (hcall : r.Calls limits k) (e : Expr) (env : Env) :
    Within limits k (evaluate limits r e env) := by
  unfold Act.evaluate
  split
  · exact .pure _
  · exact .pure _
  · exact .pure _
  · exact .pure _
  · exact .pure _
  · exact (mapM (partText h env) _).bind fun _ => .checkText _
  · exact .variableValue _ _
  · exact (evalAll h _ _).bind fun _ => .newArray _
  · exact (foldlM (fun _ _ => (h.eval _ _).map _) _ _).bind fun _ => .newObject _
  · exact .newClosure _ _
  · exact .lookHeap _
  · exact (h.eval _ _).bind fun _ => .lookHeap _
  · exact (h.eval _ _).bind fun _ => (h.eval _ _).bind fun _ => (lookHeap _).bind fun _ =>
      .checkText _
  · refine (h.eval _ _).bind fun _ => ?_
    split
    · exact .pure _
    · exact h.eval _ _
  · refine (h.eval _ _).bind fun _ => ?_
    split
    · exact h.eval _ _
    · exact h.eval _ _
  · exact (assignedValue h _ _ _ _).bind fun _ => (assignTo h _ _ _).bind fun _ => .pure _
  · exact (updated h _ _ _).bind fun _ => .pure _
  · exact (h.eval _ _).bind fun _ => .getProperty _ _
  · exact (h.eval _ _).bind fun _ => (evalKey h _ _).bind fun _ => .getProperty _ _
  · exact evalCall h hcall _ _ _
  · exact (h.eval _ _).bind fun _ => (evalAll h _ _).bind fun _ => construct hcall _ _ _

/-! ### Blocks -/

theorem hoist (body : List Stmt) (env : Env) : Within limits k (hoist body env : Act σ Unit) := by
  refine forM (fun s => ?_) _
  split
  · exact (newClosure _ _).bind fun _ => .declareVariable _ _ _ _
  · exact .pure _

theorem execAll (h : r.Nests limits k) (env : Env) (body : List Stmt) :
    Within limits k (execAll r env body) := by
  induction body with
  | nil => exact .pure _
  | cons s rest ih =>
    refine (h.exec _ _).bind fun flow => ?_
    split
    · exact ih
    · exact .pure _

theorem execBody (h : r.Nests limits k) (body : List Stmt) (env : Env) :
    Within limits k (execBody r body env) := (hoist _ _).bind fun _ => execAll h _ _

theorem execBlock (h : r.Nests limits k) (body : List Stmt) (env : Env) :
    Within limits k (execBlock r body env) := (newScope _ _).bind fun _ => execBody h _ _

theorem declareAll (h : r.Nests limits k) (kind : DeclKind) (env : Env)
    (declarations : List (String × Option Expr)) :
    Within limits k (declareAll r kind env declarations) := by
  refine forM (fun d => ?_) _
  split
  · exact (h.eval _ _).bind fun _ => .declareVariable _ _ _ _
  · exact (pure _).bind fun _ => .declareVariable _ _ _ _

end Act.Within

end MemoryShell.Script
