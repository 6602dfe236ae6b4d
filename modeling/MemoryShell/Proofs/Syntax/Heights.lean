/-
  MemoryShell/Proofs/Syntax/Heights.lean
  ======================================
  **Paths down a program, and how long they are.**

  A path goes from a statement or an expression to one that stands directly in it, and so on down.
  What stands in an expression either nests in it or leads it: it is read before one knows what it
  is part of, at the same depth.  A left operand leads, and so does a callee.

  What is read with some levels of nesting left is bounded in two ways.  Along a path, no more nodes
  nest than there are levels.  The nodes on it are no more than a number that grows with the square
  of the levels, for every loop of the grammar may put as many nodes on top of what it has read as
  there are levels left, and gives these levels back at its end.  The source of a substitution
  begins again with all levels, so each template on the path adds both bounds once more.
-/
import MemoryShell.Script.Cursor
import Mathlib.Tactic.Ring

namespace MemoryShell.Script

/-! ### Nodes -/

/-- The nodes of a program: statements and expressions. -/
inductive Node where
  | expr (e : Expr)
  | stmt (s : Stmt)

/-- Whether a member of an object may be written without a colon: as a method, or as a name. -/
def Expr.isBrief : Expr → Bool
  | .function _ | .ident _ => true
  | _ => false

/-- What leads an expression: its first part, if one knows what it begins only behind that part, and
    the methods and bare names in an object. -/
def Expr.leading : Expr → List Expr
  | .binary _ e _ | .logical _ e _ | .conditional e _ _ | .assign _ e _ | .update _ _ e
  | .member e _ | .index e _ | .call e _ | .construct e _ => [e]
  | .object members => (members.map Prod.snd).filter Expr.isBrief
  | _ => []

def TemplatePart.expr? : TemplatePart → Option Expr
  | .literal _ => none
  | .expr e => some e

/-- What stands in a function. -/
def FunctionDef.nodes : FunctionDef → List Node
  | .mk _ _ (.block body) _ => body.map .stmt
  | .mk _ _ (.expr e) _ => [.expr e]

/-- What nests in an expression. -/
def Expr.nested : Expr → List Node
  | .template parts => (parts.filterMap TemplatePart.expr?).map .expr
  | .array items => items.map .expr
  | .object members => ((members.map Prod.snd).filter (!·.isBrief)).map .expr
  | .function definition => definition.nodes
  | .unary _ e | .binary _ _ e | .logical _ _ e | .assign _ _ e | .index _ e => [.expr e]
  | .conditional _ consequent alternate => [.expr consequent, .expr alternate]
  | .call _ args | .construct _ args => args.map .expr
  | _ => []

/-- The start of a loop leads the loop. -/
def Stmt.leading : Stmt → List Stmt
  | .forLoop start _ _ _ => start.toList
  | _ => []

/-- What nests in a statement. -/
def Stmt.nested : Stmt → List Node
  | .expr e | .throwValue e => [.expr e]
  | .varDecl _ declarations => (declarations.filterMap Prod.snd).map .expr
  | .functionDecl definition => definition.nodes
  | .ifElse test consequent alternate =>
    .expr test :: .stmt consequent :: alternate.toList.map .stmt
  | .whileLoop e body | .doWhile body e | .forOf _ _ e body | .forIn _ _ e body =>
    [.expr e, .stmt body]
  | .forLoop _ test update body => .stmt body :: (test.toList ++ update.toList).map .expr
  | .block body => body.map .stmt
  | .returnWith value => value.toList.map .expr
  | .tryCatch guarded _ handler finalizer =>
    (guarded ++ handler.getD [] ++ finalizer.getD []).map .stmt
  | .breakLoop | .continueLoop | .empty => []

namespace Node

def leading : Node → List Node
  | expr e => e.leading.map expr
  | stmt s => s.leading.map stmt

def nested : Node → List Node
  | expr e => e.nested
  | stmt s => s.nested

/-- Whether a node is a template, whose substitutions are sources of their own. -/
def isTemplate : Node → Bool
  | expr (.template _) => true
  | _ => false

/-- The paths down from a node, both ends included, and how many nodes on them do not lead the one
    before. -/
inductive IsPath : Node → List Node → Nat → Prop where
  | last (n : Node) : IsPath n [n] 1
  | leading {n m : Node} {path : List Node} {nestings : Nat} :
    m ∈ n.leading → IsPath m path nestings → IsPath n (n :: path) nestings
  | nested {n m : Node} {path : List Node} {nestings : Nat} :
    m ∈ n.nested → IsPath m path nestings → IsPath n (n :: path) (nestings + 1)

end Node

/-! ### Bounds -/

/-- As many nodes stand on top of one another in a statement or an expression that is read with a
    number of levels left. -/
def reach (levels : Nat) : Nat := 2 * levels * levels + 3 * levels

/-- The same for what stands between operators. -/
def innerReach (levels : Nat) : Nat := 2 * levels * levels + levels + 1

theorem reach_mono {m n : Nat} (h : m ≤ n) : reach m ≤ reach n := by
  have hsquare : 2 * m * m ≤ 2 * n * n := Nat.mul_le_mul (Nat.mul_le_mul_left 2 h) h
  unfold reach
  omega

theorem innerReach_mono {m n : Nat} (h : m ≤ n) : innerReach m ≤ innerReach n := by
  have hsquare : 2 * m * m ≤ 2 * n * n := Nat.mul_le_mul (Nat.mul_le_mul_left 2 h) h
  unfold innerReach
  omega

/-- What is put on top of an operand by members and calls, and by those of a construction in it. -/
theorem innerReach_succ (n : Nat) : innerReach (n + 1) = reach n + 2 * n + 4 := by
  unfold innerReach reach
  ring

theorem innerReach_lt (n : Nat) : innerReach n < innerReach (n + 1) := by
  rw [innerReach_succ]
  unfold innerReach reach
  omega

/-- What is put on top of an operand by the six levels of operators, a condition and an
    assignment. -/
theorem reach_succ (n : Nat) : reach (n + 1) = innerReach n + 6 * n + 4 := by
  unfold innerReach reach
  ring

theorem reach_add_two_le (n : Nat) : reach n + 2 ≤ reach (n + 1) := by
  rw [reach_succ]
  unfold reach innerReach
  omega

namespace Node

variable {h k levels : Nat} {n : Node}

/-- A node below which paths are not longer than a bound, and on which no more nodes nest than there
    are levels, but for as much again for each template on them. -/
def Low (bound levels : Nat) (n : Node) : Prop :=
  ∀ path nestings, IsPath n path nestings →
    path.length ≤ bound + reach Parse.maxDepth * path.countP isTemplate ∧
      nestings ≤ levels + Parse.maxDepth * path.countP isTemplate

theorem Low.mono {levels' : Nat} (hlow : Low h levels n) (hbound : h ≤ k)
    (hlevels : levels ≤ levels') : Low k levels' n := by
  intro path nestings hpath
  obtain ⟨hlength, hnestings⟩ := hlow path nestings hpath
  exact ⟨Nat.le_trans hlength (Nat.add_le_add_right hbound _),
    Nat.le_trans hnestings (Nat.add_le_add_right hlevels _)⟩

/-- A node is one higher than what stands in it, and needs one level more than what nests in it. -/
theorem low_succ (hleading : ∀ m ∈ n.leading, Low h (levels + 1) m)
    (hnested : ∀ m ∈ n.nested, Low h levels m) : Low (h + 1) (levels + 1) n := by
  have hmore (path : List Node) :
      reach Parse.maxDepth * path.countP isTemplate ≤
          reach Parse.maxDepth * (n :: path).countP isTemplate ∧
        Parse.maxDepth * path.countP isTemplate ≤
          Parse.maxDepth * (n :: path).countP isTemplate := by
    have hcount := (List.sublist_cons_self n path).countP_le (p := isTemplate)
    exact ⟨Nat.mul_le_mul_left _ hcount, Nat.mul_le_mul_left _ hcount⟩
  intro path nestings hpath
  cases hpath with
  | last =>
    rw [List.length_singleton]
    omega
  | @leading _ m path _ hm hpath =>
    obtain ⟨hlength, hnestings⟩ := hleading m hm path _ hpath
    obtain ⟨hlengths, hlevels⟩ := hmore path
    rw [List.length_cons]
    omega
  | @nested _ m path _ hm hpath =>
    obtain ⟨hlength, hnestings⟩ := hnested m hm path _ hpath
    obtain ⟨hlengths, hlevels⟩ := hmore path
    rw [List.length_cons]
    omega

/-- What is read from the sources in a template counts for the template. -/
theorem low_template {parts : List TemplatePart}
    (hnested : ∀ m ∈ (Expr.template parts).nested, Low (reach Parse.maxDepth) Parse.maxDepth m) :
    Low 1 1 (.expr (.template parts)) := by
  intro path nestings hpath
  cases hpath with
  | last =>
    rw [List.length_singleton]
    omega
  | leading hm => cases hm
  | @nested _ m path _ hm hpath =>
    obtain ⟨hlength, hnestings⟩ := hnested m hm path _ hpath
    have hcount : (expr (.template parts) :: path).countP isTemplate =
        path.countP isTemplate + 1 := List.countP_cons_of_pos rfl
    rw [hcount, List.length_cons, Nat.mul_add_one, Nat.mul_add_one]
    omega

end Node

/-! ### Expressions and statements -/

def Expr.Low (bound levels : Nat) (e : Expr) : Prop := Node.Low bound levels (.expr e)

def Stmt.Low (bound levels : Nat) (s : Stmt) : Prop := Node.Low bound levels (.stmt s)

section Lists

variable {h levels : Nat}

theorem Node.low_exprs {es : List Expr} (hes : ∀ e ∈ es, e.Low h levels) :
    ∀ n ∈ es.map Node.expr, n.Low h levels := List.forall_mem_map.mpr hes

theorem Node.low_stmts {body : List Stmt} (hbody : ∀ s ∈ body, s.Low h levels) :
    ∀ n ∈ body.map Node.stmt, n.Low h levels := List.forall_mem_map.mpr hbody

theorem Node.low_expr {e : Expr} (he : e.Low h levels) : ∀ n ∈ [Node.expr e], n.Low h levels :=
  List.forall_mem_singleton.mpr he

end Lists

namespace Expr.Low

variable {h k levels levels' : Nat} {e : Expr}

theorem mono (hlow : e.Low h levels) (hbound : h ≤ k) (hlevels : levels ≤ levels') :
    e.Low k levels' := Node.Low.mono hlow hbound hlevels

theorem raise (hlow : e.Low h levels) (hbound : h ≤ k) : e.Low k levels :=
  hlow.mono hbound (Nat.le_refl _)

theorem succ (hleading : ∀ e' ∈ e.leading, e'.Low h (levels + 1))
    (hnested : ∀ n ∈ e.nested, Node.Low h levels n) : e.Low (h + 1) (levels + 1) :=
  Node.low_succ (List.forall_mem_map.mpr hleading) hnested

/-- An expression in which nothing stands. -/
theorem leaf (hleading : e.leading = []) (hnested : e.nested = []) : e.Low 1 1 :=
  succ (h := 0) (by rw [hleading]; nofun) (by rw [hnested]; nofun)

end Expr.Low

namespace Stmt.Low

variable {h k levels levels' : Nat} {s : Stmt}

theorem mono (hlow : s.Low h levels) (hbound : h ≤ k) (hlevels : levels ≤ levels') :
    s.Low k levels' := Node.Low.mono hlow hbound hlevels

theorem raise (hlow : s.Low h levels) (hbound : h ≤ k) : s.Low k levels :=
  hlow.mono hbound (Nat.le_refl _)

theorem succ (hleading : ∀ s' ∈ s.leading, s'.Low h (levels + 1))
    (hnested : ∀ n ∈ s.nested, Node.Low h levels n) : s.Low (h + 1) (levels + 1) :=
  Node.low_succ (List.forall_mem_map.mpr hleading) hnested

/-- A statement that nothing leads. -/
theorem plain (hleading : s.leading = []) (hnested : ∀ n ∈ s.nested, Node.Low h levels n) :
    s.Low (h + 1) (levels + 1) := succ (by rw [hleading]; nofun) hnested

end Stmt.Low

end MemoryShell.Script
