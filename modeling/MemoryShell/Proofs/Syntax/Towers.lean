/-
  MemoryShell/Proofs/Syntax/Towers.lean
  =====================================
  **How high the programs are that are read.**

  The levels of nesting bound the height of a program, but it is not bounded by their number.  A
  loop of the grammar takes a level for each turn and gives them all back when it ends, while what
  it has read becomes the first operand of a looser loop, which has all these levels again.  So the
  loops put their operators on top of one another, in towers as high as all the loops together.
-/
import MemoryShell.Proofs.Syntax.Contracts
import MemoryShell.Proofs.Syntax.Nesting

namespace MemoryShell.Script

open Parse

/-! ### Towers of operators -/

namespace OperatorTree

variable {α : Type} {op op' : Operator} {ops : List Operator} {t : OperatorTree α} {x : α}
  {k n : Nat}

/-- One operator put on top of a tree a number of times, with the same operand on its right. -/
def pile (op : Operator) (x : α) : Nat → OperatorTree α → OperatorTree α
  | 0, t => t
  | n + 1, t => node op (pile op x n t) (operand x)

/-- Operators, the first of them on top, each piled up the same number of times. -/
def tower (x : α) (n : Nat) : List Operator → OperatorTree α
  | [] => operand x
  | op :: ops => pile op x n (tower x n ops)

theorem chain_pile : (pile op x n t).chain =
    ⟨t.chain.first, t.chain.rest ++ List.replicate n (op, x)⟩ := by
  induction n with
  | zero => rw [List.replicate_zero, List.append_nil, pile]
  | succ n ih =>
    rw [pile, chain, ih, chain, Chain.append, List.append_assoc, List.replicate_succ']

theorem root?_pile (h : op' ∈ (pile op x n t).root?) : op' = op ∨ op' ∈ t.root? := by
  cases n with
  | zero => exact .inr h
  | succ n => exact .inl (Option.some.inj h).symm

theorem root?_tower (h : op ∈ (tower x n ops).root?) : op ∈ ops := by
  induction ops with
  | nil => cases h
  | cons op' ops ih =>
    rcases root?_pile h with rfl | h
    · exact List.mem_cons_self
    · exact List.mem_cons_of_mem _ (ih h)

theorem spine_pile (hop : op.looseness = k) (ht : t.spine k = 0) : (pile op x n t).spine k = n := by
  induction n with
  | zero => exact ht
  | succ n ih => rw [pile, spine, if_pos hop, ih]

theorem need_pile (hop : op.looseness = k + 1) (ht : t.spine (k + 1) = 0) :
    (pile op x n t).need ≤ max t.need (n + 1) := by
  induction n with
  | zero => exact Nat.le_max_left _ _
  | succ n ih =>
    rw [pile, need_node op hop, spine_pile hop ht, need]
    omega

theorem Grouped.pile (h : t.Grouped) (hroot : ∀ op' ∈ t.root?, op'.Precedes op)
    (hop : op.Precedes op) : (pile op x n t).Grouped := by
  induction n with
  | zero => exact h
  | succ n ih =>
    refine .node (fun op' hop' => ?_) nofun ih (.operand x)
    rcases root?_pile hop' with rfl | hop'
    · exact hop
    · exact hroot op' hop'

/-- Operators that are each tighter than those before, with no powers among them. -/
def Falling (ops : List Operator) : Prop :=
  ops.Pairwise (fun op op' => op'.looseness < op.looseness) ∧ ∀ op ∈ ops, 0 < op.looseness

instance (ops : List Operator) : Decidable (Falling ops) := inferInstanceAs (Decidable (_ ∧ _))

theorem spine_tower (h : ∀ op ∈ ops, op.looseness ≠ k) : (tower x n ops).spine k = 0 := by
  cases hroot : (tower x n ops).root? with
  | none =>
    generalize tower x n ops = t at hroot
    cases t with
    | operand => rfl
    | node => cases hroot
  | some op =>
    have hne := h op (root?_tower hroot)
    generalize tower x n ops = t at hroot
    cases t with
    | operand => rfl
    | node =>
      cases hroot
      exact if_neg hne

theorem grouped_tower (h : Falling ops) : (tower x n ops).Grouped := by
  induction ops with
  | nil => exact .operand x
  | cons op ops ih =>
    obtain ⟨hpairs, hpositive⟩ := h
    obtain ⟨hop, hops⟩ := List.pairwise_cons.mp hpairs
    obtain ⟨hpos, hrest⟩ := List.forall_mem_cons.mp hpositive
    refine (ih ⟨hops, hrest⟩).pile (fun op' hop' => .inl (hop op' (root?_tower hop'))) ?_
    refine .inr ⟨rfl, ?_⟩
    rintro rfl
    exact absurd hpos (by decide)

/-- A tower needs no more levels than one of its piles. -/
theorem need_tower (h : Falling ops) : (tower x n ops).need ≤ n + 1 := by
  induction ops with
  | nil => exact Nat.succ_le_succ (Nat.zero_le n)
  | cons op ops ih =>
    obtain ⟨hpairs, hpositive⟩ := h
    obtain ⟨hop, hops⟩ := List.pairwise_cons.mp hpairs
    obtain ⟨hpos, hrest⟩ := List.forall_mem_cons.mp hpositive
    obtain ⟨k, hk⟩ := Nat.exists_eq_add_one.mpr hpos
    have hspine : (tower x n ops).spine (k + 1) = 0 :=
      spine_tower fun op' hop' => Nat.ne_of_lt (hk ▸ hop op' hop')
    have hpile := need_pile (x := x) (n := n) hk hspine
    have hbelow := ih ⟨hops, hrest⟩
    rw [tower]
    omega

/-! ### The height of towers -/

variable {denote : α → Expr} {path : List Node}

/-- The path down the left of a pile goes over all its operators. -/
theorem isPath_pile (op : Operator) (x : α) (n : Nat) {nestings : Nat}
    (h : Node.IsPath (.expr (t.expr denote)) path nestings) :
    ∃ top : List Node, top.length = n ∧ top.countP Node.isTemplate = 0 ∧
      Node.IsPath (.expr ((pile op x n t).expr denote)) (top ++ path) nestings := by
  induction n with
  | zero => exact ⟨[], rfl, rfl, h⟩
  | succ n ih =>
    obtain ⟨top, hlength, hcount, hpath⟩ := ih
    have hleading : Node.expr ((pile op x n t).expr denote) ∈
        (Node.expr ((pile op x (n + 1) t).expr denote)).leading := by
      cases op <;> exact List.mem_singleton_self _
    have htemplate : (Node.expr ((pile op x (n + 1) t).expr denote)).isTemplate = false := by
      cases op <;> rfl
    refine ⟨_ :: top, congrArg Nat.succ hlength, ?_, .leading hleading hpath⟩
    rw [List.countP_cons_of_neg (by rw [htemplate]; nofun), hcount]

theorem isPath_tower (n : Nat) (ops : List Operator)
    (hx : (Node.expr (denote x)).isTemplate = false) :
    ∃ path, Node.IsPath (.expr ((tower x n ops).expr denote)) path 1 ∧
      path.countP Node.isTemplate = 0 ∧ path.length = ops.length * n + 1 := by
  induction ops with
  | nil =>
    refine ⟨_, .last _, ?_, ?_⟩
    · exact List.countP_cons_of_neg (by rw [tower, expr, hx]; nofun)
    · rw [List.length_nil, Nat.zero_mul]
      rfl
  | cons op ops ih =>
    obtain ⟨path, hpath, hcount, hlength⟩ := ih
    obtain ⟨top, htop, hnone, htower⟩ := isPath_pile op x n hpath
    refine ⟨top ++ path, htower, ?_, ?_⟩
    · rw [List.countP_append, hnone, hcount]
    · rw [List.length_append, htop, hlength, List.length_cons, Nat.succ_mul]
      omega

end OperatorTree

theorem Operand.isTemplate_expr (x : Operand) : (Node.expr x.expr).isTemplate = false := by
  unfold Operand.expr
  split
  · rfl
  · split <;> rfl

open OperatorTree in
/-- Towers are read whose piles are no higher than the levels below a statement and an expression,
    and a path down such a program goes over all piles. -/
theorem parse_tower (x : Operand) {n : Nat} {ops : List Operator} (hops : Falling ops)
    (hn : n + 3 ≤ maxDepth) :
    parse (tower x n ops).chain.source = .ok ⟨[.expr ((tower x n ops).expr Operand.expr)]⟩ ∧
      ∃ path, Node.IsPath (.stmt (.expr ((tower x n ops).expr Operand.expr))) path 2 ∧
        path.countP Node.isTemplate = 0 ∧ path.length = ops.length * n + 2 := by
  have hneed : (tower x n ops).need ≤ n + 1 := need_tower hops
  obtain ⟨path, hpath, hcount, hlength⟩ :=
    isPath_tower n ops x.isTemplate_expr
  refine ⟨parse_tree (grouped_tower hops) (by omega), _, .nested List.mem_cons_self hpath, ?_, ?_⟩
  · exact (List.countP_cons_of_neg Bool.false_ne_true).trans hcount
  · rw [List.length_cons, hlength]

/-! ### The height of programs -/

/-- **Programs that are read are bounded in height, though not by the levels of nesting.**  On a
    path down from a statement of a program, no more nodes nest in the one before than there are
    levels of nesting; those that lead the one before come on top of these.  All in all the path is
    not longer than what that number of levels lets a reader put on top of one another.  Each
    template on the path allows as much again. -/
theorem parse_height {source : String} {program : Program} (h : parse source = .ok program)
    {s : Stmt} (hs : s ∈ program.body) {path : List Node} {nestings : Nat}
    (hpath : Node.IsPath (.stmt s) path nestings) :
    nestings ≤ maxDepth * (path.countP Node.isTemplate + 1) ∧
      path.length ≤ reach maxDepth * (path.countP Node.isTemplate + 1) := by
  obtain ⟨hlength, hnestings⟩ := low_parse h s hs path nestings hpath
  rw [Nat.mul_add_one, Nat.mul_add_one]
  exact ⟨Nat.le_trans hnestings (Nat.le_of_eq (Nat.add_comm _ _)),
    Nat.le_trans hlength (Nat.le_of_eq (Nat.add_comm _ _))⟩

example : reach maxDepth = 501500 := rfl

/-- The word for truth in a template in a template: four nodes on top of one another. -/
theorem parse_height_templates :
    parse "\x60$\x7b\x60$\x7btrue\x7d\x60\x7d\x60" = .ok ⟨[.expr (templatesOf (.bool true) 2)]⟩ ∧
      ∃ path, Node.IsPath (.stmt (.expr (templatesOf (.bool true) 2))) path 4 ∧
        path.countP Node.isTemplate = 2 ∧ 4 ≤ maxDepth * (2 + 1) ∧
        path.length ≤ reach maxDepth * (2 + 1) := by
  have htokens : tokenize "true" =
      .ok ⟨[⟨.keyword .trueWord, "true", ⟨1, 1⟩, false⟩], ⟨.stop, "", ⟨1, 5⟩, false⟩⟩ :=
    tokenize_of_toOption (by decide +kernel)
  have hE : fragmentOf ("true".length + 1) "true".toList = .ok (.bool true) :=
    fragmentOf_eq_ok.mpr ⟨_, _, htokens, rfl, rfl⟩
  have hsource : templatesAround "true" 2 = "\x60$\x7b\x60$\x7btrue\x7d\x60\x7d\x60" := by decide
  have hparse := parse_templatesAround ⟨by decide, by decide⟩ hE 1
  rw [hsource] at hparse
  have hpath : Node.IsPath (.stmt (.expr (templatesOf (.bool true) 2))) _ 4 :=
    .nested List.mem_cons_self <| .nested List.mem_cons_self <|
      .nested List.mem_cons_self <| .last _
  exact ⟨hparse, _, hpath, rfl, parse_height hparse List.mem_cons_self hpath⟩

/-- A sum of 251 numbers, the first of them a product of 251 factors. -/
def doubleTower : OperatorTree Operand :=
  .tower .letterX 250 [.binary .add, .binary .multiply]

/-- What holds of nestings does not hold of the nodes: on a path down this program are more than
    there are levels of nesting, without a template on it. -/
theorem parse_doubleTower :
    parse ("x" ++ String.join (List.replicate 250 " * x" ++ List.replicate 250 " + x")) =
        .ok ⟨[.expr (doubleTower.expr Operand.expr)]⟩ ∧
      ∃ path, Node.IsPath (.stmt (.expr (doubleTower.expr Operand.expr))) path 2 ∧
        path.countP Node.isTemplate = 0 ∧ maxDepth < path.length := by
  have hops : OperatorTree.Falling [.binary .add, .binary .multiply] := by decide
  obtain ⟨hparse, path, hpath, hcount, hlength⟩ :=
    parse_tower .letterX hops (by decide : 250 + 3 ≤ maxDepth)
  have hsource : doubleTower.chain.source =
      "x" ++ String.join (List.replicate 250 " * x" ++ List.replicate 250 " + x") := by
    have hchain : doubleTower.chain = ⟨.letterX, List.replicate 250 (.binary .multiply, .letterX) ++
        List.replicate 250 (.binary .add, .letterX)⟩ := by
      rw [doubleTower, OperatorTree.tower, OperatorTree.tower, OperatorTree.chain_pile,
        OperatorTree.chain_pile]
      rfl
    rw [Chain.source_eq, hchain, List.map_append, List.map_replicate, List.map_replicate]
    rfl
  rw [← hsource]
  refine ⟨hparse, path, hpath, hcount, ?_⟩
  rw [hlength]
  decide

end MemoryShell.Script
