/-
  MemoryShell/Proofs/Syntax/Operators.lean
  ========================================
  **How a chain of operands and operators is grouped.**

  An operator holds its operands more or less tightly.  Of the two operators around an operand the
  tighter one takes it, and of two that are equally tight the first one, unless both are powers.
  This says for every chain how it is grouped: there is one tree, and no more than one, that is
  grouped so and in which the chain stands from left to right.
-/
import MemoryShell.Script.Program
import MemoryShell.Script.Token

namespace MemoryShell.Script

/-! ### Operators -/

/-- Operators between two operands. -/
inductive Operator where
  | binary (op : BinaryOp)
  | logical (op : LogicalOp)
deriving DecidableEq, Repr

namespace Operator

def symbol : Operator → Symbol
  | .binary .add => .plus
  | .binary .subtract => .minus
  | .binary .multiply => .times
  | .binary .divide => .divide
  | .binary .remainder => .remainder
  | .binary .power => .power
  | .binary .equal => .equal
  | .binary .strictEqual => .strictEqual
  | .binary .unequal => .unequal
  | .binary .strictUnequal => .strictUnequal
  | .binary .less => .less
  | .binary .greater => .greater
  | .binary .atMost => .atMost
  | .binary .atLeast => .atLeast
  | .logical .and => .and
  | .logical .or => .or
  | .logical .nullish => .nullish

/-- How an operator is written. -/
def spelling : Operator → String
  | .binary .add => "+"
  | .binary .subtract => "-"
  | .binary .multiply => "*"
  | .binary .divide => "/"
  | .binary .remainder => "%"
  | .binary .power => "**"
  | .binary .equal => "=="
  | .binary .strictEqual => "==="
  | .binary .unequal => "!="
  | .binary .strictUnequal => "!=="
  | .binary .less => "<"
  | .binary .greater => ">"
  | .binary .atMost => "<="
  | .binary .atLeast => ">="
  | .logical .and => "&&"
  | .logical .or => "||"
  | .logical .nullish => "??"

/-- How loosely an operator holds its operands. -/
def looseness : Operator → Nat
  | .binary .power => 0
  | .binary .multiply | .binary .divide | .binary .remainder => 1
  | .binary .add | .binary .subtract => 2
  | .binary .less | .binary .greater | .binary .atMost | .binary .atLeast => 3
  | .binary .equal | .binary .strictEqual | .binary .unequal | .binary .strictUnequal => 4
  | .logical .and => 5
  | .logical .or | .logical .nullish => 6

/-- Of the operators before and behind an operand, the first one takes it: it is the tighter one, or
    both are equally tight and group to the left.  Only powers group to the right. -/
def Precedes (op op' : Operator) : Prop :=
  op.looseness < op'.looseness ∨ op.looseness = op'.looseness ∧ op ≠ .binary .power

instance (op op' : Operator) : Decidable (op.Precedes op') :=
  inferInstanceAs (Decidable (_ ∨ _))

def apply : Operator → Expr → Expr → Expr
  | .binary op => .binary op
  | .logical op => .logical op

theorem eq_power_of_looseness {op : Operator} (h : op.looseness = 0) : op = .binary .power := by
  rcases op with op | op <;> cases op <;> first | rfl | cases h

theorem looseness_le_of_precedes {op op' : Operator} (h : op.Precedes op') :
    op.looseness ≤ op'.looseness := by
  rcases h with hlt | ⟨heq, -⟩
  · exact Nat.le_of_lt hlt
  · exact Nat.le_of_eq heq

/-- An operator behind an operand takes it if it is tighter than the one before, or if both are
    powers. -/
theorem not_precedes_iff {op op' : Operator} :
    ¬ op.Precedes op' ↔ op'.looseness < op.looseness ∨
      op'.looseness = op.looseness ∧ op = .binary .power := by
  unfold Precedes
  rw [not_or, ne_eq, Decidable.not_and_not_right, Nat.not_lt, Nat.le_iff_lt_or_eq]
  constructor
  · rintro ⟨hlt | heq, hpower⟩
    · exact .inl hlt
    · exact .inr ⟨heq, hpower heq.symm⟩
  · rintro (hlt | ⟨heq, hpower⟩)
    · exact ⟨.inl hlt, fun heq => absurd heq.symm (Nat.ne_of_lt hlt)⟩
    · exact ⟨.inr heq, fun _ => hpower⟩

/-- What takes an operand from an operator also takes it from a looser one. -/
theorem not_precedes_of_le {op op' op'' : Operator} (h : ¬ op.Precedes op')
    (hle : op''.looseness ≤ op'.looseness) : ¬ op.Precedes op'' := by
  rw [not_precedes_iff] at h ⊢
  rcases h with hlt | ⟨heq, hpower⟩
  · exact .inl (Nat.lt_of_le_of_lt hle hlt)
  · rw [← heq]
    exact (Nat.lt_or_eq_of_le hle).imp_right fun heq' => ⟨heq', hpower⟩

end Operator

/-! ### Chains and trees -/

variable {α : Type}

/-- Operands with operators between them. -/
structure Chain (α : Type) where
  first : α
  rest : List (Operator × α)

/-- A chain behind another one, with an operator between them. -/
def Chain.append (c : Chain α) (op : Operator) (c' : Chain α) : Chain α :=
  ⟨c.first, c.rest ++ (op, c'.first) :: c'.rest⟩

/-- A chain that is grouped. -/
inductive OperatorTree (α : Type) where
  | operand (x : α)
  | node (op : Operator) (left right : OperatorTree α)

namespace OperatorTree

/-- The chain in a tree, from left to right. -/
def chain : OperatorTree α → Chain α
  | operand x => ⟨x, []⟩
  | node op left right => left.chain.append op right.chain

/-- The operator that is applied last. -/
def root? : OperatorTree α → Option Operator
  | operand _ => none
  | node op _ _ => some op

/-- A tree in which every operand is taken by the operator that should take it. -/
inductive Grouped : OperatorTree α → Prop where
  | operand (x : α) : Grouped (operand x)
  | node {op : Operator} {left right : OperatorTree α} :
      (∀ op' ∈ left.root?, op'.Precedes op) → (∀ op' ∈ right.root?, ¬ op.Precedes op') →
      Grouped left → Grouped right → Grouped (node op left right)

/-- What a tree says, given what its operands say. -/
def expr (denote : α → Expr) : OperatorTree α → Expr
  | operand x => denote x
  | node op left right => op.apply (left.expr denote) (right.expr denote)

/-- How loose a tree is: as loose as its root. -/
def looseness (t : OperatorTree α) : Nat := (t.root?.map Operator.looseness).getD 0

/-! ### One tree for each chain -/

variable {op : Operator} {t left right : OperatorTree α} {x : α}

/-- Put an operator and an operand behind the chain in a tree. -/
def attach : OperatorTree α → Operator → α → OperatorTree α
  | operand x, op, y => node op (operand x) (operand y)
  | node op' left right, op, y =>
    if op'.Precedes op then node op (node op' left right) (operand y)
    else node op' left (right.attach op y)

theorem chain_attach (t : OperatorTree α) (op : Operator) (y : α) :
    (t.attach op y).chain = t.chain.append op ⟨y, []⟩ := by
  induction t with
  | operand x => rfl
  | node op' left right _ ih =>
    unfold attach
    split
    · rfl
    · rw [chain, ih, chain, Chain.append, Chain.append, Chain.append, Chain.append,
        List.append_assoc]
      rfl

/-- What is put behind a tree becomes its root, or its root stays. -/
theorem root?_attach (t : OperatorTree α) (op : Operator) (y : α) :
    (t.attach op y).root? = some op ∨ (t.attach op y).root? = t.root? := by
  cases t with
  | operand x => exact .inl rfl
  | node op' left right =>
    unfold attach
    split
    · exact .inl rfl
    · exact .inr rfl

theorem Grouped.attach (h : t.Grouped) (op : Operator) (y : α) : (t.attach op y).Grouped := by
  induction h with
  | operand x => exact .node nofun nofun (.operand x) (.operand y)
  | @node op' left right hleft hright hgroupedLeft hgroupedRight _ ih =>
    unfold OperatorTree.attach
    split
    · rename_i hprecedes
      refine .node ?_ nofun (.node hleft hright hgroupedLeft hgroupedRight) (.operand y)
      rintro _ ⟨⟩
      exact hprecedes
    · rename_i hprecedes
      refine .node hleft (fun op'' hop'' => ?_) hgroupedLeft ih
      rcases root?_attach right op y with hroot | hroot
      · rw [hroot] at hop''
        cases hop''
        exact hprecedes
      · rw [hroot] at hop''
        exact hright op'' hop''

/-- The tree of a chain: its operators and operands are put behind its first operand in turn. -/
def ofChain (c : Chain α) : OperatorTree α :=
  c.rest.foldl (fun t next => t.attach next.1 next.2) (operand c.first)

theorem grouped_foldl (h : t.Grouped) (rest : List (Operator × α)) :
    (rest.foldl (fun t next => t.attach next.1 next.2) t).Grouped := by
  induction rest generalizing t with
  | nil => exact h
  | cons next rest ih => exact ih (h.attach next.1 next.2)

theorem chain_foldl (t : OperatorTree α) (rest : List (Operator × α)) :
    (rest.foldl (fun t next => t.attach next.1 next.2) t).chain =
      ⟨t.chain.first, t.chain.rest ++ rest⟩ := by
  induction rest generalizing t with
  | nil => rw [List.foldl_nil, List.append_nil]
  | cons next rest ih =>
    rw [List.foldl_cons, ih, chain_attach, Chain.append, List.append_assoc]
    rfl

theorem grouped_ofChain (c : Chain α) : (ofChain c).Grouped := grouped_foldl (.operand c.first) _

theorem chain_ofChain (c : Chain α) : (ofChain c).chain = c := chain_foldl _ _

/-- No operator in a grouped tree is looser than its root. -/
theorem Grouped.looseness_le (h : t.Grouped) {op : Operator} (hop : op ∈ t.root?) :
    ∀ next ∈ t.chain.rest, next.1.looseness ≤ op.looseness := by
  induction h generalizing op with
  | operand x => cases hop
  | @node op' left right hleft hright _ _ ihLeft ihRight =>
    cases hop
    intro next hnext
    rcases List.mem_append.mp hnext with hnext | hnext
    · cases hroot : left.root? with
      | none =>
        cases left with
        | operand x => cases hnext
        | node => cases hroot
      | some op'' =>
        exact Nat.le_trans (ihLeft hroot next hnext) (Operator.looseness_le_of_precedes
          (hleft op'' hroot))
    obtain rfl | hnext := List.mem_cons.mp hnext
    · exact Nat.le_refl _
    · cases hroot : right.root? with
      | none =>
        cases right with
        | operand x => cases hnext
        | node => cases hroot
      | some op'' =>
        have hle := ihRight hroot next hnext
        rcases Operator.not_precedes_iff.mp (hright op'' hroot) with hlt | ⟨heq, -⟩
        · exact Nat.le_trans hle (Nat.le_of_lt hlt)
        · exact heq ▸ hle

/-- What an operator leaves to the right is put behind its right operand. -/
theorem foldl_attach_node {rest : List (Operator × α)}
    (h : ∀ next ∈ rest, ¬ op.Precedes next.1) (left t : OperatorTree α) :
    rest.foldl (fun t next => t.attach next.1 next.2) (node op left t) =
      node op left (rest.foldl (fun t next => t.attach next.1 next.2) t) := by
  induction rest generalizing t with
  | nil => rfl
  | cons next rest ih =>
    obtain ⟨hnext, hrest⟩ := List.forall_mem_cons.mp h
    rw [List.foldl_cons, List.foldl_cons, ← ih hrest, attach, if_neg hnext]

/-- A tree is the only grouped one of its chain. -/
theorem Grouped.ofChain_chain (h : t.Grouped) : ofChain t.chain = t := by
  induction h with
  | operand x => rfl
  | @node op left right hleft hright hgroupedLeft hgroupedRight ihLeft ihRight =>
    have hoperand : left.attach op right.chain.first =
        .node op left (.operand right.chain.first) := by
      cases left with
      | operand x => rfl
      | node op' _ _ => rw [OperatorTree.attach, if_pos (hleft op' rfl)]
    have hrest : ∀ next ∈ right.chain.rest, ¬ op.Precedes next.1 := by
      intro next hnext
      cases hroot : right.root? with
      | none =>
        cases right with
        | operand x => cases hnext
        | node => cases hroot
      | some op' =>
        exact Operator.not_precedes_of_le (hright op' hroot)
          (hgroupedRight.looseness_le hroot next hnext)
    unfold ofChain at ihLeft ihRight ⊢
    rw [chain, Chain.append, List.foldl_append, ihLeft, List.foldl_cons, hoperand,
      foldl_attach_node hrest, ihRight]

end OperatorTree

end MemoryShell.Script
