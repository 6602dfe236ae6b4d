/-
  MemoryShell/Proofs/Syntax/Chains.lean
  =====================================
  **A chain of operands and operators is read as its tree.**

  Every level of operators is a reader of its own, and calls the reader of the next tighter level
  for its operands.  Those that group to the left turn in a loop, and each turn puts what has been
  read under a further operator; a power calls itself for what stands on its right.  What is read
  in this way is the grouped tree of the chain, as long as the levels of nesting suffice: one for
  each operator in a loop, one for each power to the right of another, and one for an operand.
-/
import MemoryShell.Proofs.Syntax.Literals
import MemoryShell.Proofs.Syntax.Operands

namespace MemoryShell.Script

open Parse

/-! ### What stands behind a chain -/

/-- What ends a chain of operators that are no looser than `n`: the end, or a looser operator. -/
inductive TokenKind.Beyond (n : Nat) : TokenKind → Prop where
  | stop : Beyond n .stop
  | operator {op : Operator} : n < op.looseness → Beyond n (.symbol op.symbol)

/-- What may stand behind an operand of a chain. -/
inductive TokenKind.Behind : TokenKind → Prop where
  | stop : Behind .stop
  | operator (op : Operator) : Behind (.symbol op.symbol)

theorem TokenKind.Beyond.behind {n : Nat} {k : TokenKind} (h : k.Beyond n) : k.Behind := by
  cases h with
  | stop => exact .stop
  | @operator op _ => exact .operator op

theorem TokenKind.Beyond.mono {m n : Nat} {k : TokenKind} (h : k.Beyond n) (hle : m ≤ n) :
    k.Beyond m := by
  cases h with
  | stop => exact .stop
  | operator hlt => exact .operator (Nat.lt_of_le_of_lt hle hlt)

theorem Operator.looseness_of_power {op : Operator} (h : op.symbol = .power) :
    op.looseness = 0 := by
  rcases op with op | op <;> cases op <;> first | rfl | cases h

theorem Operator.looseness_le (op : Operator) : op.looseness ≤ 6 := by
  rcases op with op | op <;> cases op <;> decide

namespace Grammar

variable {r : Readers} {c d : Cursor} {e : Expr} {n : Nat} {k : TokenKind}

/-! ### Operands -/

/-- Neither a suffix nor an update goes on behind an operand. -/
theorem suffix_of_behind (allowCall : Bool) (e : Expr) (h : c.current.kind.Behind) :
    suffix r allowCall e c = .ok (none, c) := by
  unfold suffix
  rw [bind_of_ok (current_eq c)]
  generalize c.current.kind = k at h ⊢
  rcases h with _ | ⟨op | op⟩
  · rfl
  all_goals cases op <;> rfl

theorem updateOf?_of_behind {t : Token} (h : t.kind.Behind) : updateOf? t = none := by
  unfold updateOf?
  generalize t.kind = k at h ⊢
  rcases h with _ | ⟨op | op⟩
  · rfl
  all_goals cases op <;> rfl

variable {t : Token} {ts us : List Token} {last : Token} {depth : Nat} {x : Operand}

theorem primary_operand (ht : t.spelling = x.spelling) :
    primary r ⟨t :: us, last, depth⟩ = .ok (x.expr, ⟨us, last, depth⟩) := by
  have hkind : t.kind = x.kind := congrArg Prod.fst ht
  have htext : t.text = x.text := congrArg Prod.snd ht
  have hcurrent : (Cursor.mk (t :: us) last depth).current = t := rfl
  unfold primary
  rw [bind_of_ok (current_eq _), hcurrent, hkind, htext]
  rcases x.simple with h | h
  · rw [h, x.expr_of_identifier h]
    rfl
  · obtain ⟨v, hv, hexpr⟩ := x.expr_of_number h
    rw [h, hexpr]
    dsimp only
    rw [numberValue?, htext, hv]
    rfl

/-- An operand begins nothing but a chain. -/
theorem plain_operand (ht : t.spelling = x.spelling)
    (hbehind : (Cursor.mk us last depth).current.kind.Behind) :
    (Cursor.mk (t :: us) last depth).Plain := by
  have hkind : t.kind = .identifier ∨ t.kind = .number := by
    rw [show t.kind = x.kind from congrArg Prod.fst ht]
    exact x.simple
  have harrow : us.head?.map Token.kind ≠ some (.symbol .arrow) := by
    obtain _ | ⟨u, us⟩ := us
    · nofun
    · intro h
      have hu : u.kind.Behind := hbehind
      rw [Option.some.inj h] at hu
      generalize hs : Symbol.arrow = s at hu
      rcases hu with _ | ⟨op | op⟩ <;> cases op <;> cases hs
  refine ⟨?_, ?_, ?_, ?_, ?_⟩
  · change unaryOf? t = none
    unfold unaryOf?
    rcases hkind with h | h <;> rw [h]
  · change updateOf? t = none
    unfold updateOf?
    rcases hkind with h | h <;> rw [h]
  · change t.kind ≠ _
    rcases hkind with h | h <;> rw [h] <;> nofun
  · change (_ && us[0]?.map Token.kind == _) = false
    rw [← List.head?_eq_getElem?, beq_false_of_ne harrow, Bool.and_false]
  · change (t.kind == _ && _) = false
    rcases hkind with h | h <;> rw [h] <;> rfl

variable {f : List Char → Except SyntaxError Expr} {levels : Nat}

theorem unary_operand (ht : t.spelling = x.spelling)
    (hbehind : (Cursor.mk us last depth).current.kind.Behind) (hdepth : depth < maxDepth) :
    phraseAt f (levels + 1) .unary ⟨t :: us, last, depth⟩ = .ok (x.expr, ⟨us, last, depth⟩) := by
  have hunary : unary ⟨phraseAt f levels, f⟩ ⟨t :: us, last, depth + 1⟩ =
      .ok (x.expr, ⟨us, last, depth + 1⟩) :=
    unary_of_suffix (d := ⟨us, last, depth + 1⟩) (plain_operand ht hbehind) (primary_operand ht)
      (suffix_of_behind true x.expr hbehind) (updateOf?_of_behind hbehind)
  exact nested_of_ok (c := ⟨t :: us, last, depth⟩) (d := ⟨us, last, depth⟩) hdepth hunary

/-! ### Levels of operators -/

/-- The operators of each level that groups to the left, the tightest first. -/
def combine : Nat → TokenKind → Option (Expr → Expr → Expr)
  | 0 => productOf?
  | 1 => sumOf?
  | 2 => relationOf?
  | 3 => equalityOf?
  | 4 => conjunctionOf?
  | _ => disjunctionOf?

/-- The reader of chains whose operators are no looser than a level. -/
def operation (r : Readers) : Nat → Parse Expr
  | 0 => power r
  | n + 1 => level (combine n) (operation r n)

theorem disjunction_eq (r : Readers) : disjunction r = operation r 6 := rfl

theorem combine_symbol (hn : n < 6) (op : Operator) :
    combine n (.symbol op.symbol) = if op.looseness = n + 1 then some op.apply else none := by
  match n, hn with
  | 0, _ | 1, _ | 2, _ | 3, _ | 4, _ | 5, _ =>
    rcases op with op | op <;> cases op <;> rfl

theorem combine_beyond (hn : n < 6) (h : k.Beyond (n + 1)) : combine n k = none := by
  cases h with
  | stop =>
    match n, hn with
    | 0, _ | 1, _ | 2, _ | 3, _ | 4, _ | 5, _ => rfl
  | @operator op hlt =>
    rw [combine_symbol hn, if_neg (Nat.ne_of_gt hlt)]

/-- One turn of a level. -/
def levelStep (combine : TokenKind → Option (Expr → Expr → Expr)) (operand : Parse Expr)
    (left : Expr) : Parse (Option Expr) := do
  match combine (← current).kind with
  | none => return none
  | some make =>
    let _ ← advance
    enter
    return some (make left (← operand))

theorem operation_succ (r : Readers) (n : Nat) :
    operation r (n + 1) = grow (levelStep (combine n) (operation r n)) (operation r n) := rfl

theorem levelStep_of_beyond {operand : Parse Expr} (hn : n < 6)
    (h : c.current.kind.Beyond (n + 1)) (left : Expr) :
    levelStep (combine n) operand left c = .ok (none, c) := by
  unfold levelStep
  rw [bind_of_ok (current_eq c), combine_beyond hn h]
  rfl

/-- A turn goes one level deeper, and puts what has been read under its operator. -/
theorem levelStep_of_operator {operand : Parse Expr} {op : Operator} {right : Expr} (hn : n < 6)
    (hop : op.looseness = n + 1) (ht : t.kind = .symbol op.symbol) (hdepth : depth < maxDepth)
    (h : operand ⟨ts, last, depth + 1⟩ = .ok (right, d)) (left : Expr) :
    levelStep (combine n) operand left ⟨t :: ts, last, depth⟩ =
      .ok (some (op.apply left right), d) := by
  have hcombine : combine n (Cursor.mk (t :: ts) last depth).current.kind = some op.apply := by
    rw [show (Cursor.mk (t :: ts) last depth).current.kind = .symbol op.symbol from ht,
      combine_symbol hn, if_pos hop]
  have henter : enter ⟨ts, last, depth⟩ = .ok ((), ⟨ts, last, depth + 1⟩) :=
    if_neg (Nat.not_lt.mpr hdepth)
  unfold levelStep
  rw [bind_of_ok (current_eq _), hcombine]
  dsimp only
  rw [bind_of_ok (advance_eq _)]
  exact (bind_of_ok henter).trans (bind_of_ok h)

end Grammar

/-! ### Trees -/

namespace OperatorTree

variable {α : Type}

/-- The operators of a level that follow one another down the left side of a tree. -/
def spine (n : Nat) : OperatorTree α → Nat
  | operand _ => 0
  | node op left _ => if op.looseness = n then left.spine n + 1 else 0

/-- The levels of nesting that are needed to read a tree. -/
def need : OperatorTree α → Nat
  | operand _ => 1
  | node op left right =>
    if op.looseness = 0 then max left.need (right.need + 1)
    else max left.need (left.spine op.looseness + 1 + right.need)

theorem spine_le (n : Nat) (t : OperatorTree α) : t.spine n ≤ t.chain.rest.length := by
  induction t with
  | operand x => exact Nat.le_refl 0
  | node op left right ihLeft _ =>
    unfold spine chain Chain.append
    rw [List.length_append, List.length_cons]
    split <;> omega

theorem need_le (t : OperatorTree α) : t.need ≤ t.chain.rest.length + 1 := by
  induction t with
  | operand x => exact Nat.le_refl 1
  | node op left right ihLeft ihRight =>
    have hspine := left.spine_le op.looseness
    unfold need chain Chain.append
    rw [List.length_append, List.length_cons]
    split <;> omega

theorem one_le_need (t : OperatorTree α) : 1 ≤ t.need := by
  induction t with
  | operand x => exact Nat.le_refl 1
  | node op left right ihLeft _ =>
    unfold need
    split <;> omega

theorem spine_lt_need (n : Nat) (t : OperatorTree α) : t.spine (n + 1) < t.need := by
  induction t with
  | operand x => exact Nat.zero_lt_one
  | node op left right ihLeft _ =>
    have hneed := right.one_le_need
    unfold spine need
    split
    · rename_i hop
      rw [hop, if_neg (Nat.succ_ne_zero n)]
      omega
    · split <;> omega

theorem need_node (op : Operator) (hop : op.looseness = n + 1) (left right : OperatorTree α) :
    (node op left right).need = max left.need (left.spine (n + 1) + 1 + right.need) := by
  rw [need, if_neg (by omega), hop]

theorem spine_node (op : Operator) (hop : op.looseness = n) (left right : OperatorTree α) :
    (node op left right).spine n = left.spine n + 1 := if_pos hop

variable {f : List Char → Except SyntaxError Expr} {n : Nat} {t left right : OperatorTree Operand}
  {op : Operator}

/-- At a level, a tree is read before what ends its chain, with as many levels of nesting as it
    needs. -/
def Reads (f : List Char → Except SyntaxError Expr) (n : Nat) (t : OperatorTree Operand) : Prop :=
  ∀ (levels depth : Nat) (ts us : List Token) (last : Token), t.need ≤ levels →
    depth + t.need ≤ maxDepth → ts.map Token.spelling = t.chain.spellings →
    (Cursor.mk us last depth).current.kind.Beyond n →
    Grammar.operation ⟨phraseAt f levels, f⟩ n ⟨ts ++ us, last, depth⟩ =
      .ok (t.expr Operand.expr, ⟨us, last, depth⟩)

/-- In the loop of the next looser level, it takes as many turns as it has operators of that level
    down its left side. -/
def Loops (f : List Char → Except SyntaxError Expr) (n : Nat) (t : OperatorTree Operand) : Prop :=
  ∀ (levels depth fuel : Nat) (ts us : List Token) (last : Token), t.need ≤ levels →
    depth + t.need ≤ maxDepth → ts.map Token.spelling = t.chain.spellings →
    (Cursor.mk us last depth).current.kind.Beyond n →
    let operand := Grammar.operation ⟨phraseAt f levels, f⟩ n
    let step := Grammar.levelStep (Grammar.combine n) operand
    (operand >>= growFrom step (fuel + t.spine (n + 1))) ⟨ts ++ us, last, depth⟩ =
      growFrom step fuel (t.expr Operand.expr) ⟨us, last, depth + t.spine (n + 1)⟩

theorem Reads.loops (h : t.Reads f n) (hspine : t.spine (n + 1) = 0) : t.Loops f n := by
  intro levels depth fuel ts us last hlevels hdepth hts hbeyond
  dsimp only
  rw [hspine]
  exact bind_of_ok (h levels depth ts us last hlevels hdepth hts hbeyond)

theorem Loops.reads (h : t.Loops f n) (hn : n < 6) : t.Reads f (n + 1) := by
  intro levels depth ts us last hlevels hdepth hts hbeyond
  have hspine := t.spine_lt_need n
  obtain ⟨fuel, hfuel⟩ := Nat.exists_eq_add_of_le' (show t.spine (n + 1) ≤ maxDepth by omega)
  have hloop := h levels depth (fuel + 1) ts us last hlevels hdepth hts
    (hbeyond.mono (Nat.le_succ n))
  have hend : ∀ e, Grammar.levelStep (Grammar.combine n)
      (Grammar.operation ⟨phraseAt f levels, f⟩ n) e ⟨us, last, depth + t.spine (n + 1)⟩ =
        .ok (none, ⟨us, last, depth + t.spine (n + 1)⟩) :=
    Grammar.levelStep_of_beyond (c := ⟨us, last, depth + t.spine (n + 1)⟩) hn hbeyond
  have hgrown := hloop.trans (bind_of_ok (hend (t.expr Operand.expr)))
  rw [show fuel + 1 + t.spine (n + 1) = maxDepth + 1 by omega] at hgrown
  exact Grammar.grow_of_growFrom hgrown

/-- An operator of the level takes one turn more than what stands on its left. -/
theorem loops_node (hop : op.looseness = n + 1) (hn : n < 6) (hleft : left.Loops f n)
    (hright : right.Reads f n) : (node op left right).Loops f n := by
  intro levels depth fuel ts us last hlevels hdepth hts hbeyond
  rw [need_node op hop] at hlevels hdepth
  rw [spine_node op hop]
  rw [chain, Chain.spellings_append] at hts
  obtain ⟨ts, behind, rfl, hfirst, hrest⟩ := List.map_eq_append_iff.mp hts
  obtain ⟨t, ts', rfl, ht, hts'⟩ := List.map_eq_cons_iff.mp hrest
  have hkind : t.kind = .symbol op.symbol := kind_of_spelling ht
  have hbehind : (Cursor.mk (t :: (ts' ++ us)) last depth).current.kind.Beyond n := by
    change t.kind.Beyond n
    rw [hkind]
    exact .operator (by omega)
  have hloop := hleft levels depth (fuel + 1) ts (t :: (ts' ++ us)) last (by omega) (by omega)
    hfirst hbehind
  have hoperand := hright levels (depth + left.spine (n + 1) + 1) ts' us last (by omega) (by omega)
    hts' hbeyond
  have hturn := Grammar.levelStep_of_operator hn hop hkind (by omega) hoperand
    (left.expr Operand.expr)
  rw [List.append_assoc, List.cons_append, ← Nat.add_assoc fuel, Nat.add_right_comm fuel]
  exact hloop.trans (bind_of_ok hturn)

/-- A tree is read at its own level and at all looser ones, if it is read so at the tightest one,
    and in the loop of its own. -/
theorem reads_and_loops (hzero : t.looseness = 0 → t.Reads f 0)
    (hnode : ∀ k, t.looseness = k + 1 → t.Loops f k) (n : Nat) :
    (t.looseness ≤ n → n ≤ 6 → t.Reads f n) ∧ (t.looseness ≤ n + 1 → n < 6 → t.Loops f n) := by
  have hspine : ∀ k, t.looseness ≤ k → t.spine (k + 1) = 0 := by
    intro k hk
    cases t with
    | operand x => rfl
    | node op left right => exact if_neg (Nat.ne_of_lt (Nat.lt_succ_of_le hk))
  have hloops : ∀ k, (t.looseness ≤ k → t.Reads f k) → t.looseness ≤ k + 1 → t.Loops f k := by
    intro k hreads hk
    rcases Nat.le_iff_lt_or_eq.mp hk with hlt | heq
    · have hle := Nat.le_of_lt_succ hlt
      exact (hreads hle).loops (hspine k hle)
    · exact hnode k heq
  induction n with
  | zero =>
    have hreads : t.looseness ≤ 0 → t.Reads f 0 := fun h => hzero (Nat.le_zero.mp h)
    exact ⟨fun h _ => hreads h, fun h _ => hloops 0 hreads h⟩
  | succ n ih =>
    have hreads : n + 1 ≤ 6 → t.looseness ≤ n + 1 → t.Reads f (n + 1) :=
      fun hn h => (ih.2 h hn).reads hn
    exact ⟨fun h hn => hreads hn h, fun h hn => hloops (n + 1) (hreads (Nat.le_of_lt hn)) h⟩

/-- At the tightest level an operand is read alone. -/
theorem reads_operand (x : Operand) : (operand x).Reads f 0 := by
  intro levels depth ts us last hlevels hdepth hts hbeyond
  obtain ⟨levels, rfl⟩ := Nat.exists_eq_add_of_le' hlevels
  obtain ⟨t, ts, rfl, ht, hnil⟩ := List.map_eq_cons_iff.mp hts
  obtain rfl := List.map_eq_nil_iff.mp hnil
  have hunary : phraseAt f (levels + 1) .unary _ = _ :=
    Grammar.unary_operand ht hbeyond.behind hdepth
  have hne : (Cursor.mk us last depth).current.kind ≠ .symbol .power := by
    generalize (Cursor.mk us last depth).current.kind = k at hbeyond
    rcases hbeyond with _ | @⟨op, hop⟩
    · nofun
    · intro heq
      exact Nat.ne_of_gt hop (Operator.looseness_of_power (TokenKind.symbol.inj heq))
  exact (bind_of_ok hunary).trans (bind_of_ok (eat_of_ne hne))

/-- So is a power, with what stands on its right one level deeper. -/
theorem reads_power (x : Operand) (hright : right.Reads f 0) :
    (node (.binary .power) (operand x) right).Reads f 0 := by
  intro levels depth ts us last hlevels hdepth hts hbeyond
  have hneed : (node (.binary .power) (operand x) right).need = max 1 (right.need + 1) := rfl
  rw [hneed] at hlevels hdepth
  obtain ⟨levels, rfl⟩ : ∃ l, levels = l + 1 := ⟨levels - 1, by omega⟩
  obtain ⟨t, ts, rfl, ht, hrest⟩ := List.map_eq_cons_iff.mp hts
  obtain ⟨t', ts, rfl, ht', hts⟩ := List.map_eq_cons_iff.mp hrest
  have hkind : t'.kind = .symbol .power := kind_of_spelling ht'
  have hbehind : (Cursor.mk (t' :: (ts ++ us)) last depth).current.kind.Behind := by
    change t'.kind.Behind
    rw [hkind]
    exact .operator (.binary .power)
  have hunary : phraseAt f (levels + 1) .unary _ = _ :=
    Grammar.unary_operand ht hbehind (by omega)
  have hpower := hright levels (depth + 1) ts us last (by omega) (by omega) hts hbeyond
  have hbelow : depth < maxDepth := by omega
  have hnested : phraseAt f (levels + 1) .power ⟨ts ++ us, last, depth⟩ =
      .ok (right.expr Operand.expr, ⟨us, last, depth⟩) :=
    nested_of_ok (c := ⟨ts ++ us, last, depth⟩) (d := ⟨us, last, depth⟩) hbelow hpower
  exact (bind_of_ok hunary).trans ((bind_of_ok (eat_cons_of_eq hkind)).trans (bind_of_ok hnested))

theorem looseness_left (h : ∀ op' ∈ left.root?, op'.Precedes op) :
    left.looseness ≤ op.looseness := by
  cases left with
  | operand x => exact Nat.zero_le _
  | node op' _ _ => exact Operator.looseness_le_of_precedes (h op' rfl)

theorem looseness_right (h : ∀ op' ∈ right.root?, ¬ op.Precedes op') :
    right.looseness < op.looseness ∨ right.looseness = 0 ∧ op.looseness = 0 := by
  cases right with
  | operand x => exact (Nat.eq_zero_or_pos op.looseness).symm.imp_right fun hop => ⟨rfl, hop⟩
  | node op' _ _ =>
    refine (Operator.not_precedes_iff.mp (h op' rfl)).imp_right fun ⟨heq, hpower⟩ => ?_
    rw [hpower] at heq
    exact ⟨heq, by rw [hpower]; rfl⟩

/-- Nothing but an operand stands on the left of a power. -/
theorem exists_operand_of_precedes (h : ∀ op' ∈ left.root?, op'.Precedes (.binary .power)) :
    ∃ x, left = operand x := by
  cases left with
  | operand x => exact ⟨x, rfl⟩
  | node op' _ _ =>
    have hprecedes := h op' rfl
    have hzero := Nat.le_zero.mp (Operator.looseness_le_of_precedes hprecedes)
    rw [Operator.eq_power_of_looseness hzero] at hprecedes
    exact absurd hprecedes (by decide)

/-- A grouped tree is read at every level that is as loose as it, and in the loop of each. -/
theorem Grouped.reads_and_loops (h : t.Grouped) (n : Nat) :
    (t.looseness ≤ n → n ≤ 6 → t.Reads f n) ∧ (t.looseness ≤ n + 1 → n < 6 → t.Loops f n) := by
  induction h generalizing n with
  | operand x => exact OperatorTree.reads_and_loops (fun _ => reads_operand x) nofun n
  | @node op left right hleft hright _ _ ihLeft ihRight =>
    refine OperatorTree.reads_and_loops (fun hop => ?_) (fun k hop => ?_) n
    · obtain rfl := Operator.eq_power_of_looseness hop
      obtain ⟨x, rfl⟩ := exists_operand_of_precedes hleft
      have hzero : right.looseness ≤ 0 := by
        rcases looseness_right hright with hlt | ⟨hzero, -⟩
        · exact absurd hlt (Nat.not_lt_zero _)
        · exact Nat.le_of_eq hzero
      exact reads_power x ((ihRight 0).1 hzero (by decide))
    · have hop : op.looseness = k + 1 := hop
      have hk : k < 6 := by
        have hle := op.looseness_le
        omega
      have hlooseLeft := looseness_left hleft
      have hlooseRight := looseness_right hright
      exact loops_node hop hk ((ihLeft k).2 (by omega) hk) ((ihRight k).1 (by omega) (by omega))

end OperatorTree

/-! ### Programs -/

theorem OperatorTree.looseness_le {α : Type} (t : OperatorTree α) : t.looseness ≤ 6 := by
  cases t with
  | operand x => exact Nat.zero_le 6
  | node op _ _ => exact op.looseness_le

section Programs

variable {f : List Char → Except SyntaxError Expr} {t : OperatorTree Operand} {ts : List Token}
  {last : Token} {levels depth : Nat}

/-- Behind the first operand of a chain stands an operator, or nothing. -/
theorem Chain.behind_first {c : Chain Operand} {t : Token}
    (hts : (t :: ts).map Token.spelling = c.spellings) (hlast : last.kind = .stop) :
    (Cursor.mk ts last depth).current.kind.Behind := by
  obtain ⟨first, _ | ⟨⟨op, x⟩, rest⟩⟩ := c
  · obtain rfl : ts = [] := List.map_eq_nil_iff.mp (List.cons.inj hts).2
    change last.kind.Behind
    rw [hlast]
    exact .stop
  · obtain ⟨t', ts, rfl, ht', -⟩ := List.map_eq_cons_iff.mp (List.cons.inj hts).2
    have hkind : t'.kind = .symbol op.symbol := kind_of_spelling ht'
    change t'.kind.Behind
    rw [hkind]
    exact .operator op

/-- A chain to the end of a source, as an expression. -/
theorem assignment_tree (h : t.Grouped) (hlevels : t.need ≤ levels)
    (hdepth : depth + t.need ≤ maxDepth) (hts : ts.map Token.spelling = t.chain.spellings)
    (hlast : last.kind = .stop) :
    Grammar.assignment ⟨phraseAt f levels, f⟩ ⟨ts, last, depth⟩ =
      .ok (t.expr Operand.expr, ⟨[], last, depth⟩) := by
  have hcurrent : (Cursor.mk [] last depth).current.kind = .stop := hlast
  have hreads : t.Reads f 6 := (h.reads_and_loops 6).1 t.looseness_le (Nat.le_refl 6)
  have hdisjunction := hreads levels depth ts [] last hlevels hdepth hts (hcurrent ▸ .stop)
  rw [List.append_nil, ← Grammar.disjunction_eq] at hdisjunction
  have hplain : (Cursor.mk ts last depth).Plain := by
    obtain ⟨t, ts, rfl, ht, -⟩ := List.map_eq_cons_iff.mp hts
    exact Grammar.plain_operand ht (Chain.behind_first hts hlast)
  have hne : (Cursor.mk [] last depth).current.kind ≠ .symbol .question := by
    rw [hcurrent]
    nofun
  have hconditional : Grammar.conditional ⟨phraseAt f levels, f⟩ ⟨ts, last, depth⟩ =
      .ok (t.expr Operand.expr, ⟨[], last, depth⟩) :=
    (bind_of_ok hdisjunction).trans (bind_of_ok (eat_of_ne hne))
  rw [Grammar.assignment_eq hplain, bind_of_ok hconditional, bind_of_ok (current_eq _), hcurrent]
  rfl

/-- A chain to the end of a source, as a statement. -/
theorem statement_tree (h : t.Grouped) (hlevels : t.need ≤ levels)
    (hdepth : t.need + 2 ≤ maxDepth) (hts : ts.map Token.spelling = t.chain.spellings)
    (hlast : last.kind = .stop) :
    phraseAt f (levels + 2) .statement ⟨ts, last, 0⟩ =
      .ok (.expr (t.expr Operand.expr), ⟨[], last, 0⟩) := by
  have hassignment := assignment_tree (f := f) h hlevels (show 2 + t.need ≤ maxDepth by omega) hts
    hlast
  have hexpression : phraseAt f (levels + 1) .assignment ⟨ts, last, 1⟩ =
      .ok (t.expr Operand.expr, ⟨[], last, 1⟩) :=
    nested_of_ok (c := ⟨ts, last, 1⟩) (d := ⟨[], last, 1⟩) (show 1 < maxDepth by decide) hassignment
  have hkind : (Cursor.mk ts last 1).current.kind = .identifier ∨
      (Cursor.mk ts last 1).current.kind = .number := by
    obtain ⟨t', ts, rfl, ht', -⟩ := List.map_eq_cons_iff.mp hts
    change t'.kind = _ ∨ t'.kind = _
    rw [show t'.kind = t.chain.first.kind from congrArg Prod.fst ht']
    exact t.chain.first.simple
  have hstatement := (Grammar.statement_eq (r := ⟨phraseAt f (levels + 1), f⟩)
    (c := ⟨ts, last, 1⟩) (.inr (.inr hkind))).trans
    ((bind_of_ok hexpression).trans (bind_of_ok (Grammar.endStatement_of_stop hlast)))
  exact nested_of_ok (c := ⟨ts, last, 0⟩) (d := ⟨[], last, 0⟩) (show 0 < maxDepth by decide)
    hstatement

/-- A program that is a chain is read as the grouped tree of the chain, if this does not need more
    levels of nesting than there are below a statement and an expression. -/
theorem parse_tree (h : t.Grouped) (hneed : t.need + 2 ≤ maxDepth) :
    parse t.chain.source = .ok ⟨[.expr (t.expr Operand.expr)]⟩ := by
  obtain ⟨ts, p, htokens, hts⟩ := t.chain.tokenize_source
  obtain ⟨t', ts', rfl, ht', -⟩ := List.map_eq_cons_iff.mp hts
  have hkind : t'.kind ≠ .stop := by
    rw [show t'.kind = t.chain.first.kind from congrArg Prod.fst ht']
    rcases t.chain.first.simple with h | h <;> rw [h] <;> nofun
  exact parse_of_statement htokens (List.cons_ne_nil _ _) hkind
    (statement_tree h (Nat.le_sub_of_add_le hneed) hneed hts rfl) rfl

end Programs

/-- **Operators are grouped by how tightly they hold their operands.**  A chain of names and numbers
    with operators between them, at most 400, is read as the one tree in which this chain stands
    from left to right and every operand is taken by the tighter of the operators around it: powers
    are the tightest, then products, sums, relations, equalities, conjunctions and disjunctions, and
    of two equally tight ones the first takes it, unless they are powers. -/
theorem parse_chain (c : Chain Operand) (h : c.rest.length ≤ 400) :
    ∃ t : OperatorTree Operand, t.Grouped ∧ t.chain = c ∧
      (∀ t' : OperatorTree Operand, t'.Grouped → t'.chain = c → t' = t) ∧
      parse c.source = .ok ⟨[.expr (t.expr Operand.expr)]⟩ := by
  have hchain := OperatorTree.chain_ofChain c
  have hgrouped := OperatorTree.grouped_ofChain c
  have hneed := (OperatorTree.ofChain c).need_le
  rw [hchain] at hneed
  have hparse := parse_tree hgrouped (show _ ≤ 500 by omega)
  rw [hchain] at hparse
  refine ⟨OperatorTree.ofChain c, hgrouped, hchain, fun t' ht' hc => ?_, hparse⟩
  rw [← hc, ht'.ofChain_chain]

/-! ### A mixed chain -/

def Operand.letterX : Operand :=
  ⟨"x", .identifier, "x", ⟨⟨1, 2⟩, _, glyphs_chars "x", rfl⟩, .inl rfl⟩

def Operand.letterY : Operand :=
  ⟨"y", .identifier, "y", ⟨⟨1, 2⟩, _, glyphs_chars "y", rfl⟩, .inl rfl⟩

/-- A number with no digits behind its point. -/
def Operand.wholeTwo : Operand :=
  ⟨"2.", .number, "2", ⟨⟨1, 3⟩, _, glyphs_chars "2.", rfl⟩, .inr rfl⟩

def mixedChain : Chain Operand := ⟨.letterX, [
  (.logical .nullish, .letterY), (.binary .power, .wholeTwo),
  (.binary .power, .letterX), (.binary .subtract, .letterY), (.binary .subtract, .wholeTwo),
  (.binary .divide, .letterX)]⟩

open OperatorTree in
def mixedTree : OperatorTree Operand :=
  node (.logical .nullish) (operand .letterX) <| node (.binary .subtract)
    (node (.binary .subtract)
      (node (.binary .power) (operand .letterY)
        (node (.binary .power) (operand .wholeTwo) (operand .letterX)))
      (operand .letterY))
    (node (.binary .divide) (operand .wholeTwo) (operand .letterX))

theorem parse_mixedChain : mixedChain.rest.length ≤ 400 ∧
    mixedChain.source = "x ?? y ** 2. ** x - y - 2. / x" ∧ mixedTree.chain = mixedChain ∧
    parse mixedChain.source = .ok ⟨[.expr (mixedTree.expr Operand.expr)]⟩ := by
  have hlength : mixedChain.rest.length ≤ 400 := by decide
  obtain ⟨t, -, -, hunique, hparse⟩ := parse_chain mixedChain hlength
  have hgrouped : mixedTree.Grouped := by
    refine .node nofun ?_ (.operand _) (.node ?_ ?_ (.node ?_ nofun (.node nofun ?_ (.operand _)
      (.node nofun nofun (.operand _) (.operand _))) (.operand _))
      (.node nofun nofun (.operand _) (.operand _)))
    all_goals
      rintro _ ⟨⟩
      decide
  rw [← hunique mixedTree hgrouped rfl] at hparse
  exact ⟨hlength, by decide +kernel, rfl, hparse⟩

end MemoryShell.Script
