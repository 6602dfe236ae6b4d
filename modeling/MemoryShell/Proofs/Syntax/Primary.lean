/-
  MemoryShell/Proofs/Syntax/Primary.lean
  ======================================
  **Expressions that are no more than a primary one.**

  Between an expression and the primary one it begins with lie all levels of operators.  Where none
  of these begins, and nothing goes on behind the primary expression, the levels pass through what
  it is read as: they fail where it fails, and leave the depth as they found it.
-/
import MemoryShell.Proofs.Syntax.Reading

namespace MemoryShell.Script

open Parse

variable {c d : Cursor} {α : Type}

namespace Grammar

variable {r : Readers} {e : Expr}

/-! ### Levels that pass through -/

/-- What has grown is what is read, and the depth is again what it was. -/
theorem grow_of_growFrom {step : Expr → Parse (Option Expr)} {first : Parse Expr}
    (h : (first >>= growFrom step (maxDepth + 1)) c = .ok (e, d)) :
    grow step first c = .ok (e, { d with depth := c.depth }) := by
  obtain ⟨e', d', hfirst, hgrow⟩ := bind_eq_ok.mp h
  change (first >>= fun e => growFrom step (maxDepth + 1) e >>= fun e =>
    setDepth c.depth >>= fun _ => pure e) c = _
  rw [bind_of_ok hfirst, bind_of_ok hgrow]
  rfl

theorem grow_of_ok {step : Expr → Parse (Option Expr)} {first : Parse Expr}
    (hfirst : first c = .ok (e, d)) (hstep : step e d = .ok (none, d)) :
    grow step first c = .ok (e, { d with depth := c.depth }) :=
  grow_of_growFrom ((bind_of_ok hfirst).trans (bind_of_ok hstep))

theorem callMember_of_ok (hplain : c.Plain) (h : primary r c = .ok (e, d))
    (hsuffix : suffix r true e d = .ok (none, d)) :
    callMember r c = .ok (e, { d with depth := c.depth }) :=
  grow_of_ok ((bind_of_ok (eat_of_ne hplain.construction)).trans h) hsuffix

/-- A primary expression behind which stand no suffix and no update. -/
theorem unary_of_suffix (hplain : c.Plain) (h : primary r c = .ok (e, d))
    (hsuffix : suffix r true e d = .ok (none, d)) (hnone : updateOf? d.current = none) :
    unary r c = .ok (e, { d with depth := c.depth }) := by
  have hunary : unary r c = postfixUpdate r c := by
    rw [unary, bind_of_ok (current_eq c), hplain.unary, hplain.update]
  have hupdate : updateOf? { d with depth := c.depth }.current = none := hnone
  rw [hunary, postfixUpdate, bind_of_ok (callMember_of_ok hplain h hsuffix),
    bind_of_ok (current_eq _), hupdate]
  rfl

theorem unary_of_ok (hplain : c.Plain) (h : primary r c = .ok (e, d))
    (hends : d.current.kind.Ends) : unary r c = .ok (e, { d with depth := c.depth }) :=
  unary_of_suffix hplain h (suffix_of_ends true e hends) (updateOf?_of_ends hends)

theorem level_of_ok {combine : TokenKind → Option (Expr → Expr → Expr)} {operand : Parse Expr}
    (hcombine : combine d.current.kind = none) (hdepth : d.depth = c.depth)
    (h : operand c = .ok (e, d)) : level combine operand c = .ok (e, d) := by
  have hgrow : level combine operand c = .ok (e, { d with depth := c.depth }) := by
    refine grow_of_ok h ?_
    rw [bind_of_ok (current_eq d), hcombine]
    rfl
  rw [← hdepth] at hgrow
  exact hgrow

theorem disjunction_of_ok (h : r.phrase .unary c = .ok (e, d)) (hdepth : d.depth = c.depth)
    (hends : d.current.kind.Ends) : disjunction r c = .ok (e, d) := by
  have hne : d.current.kind ≠ .symbol .power := by
    intro heq
    rw [heq] at hends
    cases hends
  have hpower : power r c = .ok (e, d) := (bind_of_ok h).trans (bind_of_ok (eat_of_ne hne))
  have hnone : productOf? d.current.kind = none ∧ sumOf? d.current.kind = none ∧
      relationOf? d.current.kind = none ∧ equalityOf? d.current.kind = none ∧
      conjunctionOf? d.current.kind = none ∧ disjunctionOf? d.current.kind = none := by
    generalize d.current.kind = k at hends
    cases hends <;> exact ⟨rfl, rfl, rfl, rfl, rfl, rfl⟩
  obtain ⟨hproduct, hsum, hrelation, hequality, hconjunction, hdisjunction⟩ := hnone
  have hfactors := level_of_ok hproduct hdepth hpower
  have hterms := level_of_ok hsum hdepth hfactors
  have hrelations := level_of_ok hrelation hdepth hterms
  have hequalities := level_of_ok hequality hdepth hrelations
  have hconjunctions := level_of_ok hconjunction hdepth hequalities
  exact level_of_ok hdisjunction hdepth hconjunctions

theorem assignment_of_ok (hplain : c.Plain) (h : r.phrase .unary c = .ok (e, d))
    (hdepth : d.depth = c.depth) (hends : d.current.kind.Ends) :
    assignment r c = .ok (e, d) := by
  have hne : d.current.kind ≠ .symbol .question := by
    intro heq
    rw [heq] at hends
    cases hends
  have hconditional : conditional r c = .ok (e, d) :=
    (bind_of_ok (disjunction_of_ok h hdepth hends)).trans (bind_of_ok (eat_of_ne hne))
  rw [assignment_eq hplain, bind_of_ok hconditional, bind_of_ok (current_eq d),
    assignmentOf?_of_ends hends]
  rfl

/-! ### Templates, parentheses and statements -/

theorem primary_template (h : c.current.kind = .template) :
    primary r c =
      (templateParts r.fragment c.current).map fun parts => (.template parts, c.next) := by
  unfold primary
  rw [bind_of_ok (current_eq c), h]
  dsimp only
  rw [bind_of_ok (advance_eq c)]
  cases templateParts r.fragment c.current <;> rfl

theorem primary_paren (h : c.current.kind = .symbol .leftParen) :
    primary r c = (r.phrase .assignment >>= fun e => expectSymbol .rightParen >>= fun _ => pure e)
      c.next := by
  unfold primary
  rw [bind_of_ok (current_eq c), h]
  exact bind_of_ok (advance_eq c)

theorem statement_eq (h : c.current.kind = .template ∨ c.current.kind = .symbol .leftParen ∨
      c.current.kind = .identifier ∨ c.current.kind = .number) :
    statement r c = (r.phrase .assignment >>= fun e => endStatement >>= fun _ =>
      pure (Stmt.expr e)) c := by
  unfold statement
  rw [bind_of_ok (current_eq c)]
  rcases h with h | h | h | h
  all_goals
    rw [h]
    rfl

theorem endStatement_of_stop (h : c.current.kind = .stop) : endStatement c = .ok ((), c) := by
  have hne : c.current.kind ≠ .symbol .semicolon := by rw [h]; nofun
  refine (bind_of_ok (eat_of_ne hne)).trans ?_
  change (if c.current.kind = .symbol .rightBrace ∨ c.current.kind = .stop ∨ c.current.afterNewline
    then pure () else unexpected : Parse Unit) c = _
  rw [if_pos (.inr (.inl h))]
  rfl

end Grammar

theorem Cursor.Plain.of_kind {k : TokenKind} (h : c.current.kind = k)
    (hk : k = .template ∨ k = .identifier ∨ k = .symbol .comma ∨ k = .symbol .leftParen)
    (hnamed : k = .identifier → c.rest[1]?.map Token.kind ≠ some (.symbol .arrow))
    (hlisted : k = .symbol .leftParen → Grammar.startsArrow c.rest.tail = false) : c.Plain := by
  have hunary : Grammar.unaryOf? c.current = none := by
    unfold Grammar.unaryOf?
    rw [h]
    rcases hk with rfl | rfl | rfl | rfl <;> rfl
  have hupdate : Grammar.updateOf? c.current = none := by
    unfold Grammar.updateOf?
    rw [h]
    rcases hk with rfl | rfl | rfl | rfl <;> rfl
  refine ⟨hunary, hupdate, ?_, ?_, ?_⟩
  · rw [h]
    rcases hk with rfl | rfl | rfl | rfl <;> nofun
  · by_cases hidentifier : k = .identifier
    · rw [beq_false_of_ne (hnamed hidentifier), Bool.and_false]
    · rw [h, beq_false_of_ne hidentifier, Bool.false_and]
  · by_cases hparen : k = .symbol .leftParen
    · rw [hlisted hparen, Bool.and_false]
    · rw [h, beq_false_of_ne hparen, Bool.false_and]

/-! ### Nesting -/

theorem nested_of_ok {p : Parse α} {a : α} (hdepth : c.depth < maxDepth)
    (h : p { c with depth := c.depth + 1 } = .ok (a, { d with depth := c.depth + 1 })) :
    nested p c = .ok (a, { d with depth := c.depth }) := by
  have henter : enter c = .ok ((), { c with depth := c.depth + 1 }) :=
    if_neg (Nat.not_lt.mpr hdepth)
  refine (bind_of_ok henter).trans ((bind_of_ok h).trans ?_)
  rfl

section Phrases

variable {f : List Char → Except SyntaxError Expr} {levels : Nat}

/-- An expression that is no more than a primary one. -/
theorem phraseAt_of_primary (hplain : c.Plain) (hdepth : c.depth + 1 < maxDepth) {e : Expr}
    (h : Grammar.primary ⟨phraseAt f levels, f⟩ { c with depth := c.depth + 2 } = .ok (e, d))
    (hends : d.current.kind.Ends) :
    phraseAt f (levels + 2) .assignment c = .ok (e, { d with depth := c.depth }) := by
  have hunary : Grammar.unary ⟨phraseAt f levels, f⟩ { c with depth := c.depth + 2 } =
      .ok (e, { d with depth := c.depth + 2 }) :=
    Grammar.unary_of_ok (hplain.withDepth _) h hends
  have hnested : phraseAt f (levels + 1) .unary { c with depth := c.depth + 1 } =
      .ok (e, { d with depth := c.depth + 1 }) := nested_of_ok hdepth hunary
  have hassignment : Grammar.assignment ⟨phraseAt f (levels + 1), f⟩
      { c with depth := c.depth + 1 } = .ok (e, { d with depth := c.depth + 1 }) :=
    Grammar.assignment_of_ok (r := ⟨phraseAt f (levels + 1), f⟩) (hplain.withDepth _) hnested rfl
      hends
  exact nested_of_ok (Nat.lt_of_succ_lt hdepth) hassignment

theorem fails_phraseAt_of_primary (hplain : c.Plain)
    (h : Fails (Grammar.primary ⟨phraseAt f levels, f⟩) { c with depth := c.depth + 2 }) :
    Fails (phraseAt f (levels + 2) .assignment) c := by
  have hunary : Fails (Grammar.unary ⟨phraseAt f levels, f⟩) { c with depth := c.depth + 2 } :=
    Grammar.fails_unary (hplain.withDepth _) h
  have hnested : Fails (phraseAt f (levels + 1) .unary) { c with depth := c.depth + 1 } :=
    fails_nested hunary
  have hassignment : Fails (Grammar.assignment ⟨phraseAt f (levels + 1), f⟩)
      { c with depth := c.depth + 1 } :=
    Grammar.fails_assignment (r := ⟨phraseAt f (levels + 1), f⟩) (hplain.withDepth _) hnested
  exact fails_nested hassignment

/-- What is no more than an expression, to the end of the source. -/
theorem statement_of_primary
    (hkind : c.current.kind = .template ∨ c.current.kind = .symbol .leftParen)
    (hplain : c.Plain) (hdepth : c.depth + 2 < maxDepth) {e : Expr}
    (h : Grammar.primary ⟨phraseAt f levels, f⟩ { c with depth := c.depth + 3 } = .ok (e, d))
    (hstop : d.current.kind = .stop) :
    phraseAt f (levels + 3) .statement c = .ok (.expr e, { d with depth := c.depth }) := by
  have hends : d.current.kind.Ends := hstop ▸ .stop
  have hexpression : phraseAt f (levels + 2) .assignment { c with depth := c.depth + 1 } =
      .ok (e, { d with depth := c.depth + 1 }) :=
    phraseAt_of_primary (hplain.withDepth _) hdepth h hends
  refine nested_of_ok (Nat.lt_of_succ_lt (Nat.lt_of_succ_lt hdepth)) ?_
  have hstatement := Grammar.statement_eq (r := ⟨phraseAt f (levels + 2), f⟩)
    (c := { c with depth := c.depth + 1 }) (hkind.imp_right .inl)
  exact hstatement.trans <| (bind_of_ok hexpression).trans <|
    bind_of_ok (Grammar.endStatement_of_stop hstop)

theorem fails_statement_of_primary
    (hkind : c.current.kind = .template ∨ c.current.kind = .symbol .leftParen) (hplain : c.Plain)
    (h : Fails (Grammar.primary ⟨phraseAt f levels, f⟩) { c with depth := c.depth + 3 }) :
    Fails (phraseAt f (levels + 3) .statement) c := by
  have hexpression : Fails (phraseAt f (levels + 2) .assignment) { c with depth := c.depth + 1 } :=
    fails_phraseAt_of_primary (hplain.withDepth _) h
  have hstatement := Grammar.statement_eq (r := ⟨phraseAt f (levels + 2), f⟩)
    (c := { c with depth := c.depth + 1 }) (hkind.imp_right .inl)
  exact fails_nested fun r hr => hexpression.bind r (hstatement.symm.trans hr)

end Phrases

/-! ### Programs -/

section Programs

variable {item : Parse α} {a : α}

theorem untilStopFrom_of_stop (n : Nat) (h : c.current.kind = .stop) :
    untilStopFrom item n c = .ok ([], c) := by
  cases n with
  | zero => rfl
  | succ n =>
    change (if (c.current.kind == .stop) = true then pure [] else _ : Parse (List α)) c = _
    rw [h]
    rfl

theorem untilStop_eq (item : Parse α) (hrest : c.rest ≠ []) (hkind : c.current.kind ≠ .stop) :
    ∃ n, untilStop item c =
      (item >>= fun a => untilStopFrom item n >>= fun as => pure (a :: as)) c := by
  obtain ⟨t, ts, hts⟩ := List.exists_cons_of_ne_nil hrest
  refine ⟨ts.length, ?_⟩
  change untilStopFrom item c.rest.length c = _
  rw [hts]
  change (if (c.current.kind == .stop) = true then pure [] else _ : Parse (List α)) c = _
  rw [beq_false_of_ne hkind]
  rfl

theorem untilStop_of_ok (hrest : c.rest ≠ []) (hkind : c.current.kind ≠ .stop)
    (h : item c = .ok (a, d)) (hstop : d.current.kind = .stop) :
    untilStop item c = .ok ([a], d) := by
  obtain ⟨n, hitems⟩ := untilStop_eq item hrest hkind
  rw [hitems, bind_of_ok h, bind_of_ok (untilStopFrom_of_stop n hstop)]
  rfl

theorem fails_untilStop (hrest : c.rest ≠ []) (hkind : c.current.kind ≠ .stop)
    (h : Fails item c) : Fails (untilStop item) c := by
  obtain ⟨n, hitems⟩ := untilStop_eq item hrest hkind
  intro r hr
  rw [hitems] at hr
  exact h.bind r hr

variable {source : String} {l : TokenList}

/-- A source that begins with a primary expression, as a statement of its own. -/
structure BeginsPrimary (source : String) (l : TokenList) : Prop where
  tokens : tokenize source = .ok l
  nonempty : l.tokens ≠ []
  kind : (Cursor.start l).current.kind = .template ∨
    (Cursor.start l).current.kind = .symbol .leftParen
  plain : (Cursor.start l).Plain

theorem BeginsPrimary.ne_stop (h : BeginsPrimary source l) :
    (Cursor.start l).current.kind ≠ .stop := by
  rcases h.kind with hkind | hkind <;> rw [hkind] <;> nofun

/-- What a primary expression is read with that is a program of its own: three levels of nesting lie
    above it. -/
def primaryReaders (source : String) : Readers :=
  ⟨phraseAt (fragmentOf source.length) (maxDepth - 3), fragmentOf source.length⟩

/-- A program that is no more than one statement. -/
theorem parse_of_statement (htokens : tokenize source = .ok l) (hne : l.tokens ≠ [])
    (hkind : (Cursor.start l).current.kind ≠ .stop) {s : Stmt}
    (h : phraseAt (fragmentOf source.length) maxDepth .statement (Cursor.start l) = .ok (s, d))
    (hstop : d.current.kind = .stop) : parse source = .ok ⟨[s]⟩ := by
  have hbody := untilStop_of_ok hne hkind h hstop
  unfold parse
  rw [htokens]
  change ((untilStop _).run (Cursor.start l) >>= _) = _
  rw [show (untilStop (phraseAt (fragmentOf source.length) maxDepth .statement)).run
    (Cursor.start l) = _ from hbody]
  rfl

/-- A program that is no more than a primary expression. -/
theorem parse_of_primary (hl : BeginsPrimary source l) {e : Expr}
    (h : Grammar.primary (primaryReaders source) { Cursor.start l with depth := 3 } = .ok (e, d))
    (hstop : d.current.kind = .stop) : parse source = .ok ⟨[.expr e]⟩ :=
  parse_of_statement hl.tokens hl.nonempty hl.ne_stop (statement_of_primary
    (c := Cursor.start l) hl.kind hl.plain (show 0 + 2 < maxDepth by decide) h hstop) hstop

theorem parse_error_of_primary (hl : BeginsPrimary source l)
    (h : Fails (Grammar.primary (primaryReaders source)) { Cursor.start l with depth := 3 }) :
    ∃ err, parse source = .error err := by
  have hstatement := fails_statement_of_primary (c := Cursor.start l) hl.kind hl.plain h
  obtain ⟨err, herr⟩ := (fails_untilStop hl.nonempty hl.ne_stop hstatement).exists_error
  refine ⟨err, ?_⟩
  unfold parse
  rw [hl.tokens]
  change ((untilStop _).run (Cursor.start l) >>= _) = _
  rw [show (untilStop (phraseAt (fragmentOf source.length) maxDepth .statement)).run
    (Cursor.start l) = _ from herr]
  rfl

end Programs

end MemoryShell.Script
