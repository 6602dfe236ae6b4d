/-
  MemoryShell/Proofs/Syntax/Consuming.lean
  ========================================
  **Every phrase of the grammar takes a token.**

  The grammar is walked with two families of readers for nested phrases, which come to the same on
  the levels that are left.  Then the phrases around them come to the same as well, and each of them
  takes at least a token: it begins with one that it passes over, or with a nested phrase.  The
  families are those with more or fewer levels than are left.  So the number of levels does not
  matter, as long as it is no less.
-/
import MemoryShell.Proofs.Syntax.Progress

namespace MemoryShell.Script

open Parse

variable {l : TokenList} {m n k : Nat} {c d : Cursor} {α β : Type}

/-! ### The readers of nested phrases -/

/-- Readers that come to the same for nested phrases, with no more than a number of levels left, and
    for the templates among the tokens. -/
structure Readers.Agree (l : TokenList) (m : Nat) (r r' : Readers) : Prop where
  phrase : ∀ {α : Type} (p : Phrase α), ∀ n ≤ m, Take l n 1 (r.phrase p) (r'.phrase p)
  template : ∀ t ∈ l.tokens, t.kind = .template →
    templateParts r.fragment t = templateParts r'.fragment t

namespace Readers.Agree

variable {r r' : Readers}

theorem read (H : r.Agree l m r') (p : Phrase α) : Take l m 1 (r.phrase p) (r'.phrase p) :=
  H.phrase p m (Nat.le_refl m)

theorem mono (H : r.Agree l m r') (hn : n ≤ m) : r.Agree l n r' :=
  ⟨fun p k hk => H.phrase p k (Nat.le_trans hk hn), H.template⟩

end Readers.Agree

/-- Passing over the token at a cursor, which is not the end, takes it. -/
theorem TakeAt.skip {p q : Parse α} (hc : c.Within l m) (hrest : c.rest ≠ [])
    (h : Take l m 0 p q) :
    TakeAt l m 1 (Parse.advance >>= fun _ => p) (Parse.advance >>= fun _ => q) c :=
  .advance hc hrest fun _ => Proceed.mono h fun _ _ _ ht => ⟨ht.1, by omega⟩

/-- Passing over a token, or over nothing at the end. -/
theorem Take.skip {p q : Parse α} (h : Take l m 0 p q) :
    Take l m 0 (Parse.advance >>= fun _ => p) (Parse.advance >>= fun _ => q) :=
  Take.advance.bind fun _ => h

/-- What takes a token behind a level that has been taken is a step of a loop. -/
theorem TakeAt.adds {p q : Parse (Option Expr)} (h : TakeAt l n 1 p q c) (hn : m = n + 1) :
    ProceedAt l (Adds m) p q c :=
  ProceedAt.mono h fun _ _ _ ht _ _ => ⟨ht.1 ▸ hn.symm, ht.2⟩

/-- A member of an object is not named by the end of the source. -/
theorem Cursor.Within.rest_ne_nil_of_named (h : c.Within l m) (hl : l.Closed)
    (hnamed : Grammar.isMemberName c.current = true) : c.rest ≠ [] := by
  intro hrest
  have hcurrent : c.current = l.stop := by
    rw [Cursor.current, hrest]
    exact h.stop
  rw [hcurrent, hl.nameless] at hnamed
  cases hnamed

namespace Grammar

variable {r r' : Readers}

/-! ### Blocks and functions -/

theorem takes_block (H : r.Agree l m r') : Take l m 1 (block r) (block r') :=
  (Take.expectSymbol _).bind fun _ => (H.read .statement).untilBrace.take

theorem takes_parameters : Take l m 1 parameters parameters :=
  (Take.expectSymbol _).bind fun _ => (Take.identifier.items _).take

theorem takes_functionRest (H : r.Agree l m r') (needsName : Bool) :
    Take l m 1 (functionRest r needsName) (functionRest r' needsName) := by
  have hbody : ∀ name : Option String, Take l m 1
      (parameters >>= fun params => block r >>= fun body =>
        pure (FunctionDef.mk name params (.block body) false))
      (parameters >>= fun params => block r' >>= fun body =>
        pure (FunctionDef.mk name params (.block body) false)) := fun name =>
    takes_parameters.bind fun params => (takes_block H).bind fun body => .pure _
  refine (Take.check _).bind fun found => ?_
  cases found with
  | true => exact (Take.identifier.map some).bind fun name => (hbody name).weaken (Nat.zero_le _)
  | false =>
    cases needsName with
    | true => exact Proceed.fails_bind fun _ => .unexpected
    | false => exact (Take.pure none).bind hbody

theorem takes_arrowRest (H : r.Agree l m r') (params : List String) :
    Take l m 1 (arrowRest r params) (arrowRest r' params) := by
  refine (Take.expectSymbol _).bind fun _ => (Take.check _).bind fun found => .ite ?_ ?_
  · exact (takes_block H).bind fun body => .pure _
  · exact (H.read .assignment).bind fun e => .pure _

/-! ### Primary expressions -/

theorem takes_memberRest (H : r.Agree l m r') (t : Token) (key : String) :
    Take l m 0 (memberRest r t key) (memberRest r' t key) := by
  refine (Take.eatSymbol _).bind fun found => .ite ?_ ?_
  · exact (H.read .assignment).bind fun e => .pure _
  refine (Take.check _).bind fun found => .ite ?_ ?_
  · exact takes_parameters.bind fun params => (takes_block H).bind fun body => .pure _
  · split
    · exact .pure _
    · exact Proceed.of_fails fun _ => .unexpected

/-- The key of a member is found, or there is none. -/
theorem proceeds_key {kind : TokenKind} {text x : String} {named : Bool} {f g : String → Parse β}
    {Q : β → Nat → Nat → Prop} (hc : c.Within l m) :
    (kind ≠ .stop ∨ named = true → ∀ key, ProceedAt l Q (f key) (g key) c) → ProceedAt l Q
      (match kind with
        | .string => pure text >>= f
        | .number => pure x >>= f
        | _ => if named then pure text >>= f else unexpected >>= f)
      (match kind with
        | .string => pure text >>= g
        | .number => pure x >>= g
        | _ => if named then pure text >>= g else unexpected >>= g) c := by
  intro h
  split
  · exact h (.inl nofun) text
  · exact h (.inl nofun) x
  · cases named with
    | true => exact h (.inr rfl) text
    | false => exact Proceed.fails_bind (fun _ => .unexpected) c hc

theorem takes_objectMember (hl : l.Closed) (H : r.Agree l m r') :
    Take l m 1 (objectMember r) (objectMember r') := by
  refine Proceed.current fun c hc => proceeds_key hc fun hkey key => ?_
  have hrest : c.rest ≠ [] := hkey.elim hc.rest_ne_nil (hc.rest_ne_nil_of_named hl)
  exact TakeAt.skip hc hrest (takes_memberRest H c.current key)

theorem takes_primary (hl : l.Closed) (H : r.Agree l m r') :
    Take l m 1 (primary r) (primary r') := by
  refine Proceed.current fun c hc => ?_
  generalize hkind : c.current.kind = k
  have hskip {p q : Parse Expr} (hk : k ≠ .stop) (h : Take l m 0 p q) :
      TakeAt l m 1 (advance >>= fun _ => p) (advance >>= fun _ => q) c :=
    .skip hc (hc.rest_ne_nil (hkind ▸ hk)) h
  split
  case h_1 =>
    refine hskip nofun ?_
    split
    · exact .pure _
    · exact Proceed.of_fails fun _ => nofun
  case h_3 =>
    have hmem := hc.current_mem_tokens (hkind ▸ nofun)
    exact hskip nofun ((Take.lift (H.template _ hmem hkind)).bind fun parts => .pure _)
  case h_8 =>
    exact hskip nofun ((H.read .assignment).bind fun e => (Take.expectSymbol _).bind fun _ =>
      .pure e)
  case h_9 => exact hskip nofun (((H.read .assignment).items _).take.bind fun es => .pure _)
  case h_10 =>
    exact hskip nofun (((takes_objectMember hl H).items _).take.bind fun members => .pure _)
  case h_11 => exact hskip nofun ((takes_functionRest H false).bind fun f => .pure _)
  case h_12 => exact Proceed.of_fails (fun _ => .unexpected) c hc
  all_goals exact hskip nofun (.pure _)

/-! ### Members, calls and updates -/

theorem takes_arguments (H : r.Agree l m r') : Take l m 1 (arguments r) (arguments r') :=
  (Take.expectSymbol _).bind fun _ => ((H.read .assignment).items _).take

theorem extends_suffix (H : r.Agree l m r') (allowCall : Bool) (e : Expr) :
    Extend l m (suffix r allowCall e) (suffix r' allowCall e) := by
  refine Proceed.current fun c hc => ?_
  generalize hkind : c.current.kind = k
  have hrest (hk : k ≠ .stop) : c.rest ≠ [] := hc.rest_ne_nil (hkind ▸ hk)
  split
  · refine .enter hc fun n hn d hd hwithin =>
      TakeAt.adds (.skip hwithin (hd ▸ hrest nofun) ?_) hn
    refine Proceed.current fun name hname => ?_
    split
    · exact Take.skip (.pure _) name hname
    · exact Proceed.of_fails (fun _ => .unexpected) name hname
  · refine .enter hc fun n hn d hd hwithin =>
      TakeAt.adds (.skip hwithin (hd ▸ hrest nofun) ?_) hn
    exact ((H.mono (by omega)).read .assignment).bind fun key => (Take.expectSymbol _).bind
      fun _ => .pure _
  · refine .enter hc fun n hn d hd hwithin => ?_
    cases allowCall with
    | true =>
      have hcall : Take l n 1 (arguments r >>= fun args => pure (some (Expr.call e args)))
          (arguments r' >>= fun args => pure (some (Expr.call e args))) :=
        (takes_arguments (H.mono (by omega))).bind fun args => .pure _
      exact TakeAt.adds (hcall d hwithin) hn
    | false => exact Proceed.pure nofun d hwithin
  · exact Proceed.pure nofun c hc

theorem takes_construction (hl : l.Closed) (H : r.Agree l m r') :
    Take l m 1 (construction r) (construction r') := by
  have hcallee : Take l m 1 (grow (suffix r false) (primary r))
      (grow (suffix r' false) (primary r')) :=
    (takes_primary hl H).grow fun n hn e => extends_suffix (H.mono hn) false e
  exact hcallee.bind fun callee => (Take.check _).bind fun found =>
    .ite ((takes_arguments H).bind fun args => .pure _) (.pure _)

theorem takes_callMember (hl : l.Closed) (H : r.Agree l m r') :
    Take l m 1 (callMember r) (callMember r') := by
  have hfirst : Take l m 1
      (eatKeyword .newWord >>= fun found => if found then construction r else primary r)
      (eatKeyword .newWord >>= fun found => if found then construction r' else primary r') :=
    (Take.eatKeyword _).bind fun found => .ite (takes_construction hl H) (takes_primary hl H)
  exact hfirst.grow fun n hn e => extends_suffix (H.mono hn) true e

theorem takes_postfixUpdate (hl : l.Closed) (H : r.Agree l m r') :
    Take l m 1 (postfixUpdate r) (postfixUpdate r') := by
  refine (takes_callMember hl H).bind fun e => Proceed.current fun c hc => ?_
  split
  · refine Take.ite (.pure e) (.ite ?_ (.skip (.pure _))) c hc
    exact Proceed.fails_bind fun _ => .failWith
  · exact Take.pure e c hc

/-! ### Operators -/

theorem ne_stop_of_unaryOf? {t : Token} {op : UnaryOp} (h : unaryOf? t = some op) :
    t.kind ≠ .stop := by
  intro hkind
  rw [unaryOf?, hkind] at h
  cases h

theorem ne_stop_of_updateOf? {t : Token} {increment : Bool} (h : updateOf? t = some increment) :
    t.kind ≠ .stop := by
  intro hkind
  rw [updateOf?, hkind] at h
  cases h

theorem takes_unary (hl : l.Closed) (H : r.Agree l m r') : Take l m 1 (unary r) (unary r') := by
  refine Proceed.current fun c hc => ?_
  split
  · have hrest := hc.rest_ne_nil (ne_stop_of_unaryOf? ‹_›)
    exact TakeAt.skip hc hrest ((H.read .unary).bind fun e => .pure _)
  · have hrest := hc.rest_ne_nil (ne_stop_of_updateOf? ‹_›)
    refine TakeAt.skip hc hrest ((H.read .unary).bind fun target => .ite ?_ (.pure _))
    exact Proceed.fails_bind fun _ => .failWith
  · exact takes_postfixUpdate hl H c hc

theorem takes_power (H : r.Agree l m r') : Take l m 1 (power r) (power r') :=
  (H.read .unary).bind fun base => (Take.eatSymbol _).bind fun _ =>
    .ite ((H.read .power).bind fun _ => .pure _) (.pure base)

theorem combine_stop (k : Nat) : combine k .stop = none := by
  match k with
  | 0 | 1 | 2 | 3 | 4 | _ + 5 => rfl

/-- An operator is a token, and takes a level for its operand. -/
theorem extends_levelStep {operand operand' : Parse Expr} (k : Nat)
    (h : ∀ n ≤ m, Take l n 1 operand operand') (left : Expr) :
    Extend l m (levelStep (combine k) operand left) (levelStep (combine k) operand' left) := by
  refine Proceed.current fun c hc => ?_
  split
  · exact Proceed.pure nofun c hc
  · rename_i make hmake
    have hkind : c.current.kind ≠ .stop := by
      intro hstop
      rw [hstop, combine_stop] at hmake
      cases hmake
    refine .advance hc (hc.rest_ne_nil hkind) fun _ => .enter fun n hn => ?_
    refine Proceed.bind (h n (by omega)) fun right levels taken ht => .pure fun _ _ => ?_
    exact ⟨ht.1 ▸ hn.symm, by omega⟩

theorem takes_operation (H : r.Agree l m r') (k : Nat) :
    Take l m 1 (operation r k) (operation r' k) := by
  induction k generalizing m with
  | zero => exact takes_power H
  | succ k ih =>
    exact (ih H).grow fun n hn e =>
      extends_levelStep k (fun n' hn' => ih (H.mono (Nat.le_trans hn' hn))) e

theorem takes_conditional (H : r.Agree l m r') : Take l m 1 (conditional r) (conditional r') :=
  (takes_operation H 6).bind fun test => (Take.eatSymbol _).bind fun _ =>
    .ite ((H.read .assignment).bind fun _ => (Take.expectSymbol _).bind fun _ =>
      (H.read .assignment).bind fun _ => .pure _) (.pure test)

theorem takes_assignment (H : r.Agree l m r') : Take l m 1 (assignment r) (assignment r') := by
  have hatArrow : Take l m 0 atArrow atArrow := .look fun _ => rfl
  refine (Take.check _).bind fun named => (Take.checkNextSymbol _).bind fun found =>
    .ite (Take.identifier.bind fun param => (takes_arrowRest H [param]).weaken (Nat.zero_le _)) ?_
  refine hatArrow.bind fun found =>
    .ite (takes_parameters.bind fun params => (takes_arrowRest H params).weaken (Nat.zero_le _)) ?_
  refine (takes_conditional H).bind fun left => Proceed.current fun c hc => ?_
  split
  · exact Take.pure left c hc
  · have hvalue : ∀ op, Take l m 0
        (advance >>= fun _ => r.phrase .assignment >>= fun value =>
          pure (Expr.assign op left value))
        (advance >>= fun _ => r'.phrase .assignment >>= fun value =>
          pure (Expr.assign op left value)) :=
      fun op => .skip ((H.read .assignment).bind fun value => .pure _)
    exact Take.ite (Proceed.fails_bind fun _ => .failWith) (hvalue _) c hc

/-! ### Statements -/

theorem takes_declaration (H : r.Agree l m r') (kind : DeclKind) :
    Take l m 1 (declaration r kind) (declaration r' kind) := by
  refine Take.identifier.bind fun name => (Take.eatSymbol _).bind fun found =>
    .ite ((H.read .assignment).bind fun e => .pure _) ?_
  split
  · exact Proceed.fails_bind fun _ => .failWith
  · exact .pure _

theorem takes_declarations (H : r.Agree l m r') (kind : DeclKind) :
    Take l m 0 (declarations r kind) (declarations r' kind) :=
  (takes_declaration H kind).commaSeparated.take.bind fun _ => .pure _

theorem takes_parenthesized (H : r.Agree l m r') :
    Take l m 1 (parenthesized r) (parenthesized r') :=
  (Take.expectSymbol _).bind fun _ => (H.read .assignment).bind fun e =>
    (Take.expectSymbol _).bind fun _ => .pure e

theorem takes_ifRest (H : r.Agree l m r') : Take l m 0 (ifRest r) (ifRest r') :=
  (takes_parenthesized H).bind fun _ => (H.read .statement).bind fun _ =>
    (Take.eatKeyword _).bind fun _ =>
      .ite ((H.read .statement).bind fun _ => .pure _) (.pure _)

theorem takes_eachLoop (H : r.Agree l m r') (kind : Option DeclKind) (elements : Bool) :
    Take l m 0 (eachLoop r kind elements) (eachLoop r' kind elements) :=
  Take.identifier.bind fun _ => .skip <| (H.read .assignment).bind fun _ =>
    (Take.expectSymbol _).bind fun _ => (H.read .statement).bind fun _ => .pure _

theorem takes_eachRest (H : r.Agree l m r') (kind : Option DeclKind) (elements : Bool) :
    Take l m 0 (eachRest r kind elements) (eachRest r' kind elements) := by
  have hloop := takes_eachLoop H kind elements
  cases kind with
  | none => exact hloop
  | some kind => exact .skip hloop

theorem takes_unlessSymbol (s : Symbol) {p q : Parse α} (h : Take l m 0 p q) :
    Take l m 0 (unlessSymbol s p) (unlessSymbol s q) :=
  (Take.check _).bind fun _ => .ite (.pure none) (h.bind fun _ => .pure _)

theorem takes_loopStart (H : r.Agree l m r') (kind : Option DeclKind) :
    Take l m 0 (loopStart r kind) (loopStart r' kind) := by
  cases kind with
  | none => exact (H.read .assignment).bind fun e => .pure _
  | some kind => exact .skip (takes_declarations H kind)

theorem takes_loopRest (H : r.Agree l m r') (kind : Option DeclKind) :
    Take l m 0 (loopRest r kind) (loopRest r' kind) := by
  have hexpression : Take l m 0 (expression r) (expression r') :=
    (H.read .assignment).weaken (Nat.zero_le _)
  exact (takes_unlessSymbol _ (takes_loopStart H kind)).bind fun start =>
    (Take.expectSymbol _).bind fun _ => (takes_unlessSymbol _ hexpression).bind fun test =>
    (Take.expectSymbol _).bind fun _ => (takes_unlessSymbol _ hexpression).bind fun update =>
    (Take.expectSymbol _).bind fun _ => (H.read .statement).bind fun body => .pure _

theorem takes_forRest (H : r.Agree l m r') : Take l m 0 (forRest r) (forRest r') := by
  refine (Take.expectSymbol _).bind fun _ => Proceed.current fun c hc => ?_
  refine Take.bind (.look (eachAhead_eq _)) (fun elements => ?_) c hc
  cases elements with
  | some elements => exact takes_eachRest H _ elements
  | none => exact takes_loopRest H _

theorem takes_finallyRest (H : r.Agree l m r') (guarded : List Stmt) (param : Option String)
    (handler : Option (List Stmt)) :
    Take l m 0 (finallyRest r guarded param handler) (finallyRest r' guarded param handler) := by
  have hend : ∀ finalizer : Option (List Stmt), Take l m 0
      (if (handler.isNone && finalizer.isNone) = true then
        (failWith .missingHandler : Parse Unit) >>= fun _ =>
          pure (Stmt.tryCatch guarded param handler finalizer)
        else pure (.tryCatch guarded param handler finalizer))
      (if (handler.isNone && finalizer.isNone) = true then
        (failWith .missingHandler : Parse Unit) >>= fun _ =>
          pure (Stmt.tryCatch guarded param handler finalizer)
        else pure (.tryCatch guarded param handler finalizer)) := fun finalizer =>
    .ite (Proceed.fails_bind fun _ => .failWith) (.pure _)
  exact (Take.eatKeyword _).bind fun found =>
    .ite (((takes_block H).map some).bind hend) ((Take.pure none).bind hend)

theorem takes_tryRest (H : r.Agree l m r') : Take l m 0 (tryRest r) (tryRest r') := by
  refine (takes_block H).bind fun guarded => (Take.eatKeyword _).bind fun caught => ?_
  have hhandler : ∀ param : Option String, Take l m 0
      (block r >>= fun body => finallyRest r guarded param (some body))
      (block r' >>= fun body => finallyRest r' guarded param (some body)) := fun param =>
    (takes_block H).bind fun body => takes_finallyRest H guarded param _
  refine .ite ((Take.eatSymbol _).bind fun named => .ite ?_ ?_) ?_
  · exact Take.identifier.bind fun name => (Take.expectSymbol _).bind fun _ =>
      hhandler (some name)
  · exact hhandler none
  · exact takes_finallyRest H guarded none none

theorem takes_returnRest (H : r.Agree l m r') : Take l m 0 (returnRest r) (returnRest r') := by
  have hend : ∀ value : Option Expr, Take l m 0
      (endStatement >>= fun _ => pure (Stmt.returnWith value))
      (endStatement >>= fun _ => pure (Stmt.returnWith value)) :=
    fun value => Take.endStatement.bind fun _ => .pure _
  exact Proceed.current fun c hc =>
    Take.ite (hend none) (((H.read .assignment).map some).bind hend) c hc

theorem takes_statement (H : r.Agree l m r') : Take l m 1 (statement r) (statement r') := by
  have hended {s : Stmt} : Take l m 0 (endStatement >>= fun _ => pure s)
      (endStatement >>= fun _ => pure s) := Take.endStatement.bind fun _ => .pure s
  have hdeclarations : ∀ kind, Take l m 0
      (declarations r kind >>= fun s => endStatement >>= fun _ => pure s)
      (declarations r' kind >>= fun s => endStatement >>= fun _ => pure s) := fun kind =>
    (takes_declarations H kind).bind fun s => hended
  refine Proceed.current fun c hc => ?_
  generalize hkind : c.current.kind = k
  have hskip {p q : Parse Stmt} (hk : k ≠ .stop) (h : Take l m 0 p q) :
      TakeAt l m 1 (advance >>= fun _ => p) (advance >>= fun _ => q) c :=
    .skip hc (hc.rest_ne_nil (hkind ▸ hk)) h
  split
  case h_1 => exact (takes_block H).bind (fun body => .pure _) c hc
  case h_2 => exact hskip nofun (.pure _)
  case h_3 | h_4 | h_5 => exact hskip nofun (hdeclarations _)
  case h_6 => exact hskip nofun ((takes_functionRest H true).bind fun f => .pure _)
  case h_7 => exact hskip nofun (takes_ifRest H)
  case h_8 =>
    exact hskip nofun ((takes_parenthesized H).bind fun test => (H.read .statement).bind
      fun body => .pure _)
  case h_9 =>
    exact hskip nofun ((H.read .statement).bind fun body => (Take.expectKeyword _).bind fun _ =>
      (takes_parenthesized H).bind fun test => (Take.eatSymbol _).bind fun _ => .pure _)
  case h_10 => exact hskip nofun (takes_forRest H)
  case h_11 => exact hskip nofun (takes_returnRest H)
  case h_12 | h_13 => exact hskip nofun hended
  case h_14 =>
    have hvalue : Take l m 0
        (expression r >>= fun e => endStatement >>= fun _ => pure (Stmt.throwValue e))
        (expression r' >>= fun e => endStatement >>= fun _ => pure (Stmt.throwValue e)) :=
      (H.read .assignment).bind fun e => hended
    exact hskip nofun (Proceed.current fun d hd =>
      Take.ite (Proceed.fails_bind fun _ => .unexpected) hvalue d hd)
  case h_15 => exact hskip nofun (takes_tryRest H)
  case h_16 => exact (H.read .assignment).bind (fun e => hended) c hc

/-! ### Phrases -/

theorem takes_phrase (hl : l.Closed) (H : r.Agree l m r') (p : Phrase α) :
    Take l m 1 (phrase r p) (phrase r' p) := by
  cases p with
  | statement => exact takes_statement H
  | assignment => exact takes_assignment H
  | power => exact takes_power H
  | unary => exact takes_unary hl H

end Grammar

/-- Where no level is left, no phrase begins. -/
theorem phraseAt_of_full {f : List Char → Except SyntaxError Expr} {levels : Nat} {p : Phrase α}
    (hc : c.Within l 0) :
    phraseAt f levels p c = .error ⟨.nestingTooDeep, c.current.position⟩ := by
  have hroom := hc.room
  cases levels with
  | zero => rfl
  | succ levels => exact bind_of_error (if_pos (by omega))

theorem takes_phraseAt_zero {f f' : List Char → Except SyntaxError Expr} {levels levels' : Nat}
    {p : Phrase α} : Take l 0 1 (phraseAt f levels p) (phraseAt f' levels' p) := by
  refine fun c hc => ⟨(phraseAt_of_full hc).trans (phraseAt_of_full hc).symm, ?_⟩
  rw [phraseAt_of_full hc]
  exact nofun

/-- A phrase takes a token, and does not depend on the number of levels below it, as long as it is
    no less than what is left. -/
theorem takes_phraseAt (hl : l.Closed) {f f' : List Char → Except SyntaxError Expr}
    (hf : ∀ t ∈ l.tokens, t.kind = .template → templateParts f t = templateParts f' t)
    {levels levels' : Nat} (hlevels : m ≤ levels) (hlevels' : m ≤ levels') (p : Phrase α) :
    Take l m 1 (phraseAt f levels p) (phraseAt f' levels' p) := by
  induction levels generalizing α m levels' with
  | zero =>
    obtain rfl := Nat.le_zero.mp hlevels
    exact takes_phraseAt_zero
  | succ levels ih =>
    cases levels' with
    | zero =>
      obtain rfl := Nat.le_zero.mp hlevels'
      exact takes_phraseAt_zero
    | succ levels' =>
      refine .nested fun n hn => Grammar.takes_phrase hl ⟨fun p k hk => ?_, hf⟩ p
      exact ih (by omega) (by omega) p

end MemoryShell.Script
