/-
  MemoryShell/Proofs/Syntax/Fragments.lean
  ========================================
  **Expressions as sources of their own, and before a closing mark.**

  What the source of a substitution is read as does not depend on how much room for nesting there
  is, if there is enough, nor on what stands behind a closing mark.  So parentheses around an
  expression do not change it, and no expression goes on behind a brace that ends another one.
-/
import MemoryShell.Proofs.Syntax.Primary
import MemoryShell.Proofs.Syntax.Sources

namespace MemoryShell.Script

open Parse

variable {room : Prop} {t : Token} {us : List Token} {c c' : Cursor} {l : TokenList}

/-! ### Sources of expressions -/

theorem fragmentOf_eq_ok {n : Nat} {source : List Char} {e : Expr} :
    fragmentOf (n + 1) source = .ok e ↔
      ∃ l c, tokenize (String.ofList source) = .ok l ∧
        phraseAt (fragmentOf n) maxDepth .assignment (Cursor.start l) = .ok (e, c) ∧
        c.current.kind = .stop := by
  rw [fragmentOf, except_bind_eq_ok]
  constructor
  · rintro ⟨l, htokens, h⟩
    obtain ⟨⟨e', c⟩, hphrase, h⟩ := except_bind_eq_ok.mp h
    dsimp only at h
    split at h
    · cases h
      exact ⟨l, c, htokens, hphrase, ‹_›⟩
    · obtain ⟨r, hr, -⟩ := except_bind_eq_ok.mp h
      exact absurd hr (Fails.unexpected r)
  · rintro ⟨l, c, htokens, hphrase, hstop⟩
    exact ⟨l, htokens, except_bind_eq_ok.mpr ⟨(e, c), hphrase, if_pos hstop⟩⟩

namespace TokenList.Closed

theorem nameless (h : l.Closed) : Grammar.isMemberName l.stop = false := by
  unfold Grammar.isMemberName
  rw [h.text]
  rfl

theorem beside (h : l.Closed) : Beside room [] (Cursor.start l) (Cursor.start l) := by
  have halong : ∀ ts : List Token, (∀ t ∈ ts, t.kind ≠ .stop) → Along Token.Like [] ts ts := by
    intro ts hts
    induction ts with
    | nil => exact .done
    | cons t ts ih =>
      obtain ⟨ht, hts⟩ := List.forall_mem_cons.mp hts
      exact .next ⟨ht, rfl, rfl, rfl⟩ (ih hts)
  have hclosing : l.stop.kind.Closing := h.stop ▸ .stop
  exact ⟨halong _ h.tokens, h.stop, h.stop, h.nameless, hclosing, nofun, fun _ => Nat.le_refl _,
    fun _ => h.stop⟩

end TokenList.Closed

/-- Where the first of two sources ends, the second one goes on with what it has more. -/
theorem Beside.rest_eq {extra : List Token} (h : Beside room extra c c')
    (hstop : c.current.kind = .stop) : c'.rest = extra := by
  obtain ⟨rest, stop, depth⟩ := c
  obtain ⟨rest', stop', depth'⟩ := c'
  obtain ⟨along, -, -, -, -, -, -, -⟩ := h
  cases along with
  | done => rfl
  | next hlike _ => exact absurd hstop hlike.ne_stop

/-- What the source of a substitution is read as does not depend on the size that bounds how deep
    substitutions nest, as long as it suffices. -/
theorem agrees_fragmentOf {n m : Nat} {source : List Char} {e : Expr}
    (h : fragmentOf n source = .ok e) : Agrees (n ≤ m) e (fragmentOf m source) := by
  induction n generalizing m source e with
  | zero => cases h
  | succ n ih =>
    obtain _ | m := m
    · exact Nat.not_succ_le_zero n
    obtain ⟨l, c, htokens, hphrase, hstop⟩ := fragmentOf_eq_ok.mp h
    have hfragment : ∀ source e, fragmentOf n source = .ok e →
        Agrees (n + 1 ≤ m + 1) e (fragmentOf m source) := by
      intro source e hsource
      rw [Nat.succ_le_succ_iff]
      exact ih hsource
    have htracked := tracks_phraseAt hfragment (fun _ => Nat.le_refl maxDepth) .assignment _ _
      (tokenize_closed htokens).beside _ hphrase
    cases hfragment' : fragmentOf (m + 1) source with
    | ok e' =>
      obtain ⟨l', c', htokens', hphrase', -⟩ := fragmentOf_eq_ok.mp hfragment'
      rw [htokens] at htokens'
      cases htokens'
      rw [hphrase'] at htracked
      exact htracked.1
    | error err =>
      intro hroom
      cases hphrase' : phraseAt (fragmentOf m) maxDepth .assignment (Cursor.start l) with
      | error err' =>
        rw [hphrase'] at htracked
        exact htracked hroom
      | ok r =>
        obtain ⟨e', c'⟩ := r
        rw [hphrase'] at htracked
        obtain ⟨-, hbeside, -⟩ := htracked
        have hstop' : c'.current.kind = .stop := by
          rw [Cursor.current, hbeside.rest_eq hstop]
          exact hbeside.whole hroom
        have hok := fragmentOf_eq_ok.mpr ⟨l, c', htokens, hphrase', hstop'⟩
        rw [hfragment'] at hok
        cases hok

theorem fragmentOf_mono {n m : Nat} {source : List Char} {e : Expr} (hnm : n ≤ m)
    (h : fragmentOf n source = .ok e) : fragmentOf m source = .ok e := by
  have hagrees := agrees_fragmentOf (m := m) h
  cases hfragment : fragmentOf m source with
  | ok e' =>
    rw [hfragment] at hagrees
    exact congrArg Except.ok hagrees
  | error err =>
    rw [hfragment] at hagrees
    exact absurd hnm hagrees

/-- What is read before a closing mark is what is read where the source ends there, and the mark is
    what it goes on with. -/
theorem phraseAt_before_mark {n m levels levels' depth : Nat} {e e' : Expr} {ts : List Token}
    {last : Token} (hl : l.Closed)
    (h : phraseAt (fragmentOf n) levels .assignment (Cursor.start l) = .ok (e, c))
    (hstop : c.current.kind = .stop) (halong : Along Token.Like (t :: us) l.tokens ts)
    (ht : t.kind.Closing)
    (harrow : t.kind = .symbol .rightParen → us.head?.map Token.kind ≠ some (.symbol .arrow))
    (hlast : last.kind = .stop)
    (h' : phraseAt (fragmentOf m) levels' .assignment ⟨ts, last, depth⟩ = .ok (e', c')) :
    e' = e ∧ c'.rest = t :: us ∧ c'.stop.kind = .stop := by
  have hfragment : ∀ source e, fragmentOf n source = .ok e →
      Agrees False e (fragmentOf m source) :=
    fun source e hsource => (agrees_fragmentOf hsource).mono False.elim
  have hbeside : Beside False (t :: us) (Cursor.start l) ⟨ts, last, depth⟩ := by
    refine ⟨halong, hl.stop, hlast, hl.nameless, ht, ?_, nofun, nofun⟩
    rw [List.getElem?_cons_succ, ← List.head?_eq_getElem?]
    exact harrow
  have htracked : Tracked False (t :: us) (Cursor.start l) (e, c)
      (phraseAt (fragmentOf m) levels' .assignment ⟨ts, last, depth⟩) :=
    tracks_phraseAt hfragment nofun .assignment _ _ hbeside _ h
  rw [h'] at htracked
  obtain ⟨heq, hbeside', -⟩ := htracked
  exact ⟨heq, hbeside'.rest_eq hstop, hbeside'.stop'⟩

/-- A text that is an expression, to its end. -/
def IsExpression (source : String) : Prop :=
  ∃ e, fragmentOf (source.length + 1) source.toList = .ok e

theorem IsExpression.of_tokens {source : String} {e : Expr} (htokens : tokenize source = .ok l)
    (h : phraseAt (fragmentOf source.length) maxDepth .assignment (Cursor.start l) = .ok (e, c))
    (hstop : c.current.kind = .stop) : IsExpression source := by
  refine ⟨e, fragmentOf_eq_ok.mpr ⟨l, c, ?_, h, hstop⟩⟩
  rw [String.ofList_toList]
  exact htokens

/-! ### Parentheses -/

theorem primary_identifier {r : Readers} (h : c.current.kind = .identifier) :
    ∃ e, Grammar.primary r c = .ok (e, c.next) := by
  unfold Grammar.primary
  rw [bind_of_ok (current_eq c), h]
  exact ⟨_, rfl⟩

theorem fails_primary_comma {r : Readers} (h : c.current.kind = .symbol .comma) :
    Fails (Grammar.primary r) c := by
  refine Grammar.fails_current ?_
  rw [h]
  exact .unexpected

/-- Behind a name, the parameters of an arrow go on with what no expression goes on with. -/
theorem startsArrow_head {ts : List Token} (h : Grammar.startsArrow ts = true) :
    ∃ t rest, ts = t :: rest ∧ (t.kind ≠ .stop ∧ t.kind ≠ .symbol .arrow) ∧ t.kind.Ends := by
  obtain _ | ⟨t, rest⟩ := ts
  · cases h
  refine ⟨t, rest, rfl, ?_⟩
  unfold Grammar.startsArrow at h
  generalize t.kind = k at h
  split at h
  · exact ⟨⟨nofun, nofun⟩, .identifier⟩
  · exact ⟨⟨nofun, nofun⟩, .comma⟩
  · exact ⟨⟨nofun, nofun⟩, .paren⟩
  · cases h

/-- No expression that is a source of its own begins like the parameters of an arrow behind their
    parenthesis: a name ends before a comma, another name or a closing parenthesis. -/
theorem startsArrow_eq_false {f : List Char → Except SyntaxError Expr} {levels : Nat} {e : Expr}
    (h : phraseAt f (levels + 2) .assignment (Cursor.start l) = .ok (e, c))
    (hstop : c.current.kind = .stop) : Grammar.startsArrow l.tokens = false := by
  obtain ⟨ts, last⟩ := l
  obtain _ | ⟨t, ts⟩ := ts
  · rfl
  have hshallow : (0 : Nat) + 1 < maxDepth := by decide
  unfold Grammar.startsArrow
  split
  · rename_i hname
    cases harrow : Grammar.startsArrow ts with
    | false => rfl
    | true =>
      -- the name is all that is read, and what stands behind it is not the end
      obtain ⟨t₂, ts₂, rfl, hnext, hends⟩ := startsArrow_head harrow
      have hplain : (Cursor.start ⟨t :: t₂ :: ts₂, last⟩).Plain :=
        .of_kind hname (.inr (.inl rfl)) (fun _ heq => hnext.2 (Option.some.inj heq)) nofun
      obtain ⟨e', he'⟩ := primary_identifier (r := ⟨phraseAt f levels, f⟩)
        (c := { Cursor.start ⟨t :: t₂ :: ts₂, last⟩ with depth := 2 }) hname
      have hphrase := phraseAt_of_primary hplain hshallow he' hends
      rw [hphrase] at h
      cases h
      exact absurd hstop hnext.1
  · rename_i hcomma
    have hplain : (Cursor.start ⟨t :: ts, last⟩).Plain :=
      .of_kind hcomma (.inr (.inr (.inl rfl))) nofun nofun
    exact absurd h (fails_phraseAt_of_primary hplain (fails_primary_comma hcomma) _)
  · rename_i hparen
    have hclosing : (Cursor.start ⟨t :: ts, last⟩).current.kind.Closing := hparen ▸ .paren
    exact absurd h (fails_phraseAt f _ (p := .assignment) trivial hclosing _)
  · rfl

theorem tokenize_parenthesized {e : String} (hfree : CommentFree e) (htokens : tokenize e = .ok l) :
    ∃ t u ts last, tokenize ("(" ++ e ++ ")") = .ok ⟨u :: ts, last⟩ ∧
      u.kind = .symbol .leftParen ∧ t.kind = .symbol .rightParen ∧
      Along Token.Like [t] l.tokens ts := by
  obtain ⟨ts, last, hlexes⟩ := Lexes.of_commentFree hfree (Nat.le_refl _) htokens
  obtain rfl := hlexes.eq_of_tokensFrom (Nat.le_refl _) htokens
  have hchars := glyphs_chars ("(" ++ e ++ ")")
  rw [String.toList_append, String.toList_append] at hchars
  unfold tokenize
  generalize glyphs ("(" ++ e ++ ")") = r at hchars ⊢
  obtain ⟨gs, stop⟩ := r
  obtain ⟨g, gs, rfl, hopen, hinside⟩ := List.map_eq_cons_iff.mp hchars
  rw [← glyphs_chars e] at hinside
  obtain ⟨more, hmore, halong⟩ := along_of_chars hinside
  obtain ⟨x, more, rfl, hx, hnil⟩ := List.map_eq_cons_iff.mp hmore
  obtain rfl := List.map_eq_nil_iff.mp hnil
  have hcloses : Closes x.char .rightParen := hx ▸ .paren
  have hend : Lexes stop [] [] ⟨.stop, "", stop, false⟩ := .done rfl
  obtain ⟨t, ts', ht, hts, hlexes'⟩ := hlexes.append hcloses halong hend
  have hblanks : (blanks (g :: gs)).2 = g :: gs := by rw [blanks_cons, hopen]; rfl
  have hnone : opensComment (g :: gs) = false := by rw [opensComment, hopen]; rfl
  have hwhole := Lexes.next hblanks hnone (token_leftParen hopen stop gs) hlexes'
  exact ⟨t, _, ts', _, hwhole.tokensFrom_eq (Nat.le_refl _), rfl, ht, hts⟩

/-- A program that is an expression in parentheses. -/
theorem parse_of_inside {source : String} {u : Token} {ts : List Token} {last : Token} {e : Expr}
    (hbegins : BeginsPrimary source ⟨u :: ts, last⟩) (hu : u.kind = .symbol .leftParen)
    (hinside : (primaryReaders source).phrase .assignment ⟨ts, last, 3⟩ = .ok (e, c))
    (hrest : c.rest = [t]) (ht : t.kind = .symbol .rightParen) (hstop : c.stop.kind = .stop) :
    parse source = .ok ⟨[.expr e]⟩ := by
  have hprimary := Grammar.primary_paren (r := primaryReaders source)
    (c := { Cursor.start ⟨u :: ts, last⟩ with depth := 3 }) hu
  have hmark : c.current.kind = .symbol .rightParen := by rw [Cursor.current, hrest]; exact ht
  have hreads := hprimary.trans ((bind_of_ok hinside).trans (bind_of_ok
    (bind_of_ok (expect_of_eq hmark))))
  refine parse_of_primary hbegins hreads ?_
  rw [Cursor.current, Cursor.next, hrest]
  exact hstop

/-- Parentheses around an expression do not change what it is read as. -/
theorem eq_of_parenthesized {e : String} {E E' : Expr} (hfree : CommentFree e)
    (hsource : fragmentOf (e.length + 1) e.toList = .ok E')
    (hparen : parse ("(" ++ e ++ ")") = .ok ⟨[.expr E]⟩) : E = E' := by
  obtain ⟨l, c, htokens, hphrase, hstop⟩ := fragmentOf_eq_ok.mp hsource
  rw [String.ofList_toList] at htokens
  have hclosed := tokenize_closed htokens
  obtain ⟨t, u, ts, last, htokens', hu, ht, halong⟩ := tokenize_parenthesized hfree htokens
  have hclosing : t.kind.Closing := ht ▸ .paren
  have hlisted : Grammar.startsArrow ts = false := by
    have hmark : ([t].head?.getD last).kind.Closing := hclosing
    rw [Grammar.startsArrow_along halong hmark nofun]
    exact startsArrow_eq_false hphrase hstop
  have hbegins : BeginsPrimary ("(" ++ e ++ ")") ⟨u :: ts, last⟩ :=
    ⟨htokens', nofun, .inr hu, .of_kind hu (.inr (.inr (.inr rfl))) nofun fun _ => hlisted⟩
  have hlast : last.kind = .stop := (tokenize_closed htokens').stop
  have hprimary := Grammar.primary_paren (r := primaryReaders ("(" ++ e ++ ")"))
    (c := { Cursor.start ⟨u :: ts, last⟩ with depth := 3 }) hu
  cases hinside : (primaryReaders ("(" ++ e ++ ")")).phrase .assignment ⟨ts, last, 3⟩ with
  | error err =>
    have hreads : Fails ((primaryReaders ("(" ++ e ++ ")")).phrase .assignment) ⟨ts, last, 3⟩ := by
      intro r hr
      rw [hinside] at hr
      cases hr
    obtain ⟨err, herr⟩ := parse_error_of_primary hbegins fun r hr =>
      hreads.bind r (hprimary.symm.trans hr)
    rw [hparen] at herr
    cases herr
  | ok r =>
    obtain ⟨e', d⟩ := r
    obtain ⟨rfl, hrest, hend⟩ :=
      phraseAt_before_mark hclosed hphrase hstop halong hclosing nofun hlast hinside
    rw [parse_of_inside hbegins hu hinside hrest ht hend] at hparen
    cases hparen
    rfl

/-- No expression goes on behind a closing brace that ends another one. -/
theorem not_isExpression_of_brace {e : String} (hfree : CommentFree e) (hsource : IsExpression e)
    {source rest : List Char} (he : e.toList = source ++ '\x7d' :: rest) {n : Nat} {E : Expr} :
    fragmentOf n source ≠ .ok E := by
  intro hfragment
  obtain ⟨E', hsource⟩ := hsource
  obtain ⟨l', c', htokens', hphrase', hstop'⟩ := fragmentOf_eq_ok.mp hsource
  rw [String.ofList_toList] at htokens'
  obtain _ | n := n
  · cases hfragment
  obtain ⟨l, c, htokens, hphrase, hstop⟩ := fragmentOf_eq_ok.mp hfragment
  have hchars := glyphs_chars e
  have hinside := glyphs_chars (String.ofList source)
  rw [String.toList_ofList] at hinside
  rw [he, ← hinside] at hchars
  obtain ⟨more, hmore, halong⟩ := along_of_chars hchars
  obtain ⟨x, more, rfl, hx, -⟩ := List.map_eq_cons_iff.mp hmore
  have hcloses : Closes x.char .rightBrace := hx ▸ .brace
  obtain ⟨ts', last', hlexes'⟩ := Lexes.of_commentFree hfree (Nat.le_refl _) htokens'
  obtain ⟨t, ts, us, last, ht, hts, hlexes⟩ :=
    hlexes'.before hcloses halong (Nat.le_refl _) htokens
  obtain rfl := hlexes.eq_of_tokensFrom (Nat.le_refl _) htokens
  obtain rfl := hlexes'.eq_of_tokensFrom (Nat.le_refl _) htokens'
  have hclosing : t.kind.Closing := ht ▸ .brace
  have hne : t.kind = .symbol .rightParen → us.head?.map Token.kind ≠ some (.symbol .arrow) := by
    rw [ht]
    nofun
  obtain ⟨-, hrest, -⟩ := phraseAt_before_mark (tokenize_closed htokens) hphrase hstop hts hclosing
    hne (tokenize_closed htokens').stop hphrase'
  rw [Cursor.current, hrest] at hstop'
  have hkind : t.kind = .stop := hstop'
  rw [ht] at hkind
  cases hkind

end MemoryShell.Script
