/-
  MemoryShell/Proofs/Syntax/Places.lean
  =====================================
  **Where tokens stand does not matter to what is read.**

  Two lists of tokens that differ in places alone are read as the same program, or neither is read
  and both readings fail for the same cause.  A reader looks at a place only when it fails, to say
  where it did; so each reader of the grammar is shown to do the same at two cursors that are
  parallel, from those that it is made of.

  The texts of templates are sources of their own, and the readers for them differ in the size that
  bounds how deep they nest; so the templates ahead of the cursors are short enough for both.
-/
import MemoryShell.Proofs.Syntax.Nesting
import MemoryShell.Proofs.Syntax.Spacing

namespace MemoryShell.Script

open Parse

/-- Outcomes that differ in the place of an error at most. -/
def SameOutcome {α : Type} (x y : Except SyntaxError α) : Prop :=
  x.mapError SyntaxError.cause = y.mapError SyntaxError.cause

namespace SameOutcome

variable {α β : Type} {x y : Except SyntaxError α} {f g : α → Except SyntaxError β}

theorem bind (h : SameOutcome x y) (hf : ∀ a, x = .ok a → SameOutcome (f a) (g a)) :
    SameOutcome (x >>= f) (y >>= g) := by
  cases x with
  | error e =>
    cases y with
    | error e' => exact congrArg Except.error (Except.error.inj h)
    | ok a => cases h
  | ok a =>
    cases y with
    | error e => cases h
    | ok a' =>
      cases h
      exact hf a rfl

end SameOutcome

/-! ### Cursors at the same tokens -/

/-- Two cursors at tokens that differ in their places at most.  The texts of the templates ahead are
    shorter than a bound. -/
structure Parallel (bound : Nat) (c c' : Cursor) : Prop where
  rest : Along Token.Same [] c.rest c'.rest
  stop : c.stop.Same c'.stop
  ends : c.stop.kind = .stop
  depth : c'.depth = c.depth
  short : ∀ t ∈ c.rest, t.kind = .template → t.text.length < bound

variable {bound : Nat} {c c' : Cursor} {α β : Type}

namespace Parallel

theorem current (h : Parallel bound c c') : c.current.Same c'.current := by
  obtain ⟨rest, stop, depth⟩ := c
  obtain ⟨rest', stop', depth'⟩ := c'
  obtain ⟨along, hstop, -, -, -⟩ := h
  cases along with
  | done => exact hstop
  | next hsame _ => exact hsame

theorem short_current (h : Parallel bound c c') (hkind : c.current.kind = .template) :
    c.current.text.length < bound := by
  obtain ⟨rest, stop, depth⟩ := c
  cases rest with
  | nil =>
    have hstop : stop.kind = .template := hkind
    rw [show stop.kind = .stop from h.ends] at hstop
    cases hstop
  | cons t rest => exact h.short t List.mem_cons_self hkind

theorem next (h : Parallel bound c c') : Parallel bound c.next c'.next := by
  obtain ⟨rest, stop, depth⟩ := c
  obtain ⟨rest', stop', depth'⟩ := c'
  obtain ⟨along, hstop, hends, hdepth, hshort⟩ := h
  cases along with
  | done => exact ⟨.done, hstop, hends, hdepth, nofun⟩
  | next _ along =>
    exact ⟨along, hstop, hends, hdepth, fun t ht => hshort t (List.mem_cons_of_mem _ ht)⟩

theorem withDepth (h : Parallel bound c c') (n : Nat) :
    Parallel bound { c with depth := n } { c' with depth := n } :=
  ⟨h.rest, h.stop, h.ends, rfl, h.short⟩

end Parallel

theorem Along.length_eq {R : α → α → Prop} {as as' : List α} (h : Along R [] as as') :
    as'.length = as.length := by
  induction h with
  | done => rfl
  | next _ _ ih => rw [List.length_cons, List.length_cons, ih]

/-- The same at every place of two lists of the same tokens. -/
theorem Along.map_eq {γ : Type} {R : α → α → Prop} {f : α → γ} (hf : ∀ a a', R a a' → f a' = f a)
    {as as' : List α} (h : Along R [] as as') : as'.map f = as.map f := by
  induction h with
  | done => rfl
  | next hR _ ih => rw [List.map_cons, List.map_cons, hf _ _ hR, ih]

/-! ### Matching -/

/-- What two readings come to: the same and parallel cursors, or errors of the same cause. -/
inductive Matched (bound : Nat) :
    Except SyntaxError (α × Cursor) → Except SyntaxError (α × Cursor) → Prop where
  | ok {a : α} {c c' : Cursor} : Parallel bound c c' → Matched bound (.ok (a, c)) (.ok (a, c'))
  | error {e e' : SyntaxError} : e'.cause = e.cause → Matched bound (.error e) (.error e')

/-- Reading `q` comes to the same as reading `p`, wherever the same tokens stand. -/
def Matches (bound : Nat) (p q : Parse α) : Prop :=
  ∀ c c', Parallel bound c c' → Matched bound (p c) (q c')

namespace Matches

variable {p q : Parse α} {f g : α → Parse β}

theorem pure (a : α) : Matches bound (Pure.pure a) (Pure.pure a) := fun _ _ h => .ok h

theorem bind_at {c c' : Cursor} (h : Matched bound (p c) (q c'))
    (hf : ∀ a d d', Parallel bound d d' → Matched bound (f a d) (g a d')) :
    Matched bound ((p >>= f) c) ((q >>= g) c') := by
  cases hp : p c with
  | error e =>
    rw [hp] at h
    cases hq : q c' with
    | error e' =>
      rw [hq] at h
      cases h with
      | error hcause =>
        rw [bind_of_error hp, bind_of_error hq]
        exact .error hcause
    | ok r =>
      rw [hq] at h
      cases h
  | ok r =>
    obtain ⟨a, d⟩ := r
    rw [hp] at h
    cases hq : q c' with
    | error e' =>
      rw [hq] at h
      cases h
    | ok r' =>
      obtain ⟨a', d'⟩ := r'
      rw [hq] at h
      cases h with
      | ok hparallel =>
        rw [bind_of_ok hp, bind_of_ok hq]
        exact hf a d d' hparallel

theorem bind (h : Matches bound p q) (hf : ∀ a, Matches bound (f a) (g a)) :
    Matches bound (p >>= f) (q >>= g) :=
  fun c c' hc => bind_at (h c c' hc) fun a d d' hd => hf a d d' hd

theorem map (f : α → β) (h : Matches bound p q) : Matches bound (f <$> p) (f <$> q) :=
  h.bind fun a => pure (f a)

theorem ite {b : Bool} {p' q' : Parse α} (h : Matches bound p q) (h' : Matches bound p' q') :
    Matches bound (if b then p else p') (if b then q else q') := by
  cases b with
  | true => exact h
  | false => exact h'

/-- An outcome that is no reading. -/
theorem lift {x y : Except SyntaxError α} (h : SameOutcome x y) :
    Matches bound (liftM x) (liftM y) := by
  intro c c' hc
  cases x with
  | error e =>
    cases y with
    | error e' => exact .error (Except.error.inj h).symm
    | ok a => cases h
  | ok a =>
    cases y with
    | error e => cases h
    | ok a' =>
      cases h
      exact .ok hc

/-! ### Looking -/

/-- What is looked up without moving, and does not depend on places. -/
theorem look {p : Parse α} {v : Cursor → α} (hp : ∀ c, p c = .ok (v c, c))
    (hv : ∀ c c', Parallel bound c c' → v c' = v c) : Matches bound p p := by
  intro c c' hc
  rw [hp, hp, hv c c' hc]
  exact .ok hc

theorem current {f g : Token → Parse β}
    (h : ∀ t t' : Token, t.Same t' → (t.kind = .template → t.text.length < bound) →
      Matches bound (f t) (g t')) :
    Matches bound (Parse.current >>= f) (Parse.current >>= g) :=
  fun c c' hc => h c.current c'.current hc.current hc.short_current c c' hc

theorem check (k : TokenKind) : Matches bound (Parse.check k) (Parse.check k) :=
  look (fun _ => rfl) fun c c' hc => by rw [hc.current.kind]

theorem depth : Matches bound Parse.depth Parse.depth := look (fun _ => rfl) fun _ _ hc => hc.depth

theorem remaining : Matches bound Parse.remaining Parse.remaining :=
  look (fun _ => rfl) fun _ _ hc => hc.rest.length_eq

/-! ### Moving -/

theorem advance {f g : Token → Parse β} (h : ∀ t t', t.Same t' → Matches bound (f t) (g t')) :
    Matches bound (Parse.advance >>= f) (Parse.advance >>= g) :=
  fun c c' hc => h _ _ hc.current c.next c'.next hc.next

/-- Passing over a token. -/
theorem skip (h : Matches bound p q) :
    Matches bound (Parse.advance >>= fun _ => p) (Parse.advance >>= fun _ => q) :=
  advance fun _ _ _ => h

theorem eat (k : TokenKind) : Matches bound (Parse.eat k) (Parse.eat k) := by
  intro c c' hc
  unfold Parse.eat
  rw [hc.current.kind]
  split
  · exact .ok hc.next
  · exact .ok hc

theorem eatSymbol (s : Symbol) : Matches bound (Parse.eatSymbol s) (Parse.eatSymbol s) := eat _

theorem eatKeyword (k : Keyword) : Matches bound (Parse.eatKeyword k) (Parse.eatKeyword k) := eat _

/-! ### Failing -/

theorem failWith (cause : SyntaxCause) :
    Matches bound (Parse.failWith cause : Parse α) (Parse.failWith cause) :=
  fun _ _ _ => .error rfl

theorem unexpected : Matches bound (Parse.unexpected : Parse α) Parse.unexpected := by
  intro c c' hc
  unfold Parse.unexpected
  dsimp only
  rw [hc.current.kind, hc.current.text]
  split
  · exact .error rfl
  · exact .error rfl

theorem expect {k : TokenKind} {f g : Token → Parse β}
    (h : ∀ t t', t.Same t' → Matches bound (f t) (g t')) :
    Matches bound (Parse.expect k >>= f) (Parse.expect k >>= g) := by
  intro c c' hc
  by_cases hkind : c.current.kind = k
  · rw [bind_of_ok (expect_of_eq hkind),
      bind_of_ok (expect_of_eq (hc.current.kind.trans hkind))]
    exact h _ _ hc.current _ _ hc.next
  · have hunexpected : Matched bound (Parse.expect k c) (Parse.expect k c') := by
      rw [expect_of_ne hkind, expect_of_ne fun heq => hkind (hc.current.kind.symm.trans heq)]
      exact unexpected c c' hc
    obtain ⟨e, he⟩ := (fails_expect hkind).exists_error
    obtain ⟨e', he'⟩ :=
      (fails_expect (c := c') fun heq => hkind (hc.current.kind.symm.trans heq)).exists_error
    rw [he, he'] at hunexpected
    rw [bind_of_error he, bind_of_error he']
    cases hunexpected with
    | error hcause => exact .error hcause

theorem expectSymbol (s : Symbol) : Matches bound (Parse.expectSymbol s) (Parse.expectSymbol s) :=
  expect fun _ _ _ => pure ()

theorem expectKeyword (k : Keyword) :
    Matches bound (Parse.expectKeyword k) (Parse.expectKeyword k) :=
  expect fun _ _ _ => pure ()

theorem identifier : Matches bound Parse.identifier Parse.identifier := by
  refine expect fun t t' hsame => ?_
  rw [hsame.text]
  exact pure t.text

theorem endStatement : Matches bound Parse.endStatement Parse.endStatement := by
  refine (eatSymbol _).bind fun found => ite (pure ()) (current fun t t' hsame _ => ?_)
  rw [hsame.kind, hsame.afterNewline]
  split
  · exact pure ()
  · exact unexpected

/-! ### Depth -/

theorem setDepth (n : Nat) : Matches bound (Parse.setDepth n) (Parse.setDepth n) :=
  fun _ _ hc => .ok (hc.withDepth n)

theorem enter : Matches bound Parse.enter Parse.enter := by
  intro c c' hc
  unfold Parse.enter
  rw [hc.depth]
  split
  · exact .error rfl
  · exact .ok (hc.withDepth _)

theorem nested (h : Matches bound p q) : Matches bound (Parse.nested p) (Parse.nested q) :=
  enter.bind fun _ => h.bind fun a => depth.bind fun _ => (setDepth _).bind fun _ => pure a

/-! ### Repetition -/

theorem growFrom {step step' : Expr → Parse (Option Expr)}
    (h : ∀ e, Matches bound (step e) (step' e)) (fuel : Nat) (e : Expr) :
    Matches bound (Parse.growFrom step fuel e) (Parse.growFrom step' fuel e) := by
  induction fuel generalizing e with
  | zero => exact pure e
  | succ fuel ih =>
    refine (h e).bind fun grown => ?_
    cases grown with
    | none => exact pure e
    | some e => exact ih e

theorem grow {step step' : Expr → Parse (Option Expr)} {first first' : Parse Expr}
    (h : ∀ e, Matches bound (step e) (step' e)) (hfirst : Matches bound first first') :
    Matches bound (Parse.grow step first) (Parse.grow step' first') :=
  depth.bind fun base => hfirst.bind fun e => (growFrom h _ e).bind fun e =>
    (setDepth base).bind fun _ => pure e

section Lists

variable {item item' : Parse α} (h : Matches bound item item')
include h

theorem itemsFrom (s : Symbol) (fuel : Nat) :
    Matches bound (Parse.itemsFrom s item fuel) (Parse.itemsFrom s item' fuel) := by
  induction fuel with
  | zero => exact (expectSymbol s).bind fun _ => pure []
  | succ fuel ih =>
    exact (eatSymbol s).bind fun found => ite (pure []) <| h.bind fun a =>
      (eatSymbol .comma).bind fun found => ite (ih.bind fun as => pure (a :: as))
        ((expectSymbol s).bind fun _ => pure [a])

theorem items (s : Symbol) : Matches bound (Parse.items s item) (Parse.items s item') :=
  remaining.bind fun fuel => itemsFrom h s (fuel + 1)

theorem commaSeparatedFrom (fuel : Nat) :
    Matches bound (Parse.commaSeparatedFrom item fuel) (Parse.commaSeparatedFrom item' fuel) := by
  induction fuel with
  | zero => exact h.bind fun a => pure [a]
  | succ fuel ih =>
    exact h.bind fun a => (eatSymbol .comma).bind fun found =>
      ite (ih.bind fun as => pure (a :: as)) (pure [a])

theorem commaSeparated :
    Matches bound (Parse.commaSeparated item) (Parse.commaSeparated item') :=
  remaining.bind (commaSeparatedFrom h)

theorem untilStopFrom (fuel : Nat) :
    Matches bound (Parse.untilStopFrom item fuel) (Parse.untilStopFrom item' fuel) := by
  induction fuel with
  | zero => exact pure []
  | succ fuel ih =>
    exact (check .stop).bind fun found => ite (pure []) <| h.bind fun a =>
      ih.bind fun as => pure (a :: as)

theorem untilStop : Matches bound (Parse.untilStop item) (Parse.untilStop item') :=
  remaining.bind (untilStopFrom h)

theorem untilBraceFrom (fuel : Nat) :
    Matches bound (Parse.untilBraceFrom item fuel) (Parse.untilBraceFrom item' fuel) := by
  induction fuel with
  | zero => exact (expectSymbol _).bind fun _ => pure []
  | succ fuel ih =>
    have hitem : Matches bound
        (item >>= fun a => Parse.untilBraceFrom item fuel >>= fun as => Pure.pure (a :: as))
        (item' >>= fun a => Parse.untilBraceFrom item' fuel >>= fun as => Pure.pure (a :: as)) :=
      h.bind fun a => ih.bind fun as => pure (a :: as)
    exact (eatSymbol _).bind fun found => ite (pure []) <| (check .stop).bind fun found =>
      ite (unexpected.bind fun _ => hitem) hitem

theorem untilBrace : Matches bound (Parse.untilBrace item) (Parse.untilBrace item') :=
  remaining.bind (untilBraceFrom h)

end Lists

end Matches

/-- Readers that come to the same for nested phrases, and for sources below a bound. -/
structure Readers.Match (bound : Nat) (r r' : Readers) : Prop where
  phrase : ∀ {α : Type} (p : Phrase α), Matches bound (r.phrase p) (r'.phrase p)
  fragment : ∀ source : List Char, source.length < bound →
    SameOutcome (r.fragment source) (r'.fragment source)

namespace Grammar

variable {r r' : Readers}

/-! ### Blocks and functions -/

theorem matches_block (H : r.Match bound r') : Matches bound (block r) (block r') :=
  (Matches.expectSymbol _).bind fun _ => (H.phrase .statement).untilBrace

theorem matches_parameters : Matches bound parameters parameters :=
  (Matches.expectSymbol _).bind fun _ => Matches.identifier.items _

theorem matches_functionRest (H : r.Match bound r') (needsName : Bool) :
    Matches bound (functionRest r needsName) (functionRest r' needsName) := by
  have hbody : ∀ name : Option String, Matches bound
      (parameters >>= fun params => block r >>= fun body =>
        pure (FunctionDef.mk name params (.block body) false))
      (parameters >>= fun params => block r' >>= fun body =>
        pure (FunctionDef.mk name params (.block body) false)) := fun name =>
    matches_parameters.bind fun params => (matches_block H).bind fun body => .pure _
  refine (Matches.check _).bind fun found => ?_
  cases found with
  | true => exact (Matches.identifier.map some).bind hbody
  | false =>
    cases needsName with
    | true => exact Matches.unexpected.bind hbody
    | false => exact (Matches.pure none).bind hbody

theorem matches_arrowRest (H : r.Match bound r') (params : List String) :
    Matches bound (arrowRest r params) (arrowRest r' params) := by
  refine (Matches.expectSymbol _).bind fun _ => (Matches.check _).bind fun found => .ite ?_ ?_
  · exact (matches_block H).bind fun body => .pure _
  · exact (H.phrase .assignment).bind fun e => .pure _

/-! ### Primary expressions -/

theorem matches_memberRest (H : r.Match bound r') (t : Token) (key : String) :
    Matches bound (memberRest r t key) (memberRest r' t key) := by
  refine (Matches.eatSymbol _).bind fun found => .ite ?_ ?_
  · exact (H.phrase .assignment).bind fun e => .pure _
  refine (Matches.check _).bind fun found => .ite ?_ ?_
  · exact matches_parameters.bind fun params => (matches_block H).bind fun body => .pure _
  · split
    · exact .pure _
    · exact .unexpected

/-- The key of a member is found at both cursors, or at neither. -/
theorem matches_key {k : TokenKind} {text x : String} {named : Bool} {f g : String → Parse β}
    (h : ∀ key, Matches bound (f key) (g key)) :
    Matches bound
      (match k with
        | .string => pure text >>= f
        | .number => pure x >>= f
        | _ => if named then pure text >>= f else unexpected >>= f)
      (match k with
        | .string => pure text >>= g
        | .number => pure x >>= g
        | _ => if named then pure text >>= g else unexpected >>= g) := by
  split
  · exact (Matches.pure _).bind h
  · exact (Matches.pure _).bind h
  · exact .ite ((Matches.pure _).bind h) (Matches.unexpected.bind h)

theorem matches_objectMember (H : r.Match bound r') :
    Matches bound (objectMember r) (objectMember r') := by
  refine .current fun t t' hsame _ => ?_
  have hrest : ∀ key, Matches bound (advance >>= fun _ => memberRest r t key)
      (advance >>= fun _ => memberRest r' t key) := fun key => .skip (matches_memberRest H t key)
  rw [hsame.kind, hsame.text, hsame.isMemberName, hsame.numberValue?]
  exact matches_key hrest

/-- The substitutions of a template are shorter than its text. -/
theorem sameOutcome_templatePartsFrom {f f' : List Char → Except SyntaxError Expr}
    (hf : ∀ source : List Char, source.length < bound → SameOutcome (f source) (f' source))
    (p p' : Position) (fuel : Nat) (literal text : List Char) (hshort : text.length < bound) :
    SameOutcome (templatePartsFrom f p fuel literal text)
      (templatePartsFrom f' p' fuel literal text) := by
  induction fuel, literal, text using templatePartsFrom.induct with
  | case1 | case2 =>
    unfold templatePartsFrom
    rfl
  | case3 fuel literal escaped rest ih =>
    simp only [List.length_cons] at hshort
    exact ih (by omega)
  | case4 fuel literal inner hmatch =>
    simp only [templatePartsFrom, hmatch]
    rfl
  | case5 fuel literal inner source rest hmatch ih =>
    have hlength := congrArg List.length (matchBrace_text hmatch)
    simp only [List.length_append, List.length_cons, List.length_reverse, List.length_nil]
      at hlength hshort
    simp only [templatePartsFrom, hmatch]
    refine (hf source (by omega)).bind fun e _ => (ih (by omega)).bind fun parts _ => rfl
  | case6 fuel literal c cs hescape hmark ih =>
    rw [templatePartsFrom.eq_5 _ _ _ _ _ _ hescape hmark,
      templatePartsFrom.eq_5 _ _ _ _ _ _ hescape hmark]
    rw [List.length_cons] at hshort
    exact ih (by omega)

theorem sameOutcome_templateParts (H : r.Match bound r') {t t' : Token} (hsame : t.Same t')
    (hshort : t.text.length < bound) :
    SameOutcome (templateParts r.fragment t) (templateParts r'.fragment t') := by
  unfold templateParts
  rw [hsame.text]
  refine sameOutcome_templatePartsFrom H.fragment _ _ _ _ _ ?_
  rwa [String.length_toList]

theorem matches_primary (H : r.Match bound r') : Matches bound (primary r) (primary r') := by
  refine .current fun t t' hsame hshort => ?_
  rw [hsame.kind, hsame.text, hsame.numberValue?]
  generalize t.kind = k at hshort
  split
  case h_1 =>
    refine .skip ?_
    split
    · exact .pure _
    · exact fun _ _ _ => .error rfl
  case h_3 =>
    exact .skip ((Matches.lift (sameOutcome_templateParts H hsame (hshort rfl))).bind
      fun parts => .pure _)
  case h_8 =>
    exact .skip ((H.phrase .assignment).bind fun e => (Matches.expectSymbol _).bind fun _ =>
      .pure e)
  case h_9 => exact .skip (((H.phrase .assignment).items _).bind fun es => .pure _)
  case h_10 => exact .skip (((matches_objectMember H).items _).bind fun ms => .pure _)
  case h_11 => exact .skip ((matches_functionRest H false).bind fun f => .pure _)
  case h_12 => exact .unexpected
  all_goals exact .skip (.pure _)

/-! ### Members, calls and updates -/

theorem matches_arguments (H : r.Match bound r') : Matches bound (arguments r) (arguments r') :=
  (Matches.expectSymbol _).bind fun _ => (H.phrase .assignment).items _

theorem matches_suffix (H : r.Match bound r') (allowCall : Bool) (e : Expr) :
    Matches bound (suffix r allowCall e) (suffix r' allowCall e) := by
  refine .current fun t t' hsame _ => ?_
  rw [hsame.kind]
  split
  · refine Matches.enter.bind fun _ => .skip (.current fun name name' hname _ => ?_)
    rw [hname.isMemberName, hname.text]
    exact .ite (.skip (.pure _)) .unexpected
  · exact Matches.enter.bind fun _ => .skip <| (H.phrase .assignment).bind fun key =>
      (Matches.expectSymbol _).bind fun _ => .pure _
  · exact Matches.enter.bind fun _ =>
      .ite ((matches_arguments H).bind fun args => .pure _) (.pure none)
  · exact .pure none

theorem matches_construction (H : r.Match bound r') :
    Matches bound (construction r) (construction r') :=
  (Matches.grow (matches_suffix H false) (matches_primary H)).bind fun _ =>
    (Matches.check _).bind fun _ =>
      .ite ((matches_arguments H).bind fun _ => .pure _) (.pure _)

theorem matches_callMember (H : r.Match bound r') :
    Matches bound (callMember r) (callMember r') :=
  Matches.grow (matches_suffix H true) <| (Matches.eatKeyword _).bind fun _ =>
    .ite (matches_construction H) (matches_primary H)

theorem matches_postfixUpdate (H : r.Match bound r') :
    Matches bound (postfixUpdate r) (postfixUpdate r') := by
  refine (matches_callMember H).bind fun e => .current fun t t' hsame _ => ?_
  rw [hsame.updateOf?, hsame.afterNewline]
  split
  · exact .ite (.pure e) <| .ite ((Matches.failWith _).bind fun _ => .skip (.pure _))
      (.skip (.pure _))
  · exact .pure e

/-! ### Operators -/

theorem matches_unary (H : r.Match bound r') : Matches bound (unary r) (unary r') := by
  refine .current fun t t' hsame _ => ?_
  rw [hsame.unaryOf?, hsame.updateOf?]
  split
  · exact .skip ((H.phrase .unary).bind fun e => .pure _)
  · exact .skip <| (H.phrase .unary).bind fun target =>
      .ite ((Matches.failWith _).bind fun _ => .pure _) (.pure _)
  · exact matches_postfixUpdate H

theorem matches_power (H : r.Match bound r') : Matches bound (power r) (power r') :=
  (H.phrase .unary).bind fun base => (Matches.eatSymbol _).bind fun _ =>
    .ite ((H.phrase .power).bind fun _ => .pure _) (.pure base)

theorem matches_level (combine : TokenKind → Option (Expr → Expr → Expr))
    {operand operand' : Parse Expr} (h : Matches bound operand operand') :
    Matches bound (level combine operand) (level combine operand') := by
  refine Matches.grow (fun left => .current fun t t' hsame _ => ?_) h
  rw [hsame.kind]
  split
  · exact .pure none
  · exact .skip (Matches.enter.bind fun _ => h.bind fun e => .pure _)

theorem matches_disjunction (H : r.Match bound r') :
    Matches bound (disjunction r) (disjunction r') :=
  matches_level _ <| matches_level _ <| matches_level _ <| matches_level _ <| matches_level _ <|
    matches_level _ (matches_power H)

theorem matches_conditional (H : r.Match bound r') :
    Matches bound (conditional r) (conditional r') :=
  (matches_disjunction H).bind fun test => (Matches.eatSymbol _).bind fun _ =>
    .ite ((H.phrase .assignment).bind fun _ => (Matches.expectSymbol _).bind fun _ =>
      (H.phrase .assignment).bind fun _ => .pure _) (.pure test)

theorem startsArrow_same {ts ts' : List Token} (h : Along Token.Same [] ts ts') :
    startsArrow ts' = startsArrow ts := by
  induction h with
  | done => rfl
  | next hsame halong ih =>
    unfold startsArrow
    rw [hsame.kind, ih]
    have hhead := congrArg List.head? (halong.map_eq fun _ _ hsame => hsame.kind)
    rw [List.head?_map, List.head?_map] at hhead
    rw [hhead]

theorem Matches.atArrow : Matches bound Grammar.atArrow Grammar.atArrow := by
  refine Matches.look (fun c => rfl) fun c c' hc => ?_
  have hrest : Along Token.Same [] c.rest.tail c'.rest.tail := hc.next.rest
  rw [hc.current.kind, startsArrow_same hrest]

theorem Matches.checkNextSymbol (s : Symbol) :
    Matches bound (checkNextSymbol s) (checkNextSymbol s) := by
  refine Matches.look (fun c => rfl) fun c c' hc => ?_
  have hkinds := hc.rest.map_eq fun _ _ hsame => hsame.kind
  rw [← List.getElem?_map, ← List.getElem?_map, hkinds]

theorem matches_assignment (H : r.Match bound r') :
    Matches bound (assignment r) (assignment r') := by
  refine (Matches.check _).bind fun named => (Matches.checkNextSymbol _).bind fun found =>
    .ite (Matches.identifier.bind fun param => matches_arrowRest H [param]) ?_
  refine Matches.atArrow.bind fun found =>
    .ite (matches_parameters.bind fun params => matches_arrowRest H params) ?_
  refine (matches_conditional H).bind fun left => .current fun t t' hsame _ => ?_
  rw [hsame.kind]
  split
  · exact .pure left
  · have hvalue : ∀ op, Matches bound
        (advance >>= fun _ => r.phrase .assignment >>= fun value =>
          pure (Expr.assign op left value))
        (advance >>= fun _ => r'.phrase .assignment >>= fun value =>
          pure (Expr.assign op left value)) :=
      fun op => .skip ((H.phrase .assignment).bind fun value => .pure _)
    exact .ite ((Matches.failWith _).bind fun _ => hvalue _) (hvalue _)

/-! ### Statements -/

theorem matches_declaration (H : r.Match bound r') (kind : DeclKind) :
    Matches bound (declaration r kind) (declaration r' kind) := by
  refine Matches.identifier.bind fun name => (Matches.eatSymbol _).bind fun found =>
    .ite ((H.phrase .assignment).bind fun e => .pure _) ?_
  split
  · exact (Matches.failWith _).bind fun _ => .pure _
  · exact .pure _

theorem matches_declarations (H : r.Match bound r') (kind : DeclKind) :
    Matches bound (declarations r kind) (declarations r' kind) :=
  (matches_declaration H kind).commaSeparated.bind fun _ => .pure _

theorem matches_parenthesized (H : r.Match bound r') :
    Matches bound (parenthesized r) (parenthesized r') :=
  (Matches.expectSymbol _).bind fun _ => (H.phrase .assignment).bind fun e =>
    (Matches.expectSymbol _).bind fun _ => .pure e

theorem matches_ifRest (H : r.Match bound r') : Matches bound (ifRest r) (ifRest r') :=
  (matches_parenthesized H).bind fun _ => (H.phrase .statement).bind fun _ =>
    (Matches.eatKeyword _).bind fun _ =>
      .ite ((H.phrase .statement).bind fun _ => .pure _) (.pure _)

theorem matches_eachLoop (H : r.Match bound r') (kind : Option DeclKind) (elements : Bool) :
    Matches bound (eachLoop r kind elements) (eachLoop r' kind elements) :=
  Matches.identifier.bind fun _ => .skip <| (H.phrase .assignment).bind fun _ =>
    (Matches.expectSymbol _).bind fun _ => (H.phrase .statement).bind fun _ => .pure _

theorem matches_eachRest (H : r.Match bound r') (kind : Option DeclKind) (elements : Bool) :
    Matches bound (eachRest r kind elements) (eachRest r' kind elements) := by
  have hloop := matches_eachLoop H kind elements
  cases kind with
  | none => exact hloop
  | some kind => exact .skip hloop

theorem matches_unlessSymbol (s : Symbol) {p q : Parse α} (h : Matches bound p q) :
    Matches bound (unlessSymbol s p) (unlessSymbol s q) :=
  (Matches.check _).bind fun _ => .ite (.pure none) (h.bind fun _ => .pure _)

theorem matches_loopStart (H : r.Match bound r') (kind : Option DeclKind) :
    Matches bound (loopStart r kind) (loopStart r' kind) := by
  cases kind with
  | none => exact (H.phrase .assignment).bind fun e => .pure _
  | some kind => exact .skip (matches_declarations H kind)

theorem matches_loopRest (H : r.Match bound r') (kind : Option DeclKind) :
    Matches bound (loopRest r kind) (loopRest r' kind) :=
  (matches_unlessSymbol _ (matches_loopStart H kind)).bind fun _ =>
    (Matches.expectSymbol _).bind fun _ =>
    (matches_unlessSymbol _ (H.phrase .assignment)).bind fun _ =>
    (Matches.expectSymbol _).bind fun _ =>
    (matches_unlessSymbol _ (H.phrase .assignment)).bind fun _ =>
    (Matches.expectSymbol _).bind fun _ => (H.phrase .statement).bind fun _ => .pure _

/-- A loop over elements or keys is found from the kinds and texts of two tokens. -/
theorem eachIn_same {ts ts' : List Token} (h : Along Token.Same [] ts ts') :
    eachIn ts' = eachIn ts := by
  cases h with
  | done => rfl
  | next hname halong =>
    cases halong with
    | done => rfl
    | @next after after' _ _ hafter _ =>
      have heach : eachOf? after' = eachOf? after := by
        unfold eachOf?
        rw [hafter.kind, hafter.text]
      rw [eachIn, eachIn, hname.kind, heach]

theorem Matches.eachAhead (declared : Bool) :
    Matches bound (eachAhead declared) (eachAhead declared) := by
  refine Matches.look (eachAhead_eq declared) fun c c' hc => eachIn_same ?_
  split
  · exact hc.next.rest
  · exact hc.rest

theorem matches_forRest (H : r.Match bound r') : Matches bound (forRest r) (forRest r') := by
  refine (Matches.expectSymbol _).bind fun _ => .current fun t t' hsame _ => ?_
  rw [hsame.kind]
  refine (Matches.eachAhead _).bind fun elements => ?_
  cases elements with
  | some elements => exact matches_eachRest H _ elements
  | none => exact matches_loopRest H _

theorem matches_finallyRest (H : r.Match bound r') (guarded : List Stmt) (param : Option String)
    (handler : Option (List Stmt)) :
    Matches bound (finallyRest r guarded param handler) (finallyRest r' guarded param handler) := by
  have hend : ∀ finalizer : Option (List Stmt), Matches bound
      (if (handler.isNone && finalizer.isNone) = true then
        (failWith .missingHandler : Parse Unit) >>= fun _ =>
          pure (Stmt.tryCatch guarded param handler finalizer)
        else pure (.tryCatch guarded param handler finalizer))
      (if (handler.isNone && finalizer.isNone) = true then
        (failWith .missingHandler : Parse Unit) >>= fun _ =>
          pure (Stmt.tryCatch guarded param handler finalizer)
        else pure (.tryCatch guarded param handler finalizer)) := fun finalizer =>
    .ite ((Matches.failWith _).bind fun _ => .pure _) (.pure _)
  exact (Matches.eatKeyword _).bind fun found =>
    .ite (((matches_block H).map some).bind hend) ((Matches.pure none).bind hend)

theorem matches_tryRest (H : r.Match bound r') : Matches bound (tryRest r) (tryRest r') := by
  refine (matches_block H).bind fun guarded => (Matches.eatKeyword _).bind fun caught => ?_
  have hhandler : ∀ param : Option String, Matches bound
      (block r >>= fun body => finallyRest r guarded param (some body))
      (block r' >>= fun body => finallyRest r' guarded param (some body)) := fun param =>
    (matches_block H).bind fun body => matches_finallyRest H guarded param _
  refine .ite ((Matches.eatSymbol _).bind fun named => .ite ?_ ?_) ?_
  · exact Matches.identifier.bind fun name => (Matches.expectSymbol _).bind fun _ =>
      hhandler (some name)
  · exact hhandler none
  · exact matches_finallyRest H guarded none none

theorem matches_returnRest (H : r.Match bound r') :
    Matches bound (returnRest r) (returnRest r') := by
  have hend : ∀ value : Option Expr, Matches bound
      (endStatement >>= fun _ => pure (Stmt.returnWith value))
      (endStatement >>= fun _ => pure (Stmt.returnWith value)) :=
    fun value => Matches.endStatement.bind fun _ => .pure _
  refine .current fun t t' hsame _ => ?_
  rw [hsame.kind, hsame.afterNewline]
  exact .ite (hend none) (((H.phrase .assignment).map some).bind hend)

theorem matches_statement (H : r.Match bound r') :
    Matches bound (statement r) (statement r') := by
  have hdeclarations : ∀ kind, Matches bound
      (declarations r kind >>= fun s => endStatement >>= fun _ => pure s)
      (declarations r' kind >>= fun s => endStatement >>= fun _ => pure s) := fun kind =>
    (matches_declarations H kind).bind fun s => Matches.endStatement.bind fun _ => .pure s
  refine .current fun t t' hsame _ => ?_
  rw [hsame.kind]
  split
  · exact (matches_block H).bind fun body => .pure _
  · exact .skip (.pure _)
  · exact .skip (hdeclarations _)
  · exact .skip (hdeclarations _)
  · exact .skip (hdeclarations _)
  · exact .skip ((matches_functionRest H true).bind fun f => .pure _)
  · exact .skip (matches_ifRest H)
  · exact .skip <| (matches_parenthesized H).bind fun test =>
      (H.phrase .statement).bind fun body => .pure _
  · exact .skip <| (H.phrase .statement).bind fun body => (Matches.expectKeyword _).bind fun _ =>
      (matches_parenthesized H).bind fun test => (Matches.eatSymbol _).bind fun _ => .pure _
  · exact .skip (matches_forRest H)
  · exact .skip (matches_returnRest H)
  · exact .skip (Matches.endStatement.bind fun _ => .pure _)
  · exact .skip (Matches.endStatement.bind fun _ => .pure _)
  · have hvalue : Matches bound
        (expression r >>= fun e => endStatement >>= fun _ => pure (Stmt.throwValue e))
        (expression r' >>= fun e => endStatement >>= fun _ => pure (Stmt.throwValue e)) :=
      (H.phrase .assignment).bind fun e => Matches.endStatement.bind fun _ => .pure _
    refine .skip (.current fun value value' hsame _ => ?_)
    rw [hsame.afterNewline]
    exact .ite (Matches.unexpected.bind fun _ => hvalue) hvalue
  · exact .skip (matches_tryRest H)
  · exact (H.phrase .assignment).bind fun e => Matches.endStatement.bind fun _ => .pure _

/-! ### Phrases -/

theorem matches_phrase (H : r.Match bound r') (p : Phrase α) :
    Matches bound (phrase r p) (phrase r' p) := by
  cases p with
  | statement => exact matches_statement H
  | assignment => exact matches_assignment H
  | power => exact matches_power H
  | unary => exact matches_unary H

end Grammar

/-! ### Levels and sources -/

theorem matches_phraseAt {f f' : List Char → Except SyntaxError Expr}
    (hf : ∀ source : List Char, source.length < bound → SameOutcome (f source) (f' source))
    (levels : Nat) (p : Phrase α) :
    Matches bound (phraseAt f levels p) (phraseAt f' levels p) := by
  induction levels generalizing α with
  | zero => exact .failWith _
  | succ levels ih => exact (Grammar.matches_phrase ⟨ih, hf⟩ p).nested

theorem Matched.bind {x y : Except SyntaxError (α × Cursor)}
    {f g : α × Cursor → Except SyntaxError β} (h : Matched bound x y)
    (hf : ∀ a c c', Parallel bound c c' → SameOutcome (f (a, c)) (g (a, c'))) :
    SameOutcome (x >>= f) (y >>= g) := by
  cases h with
  | ok hparallel => exact hf _ _ _ hparallel
  | error hcause => exact congrArg Except.error hcause.symm

theorem token_template_length {stop : Position} {g : Glyph} {rest : List Glyph}
    {r : List Char × List Glyph} (h : token stop (g :: rest) = .ok (.template, r)) :
    r.1.length ≤ rest.length := by
  obtain ⟨-, inside, mark, rfl, -, htext⟩ := template_endsAtMark h
  have hlength := congrArg List.length htext
  rw [List.reverse_nil, List.nil_append, List.length_map] at hlength
  rw [List.length_append, hlength]
  exact Nat.le_add_right _ _

/-- The texts of templates are shorter than the source around them. -/
theorem Cuts.short {stop : Position} {gs : List Glyph} {cut : Cut} {ts : List Token}
    {last t : Token} (h : Cuts stop gs cut ts last) (ht : t ∈ ts) (hkind : t.kind = .template) :
    t.text.length < gs.length := by
  induction h with
  | done => cases ht
  | @next run lexeme rest g kind text cut ts last _ htoken _ ih =>
    rw [List.length_append, List.length_cons]
    obtain rfl | ht := List.mem_cons.mp ht
    · cases hkind
      have hlength : text.length ≤ (lexeme ++ rest).length := token_template_length htoken
      rw [String.length_ofList]
      omega
    · have hshort := ih ht
      rw [List.length_append]
      omega

theorem tokenize_short {source : String} {l : TokenList} (h : tokenize source = .ok l) {t : Token}
    (ht : t ∈ l.tokens) (hkind : t.kind = .template) : t.text.length < source.length := by
  obtain ⟨ts, hts, hcuts⟩ := cuts_of_tokensFrom (Nat.le_refl _) h
  obtain rfl : l.tokens = ts := hts
  have hlength := congrArg List.length (glyphs_chars source)
  rw [List.length_map, String.length_toList] at hlength
  exact hlength ▸ hcuts.short ht hkind

theorem Along.refl {R : α → α → Prop} (hR : ∀ a, R a a) (as : List α) : Along R [] as as := by
  induction as with
  | nil => exact .done
  | cons a as ih => exact .next (hR a) ih

theorem Along.exists_mem {R : α → α → Prop} {as as' : List α} (h : Along R [] as as') {a : α}
    (ha : a ∈ as) : ∃ a' ∈ as', R a a' := by
  induction h with
  | done => cases ha
  | next hR _ ih =>
    obtain rfl | ha := List.mem_cons.mp ha
    · exact ⟨_, List.mem_cons_self, hR⟩
    · obtain ⟨a', ha', hR⟩ := ih ha
      exact ⟨a', List.mem_cons_of_mem _ ha', hR⟩

/-- What the source of a substitution comes to does not depend on the size that bounds how deep
    substitutions nest, as long as it is greater than the length of the source. -/
theorem sameOutcome_fragmentOf {n m : Nat} {source : List Char} (hn : source.length < n)
    (hm : source.length < m) : SameOutcome (fragmentOf n source) (fragmentOf m source) := by
  induction n generalizing m source with
  | zero => exact absurd hn (Nat.not_lt_zero _)
  | succ n ih =>
    obtain _ | m := m
    · exact absurd hm (Nat.not_lt_zero _)
    rw [fragmentOf_succ, fragmentOf_succ]
    refine SameOutcome.bind rfl fun l htokens => ?_
    have hclosed := tokenize_closed htokens
    have hstart : Parallel source.length (Cursor.start l) (Cursor.start l) := by
      refine ⟨.refl (fun _ => ⟨rfl, rfl, rfl⟩) _, ⟨rfl, rfl, rfl⟩, hclosed.stop, rfl, ?_⟩
      intro t ht hkind
      have hshort := tokenize_short htokens ht hkind
      rwa [String.length_ofList] at hshort
    have hphrase := matches_phraseAt
      (fun inner hinner => ih (m := m) (Nat.lt_of_lt_of_le hinner (Nat.le_of_lt_succ hn))
        (Nat.lt_of_lt_of_le hinner (Nat.le_of_lt_succ hm))) maxDepth .assignment _ _ hstart
    refine hphrase.bind fun e c c' hparallel => ?_
    dsimp only
    rw [hparallel.current.kind]
    split
    · rfl
    · exact Matched.bind (Matches.unexpected c c' hparallel) fun _ _ _ _ => rfl

/-- Two sources with the same tokens are read as the same program, or fail for the same cause. -/
theorem sameOutcome_parse {source source' : String} {l l' : TokenList}
    (htokens : tokenize source = .ok l) (htokens' : tokenize source' = .ok l')
    (halong : Along Token.Same [] l.tokens l'.tokens) (hstop : l.stop.Same l'.stop) :
    SameOutcome (parse source) (parse source') := by
  have hstart : Parallel (min source.length source'.length) (Cursor.start l) (Cursor.start l') := by
    refine ⟨halong, hstop, (tokenize_closed htokens).stop, rfl, fun t ht hkind => ?_⟩
    obtain ⟨t', ht', hsame⟩ := halong.exists_mem ht
    have hshort := tokenize_short htokens' ht' (hsame.kind.trans hkind)
    rw [hsame.text] at hshort
    exact Nat.lt_min.mpr ⟨tokenize_short htokens ht hkind, hshort⟩
  have hfragment : ∀ inner : List Char, inner.length < min source.length source'.length →
      SameOutcome (fragmentOf source.length inner) (fragmentOf source'.length inner) := by
    intro inner hinner
    obtain ⟨hinner, hinner'⟩ := Nat.lt_min.mp hinner
    exact sameOutcome_fragmentOf hinner hinner'
  have hstatement := matches_phraseAt hfragment maxDepth .statement
  rw [parse_eq, parse_eq, statementSource, statementSource, htokens, htokens']
  exact (hstatement.untilStop _ _ hstart).bind fun _ _ _ _ => rfl

/-! ### Blanks and comments -/

/-- What a token is, wherever it stands. -/
def Token.content (t : Token) : TokenKind × String × Bool := (t.kind, t.text, t.afterNewline)

/-- **Blanks and comments carry no meaning but the line ends in them.**  A source that has tokens is
    cut at them into their texts and the runs between.  With a line end in the place of each run that
    holds one, and a space in the place of each other run, the source has the same tokens after the
    same new lines, and is read as the same program, or fails for the same cause. -/
theorem parse_respaced {source : String} {l : TokenList} (h : tokenize source = .ok l) :
    Cuts (glyphs source).2 (glyphs source).1 (cutOf source) l.tokens l.stop ∧
      (∃ l', tokenize (respaced source) = .ok l' ∧
        l'.toList.map Token.content = l.toList.map Token.content) ∧
      SameOutcome (parse source) (parse (respaced source)) := by
  obtain ⟨hcuts, l', htokens', halong, hstop⟩ := tokenize_respaced h
  have hcontent : ∀ t t' : Token, t.Same t' → t'.content = t.content := by
    intro t t' hsame
    rw [Token.content, hsame.kind, hsame.text, hsame.afterNewline]
    rfl
  refine ⟨hcuts, ⟨l', htokens', ?_⟩, sameOutcome_parse h htokens' halong hstop⟩
  rw [TokenList.toList, TokenList.toList, List.map_append, List.map_append,
    halong.map_eq hcontent, List.map_singleton, List.map_singleton, hcontent _ _ hstop]

/-- A source with a comment of each kind, and blanks at both ends. -/
def commented : String := " x/* y */+++ // z\n  y;\t"

/-- One blank stands in the place of each run, and the tokens and the program are the same. -/
theorem parse_respaced_commented :
    respaced commented = " x +++\ny; " ∧
      (∃ l', tokenize " x +++\ny; " = .ok l' ∧ l'.toList.map Token.content = [
        (.identifier, "x", false), (.symbol .increment, "++", false), (.symbol .plus, "+", false),
        (.identifier, "y", true), (.symbol .semicolon, ";", false), (.stop, "", false)]) ∧
      SameOutcome (parse commented) (parse " x +++\ny; ") := by
  have htokens : tokenize commented = .ok ⟨[⟨.identifier, "x", ⟨1, 2⟩, false⟩,
      ⟨.symbol .increment, "++", ⟨1, 10⟩, false⟩, ⟨.symbol .plus, "+", ⟨1, 12⟩, false⟩,
      ⟨.identifier, "y", ⟨2, 3⟩, true⟩, ⟨.symbol .semicolon, ";", ⟨2, 4⟩, false⟩],
      ⟨.stop, "", ⟨2, 6⟩, false⟩⟩ := tokenize_of_toOption (by decide +kernel)
  have hrespaced : respaced commented = " x +++\ny; " := by decide +kernel
  obtain ⟨-, hsame, hparse⟩ := parse_respaced htokens
  rw [hrespaced] at hsame hparse
  exact ⟨hrespaced, hsame, hparse⟩

end MemoryShell.Script
