/-
  MemoryShell/Proofs/Syntax/Contracts.lean
  ========================================
  **What every reader of the grammar keeps to.**

  A reader is given the tokens of a source and some levels of nesting.  If it reads something, that
  is no higher than these levels allow, and the reader leaves as many levels as it was given.  If it
  fails, then it says so of one of the tokens: the error has the place of that token, and its text
  if it is about a token that was not expected.  Or it passes on the error of a source that stands
  in a template among the tokens.

  Both are shown in one walk through the grammar.  Readers give back the levels that they take, but
  for the steps of a loop, which keep one for each turn until the loop ends.
-/
import MemoryShell.Proofs.Syntax.Chains
import MemoryShell.Proofs.Syntax.Heights
import MemoryShell.Proofs.Syntax.Substitution

namespace MemoryShell.Script

open Parse

variable {l : TokenList} {f : List Char → Except SyntaxError Expr} {m n : Nat} {c d : Cursor}
  {α β : Type}

/-! ### Cursors and errors -/

/-- A cursor among the tokens of a list, with a number of levels of nesting left. -/
structure Cursor.Within (l : TokenList) (levels : Nat) (c : Cursor) : Prop where
  rest : c.rest <:+ l.tokens
  stop : c.stop = l.stop
  ends : l.stop.kind = .stop
  room : c.depth + levels = maxDepth

namespace Cursor.Within

theorem start (hends : l.stop.kind = .stop) : (Cursor.start l).Within l maxDepth :=
  ⟨List.suffix_refl _, rfl, hends, Nat.zero_add _⟩

theorem current_mem (h : c.Within l m) : c.current ∈ l.toList := by
  obtain ⟨_ | ⟨t, rest⟩, stop, depth⟩ := c
  · exact List.mem_append_right _ (List.mem_singleton.mpr h.stop)
  · exact List.mem_append_left _ (h.rest.subset List.mem_cons_self)

theorem current_mem_tokens (h : c.Within l m) (hkind : c.current.kind ≠ .stop) :
    c.current ∈ l.tokens := by
  obtain ⟨_ | ⟨t, rest⟩, stop, depth⟩ := c
  · exact absurd ((congrArg Token.kind h.stop).trans h.ends) hkind
  · exact h.rest.subset List.mem_cons_self

theorem next (h : c.Within l m) : c.next.Within l m :=
  ⟨(List.tail_suffix _).trans h.rest, h.stop, h.ends, h.room⟩

theorem withDepth (h : c.Within l m) {depth : Nat} (hroom : depth + n = maxDepth) :
    ({ c with depth := depth } : Cursor).Within l n := ⟨h.rest, h.stop, h.ends, hroom⟩

end Cursor.Within

/-- What stands in a text between the mark of a substitution and a brace. -/
def Substitutes (text inner : List Char) : Prop :=
  ∃ front back, text = front ++ '$' :: '\x7b' :: (inner ++ '\x7d' :: back)

/-- What an error that a reader of tokens gives is about: a token of the list, or what stands in a
    template among them. -/
inductive Blamed (l : TokenList) (f : List Char → Except SyntaxError Expr) :
    SyntaxError → Prop where
  | unexpected {t : Token} : t ∈ l.tokens → Blamed l f ⟨.unexpectedToken t.text, t.position⟩
  | token {t : Token} {cause : SyntaxCause} :
    t ∈ l.toList → (∀ text, cause ≠ .unexpectedToken text) → Blamed l f ⟨cause, t.position⟩
  | source {t : Token} {inner : List Char} {e : SyntaxError} :
    t ∈ l.tokens → t.kind = .template → Substitutes t.text.toList inner → f inner = .error e →
    Blamed l f e

/-! ### Contracts -/

/-- Something was read and keeps to a condition on it and on the levels left, or an error blames a
    token. -/
inductive Kept (l : TokenList) (f : List Char → Except SyntaxError Expr) (Q : α → Nat → Prop) :
    Except SyntaxError (α × Cursor) → Prop where
  | ok {a : α} {d : Cursor} {levels : Nat} :
    d.Within l levels → Q a levels → Kept l f Q (.ok (a, d))
  | error {e : SyntaxError} : Blamed l f e → Kept l f Q (.error e)

namespace Kept

variable {Q : α → Nat → Prop} {x : Except SyntaxError (α × Cursor)}

theorem of_ok {a : α} (h : Kept l f Q x) (hx : x = .ok (a, d)) :
    ∃ levels, d.Within l levels ∧ Q a levels := by
  subst hx
  cases h with
  | ok hd ha => exact ⟨_, hd, ha⟩

theorem of_error {e : SyntaxError} (h : Kept l f Q x) (hx : x = .error e) : Blamed l f e := by
  subst hx
  cases h with
  | error hblamed => exact hblamed

end Kept

/-- A reader that keeps to a condition wherever it begins with a number of levels left. -/
def Meets (l : TokenList) (f : List Char → Except SyntaxError Expr) (levels : Nat)
    (Q : α → Nat → Prop) (p : Parse α) : Prop :=
  ∀ c : Cursor, c.Within l levels → Kept l f Q (p c)

/-- A reader that leaves as many levels as it was given. -/
def Keeps (l : TokenList) (f : List Char → Except SyntaxError Expr) (levels : Nat) (Q : α → Prop)
    (p : Parse α) : Prop :=
  Meets l f levels (fun a left => left = levels ∧ Q a) p

/-- What a step of a loop keeps to: if it adds something it takes a level. -/
def Grown (levels : Nat) (Q : Expr → Prop) (grown : Option Expr) (left : Nat) : Prop :=
  ∀ e, grown = some e → left + 1 = levels ∧ Q e

namespace Meets

variable {p p' : Parse α} {g : α → Parse β} {R : α → Nat → Prop} {Q : β → Nat → Prop}

theorem pure {a : α} (h : R a m) : Meets l f m R (Pure.pure a) := fun _ hc => .ok hc h

/-- What has been read, with the levels that were given. -/
theorem read {a : α} {Q : α → Prop} (h : Q a) :
    Meets l f m (fun a left => left = m ∧ Q a) (Pure.pure a) := pure ⟨rfl, h⟩

theorem bind (h : Meets l f m R p) (hg : ∀ a levels, R a levels → Meets l f levels Q (g a)) :
    Meets l f m Q (p >>= g) := by
  intro c hc
  cases hread : p c with
  | error e =>
    rw [bind_of_error hread]
    exact .error ((h c hc).of_error hread)
  | ok r =>
    obtain ⟨a, d⟩ := r
    rw [bind_of_ok hread]
    obtain ⟨levels, hd, ha⟩ := (h c hc).of_ok hread
    exact hg a levels ha d hd

theorem ite {b : Bool} (h : Meets l f m R p) (h' : Meets l f m R p') :
    Meets l f m R (if b then p else p') := by
  cases b with
  | true => exact h
  | false => exact h'

theorem mono {R' : α → Nat → Prop} (h : Meets l f m R p) (himp : ∀ a left, R a left → R' a left) :
    Meets l f m R' p := by
  intro c hc
  have hp := h c hc
  generalize p c = r at hp ⊢
  cases hp with
  | ok hd ha => exact .ok hd (himp _ _ ha)
  | error hblamed => exact .error hblamed

/-! ### Looking, moving and failing -/

theorem current {g : Token → Parse β}
    (h : ∀ t : Token, t ∈ l.toList → (t.kind ≠ .stop → t ∈ l.tokens) → Meets l f m Q (g t)) :
    Meets l f m Q (Parse.current >>= g) :=
  fun c hc => h c.current hc.current_mem hc.current_mem_tokens c hc

/-- Passing over a token. -/
theorem skip (h : Meets l f m R p) : Meets l f m R (Parse.advance >>= fun _ => p) :=
  fun c hc => h c.next hc.next

theorem failWith {cause : SyntaxCause} (h : ∀ text, cause ≠ .unexpectedToken text) :
    Meets l f m R (Parse.failWith cause) :=
  fun _ hc => .error (.token hc.current_mem h)

theorem unexpected : Meets l f m R Parse.unexpected := by
  intro c hc
  unfold Parse.unexpected
  dsimp only
  split
  · exact .error (.token hc.current_mem nofun)
  · exact .error (.unexpected (hc.current_mem_tokens ‹_›))

/-- Nothing is read behind a failure. -/
theorem failWith_bind {cause : SyntaxCause} (h : ∀ text, cause ≠ .unexpectedToken text) :
    Meets l f m Q (Parse.failWith cause >>= g) :=
  bind (R := fun _ _ => False) (failWith h) fun _ _ hfalse => hfalse.elim

theorem unexpected_bind : Meets l f m Q (Parse.unexpected >>= g) :=
  bind (R := fun _ _ => False) unexpected fun _ _ hfalse => hfalse.elim

theorem enter {g : Unit → Parse β} (h : ∀ n, m = n + 1 → Meets l f n Q (g ())) :
    Meets l f m Q (Parse.enter >>= g) := by
  intro c hc
  have hroom := hc.room
  by_cases hdepth : c.depth + 1 > maxDepth
  · have henter : Parse.enter c = .error ⟨.nestingTooDeep, c.current.position⟩ := if_pos hdepth
    rw [bind_of_error henter]
    exact .error (.token hc.current_mem nofun)
  · have henter : Parse.enter c = .ok ((), { c with depth := c.depth + 1 }) := if_neg hdepth
    rw [bind_of_ok henter]
    obtain ⟨n, rfl⟩ : ∃ n, m = n + 1 := Nat.exists_eq_add_one.mpr (by omega)
    exact h n rfl _ (hc.withDepth (by omega))

end Meets

namespace Keeps

variable {p p' : Parse α} {g : α → Parse β} {R : α → Prop} {Q : β → Nat → Prop} {Q' : β → Prop}

theorem pure {a : α} (h : R a) : Keeps l f m R (Pure.pure a) := Meets.pure ⟨rfl, h⟩

theorem bind (h : Keeps l f m R p) (hg : ∀ a, R a → Meets l f m Q (g a)) :
    Meets l f m Q (p >>= g) :=
  Meets.bind h fun a _ ⟨hlevels, ha⟩ => hlevels ▸ hg a ha

theorem mono {R' : α → Prop} (h : Keeps l f m R p) (himp : ∀ a, R a → R' a) : Keeps l f m R' p :=
  Meets.mono h fun a _ ha => ha.imp_right (himp a)

theorem map (φ : α → β) (h : Keeps l f m R p) (hφ : ∀ a, R a → Q' (φ a)) :
    Keeps l f m Q' (φ <$> p) :=
  h.bind fun a ha => pure (hφ a ha)

/-- What is looked up without moving. -/
theorem look {v : Cursor → α} (hp : ∀ c, p c = .ok (v c, c)) : Keeps l f m (fun _ => True) p := by
  intro c hc
  rw [hp]
  exact .ok hc ⟨rfl, trivial⟩

theorem check (k : TokenKind) : Keeps l f m (fun _ => True) (Parse.check k) := look fun _ => rfl

/-- An outcome that is no reading. -/
theorem lift {x : Except SyntaxError α} (hok : ∀ a, x = .ok a → R a)
    (herror : ∀ e, x = .error e → Blamed l f e) : Keeps l f m R (liftM x) := by
  intro c hc
  cases x with
  | ok a => exact .ok hc ⟨rfl, hok a rfl⟩
  | error e => exact .error (herror e rfl)

theorem eat (k : TokenKind) : Keeps l f m (fun _ => True) (Parse.eat k) := by
  intro c hc
  unfold Parse.eat
  split
  · exact .ok hc.next ⟨rfl, trivial⟩
  · exact .ok hc ⟨rfl, trivial⟩

theorem eatSymbol (s : Symbol) : Keeps l f m (fun _ => True) (Parse.eatSymbol s) := eat _

theorem eatKeyword (k : Keyword) : Keeps l f m (fun _ => True) (Parse.eatKeyword k) := eat _

theorem expect (k : TokenKind) : Keeps l f m (fun _ => True) (Parse.expect k) :=
  (check k).bind fun _ _ => .ite (fun _ hc => .ok hc.next ⟨rfl, trivial⟩) .unexpected

theorem expectSymbol (s : Symbol) : Keeps l f m (fun _ => True) (Parse.expectSymbol s) :=
  (expect _).bind fun _ _ => pure trivial

theorem expectKeyword (k : Keyword) : Keeps l f m (fun _ => True) (Parse.expectKeyword k) :=
  (expect _).bind fun _ _ => pure trivial

theorem identifier : Keeps l f m (fun _ => True) Parse.identifier :=
  (expect _).bind fun _ _ => pure trivial

theorem endStatement : Keeps l f m (fun _ => True) Parse.endStatement := by
  refine (eatSymbol _).bind fun _ _ => .ite (pure trivial) (.current fun t _ _ => ?_)
  split
  · exact pure trivial
  · exact .unexpected

/-! ### Depth -/

/-- A phrase takes a level for itself, and gives it back. -/
theorem nested (h : ∀ n, m = n + 1 → Keeps l f n R p) : Keeps l f m R (Parse.nested p) := by
  intro c hc
  have hroom := hc.room
  refine Meets.enter (fun n hm => (h n hm).bind fun a ha d hd => ?_) c hc
  have hleft := hd.room
  exact .ok (hd.withDepth (by omega)) ⟨rfl, ha⟩

/-! ### Repetition -/

/-- A loop whose step adds one to the height, and takes a level for it. -/
theorem grow {h : Nat} {step : Expr → Parse (Option Expr)} {first : Parse Expr}
    (hfirst : Keeps l f m (·.Low h (m + 1)) first)
    (hstep : ∀ n g e, n ≤ m → h ≤ g → e.Low g (m + 1) →
      Meets l f n (Grown n (·.Low (g + 1) (m + 1))) (step e)) :
    Keeps l f m (·.Low (h + m) (m + 1)) (Parse.grow step first) := by
  -- the turns that are behind and the levels that are left come to the same in each turn
  have hturns : ∀ fuel n g e, n ≤ m → g + n = h + m → e.Low g (m + 1) →
      Meets l f n (fun e _ => e.Low (h + m) (m + 1)) (growFrom step fuel e) := by
    intro fuel
    induction fuel with
    | zero => exact fun n g e _ hg he => .pure (he.raise (by omega))
    | succ fuel ih =>
      intro n g e hn hg he
      refine (hstep n g e hn (by omega) he).bind fun grown left hgrown => ?_
      cases grown with
      | none => exact .pure (he.raise (by omega))
      | some e' =>
        obtain ⟨hleft, he'⟩ := hgrown e' rfl
        exact ih left (g + 1) e' (by omega) (by omega) he'
  intro c hc
  refine hfirst.bind (g := fun e => growFrom step (maxDepth + 1) e >>= fun e =>
    setDepth c.depth >>= fun _ => Pure.pure e) (fun e he => ?_) c hc
  refine (hturns _ m h e (Nat.le_refl m) rfl he).bind fun e' _ he' d hd => ?_
  exact .ok (hd.withDepth hc.room) ⟨rfl, he'⟩

section Lists

variable (h : Keeps l f m R p)
include h

theorem itemsFrom (s : Symbol) (fuel : Nat) :
    Keeps l f m (∀ a ∈ ·, R a) (Parse.itemsFrom s p fuel) := by
  induction fuel with
  | zero => exact (expectSymbol s).bind fun _ _ => pure nofun
  | succ fuel ih =>
    exact (eatSymbol s).bind fun _ _ => .ite (pure nofun) <| h.bind fun a ha =>
      (eatSymbol .comma).bind fun _ _ => .ite
        (ih.bind fun as has => pure (List.forall_mem_cons.mpr ⟨ha, has⟩))
        ((expectSymbol s).bind fun _ _ => pure (List.forall_mem_singleton.mpr ha))

theorem items (s : Symbol) : Keeps l f m (∀ a ∈ ·, R a) (Parse.items s p) :=
  Keeps.bind (look fun _ => rfl) fun fuel _ => itemsFrom h s (fuel + 1)

theorem commaSeparatedFrom (fuel : Nat) :
    Keeps l f m (∀ a ∈ ·, R a) (Parse.commaSeparatedFrom p fuel) := by
  induction fuel with
  | zero => exact h.bind fun a ha => pure (List.forall_mem_singleton.mpr ha)
  | succ fuel ih =>
    exact h.bind fun a ha => (eatSymbol .comma).bind fun _ _ => .ite
      (ih.bind fun as has => pure (List.forall_mem_cons.mpr ⟨ha, has⟩))
      (pure (List.forall_mem_singleton.mpr ha))

theorem commaSeparated : Keeps l f m (∀ a ∈ ·, R a) (Parse.commaSeparated p) :=
  Keeps.bind (look fun _ => rfl) fun fuel _ => commaSeparatedFrom h fuel

theorem untilStopFrom (fuel : Nat) :
    Keeps l f m (∀ a ∈ ·, R a) (Parse.untilStopFrom p fuel) := by
  induction fuel with
  | zero => exact pure nofun
  | succ fuel ih =>
    exact (check .stop).bind fun _ _ => .ite (pure nofun) <| h.bind fun a ha =>
      ih.bind fun as has => pure (List.forall_mem_cons.mpr ⟨ha, has⟩)

theorem untilStop : Keeps l f m (∀ a ∈ ·, R a) (Parse.untilStop p) :=
  Keeps.bind (look fun _ => rfl) fun fuel _ => untilStopFrom h fuel

theorem untilBraceFrom (fuel : Nat) :
    Keeps l f m (∀ a ∈ ·, R a) (Parse.untilBraceFrom p fuel) := by
  induction fuel with
  | zero => exact (expectSymbol _).bind fun _ _ => pure nofun
  | succ fuel ih =>
    have hitem : Keeps l f m (∀ a ∈ ·, R a)
        (p >>= fun a => Parse.untilBraceFrom p fuel >>= fun as => Pure.pure (a :: as)) :=
      h.bind fun a ha => ih.bind fun as has => pure (List.forall_mem_cons.mpr ⟨ha, has⟩)
    exact (eatSymbol _).bind fun _ _ => .ite (pure nofun) <| (check .stop).bind fun _ _ =>
      .ite .unexpected_bind hitem

theorem untilBrace : Keeps l f m (∀ a ∈ ·, R a) (Parse.untilBrace p) :=
  Keeps.bind (look fun _ => rfl) fun fuel _ => untilBraceFrom h fuel

end Lists

end Keeps

/-! ### Templates -/

theorem Substitutes.append {text inner : List Char} (h : Substitutes text inner)
    (front : List Char) : Substitutes (front ++ text) inner := by
  obtain ⟨front', back, rfl⟩ := h
  exact ⟨front ++ front', back, (List.append_assoc _ _ _).symm⟩

/-- The expressions in a template are read from what is substituted in its text. -/
theorem low_templatePartsFrom (H : ∀ source e, f source = .ok e → e.Low (reach maxDepth) maxDepth)
    (p : Position) (fuel : Nat) (literal text : List Char) {parts : List TemplatePart}
    (hparts : templatePartsFrom f p fuel literal text = .ok parts) :
    ∀ e ∈ parts.filterMap TemplatePart.expr?, e.Low (reach maxDepth) maxDepth := by
  have hliteral : ∀ literal, (literalPart literal).filterMap TemplatePart.expr? = [] := by
    intro literal
    unfold literalPart
    split <;> rfl
  induction fuel, literal, text using templatePartsFrom.induct generalizing parts with
  | case1 | case2 =>
    unfold templatePartsFrom at hparts
    cases hparts
    rw [hliteral]
    exact List.forall_mem_nil _
  | case3 fuel literal escaped rest ih => exact ih hparts
  | case4 fuel literal inner hmatch =>
    simp only [templatePartsFrom, hmatch] at hparts
    cases hparts
  | case5 fuel literal inner source rest hmatch ih =>
    simp only [templatePartsFrom, hmatch] at hparts
    obtain ⟨e, he, hparts⟩ := except_bind_eq_ok.mp hparts
    obtain ⟨more, hmore, hparts⟩ := except_bind_eq_ok.mp hparts
    cases hparts
    rw [List.filterMap_append, hliteral]
    exact List.forall_mem_cons.mpr ⟨H source e he, ih hmore⟩
  | case6 fuel literal c cs hescape hmark ih =>
    rw [templatePartsFrom.eq_5 _ _ _ _ _ _ hescape hmark] at hparts
    exact ih hparts

/-- A template that is not read ends in a substitution, or the source of one is not read. -/
theorem templatePartsFrom_error {p : Position} {fuel : Nat} {literal text : List Char}
    {e : SyntaxError} (h : templatePartsFrom f p fuel literal text = .error e) :
    e = ⟨.unterminatedTemplate, p⟩ ∨ ∃ inner, Substitutes text inner ∧ f inner = .error e := by
  induction fuel, literal, text using templatePartsFrom.induct with
  | case1 | case2 =>
    unfold templatePartsFrom at h
    cases h
  | case3 fuel literal escaped rest ih =>
    exact (ih h).imp_right (Exists.imp fun _ => And.imp_left (·.append ['\\', escaped]))
  | case4 fuel literal inner hmatch =>
    simp only [templatePartsFrom, hmatch] at h
    cases h
    exact .inl rfl
  | case5 fuel literal inner source rest hmatch ih =>
    simp only [templatePartsFrom, hmatch] at h
    obtain rfl : inner = source ++ '\x7d' :: rest := matchBrace_text hmatch
    cases hsource : f source with
    | error e' =>
      rw [hsource] at h
      cases h
      exact .inr ⟨source, ⟨[], rest, rfl⟩, hsource⟩
    | ok E =>
      rw [hsource] at h
      cases hrest : templatePartsFrom f p fuel [] rest with
      | error e' =>
        have h : (templatePartsFrom f p fuel [] rest >>= fun parts =>
            pure (literalPart literal ++ .expr E :: parts)) = .error e := h
        rw [hrest] at h
        cases h
        refine (ih hrest).imp_right (Exists.imp fun _ => And.imp_left fun hinner => ?_)
        have happend := hinner.append ('$' :: '\x7b' :: (source ++ ['\x7d']))
        simpa only [List.cons_append, List.append_assoc, List.nil_append] using happend
      | ok parts =>
        have h : (templatePartsFrom f p fuel [] rest >>= fun parts =>
            pure (literalPart literal ++ .expr E :: parts)) = .error e := h
        rw [hrest] at h
        cases h
  | case6 fuel literal c cs hescape hmark ih =>
    rw [templatePartsFrom.eq_5 _ _ _ _ _ _ hescape hmark] at h
    exact (ih h).imp_right (Exists.imp fun _ => And.imp_left (·.append [c]))

/-! ### The readers of nested phrases -/

/-- How high a phrase may be that is read with a number of levels left. -/
def Phrase.Low (levels : Nat) : {α : Type} → Phrase α → α → Prop
  | _, .statement => Stmt.Low (reach levels) levels
  | _, .assignment => Expr.Low (reach levels) levels
  | _, .power | _, .unary => Expr.Low (innerReach levels) levels

/-- Readers whose phrases and sources are low. -/
structure Readers.Keep (l : TokenList) (f : List Char → Except SyntaxError Expr) (r : Readers) :
    Prop where
  phrase : ∀ {α : Type} (p : Phrase α) (levels : Nat), Keeps l f levels (p.Low levels) (r.phrase p)
  fragment : r.fragment = f
  low : ∀ source e, f source = .ok e → e.Low (reach maxDepth) maxDepth

namespace Grammar

variable {r : Readers}

/-! ### Blocks and functions -/

theorem keeps_block (H : r.Keep l f) :
    Keeps l f m (∀ s ∈ ·, Stmt.Low (reach m) m s) (block r) :=
  (Keeps.expectSymbol _).bind fun _ _ => (H.phrase .statement m).untilBrace

theorem keeps_parameters : Keeps l f m (fun _ => True) parameters :=
  (Keeps.expectSymbol _).bind fun _ _ => (Keeps.identifier.items _).mono fun _ _ => trivial

theorem keeps_functionRest (H : r.Keep l f) (needsName : Bool) :
    Keeps l f m (fun definition => ∀ n ∈ definition.nodes, Node.Low (reach m) m n)
      (functionRest r needsName) := by
  have hbody : ∀ name : Option String,
      Keeps l f m (fun definition => ∀ n ∈ definition.nodes, Node.Low (reach m) m n)
        (parameters >>= fun params => block r >>= fun body =>
          pure (FunctionDef.mk name params (.block body) false)) := fun name =>
    keeps_parameters.bind fun params _ => (keeps_block H).bind fun body hbody =>
      .read (Node.low_stmts hbody)
  have hname : Keeps l f m (fun _ => True) (some <$> identifier) :=
    Keeps.identifier.map some fun _ _ => trivial
  refine (Keeps.check _).bind fun found _ => ?_
  cases found with
  | true => exact hname.bind fun name _ => hbody name
  | false =>
    cases needsName with
    | true => exact .unexpected_bind
    | false => exact hbody none

theorem low_function {definition : FunctionDef}
    (h : ∀ n ∈ definition.nodes, Node.Low (reach m) m n) :
    (Expr.function definition).Low (reach m + 1) (m + 1) := .succ nofun h

theorem keeps_arrowRest (H : r.Keep l f) (params : List String) :
    Keeps l f m (·.Low (reach m + 1) (m + 1)) (arrowRest r params) := by
  refine (Keeps.expectSymbol _).bind fun _ _ => (Keeps.check _).bind fun _ _ => .ite ?_ ?_
  · exact (keeps_block H).bind fun body hbody =>
      .read (low_function (Node.low_stmts hbody))
  · exact (H.phrase .assignment m).bind fun e he =>
      .read (low_function (Node.low_expr he))

/-! ### Primary expressions -/

/-- What a member of an object keeps to: a method or a bare name does not nest in the object. -/
def MemberLow (levels : Nat) (member : String × Expr) : Prop :=
  member.2.Low (reach levels + 1) (levels + 1) ∧
    (member.2.isBrief = false → member.2.Low (reach levels) levels)

theorem keeps_memberRest (H : r.Keep l f) (t : Token) (key : String) :
    Keeps l f m (MemberLow m) (memberRest r t key) := by
  refine (Keeps.eatSymbol _).bind fun _ _ => .ite ?_ ?_
  · exact (H.phrase .assignment m).bind fun e he =>
      .read ⟨Expr.Low.mono he (Nat.le_succ _) (Nat.le_succ _), fun _ => he⟩
  refine (Keeps.check _).bind fun _ _ => .ite ?_ ?_
  · exact keeps_parameters.bind fun params _ => (keeps_block H).bind fun body hbody =>
      .read ⟨low_function (Node.low_stmts hbody), nofun⟩
  · split
    · exact .read ⟨(Expr.Low.leaf rfl rfl).mono (Nat.succ_le_succ (Nat.zero_le _))
        (Nat.succ_le_succ (Nat.zero_le _)), nofun⟩
    · exact .unexpected

/-- The key of a member is found, or an error blames a token. -/
theorem keeps_key {k : TokenKind} {text x : String} {named : Bool} {Q : β → Prop}
    {g : String → Parse β} (h : ∀ key, Keeps l f m Q (g key)) :
    Keeps l f m Q
      (match k with
        | .string => pure text >>= g
        | .number => pure x >>= g
        | _ => if named then pure text >>= g else unexpected >>= g) := by
  split
  · exact h _
  · exact h _
  · exact .ite (h _) .unexpected_bind

theorem keeps_objectMember (H : r.Keep l f) :
    Keeps l f m (MemberLow m) (objectMember r) :=
  Meets.current fun t _ _ => keeps_key fun key => .skip (keeps_memberRest H t key)

/-- A template among the tokens. -/
theorem keeps_templateParts (H : r.Keep l f) {t : Token} (ht : t ∈ l.tokens)
    (hkind : t.kind = .template) :
    Keeps l f m (fun parts => (Expr.template parts).Low 1 1)
      (liftM (templateParts r.fragment t)) := by
  rw [H.fragment]
  refine .lift (fun parts hparts => ?_) fun e he => ?_
  · exact Node.low_template (Node.low_exprs (low_templatePartsFrom H.low _ _ _ _ hparts))
  · rcases templatePartsFrom_error he with rfl | ⟨inner, hinner, he⟩
    · exact .token (List.mem_append_left _ ht) nofun
    · exact .source ht hkind hinner he

theorem keeps_primary (H : r.Keep l f) :
    Keeps l f m (·.Low (reach m + 2) (m + 1)) (primary r) := by
  have hleaf {e : Expr} (he : e.Low 1 1) : e.Low (reach m + 2) (m + 1) :=
    he.mono (by omega) (by omega)
  refine Meets.current fun t hmem ht => ?_
  generalize hkind : t.kind = k at ht
  split
  case h_1 =>
    refine .skip ?_
    split
    · exact .read (hleaf (.leaf rfl rfl))
    · exact fun _ _ => .error (.token hmem nofun)
  case h_3 =>
    exact .skip ((keeps_templateParts H (ht nofun) hkind).bind fun parts hparts =>
      .read (hleaf hparts))
  case h_7 =>
    refine .skip (.read (hleaf ?_))
    split <;> exact .leaf rfl rfl
  case h_8 =>
    exact .skip ((H.phrase .assignment m).bind fun e he => (Keeps.expectSymbol _).bind fun _ _ =>
      .read (Expr.Low.mono he (by omega) (by omega)))
  case h_9 =>
    refine .skip (((H.phrase .assignment m).items _).bind fun es hes => .read ?_)
    exact Expr.Low.raise (.succ nofun (Node.low_exprs hes)) (by omega)
  case h_10 =>
    refine .skip (((keeps_objectMember H).items _).bind fun members hmembers => .read ?_)
    refine Expr.Low.succ (fun e he => ?_) (Node.low_exprs fun e he => ?_)
    all_goals
      obtain ⟨hmem, hbrief⟩ := List.mem_filter.mp he
      obtain ⟨member, hmember, rfl⟩ := List.mem_map.mp hmem
    · exact (hmembers member hmember).1
    · exact ((hmembers member hmember).2 (by simpa using hbrief)).raise (by omega)
  case h_11 =>
    exact .skip ((keeps_functionRest H false).bind fun definition hdefinition =>
      .read ((low_function hdefinition).raise (by omega)))
  case h_12 => exact .unexpected
  all_goals exact .skip (.read (hleaf (.leaf rfl rfl)))

/-! ### Members, calls and updates -/

theorem keeps_arguments (H : r.Keep l f) :
    Keeps l f m (∀ e ∈ ·, Expr.Low (reach m) m e) (arguments r) :=
  (Keeps.expectSymbol _).bind fun _ _ => (H.phrase .assignment m).items _

/-- A member, an index or a call is one higher than what it is put on, and takes a level. -/
theorem meets_suffix (H : r.Keep l f) (allowCall : Bool) {h : Nat} {e : Expr} (hn : n ≤ m)
    (hreach : reach m ≤ h) (he : e.Low h (m + 1)) :
    Meets l f n (Grown n (·.Low (h + 1) (m + 1))) (suffix r allowCall e) := by
  refine .current fun t _ _ => ?_
  have hnested {k : Nat} {e' : Expr} (hk : n = k + 1) (he' : e'.Low (reach k) k) : e'.Low h m :=
    he'.mono (Nat.le_trans (reach_mono (by omega)) hreach) (by omega)
  split
  · refine .enter fun k hk => .skip (.current fun name _ _ => .ite (.skip (.pure ?_)) .unexpected)
    rintro _ ⟨⟩
    exact ⟨hk.symm, .succ (List.forall_mem_singleton.mpr he) nofun⟩
  · refine .enter fun k hk => .skip <| (H.phrase .assignment k).bind fun key hkey =>
      (Keeps.expectSymbol _).bind fun _ _ => .pure ?_
    rintro _ ⟨⟩
    exact ⟨hk.symm, .succ (List.forall_mem_singleton.mpr he) (Node.low_expr (hnested hk hkey))⟩
  · refine .enter fun k hk => .ite ((keeps_arguments H).bind fun args hargs => .pure ?_)
      (.pure nofun)
    rintro _ ⟨⟩
    exact ⟨hk.symm, .succ (List.forall_mem_singleton.mpr he)
      (Node.low_exprs fun e' he' => hnested hk (hargs e' he'))⟩
  · exact .pure nofun

theorem keeps_construction (H : r.Keep l f) :
    Keeps l f m (·.Low (reach m + m + 3) (m + 1)) (construction r) := by
  have hcallee : Keeps l f m (·.Low (reach m + 2 + m) (m + 1))
      (grow (suffix r false) (primary r)) :=
    (keeps_primary H).grow fun n g e hn hg he => meets_suffix H false hn (by omega) he
  refine hcallee.bind fun callee hcallee => (Keeps.check _).bind fun _ _ => .ite ?_ ?_
  · refine (keeps_arguments H).bind fun args hargs => .read ?_
    refine Expr.Low.raise (.succ (List.forall_mem_singleton.mpr hcallee)
      (Node.low_exprs fun e he => ?_)) (by omega)
    exact (hargs e he).raise (by omega)
  · exact .read (Expr.Low.raise (.succ (List.forall_mem_singleton.mpr hcallee) nofun) (by omega))

theorem keeps_callMember (H : r.Keep l f) :
    Keeps l f m (·.Low (reach m + 2 * m + 3) (m + 1)) (callMember r) := by
  have hfirst : Keeps l f m (·.Low (reach m + m + 3) (m + 1))
      (eatKeyword .newWord >>= fun found => if found then construction r else primary r) :=
    (Keeps.eatKeyword _).bind fun _ _ => .ite (keeps_construction H)
      ((keeps_primary H).mono fun e he => he.raise (by omega))
  refine (hfirst.grow fun n g e hn hg he => meets_suffix H true hn (by omega) he).mono ?_
  exact fun e he => he.raise (by omega)

theorem keeps_postfixUpdate (H : r.Keep l f) :
    Keeps l f m (·.Low (innerReach (m + 1)) (m + 1)) (postfixUpdate r) := by
  rw [innerReach_succ]
  refine (keeps_callMember H).bind fun e he => .current fun t _ _ => ?_
  have hkept : e.Low (reach m + 2 * m + 4) (m + 1) := he.raise (by omega)
  split
  · exact .ite (.read hkept) <| .ite (.failWith_bind nofun) <| .skip <| .read <|
      .succ (List.forall_mem_singleton.mpr he) nofun
  · exact .read hkept

/-! ### Operators -/

theorem keeps_unary (H : r.Keep l f) :
    Keeps l f m (·.Low (innerReach (m + 1)) (m + 1)) (unary r) := by
  have hone : innerReach m + 1 ≤ innerReach (m + 1) := innerReach_lt m
  refine Meets.current fun t _ _ => ?_
  split
  · exact .skip ((H.phrase .unary m).bind fun e he => .read (Expr.Low.raise
      (.succ nofun (Node.low_expr he)) hone))
  · refine .skip ((H.phrase .unary m).bind fun target htarget => .ite (.failWith_bind nofun) ?_)
    have htarget : target.Low (innerReach m) (m + 1) :=
      Expr.Low.mono htarget (Nat.le_refl _) (Nat.le_succ _)
    exact .read (Expr.Low.raise (.succ (List.forall_mem_singleton.mpr htarget) nofun) hone)
  · exact keeps_postfixUpdate H

theorem keeps_power (H : r.Keep l f) :
    Keeps l f m (·.Low (innerReach m + 1) (m + 1)) (power r) := by
  refine (H.phrase .unary m).bind fun base hbase => (Keeps.eatSymbol _).bind fun _ _ => ?_
  have hbase : base.Low (innerReach m) (m + 1) :=
    Expr.Low.mono hbase (Nat.le_refl _) (Nat.le_succ _)
  refine .ite ((H.phrase .power m).bind fun exponent hexponent => ?_) ?_
  · exact .read (.succ (List.forall_mem_singleton.mpr hbase) (Node.low_expr hexponent))
  · exact .read (hbase.raise (Nat.le_succ _))

/-- What a level puts together is a node of one of its operators. -/
theorem combine_eq_some {k : TokenKind} {make : Expr → Expr → Expr}
    (h : combine n k = some make) : ∃ op : Operator, make = op.apply := by
  unfold combine at h
  split at h
  all_goals
    simp only [productOf?, sumOf?, relationOf?, equalityOf?, conjunctionOf?, disjunctionOf?] at h
    split at h <;> cases h
  all_goals
    first
    | exact ⟨.binary _, rfl⟩
    | exact ⟨.logical _, rfl⟩

theorem low_apply {h : Nat} {left right : Expr} (op : Operator) (hleft : left.Low h (m + 1))
    (hright : right.Low h m) : (op.apply left right).Low (h + 1) (m + 1) := by
  cases op <;>
    exact .succ (List.forall_mem_singleton.mpr hleft) (Node.low_expr hright)

/-- Each level may put as many operators on top of an operand as there are levels of nesting. -/
theorem keeps_operation (H : r.Keep l f) (k : Nat) :
    Keeps l f m (·.Low (innerReach m + 1 + k * m) (m + 1)) (operation r k) := by
  induction k generalizing m with
  | zero => exact (keeps_power H).mono fun e he => he.raise (by omega)
  | succ k ih =>
    rw [operation_succ, Nat.succ_mul, ← Nat.add_assoc]
    refine ih.grow fun n g left hn hg hleft => .current fun t _ _ => ?_
    split
    · exact .pure nofun
    · rename_i make hmake
      obtain ⟨op, rfl⟩ := combine_eq_some hmake
      refine .skip (.enter fun n' hn' => ih.bind fun right hright => .pure ?_)
      rintro _ ⟨⟩
      have hbound := innerReach_mono (show n' ≤ m by omega)
      have hloops := Nat.mul_le_mul_left k (show n' ≤ m by omega)
      exact ⟨hn'.symm, low_apply op hleft (hright.mono (by omega) (by omega))⟩

theorem keeps_conditional (H : r.Keep l f) :
    Keeps l f m (·.Low (innerReach m + 6 * m + 2) (m + 1)) (conditional r) := by
  have htest : Keeps l f m (·.Low (innerReach m + 1 + 6 * m) (m + 1)) (disjunction r) :=
    disjunction_eq r ▸ keeps_operation H 6
  have hbranch : reach m ≤ innerReach m + 1 + 6 * m := by
    unfold reach innerReach
    omega
  refine htest.bind fun test htest => (Keeps.eatSymbol _).bind fun _ _ => .ite ?_ ?_
  · refine (H.phrase .assignment m).bind fun consequent hconsequent =>
      (Keeps.expectSymbol _).bind fun _ _ =>
      (H.phrase .assignment m).bind fun alternate halternate => .read ?_
    refine Expr.Low.raise (.succ (List.forall_mem_singleton.mpr htest) ?_) (by omega)
    refine List.forall_mem_cons.mpr ⟨?_, Node.low_expr ?_⟩
    · exact Expr.Low.raise hconsequent hbranch
    · exact Expr.Low.raise halternate hbranch
  · exact .read (htest.raise (by omega))

theorem keeps_assignment (H : r.Keep l f) :
    Keeps l f m (·.Low (reach (m + 1)) (m + 1)) (assignment r) := by
  have harrow : reach m + 1 ≤ reach (m + 1) := Nat.le_of_succ_le (reach_add_two_le m)
  refine (Keeps.check _).bind fun _ _ => (Keeps.look fun _ => rfl).bind fun _ _ =>
    .ite (Keeps.identifier.bind fun param _ => ?_) ?_
  · exact (keeps_arrowRest H [param]).mono fun e he => he.raise harrow
  refine (Keeps.look fun _ => rfl).bind fun _ _ =>
    .ite (keeps_parameters.bind fun params _ => ?_) ?_
  · exact (keeps_arrowRest H params).mono fun e he => he.raise harrow
  rw [reach_succ]
  refine (keeps_conditional H).bind fun left hleft => .current fun t _ _ => ?_
  split
  · exact .read (hleft.raise (by omega))
  · have hvalue : ∀ op, Keeps l f m (·.Low (innerReach m + 6 * m + 4) (m + 1))
        (advance >>= fun _ => r.phrase .assignment >>= fun value =>
          pure (Expr.assign op left value)) := by
      refine fun op => .skip ((H.phrase .assignment m).bind fun value hvalue => .read ?_)
      refine Expr.Low.raise (.succ (List.forall_mem_singleton.mpr hleft) (Node.low_expr ?_))
        (by omega)
      refine Expr.Low.raise hvalue ?_
      unfold reach innerReach
      omega
    exact .ite (.failWith_bind nofun) (hvalue _)

/-! ### Statements -/

theorem keeps_declaration (H : r.Keep l f) (kind : DeclKind) :
    Keeps l f m (fun declared => ∀ e ∈ declared.2, e.Low (reach m) m) (declaration r kind) := by
  refine Keeps.identifier.bind fun name _ => (Keeps.eatSymbol _).bind fun _ _ => .ite ?_ ?_
  · refine (H.phrase .assignment m).bind fun e he => .read ?_
    rintro _ ⟨⟩
    exact he
  · split
    · exact .failWith_bind nofun
    · exact .read nofun

theorem keeps_declarations (H : r.Keep l f) (kind : DeclKind) :
    Keeps l f m (·.Low (reach m + 1) (m + 1)) (declarations r kind) := by
  refine (keeps_declaration H kind).commaSeparated.bind fun declared hdeclared => .read ?_
  refine .plain rfl (Node.low_exprs fun e he => ?_)
  obtain ⟨declaration, hmem, he⟩ := List.mem_filterMap.mp he
  exact hdeclared declaration hmem e he

theorem keeps_parenthesized (H : r.Keep l f) :
    Keeps l f m (·.Low (reach m) m) (parenthesized r) :=
  (Keeps.expectSymbol _).bind fun _ _ => (H.phrase .assignment m).bind fun _ he =>
    (Keeps.expectSymbol _).bind fun _ _ => .read he

theorem keeps_ifRest (H : r.Keep l f) :
    Keeps l f m (·.Low (reach m + 1) (m + 1)) (ifRest r) := by
  refine (keeps_parenthesized H).bind fun test htest =>
    (H.phrase .statement m).bind fun consequent hconsequent =>
    (Keeps.eatKeyword _).bind fun _ _ => .ite ?_ ?_
  · refine (H.phrase .statement m).bind fun alternate halternate => .read (.plain rfl ?_)
    exact List.forall_mem_cons.mpr ⟨htest, List.forall_mem_cons.mpr ⟨hconsequent,
      List.forall_mem_singleton.mpr halternate⟩⟩
  · exact .read (.plain rfl (List.forall_mem_cons.mpr ⟨htest,
      List.forall_mem_singleton.mpr hconsequent⟩))

theorem keeps_eachLoop (H : r.Keep l f) (kind : Option DeclKind) (elements : Bool) :
    Keeps l f m (·.Low (reach m + 1) (m + 1)) (eachLoop r kind elements) := by
  refine Keeps.identifier.bind fun name _ => .skip <| (H.phrase .assignment m).bind fun e he =>
    (Keeps.expectSymbol _).bind fun _ _ => (H.phrase .statement m).bind fun body hbody => .read ?_
  split <;> exact .plain rfl (List.forall_mem_cons.mpr ⟨he, List.forall_mem_singleton.mpr hbody⟩)

theorem keeps_eachRest (H : r.Keep l f) (kind : Option DeclKind) (elements : Bool) :
    Keeps l f m (·.Low (reach m + 1) (m + 1)) (eachRest r kind elements) := by
  have hloop := keeps_eachLoop (m := m) H kind elements
  cases kind with
  | none => exact hloop
  | some kind => exact .skip hloop

theorem keeps_unlessSymbol (s : Symbol) {p : Parse α} {Q : α → Prop} (h : Keeps l f m Q p) :
    Keeps l f m (∀ a ∈ ·, Q a) (unlessSymbol s p) := by
  refine (Keeps.check _).bind fun _ _ => .ite (.read nofun) (h.bind fun a ha => .read ?_)
  rintro _ ⟨⟩
  exact ha

theorem keeps_loopStart (H : r.Keep l f) (kind : Option DeclKind) :
    Keeps l f m (·.Low (reach m + 1) (m + 1)) (loopStart r kind) := by
  cases kind with
  | none => exact (H.phrase .assignment m).bind fun e he => .read (.plain rfl (Node.low_expr he))
  | some kind => exact .skip (keeps_declarations H kind)

theorem keeps_loopRest (H : r.Keep l f) (kind : Option DeclKind) :
    Keeps l f m (·.Low (reach m + 2) (m + 1)) (loopRest r kind) := by
  refine (keeps_unlessSymbol _ (keeps_loopStart H kind)).bind fun start hstart =>
    (Keeps.expectSymbol _).bind fun _ _ =>
    (keeps_unlessSymbol _ (H.phrase .assignment m)).bind fun test htest =>
    (Keeps.expectSymbol _).bind fun _ _ =>
    (keeps_unlessSymbol _ (H.phrase .assignment m)).bind fun update hupdate =>
    (Keeps.expectSymbol _).bind fun _ _ =>
    (H.phrase .statement m).bind fun body hbody => .read (.succ ?_ ?_)
  · exact fun s hs => hstart s (Option.mem_toList.mp hs)
  · refine List.forall_mem_cons.mpr ⟨Stmt.Low.raise hbody (Nat.le_succ _), ?_⟩
    refine Node.low_exprs fun e he => ?_
    have hlow : e.Low (reach m) m := (List.mem_append.mp he).elim
      (fun he => htest e (Option.mem_toList.mp he)) (fun he => hupdate e (Option.mem_toList.mp he))
    exact hlow.raise (Nat.le_succ _)

theorem keeps_forRest (H : r.Keep l f) :
    Keeps l f m (·.Low (reach m + 2) (m + 1)) (forRest r) := by
  refine (Keeps.expectSymbol _).bind fun _ _ => .current fun t _ _ => ?_
  refine (Keeps.look (eachAhead_eq _)).bind fun elements _ => ?_
  cases elements with
  | some elements =>
    exact (keeps_eachRest H _ elements).mono fun s hs => hs.raise (Nat.le_succ _)
  | none => exact keeps_loopRest H _

theorem keeps_finallyRest (H : r.Keep l f) {guarded : List Stmt} {handler : Option (List Stmt)}
    (param : Option String) (hguarded : ∀ s ∈ guarded, s.Low (reach m) m)
    (hhandler : ∀ s ∈ handler.getD [], s.Low (reach m) m) :
    Keeps l f m (·.Low (reach m + 1) (m + 1)) (finallyRest r guarded param handler) := by
  have hend : ∀ finalizer : Option (List Stmt), (∀ s ∈ finalizer.getD [], s.Low (reach m) m) →
      Keeps l f m (·.Low (reach m + 1) (m + 1))
        (if (handler.isNone && finalizer.isNone) = true then
          (failWith .missingHandler : Parse Unit) >>= fun _ =>
            pure (Stmt.tryCatch guarded param handler finalizer)
        else pure (.tryCatch guarded param handler finalizer)) := by
    refine fun finalizer hfinalizer => .ite (.failWith_bind nofun) (.read (.plain rfl ?_))
    refine Node.low_stmts fun s hs => ?_
    rcases List.mem_append.mp hs with hs | hs
    · exact (List.mem_append.mp hs).elim (hguarded s) (hhandler s)
    · exact hfinalizer s hs
  have hfinally : Keeps l f m (∀ s ∈ ·.getD [], Stmt.Low (reach m) m s) (some <$> block r) :=
    (keeps_block H).map some fun _ => id
  exact (Keeps.eatKeyword _).bind fun _ _ => .ite
    (hfinally.bind hend) (hend none nofun)

theorem keeps_tryRest (H : r.Keep l f) :
    Keeps l f m (·.Low (reach m + 1) (m + 1)) (tryRest r) := by
  refine (keeps_block H).bind fun guarded hguarded => (Keeps.eatKeyword _).bind fun _ _ => ?_
  have hhandler : ∀ param : Option String, Keeps l f m (·.Low (reach m + 1) (m + 1))
      (block r >>= fun body => finallyRest r guarded param (some body)) := fun param =>
    (keeps_block H).bind fun body hbody => keeps_finallyRest H param hguarded hbody
  refine .ite ((Keeps.eatSymbol _).bind fun _ _ => .ite ?_ ?_) ?_
  · exact Keeps.identifier.bind fun name _ => (Keeps.expectSymbol _).bind fun _ _ =>
      hhandler (some name)
  · exact hhandler none
  · exact keeps_finallyRest H none hguarded nofun

theorem keeps_returnRest (H : r.Keep l f) :
    Keeps l f m (·.Low (reach m + 1) (m + 1)) (returnRest r) := by
  have hend : ∀ value : Option Expr, (∀ e ∈ value, e.Low (reach m) m) →
      Keeps l f m (·.Low (reach m + 1) (m + 1))
        (endStatement >>= fun _ => pure (Stmt.returnWith value)) := fun value hvalue =>
    Keeps.endStatement.bind fun _ _ => .read (.plain rfl (Node.low_exprs fun e he =>
      hvalue e (Option.mem_toList.mp he)))
  have hvalue : Keeps l f m (∀ e ∈ ·, Expr.Low (reach m) m e) (some <$> expression r) := by
    refine (H.phrase .assignment m).map some fun _ he => ?_
    rintro _ ⟨⟩
    exact he
  exact Meets.current fun t _ _ => .ite (hend none nofun) (hvalue.bind hend)

theorem keeps_statement (H : r.Keep l f) :
    Keeps l f m (·.Low (reach (m + 1)) (m + 1)) (statement r) := by
  have hone : reach m + 2 ≤ reach (m + 1) := reach_add_two_le m
  have hlow {p : Parse Stmt} (h : Keeps l f m (·.Low (reach m + 1) (m + 1)) p) :
      Keeps l f m (·.Low (reach (m + 1)) (m + 1)) p :=
    h.mono fun s hs => hs.raise (by omega)
  have hended {s : Stmt} (hs : s.Low (reach m + 1) (m + 1)) :
      Keeps l f m (·.Low (reach (m + 1)) (m + 1)) (endStatement >>= fun _ => pure s) :=
    hlow (Keeps.endStatement.bind fun _ _ => .read hs)
  have hdeclarations : ∀ kind, Keeps l f m (·.Low (reach (m + 1)) (m + 1))
      (declarations r kind >>= fun s => endStatement >>= fun _ => pure s) := fun kind =>
    (keeps_declarations H kind).bind fun s hs => hended hs
  refine Meets.current fun t _ _ => ?_
  split
  · exact hlow ((keeps_block H).bind fun body hbody => .read (.plain rfl (Node.low_stmts hbody)))
  · exact .skip (hlow (.pure (.plain rfl nofun)))
  · exact .skip (hdeclarations _)
  · exact .skip (hdeclarations _)
  · exact .skip (hdeclarations _)
  · exact .skip (hlow ((keeps_functionRest H true).bind fun definition hdefinition =>
      .read (.plain rfl hdefinition)))
  · exact .skip (hlow (keeps_ifRest H))
  · exact .skip (hlow ((keeps_parenthesized H).bind fun test htest =>
      (H.phrase .statement m).bind fun body hbody => .read (.plain rfl
        (List.forall_mem_cons.mpr ⟨htest, List.forall_mem_singleton.mpr hbody⟩))))
  · exact .skip (hlow ((H.phrase .statement m).bind fun body hbody =>
      (Keeps.expectKeyword _).bind fun _ _ => (keeps_parenthesized H).bind fun test htest =>
      (Keeps.eatSymbol _).bind fun _ _ => .read (.plain rfl
        (List.forall_mem_cons.mpr ⟨htest, List.forall_mem_singleton.mpr hbody⟩))))
  · exact .skip ((keeps_forRest H).mono fun s hs => hs.raise hone)
  · exact .skip (hlow (keeps_returnRest H))
  · exact .skip (hended (.plain rfl nofun))
  · exact .skip (hended (.plain rfl nofun))
  · have hvalue : Keeps l f m (·.Low (reach (m + 1)) (m + 1))
        (expression r >>= fun e => endStatement >>= fun _ => pure (Stmt.throwValue e)) :=
      (H.phrase .assignment m).bind fun e he => hended (.plain rfl (Node.low_expr he))
    exact .skip (.current fun value _ _ => .ite .unexpected_bind hvalue)
  · exact .skip (hlow (keeps_tryRest H))
  · exact (H.phrase .assignment m).bind fun e he => hended (.plain rfl (Node.low_expr he))

/-! ### Phrases -/

theorem keeps_phrase (H : r.Keep l f) (p : Phrase α) :
    Keeps l f m (p.Low (m + 1)) (phrase r p) := by
  cases p with
  | statement => exact keeps_statement H
  | assignment => exact keeps_assignment H
  | power => exact (keeps_power H).mono fun e he => he.raise (innerReach_lt m)
  | unary => exact keeps_unary H

end Grammar

/-! ### Levels and sources -/

theorem keeps_phraseAt (hf : ∀ source e, f source = .ok e → e.Low (reach maxDepth) maxDepth)
    (levels : Nat) (p : Phrase α) : Keeps l f m (p.Low m) (phraseAt f levels p) := by
  induction levels generalizing α m with
  | zero => exact .failWith nofun
  | succ levels ih =>
    refine .nested fun n hn => ?_
    subst hn
    exact Grammar.keeps_phrase (r := ⟨phraseAt f levels, f⟩) ⟨fun p _ => ih p, rfl, hf⟩ p

/-- What is read from the source of a substitution is as low as the levels of its reader allow. -/
theorem low_fragmentOf {size : Nat} {source : List Char} {e : Expr}
    (h : fragmentOf size source = .ok e) : e.Low (reach maxDepth) maxDepth := by
  induction size generalizing source e with
  | zero => cases h
  | succ size ih =>
    obtain ⟨l, c, htokens, hphrase, -⟩ := fragmentOf_eq_ok.mp h
    have hkept := keeps_phraseAt (l := l) (f := fragmentOf size) (m := maxDepth)
      (fun _ _ h => ih h) maxDepth .assignment _ (.start (tokenize_closed htokens).stop)
    obtain ⟨_, -, -, hlow⟩ := hkept.of_ok hphrase
    exact hlow

theorem keeps_fragmentOf (size levels : Nat) (p : Phrase α) :
    Keeps l (fragmentOf size) m (p.Low m) (phraseAt (fragmentOf size) levels p) :=
  keeps_phraseAt (fun _ _ => low_fragmentOf) levels p

theorem except_bind_eq_error {ε : Type} {x : Except ε α} {g : α → Except ε β} {e : ε} :
    x >>= g = .error e ↔ x = .error e ∨ ∃ a, x = .ok a ∧ g a = .error e := by
  cases x with
  | error e' =>
    have hbind : (Except.error e' : Except ε α) >>= g = .error e' := rfl
    rw [hbind]
    constructor
    · exact fun h => .inl (congrArg _ (Except.error.inj h))
    · rintro (h | ⟨a, h, -⟩) <;> cases h
      rfl
  | ok a =>
    constructor
    · exact fun h => .inr ⟨a, rfl, h⟩
    · rintro (h | ⟨a', h, hg⟩) <;> cases h
      exact hg

/-- If the source of a substitution is not read, it has no tokens, or the error blames one. -/
theorem blamed_fragmentOf {size : Nat} {source : List Char} {e : SyntaxError}
    (h : fragmentOf (size + 1) source = .error e) :
    tokenize (String.ofList source) = .error e ∨
      ∃ l, tokenize (String.ofList source) = .ok l ∧ Blamed l (fragmentOf size) e := by
  refine (except_bind_eq_error.mp h).imp_right fun ⟨l, htokens, h⟩ => ⟨l, htokens, ?_⟩
  have hkept := keeps_fragmentOf (m := maxDepth) size maxDepth .assignment _
    (.start (tokenize_closed htokens).stop)
  rcases except_bind_eq_error.mp h with herror | ⟨⟨e', c⟩, hok, h⟩
  · exact hkept.of_error herror
  · obtain ⟨_, hc, -⟩ := hkept.of_ok hok
    dsimp only at h
    split at h
    · cases h
    · rcases except_bind_eq_error.mp h with herror | ⟨r, hr, -⟩
      · exact Kept.of_error (Meets.unexpected (R := fun _ _ => True) c hc) herror
      · exact absurd hr (Fails.unexpected r)

theorem kept_program {source : String} {l : TokenList} (htokens : tokenize source = .ok l) :
    Kept l (fragmentOf source.length)
      (fun body left => left = maxDepth ∧ ∀ s ∈ body, Stmt.Low (reach maxDepth) maxDepth s)
      (untilStop (phraseAt (fragmentOf source.length) maxDepth .statement) (Cursor.start l)) :=
  (keeps_fragmentOf source.length maxDepth .statement).untilStop _
    (.start (tokenize_closed htokens).stop)

/-- A program that is read is as low as the levels of its reader allow. -/
theorem low_parse {source : String} {program : Program} (h : parse source = .ok program) :
    ∀ s ∈ program.body, s.Low (reach maxDepth) maxDepth := by
  obtain ⟨l, htokens, h⟩ := except_bind_eq_ok.mp h
  obtain ⟨⟨body, c⟩, hbody, h⟩ := except_bind_eq_ok.mp h
  cases h
  obtain ⟨_, -, -, hlow⟩ := (kept_program htokens).of_ok hbody
  exact hlow

/-- If a program is not read, its source has no tokens, or the error blames one. -/
theorem blamed_parse {source : String} {e : SyntaxError} (h : parse source = .error e) :
    tokenize source = .error e ∨
      ∃ l, tokenize source = .ok l ∧ Blamed l (fragmentOf source.length) e := by
  refine (except_bind_eq_error.mp h).imp_right fun ⟨l, htokens, h⟩ => ⟨l, htokens, ?_⟩
  rcases except_bind_eq_error.mp h with herror | ⟨r, -, h⟩
  · exact (kept_program htokens).of_error herror
  · cases h

end MemoryShell.Script
