/-
  MemoryShell/Proofs/Syntax/Progress.lean
  =======================================
  **Readers that take tokens, and the loops that are made of them.**

  A reader that succeeds has taken some of the tokens at its cursor, the next ones, and never goes
  back.  How many it takes at least tells whether a loop over it ends: a list takes a token for each
  of its items, and a loop that lets an expression grow takes a token and a level for each turn.  So
  neither needs the bound that it is written with.

  Two readers that differ in their bounds alone are followed side by side: they come to the same
  wherever a cursor has as many levels left as both of them can go down.
-/
import MemoryShell.Proofs.Syntax.Contracts
import MemoryShell.Proofs.Syntax.Turns

namespace MemoryShell.Script

open Parse

variable {l : TokenList} {m n k j : Nat} {c d e : Cursor} {α β : Type}

/-! ### Moves -/

/-- From a cursor a number of tokens on there is another one. -/
structure Cursor.Moves (c : Cursor) (taken : Nat) (d : Cursor) : Prop where
  suffix : d.rest <:+ c.rest
  length : d.rest.length + taken = c.rest.length

namespace Cursor.Moves

theorem stay {depth : Nat} : c.Moves 0 { c with depth := depth } := ⟨List.suffix_rfl, rfl⟩

theorem trans (h : c.Moves k d) (h' : d.Moves n e) : c.Moves (k + n) e :=
  ⟨h'.suffix.trans h.suffix, by rw [← h.length, ← h'.length]; omega⟩

theorem of_withDepth (h : ({ c with depth := n } : Cursor).Moves k d) : c.Moves k d :=
  ⟨h.suffix, h.length⟩

theorem next_of_ne_nil (h : c.rest ≠ []) : c.Moves 1 c.next := by
  refine ⟨List.tail_suffix _, ?_⟩
  have hpos := List.length_pos_iff.mpr h
  rw [Cursor.next, List.length_tail]
  omega

theorem exists_next (c : Cursor) : ∃ taken, c.Moves taken c.next := by
  by_cases h : c.rest = []
  · exact ⟨0, List.tail_suffix _, by rw [Cursor.next, h]; rfl⟩
  · exact ⟨1, next_of_ne_nil h⟩

end Cursor.Moves

theorem Cursor.Within.kind_of_nil (h : c.Within l m) (hrest : c.rest = []) :
    c.current.kind = .stop := by
  rw [Cursor.current, hrest]
  exact (congrArg Token.kind h.stop).trans h.ends

/-- Where the token at a cursor is not the end, there is a token left. -/
theorem Cursor.Within.rest_ne_nil (h : c.Within l m) (hkind : c.current.kind ≠ .stop) :
    c.rest ≠ [] := fun hrest => hkind (h.kind_of_nil hrest)

theorem Cursor.Within.check_stop (h : c.Within l m) (hrest : c.rest = []) :
    Parse.check .stop c = .ok (true, c) := by
  rw [Parse.check, h.kind_of_nil hrest]
  rfl

/-! ### Readers side by side -/

/-- An outcome that is a failure, or has moved on from a cursor; the condition is on what has been
    read, on the levels that are left, and on the number of tokens taken. -/
def Took (l : TokenList) (R : α → Nat → Nat → Prop) (c : Cursor)
    (x : Except SyntaxError (α × Cursor)) : Prop :=
  ∀ a d, x = .ok (a, d) → ∃ levels taken, d.Within l levels ∧ c.Moves taken d ∧ R a levels taken

/-- Two readers that come to the same at a cursor, and move on from there. -/
structure ProceedAt (l : TokenList) (R : α → Nat → Nat → Prop) (p q : Parse α) (c : Cursor) :
    Prop where
  same : p c = q c
  took : Took l R c (p c)

/-- Two readers that come to the same wherever they begin with a number of levels left. -/
def Proceed (l : TokenList) (m : Nat) (R : α → Nat → Nat → Prop) (p q : Parse α) : Prop :=
  ∀ c : Cursor, c.Within l m → ProceedAt l R p q c

/-- Two readers that, at a cursor, leave as many levels as they were given, and take at least a
    number of tokens. -/
abbrev TakeAt (l : TokenList) (m k : Nat) (p q : Parse α) (c : Cursor) : Prop :=
  ProceedAt l (fun _ levels taken => levels = m ∧ k ≤ taken) p q c

/-- Two readers that do so wherever they begin with that number of levels. -/
def Take (l : TokenList) (m k : Nat) (p q : Parse α) : Prop :=
  Proceed l m (fun _ levels taken => levels = m ∧ k ≤ taken) p q

/-- Two readers of a list that take at least a token for each of its items, but for a number of
    them. -/
def Collect (l : TokenList) (m k : Nat) (p q : Parse (List α)) : Prop :=
  Proceed l m (fun as levels taken => levels = m ∧ as.length ≤ k + taken) p q

/-- What adds something takes a level for it, and a token. -/
def Adds (m : Nat) (grown : Option Expr) (levels taken : Nat) : Prop :=
  ∀ e, grown = some e → levels + 1 = m ∧ 1 ≤ taken

/-- Two steps of a loop that lets an expression grow. -/
def Extend (l : TokenList) (m : Nat) (p q : Parse (Option Expr)) : Prop :=
  Proceed l m (Adds m) p q

section Rules

variable {p q p' q' : Parse α} {f g : α → Parse β} {R R' : α → Nat → Nat → Prop}
  {Q : β → Nat → Nat → Prop}

theorem ProceedAt.bind (h : ProceedAt l R p q c)
    (hf : ∀ a levels taken, R a levels taken →
      Proceed l levels (fun b left more => Q b left (taken + more)) (f a) (g a)) :
    ProceedAt l Q (p >>= f) (q >>= g) c := by
  obtain ⟨hsame, htook⟩ := h
  cases hread : p c with
  | error e =>
    refine ⟨?_, ?_⟩
    · rw [bind_of_error hread, bind_of_error (hsame.symm.trans hread)]
    · rw [bind_of_error hread]
      exact nofun
  | ok r =>
    obtain ⟨a, d⟩ := r
    obtain ⟨levels, taken, hd, hmoves, ha⟩ := htook a d hread
    obtain ⟨hsame', htook'⟩ := hf a levels taken ha d hd
    refine ⟨?_, ?_⟩
    · rw [bind_of_ok hread, bind_of_ok (hsame.symm.trans hread), hsame']
    · rw [bind_of_ok hread]
      intro b e he
      obtain ⟨left, more, hwithin, hmoves', hb⟩ := htook' b e he
      exact ⟨left, taken + more, hwithin, hmoves.trans hmoves', hb⟩

theorem ProceedAt.mono (h : ProceedAt l R p q c)
    (himp : ∀ a levels taken, R a levels taken → R' a levels taken) : ProceedAt l R' p q c := by
  refine ⟨h.same, fun a d hd => ?_⟩
  obtain ⟨levels, taken, hwithin, hmoves, ha⟩ := h.took a d hd
  exact ⟨levels, taken, hwithin, hmoves, himp a levels taken ha⟩

/-- Where a token is left, passing over it takes it. -/
theorem ProceedAt.advance {f g : Token → Parse β} (hc : c.Within l m) (hrest : c.rest ≠ [])
    (h : ∀ t, Proceed l m (fun b levels taken => Q b levels (1 + taken)) (f t) (g t)) :
    ProceedAt l Q (Parse.advance >>= f) (Parse.advance >>= g) c := by
  have hadvance : ProceedAt l (fun _ levels taken => levels = m ∧ taken = 1) Parse.advance
      Parse.advance c := by
    refine ⟨rfl, ?_⟩
    rintro _ _ ⟨⟩
    exact ⟨m, 1, hc.next, .next_of_ne_nil hrest, rfl, rfl⟩
  refine hadvance.bind fun t levels taken ht => ?_
  obtain ⟨rfl, rfl⟩ := ht
  exact h t

/-- A level is taken, if one is left. -/
theorem ProceedAt.enter {f g : Unit → Parse β} (hc : c.Within l m)
    (h : ∀ n, m = n + 1 → ∀ d : Cursor, d.rest = c.rest → d.Within l n →
      ProceedAt l Q (f ()) (g ()) d) :
    ProceedAt l Q (Parse.enter >>= f) (Parse.enter >>= g) c := by
  have hroom := hc.room
  by_cases hdepth : c.depth + 1 > maxDepth
  · have henter : Parse.enter c = .error ⟨.nestingTooDeep, c.current.position⟩ := if_pos hdepth
    refine ⟨?_, ?_⟩
    · rw [bind_of_error henter, bind_of_error henter]
    · rw [bind_of_error henter]
      exact nofun
  · have henter : Parse.enter c = .ok ((), { c with depth := c.depth + 1 }) := if_neg hdepth
    obtain ⟨n, rfl⟩ : ∃ n, m = n + 1 := Nat.exists_eq_add_one.mpr (by omega)
    obtain ⟨hsame, htook⟩ := h n rfl { c with depth := c.depth + 1 } rfl (hc.withDepth (by omega))
    refine ⟨?_, ?_⟩
    · rw [bind_of_ok henter, bind_of_ok henter, hsame]
    · rw [bind_of_ok henter]
      intro b e he
      obtain ⟨left, taken, hwithin, hmoves, hb⟩ := htook b e he
      exact ⟨left, taken, hwithin, hmoves.of_withDepth, hb⟩

namespace Proceed

theorem bind (h : Proceed l m R p q)
    (hf : ∀ a levels taken, R a levels taken →
      Proceed l levels (fun b left more => Q b left (taken + more)) (f a) (g a)) :
    Proceed l m Q (p >>= f) (q >>= g) :=
  fun c hc => (h c hc).bind hf

theorem mono (h : Proceed l m R p q)
    (himp : ∀ a levels taken, R a levels taken → R' a levels taken) : Proceed l m R' p q :=
  fun c hc => (h c hc).mono himp

theorem pure {a : α} (h : R a m 0) : Proceed l m R (Pure.pure a) (Pure.pure a) := by
  refine fun c hc => ⟨rfl, ?_⟩
  rintro _ _ ⟨⟩
  exact ⟨m, 0, hc, .stay, h⟩

theorem ite {b : Bool} (h : Proceed l m R p q) (h' : Proceed l m R p' q') :
    Proceed l m R (if b then p else p') (if b then q else q') := by
  cases b with
  | true => exact h
  | false => exact h'

theorem of_fails (h : ∀ c, Fails p c) : Proceed l m R p p :=
  fun c _ => ⟨rfl, fun _ _ hok => absurd hok (h c _)⟩

/-- Nothing is read behind a failure. -/
theorem fails_bind (h : ∀ c, Fails p c) : Proceed l m Q (p >>= f) (p >>= g) :=
  (of_fails (R := fun _ _ _ => False) h).bind fun _ _ _ hfalse => hfalse.elim

theorem current {f g : Token → Parse β}
    (h : ∀ c : Cursor, c.Within l m → ProceedAt l Q (f c.current) (g c.current) c) :
    Proceed l m Q (Parse.current >>= f) (Parse.current >>= g) :=
  fun c hc => ⟨(h c hc).same, (h c hc).took⟩

theorem enter {f g : Unit → Parse β} (h : ∀ n, m = n + 1 → Proceed l n Q (f ()) (g ())) :
    Proceed l m Q (Parse.enter >>= f) (Parse.enter >>= g) :=
  fun _ hc => .enter hc fun n hn d _ hd => h n hn d hd

end Proceed

/-- The depth is set back to that of a number of levels left. -/
theorem Proceed.setDepth {depth : Nat} (hroom : depth + n = maxDepth) (a : α) :
    Proceed l m (fun _ levels _ => levels = n) (Parse.setDepth depth >>= fun _ => Pure.pure a)
      (Parse.setDepth depth >>= fun _ => Pure.pure a) := by
  refine fun c hc => ⟨rfl, ?_⟩
  rintro _ _ ⟨⟩
  exact ⟨n, 0, hc.withDepth hroom, .stay, rfl⟩

namespace Take

theorem bind (h : Take l m j p q) (hf : ∀ a, Take l m (k - j) (f a) (g a)) :
    Take l m k (p >>= f) (q >>= g) := by
  refine Proceed.bind h fun a levels taken ht => ?_
  obtain ⟨rfl, htaken⟩ := ht
  exact (hf a).mono fun b left more hb => ⟨hb.1, by omega⟩

theorem ite {b : Bool} (h : Take l m k p q) (h' : Take l m k p' q') :
    Take l m k (if b then p else p') (if b then q else q') := Proceed.ite h h'

theorem weaken (h : Take l m k p q) (hle : j ≤ k) : Take l m j p q :=
  Proceed.mono h fun _ _ _ ht => ⟨ht.1, Nat.le_trans hle ht.2⟩

theorem pure (a : α) : Take l m 0 (Pure.pure a) (Pure.pure a) := Proceed.pure ⟨rfl, Nat.le_refl 0⟩

theorem map (φ : α → β) (h : Take l m k p q) : Take l m k (φ <$> p) (φ <$> q) :=
  h.bind fun a => (pure (φ a)).weaken (by omega)

/-- What is looked up without moving. -/
theorem look {v : Cursor → α} (hp : ∀ c, p c = .ok (v c, c)) : Take l m 0 p p := by
  refine fun c hc => ⟨rfl, ?_⟩
  rw [hp]
  rintro _ _ ⟨⟩
  exact ⟨m, 0, hc, .stay, rfl, Nat.le_refl 0⟩

theorem check (kind : TokenKind) : Take l m 0 (Parse.check kind) (Parse.check kind) :=
  look fun _ => rfl

theorem checkNextSymbol (s : Symbol) :
    Take l m 0 (Parse.checkNextSymbol s) (Parse.checkNextSymbol s) := look fun _ => rfl

theorem lift {x y : Except SyntaxError α} (h : x = y) :
    Take l m 0 (liftM x : Parse α) (liftM y) := by
  subst h
  refine fun c hc => ⟨rfl, ?_⟩
  cases x with
  | error e => exact nofun
  | ok a =>
    rintro _ _ ⟨⟩
    exact ⟨m, 0, hc, .stay, rfl, Nat.le_refl 0⟩

theorem advance : Take l m 0 Parse.advance Parse.advance := by
  refine fun c hc => ⟨rfl, ?_⟩
  rintro _ _ ⟨⟩
  obtain ⟨taken, hmoves⟩ := Cursor.Moves.exists_next c
  exact ⟨m, taken, hc.next, hmoves, rfl, Nat.zero_le _⟩

theorem eat (kind : TokenKind) : Take l m 0 (Parse.eat kind) (Parse.eat kind) := by
  refine fun c hc => ⟨rfl, ?_⟩
  unfold Parse.eat
  split
  · rintro _ _ ⟨⟩
    obtain ⟨taken, hmoves⟩ := Cursor.Moves.exists_next c
    exact ⟨m, taken, hc.next, hmoves, rfl, Nat.zero_le _⟩
  · rintro _ _ ⟨⟩
    exact ⟨m, 0, hc, .stay, rfl, Nat.le_refl 0⟩

theorem eatSymbol (s : Symbol) : Take l m 0 (Parse.eatSymbol s) (Parse.eatSymbol s) := eat _

theorem eatKeyword (w : Keyword) : Take l m 0 (Parse.eatKeyword w) (Parse.eatKeyword w) := eat _

/-- A token that has to come is taken, as long as it is not the end that has to come. -/
theorem expect (kind : TokenKind) (hkind : kind ≠ .stop) :
    Take l m 1 (Parse.expect kind) (Parse.expect kind) := by
  refine fun c hc => ⟨rfl, ?_⟩
  by_cases h : c.current.kind = kind
  · rw [expect_of_eq h]
    rintro _ _ ⟨⟩
    have hrest : c.rest ≠ [] := hc.rest_ne_nil (h ▸ hkind)
    exact ⟨m, 1, hc.next, .next_of_ne_nil hrest, rfl, Nat.le_refl 1⟩
  · exact fun _ _ hok => absurd hok (fails_expect h _)

theorem expectSymbol (s : Symbol) : Take l m 1 (Parse.expectSymbol s) (Parse.expectSymbol s) :=
  (expect (.symbol s) nofun).bind fun _ => pure ()

theorem expectKeyword (w : Keyword) :
    Take l m 1 (Parse.expectKeyword w) (Parse.expectKeyword w) :=
  (expect (.keyword w) nofun).bind fun _ => pure ()

theorem identifier : Take l m 1 Parse.identifier Parse.identifier :=
  (expect .identifier nofun).bind fun t => pure t.text

theorem endStatement : Take l m 0 Parse.endStatement Parse.endStatement := by
  refine (eatSymbol _).bind fun _ => .ite (pure ()) (.current fun c hc => ?_)
  split
  · exact pure () c hc
  · exact Proceed.of_fails (fun _ => .unexpected) c hc

/-- A phrase takes a level for itself, and gives it back. -/
theorem nested (h : ∀ n, m = n + 1 → Take l n k p q) :
    Take l m k (Parse.nested p) (Parse.nested q) := by
  intro c hc
  have hroom := hc.room
  refine Proceed.enter (fun n hn => Proceed.bind (h n hn) fun a levels taken ht d hd => ?_) c hc
  have hleft := hd.room
  obtain ⟨rfl, htaken⟩ := ht
  have hleave : Proceed l levels (fun _ left more => left = m ∧ k ≤ taken + more)
      (Parse.setDepth (d.depth - 1) >>= fun _ => Pure.pure a)
      (Parse.setDepth (d.depth - 1) >>= fun _ => Pure.pure a) :=
    (Proceed.setDepth (by omega) a).mono fun _ _ _ hlevels => ⟨hlevels, by omega⟩
  exact ⟨(hleave d hd).same, (hleave d hd).took⟩

/-! ### Repetition -/

/-- A loop that lets an expression grow; in the end the levels are what they were. -/
theorem grow {step step' : Expr → Parse (Option Expr)} {first first' : Parse Expr}
    (hfirst : Take l m k first first')
    (hstep : ∀ n ≤ m, ∀ e, Extend l n (step e) (step' e)) :
    Take l m k (Parse.grow step first) (Parse.grow step' first') := by
  have hturns : ∀ fuel n e, n ≤ m →
      Proceed l n (fun _ _ _ => True) (growFrom step fuel e) (growFrom step' fuel e) := by
    intro fuel
    induction fuel with
    | zero => exact fun n e _ => .pure trivial
    | succ fuel ih =>
      intro n e hn
      refine (hstep n hn e).bind fun grown levels taken hgrown => ?_
      cases grown with
      | none => exact .pure trivial
      | some e' => exact ih levels e' (by have := (hgrown e' rfl).1; omega)
  intro c hc
  have hread : Take l m k
      (first >>= fun e => growFrom step (maxDepth + 1) e >>= fun e =>
        setDepth c.depth >>= fun _ => Pure.pure e)
      (first' >>= fun e => growFrom step' (maxDepth + 1) e >>= fun e =>
        setDepth c.depth >>= fun _ => Pure.pure e) := by
    refine Proceed.bind hfirst fun e levels taken ht => ?_
    obtain ⟨rfl, htaken⟩ := ht
    refine (hturns _ levels e (Nat.le_refl _)).bind fun e' _ more _ => ?_
    exact (Proceed.setDepth hc.room e').mono fun _ _ _ hlevels => ⟨hlevels, by omega⟩
  exact ⟨(hread c hc).same, (hread c hc).took⟩

end Take

namespace Collect

variable {p q : Parse (List α)} {x y : Parse β} {f g : β → Parse (List α)}

theorem pure {as : List α} (h : as.length ≤ k) :
    Collect l m k (Pure.pure as) (Pure.pure as) := Proceed.pure ⟨rfl, h⟩

theorem ite {b : Bool} {p' q' : Parse (List α)} (h : Collect l m k p q)
    (h' : Collect l m k p' q') :
    Collect l m k (if b then p else p') (if b then q else q') := Proceed.ite h h'

/-- Tokens that have been taken count for items that are still to come. -/
theorem after (h : Take l m j x y) (hf : ∀ b, Collect l m (k + j) (f b) (g b)) :
    Collect l m k (x >>= f) (y >>= g) := by
  refine Proceed.bind h fun b levels taken ht => ?_
  obtain ⟨rfl, htaken⟩ := ht
  exact (hf b).mono fun as left more has => ⟨has.1, by omega⟩

theorem cons (a : α) (h : Collect l m k p q) :
    Collect l m (k + 1) (p >>= fun as => Pure.pure (a :: as))
      (q >>= fun as => Pure.pure (a :: as)) := by
  refine Proceed.bind h fun as levels taken ht => ?_
  obtain ⟨rfl, htaken⟩ := ht
  exact .pure ⟨rfl, by rw [List.length_cons]; omega⟩

theorem take (h : Collect l m k p q) : Take l m 0 p q :=
  Proceed.mono h fun _ _ _ ht => ⟨ht.1, Nat.zero_le _⟩

theorem exists_moves {as : List α} (h : Collect l m 0 p q) (hc : c.Within l m)
    (hread : p c = .ok (as, d)) : ∃ taken, as.length ≤ taken ∧ c.Moves taken d := by
  obtain ⟨_, taken, -, hmoves, -, htaken⟩ := (h c hc).took as d hread
  exact ⟨taken, by omega, hmoves⟩

end Collect

namespace Take

variable {item item' : Parse α} (h : Take l m 1 item item')
include h

theorem itemsFrom (s : Symbol) (fuel : Nat) :
    Collect l m 0 (Parse.itemsFrom s item fuel) (Parse.itemsFrom s item' fuel) := by
  induction fuel with
  | zero => exact .after (expectSymbol s) fun _ => .pure (Nat.zero_le _)
  | succ fuel ih =>
    refine .after (eatSymbol s) fun _ => .ite (.pure (Nat.zero_le _)) <| .after h fun a =>
      .after (eatSymbol .comma) fun _ => .ite (.cons a ih) ?_
    exact .after (expectSymbol s) fun _ => .pure (Nat.le_add_left 1 _)

theorem items (s : Symbol) : Collect l m 0 (Parse.items s item) (Parse.items s item') :=
  .after (look fun _ => rfl) fun fuel => itemsFrom h s (fuel + 1)

theorem commaSeparatedFrom (fuel : Nat) :
    Collect l m 0 (Parse.commaSeparatedFrom item fuel) (Parse.commaSeparatedFrom item' fuel) := by
  induction fuel with
  | zero => exact .after h fun a => .pure (Nat.le_refl _)
  | succ fuel ih =>
    exact .after h fun a => .after (eatSymbol .comma) fun _ => .ite (.cons a ih)
      (.pure (Nat.le_refl _))

theorem commaSeparated :
    Collect l m 0 (Parse.commaSeparated item) (Parse.commaSeparated item') :=
  .after (look fun _ => rfl) fun fuel => commaSeparatedFrom h fuel

theorem untilStopFrom (fuel : Nat) :
    Collect l m 0 (Parse.untilStopFrom item fuel) (Parse.untilStopFrom item' fuel) := by
  induction fuel with
  | zero => exact .pure (Nat.zero_le _)
  | succ fuel ih =>
    exact .after (check .stop) fun _ => .ite (.pure (Nat.zero_le _)) <| .after h fun a =>
      .cons a ih

theorem untilStop : Collect l m 0 (Parse.untilStop item) (Parse.untilStop item') :=
  .after (look fun _ => rfl) fun fuel => untilStopFrom h fuel

theorem untilBraceFrom (fuel : Nat) :
    Collect l m 0 (Parse.untilBraceFrom item fuel) (Parse.untilBraceFrom item' fuel) := by
  induction fuel with
  | zero => exact .after (expectSymbol _) fun _ => .pure (Nat.zero_le _)
  | succ fuel ih =>
    exact .after (eatSymbol _) fun _ => .ite (.pure (Nat.zero_le _)) <|
      .after (check .stop) fun _ => .ite (.fails_bind fun _ => .unexpected) <|
      .after h fun a => .cons a ih

theorem untilBrace : Collect l m 0 (Parse.untilBrace item) (Parse.untilBrace item') :=
  .after (look fun _ => rfl) fun fuel => untilBraceFrom h fuel

end Take

end Rules

/-! ### Loops without bounds -/

/-- What stands behind a reader need only come to the same where the reader may end. -/
theorem Take.bind_congr {p : Parse α} {f g : α → Parse β} (h : Take l m k p p) (hc : c.Within l m)
    (hfg : ∀ a d, d.Within l m → d.rest.length + k ≤ c.rest.length → f a d = g a d) :
    (p >>= f) c = (p >>= g) c := by
  cases hread : p c with
  | error e => rw [bind_of_error hread, bind_of_error hread]
  | ok r =>
    obtain ⟨a, d⟩ := r
    obtain ⟨_, taken, hd, hmoves, rfl, htaken⟩ := (h c hc).took a d hread
    have hlength := hmoves.length
    rw [bind_of_ok hread, bind_of_ok hread, hfg a d hd (by omega)]

theorem bind_eq_of_eq {p q : Parse α} {f : α → Parse β} (h : p c = q c) :
    (p >>= f) c = (q >>= f) c := by
  cases hread : p c with
  | error e => rw [bind_of_error hread, bind_of_error (h.symm.trans hread)]
  | ok r => rw [bind_of_ok hread, bind_of_ok (h.symm.trans hread)]

/-- One round of the readers of lists in brackets. -/
def itemsTurn (close : Symbol) (item : Parse α) (next : Parse (List α)) : Parse (List α) := do
  if ← eatSymbol close then return []
  let a ← item
  if ← eatSymbol .comma then return a :: (← next)
  expectSymbol close
  return [a]

/-- One round of the readers of lists that end where no comma follows. -/
def commaSeparatedTurn (item : Parse α) (next : Parse (List α)) : Parse (List α) := do
  let a ← item
  if ← eatSymbol .comma then return a :: (← next)
  return [a]

/-- One round of the readers of lists that end with the source. -/
def untilStopTurn (item : Parse α) (next : Parse (List α)) : Parse (List α) := do
  if ← check .stop then return []
  let a ← item
  return a :: (← next)

/-- One round of the readers of lists in braces. -/
def untilBraceTurn (item : Parse α) (next : Parse (List α)) : Parse (List α) := do
  if ← eatSymbol .rightBrace then return []
  if ← check .stop then unexpected
  let a ← item
  return a :: (← next)

/-- One round of a loop that lets an expression grow. -/
def growTurn (step : Expr → Parse (Option Expr)) (next : Expr → Parse Expr) (e : Expr) :
    Parse Expr := do
  match ← step e with
  | some e => next e
  | none => return e

/-- A reader of a list that needs no bound: each of its items takes a token, and the whole list
    takes at least as many tokens as it has items. -/
structure ListEnds (l : TokenList) (m : Nat) (item : Parse α)
    (turn : Parse (List α) → Parse (List α)) (run : Nat → Parse (List α))
    (whole : Parse (List α)) : Prop where
  ends : EndsBySize (·.Within l m) (·.rest.length) turn run whole
  item : ∀ c a d, c.Within l m → item c = .ok (a, d) → ∃ taken, 1 ≤ taken ∧ c.Moves taken d
  list : ∀ c as d, c.Within l m → whole c = .ok (as, d) →
    ∃ taken, as.length ≤ taken ∧ c.Moves taken d

/-- A list in brackets.  Where no token is left an item is still asked for: the one turn more. -/
abbrev ItemsEnd (l : TokenList) (m : Nat) (close : Symbol) (item : Parse α) : Prop :=
  ListEnds l m item (itemsTurn close item) (fun n => itemsFrom close item (n + 1))
    (items close item)

/-- A list that ends where no comma follows. -/
abbrev CommaSeparatedEnds (l : TokenList) (m : Nat) (item : Parse α) : Prop :=
  ListEnds l m item (commaSeparatedTurn item) (commaSeparatedFrom item) (commaSeparated item)

/-- A list that ends with the source. -/
abbrev UntilStopEnds (l : TokenList) (m : Nat) (item : Parse α) : Prop :=
  ListEnds l m item (untilStopTurn item) (untilStopFrom item) (untilStop item)

/-- A list in braces. -/
abbrev UntilBraceEnds (l : TokenList) (m : Nat) (item : Parse α) : Prop :=
  ListEnds l m item (untilBraceTurn item) (untilBraceFrom item) (untilBrace item)

/-- A loop that lets an expression grow, and needs no bound: each turn that adds something takes a
    token, and a level. -/
structure GrowthEnds (l : TokenList) (step : Expr → Parse (Option Expr)) : Prop where
  ends : EndsBySize (fun s : Expr × Cursor => ∃ m, s.2.Within l m)
    (fun s => maxDepth - s.2.depth + 1)
    (fun next s => growTurn step (fun e c => next (e, c)) s.1 s.2)
    (fun n s => growFrom step n s.1 s.2) (fun s => growFrom step (maxDepth + 1) s.1 s.2)
  step : ∀ e c m e' d, c.Within l m → step e c = .ok (some e', d) →
    ∃ taken, 1 ≤ taken ∧ c.Moves taken d ∧ d.depth = c.depth + 1

namespace Take

section Lists

variable {item : Parse α} (h : Take l m 1 item item)
include h

theorem exists_moves {a : α} (hc : c.Within l m) (hread : item c = .ok (a, d)) :
    ∃ taken, 1 ≤ taken ∧ c.Moves taken d := by
  obtain ⟨_, taken, -, hmoves, -, htaken⟩ := (h c hc).took a d hread
  exact ⟨taken, htaken, hmoves⟩

/-- An item fails where no token is left. -/
theorem fails_of_nil (hc : c.Within l m) (hrest : c.rest = []) : Fails item c := by
  rintro ⟨a, d⟩ hread
  obtain ⟨taken, htaken, hmoves⟩ := h.exists_moves hc hread
  have hlength := hmoves.length
  rw [hrest, List.length_nil] at hlength
  omega

theorem itemsFrom_ends (s : Symbol) : ItemsEnd l m s item := by
  have hsmaller : ∀ (next next' : Parse (List α)) (c : Cursor), c.Within l m →
      (∀ d : Cursor, d.Within l m → d.rest.length < c.rest.length → next d = next' d) →
      itemsTurn s item next c = itemsTurn s item next' c := by
    intro next next' c hc hnext
    refine (eatSymbol s).bind_congr hc fun closed d hd hle => ?_
    cases closed with
    | true => rfl
    | false =>
      refine h.bind_congr hd fun a d hd hle' => (eatSymbol _).bind_congr hd fun comma d hd _ => ?_
      cases comma with
      | true => exact bind_eq_of_eq (hnext d hd (by omega))
      | false => rfl
  refine ⟨.of_turn (fun next c hc hrest => ?_) (fun _ _ => rfl) hsmaller
    fun c _ => ⟨c.rest.length, Nat.le_refl _, rfl⟩, fun c a d hc => h.exists_moves hc, ?_⟩
  · exact hsmaller _ _ c hc fun d _ hlt => absurd (hrest ▸ hlt) (Nat.not_lt_zero _)
  · exact fun c as d hc hread => (h.items s).exists_moves hc hread

theorem commaSeparatedFrom_ends : CommaSeparatedEnds l m item := by
  refine ⟨.of_turn (fun next c hc hrest => ?_) (fun _ _ => rfl) (fun next next' c hc hnext => ?_)
    fun c _ => ⟨c.rest.length, Nat.le_refl _, rfl⟩, fun c a d hc => h.exists_moves hc, ?_⟩
  · obtain ⟨e, he⟩ := (h.fails_of_nil hc (List.length_eq_zero_iff.mp hrest)).exists_error
    exact (bind_of_error he).trans (bind_of_error he).symm
  · refine h.bind_congr hc fun a d hd hle => (eatSymbol _).bind_congr hd fun comma d hd _ => ?_
    cases comma with
    | true => exact bind_eq_of_eq (hnext d hd (by omega))
    | false => rfl
  · exact fun c as d hc hread => h.commaSeparated.exists_moves hc hread

theorem untilStopFrom_ends : UntilStopEnds l m item := by
  refine ⟨.of_turn (fun next c hc hrest => ?_) (fun _ _ => rfl) (fun next next' c hc hnext => ?_)
    fun c _ => ⟨c.rest.length, Nat.le_refl _, rfl⟩, fun c a d hc => h.exists_moves hc, ?_⟩
  · rw [untilStopTurn, bind_of_ok (hc.check_stop (List.length_eq_zero_iff.mp hrest))]
    rfl
  · refine (check .stop).bind_congr hc fun found d hd hle => ?_
    cases found with
    | true => rfl
    | false =>
      exact h.bind_congr hd fun a d hd hle' => bind_eq_of_eq (hnext d hd (by omega))
  · exact fun c as d hc hread => h.untilStop.exists_moves hc hread

theorem untilBraceFrom_ends : UntilBraceEnds l m item := by
  refine ⟨.of_turn (fun next c hc hrest => ?_) (fun _ _ => rfl) (fun next next' c hc hnext => ?_)
    fun c _ => ⟨c.rest.length, Nat.le_refl _, rfl⟩, fun c a d hc => h.exists_moves hc, ?_⟩
  · rw [List.length_eq_zero_iff] at hrest
    have hstop := hc.check_stop hrest
    have hbrace : c.current.kind ≠ .symbol .rightBrace := by
      rw [hc.kind_of_nil hrest]
      nofun
    have heat : Parse.eatSymbol .rightBrace c = .ok (false, c) := eat_of_ne hbrace
    have hend : ∀ γ, (Parse.unexpected : Parse γ) c =
        .error ⟨.unexpectedEnd, c.current.position⟩ := fun _ => if_pos (hc.kind_of_nil hrest)
    have hexpect : Parse.expectSymbol .rightBrace c =
        .error ⟨.unexpectedEnd, c.current.position⟩ :=
      bind_of_error ((expect_of_ne hbrace).trans (hend Token))
    rw [untilBraceTurn, bind_of_ok heat, Parse.untilBraceFrom, bind_of_error hexpect]
    exact ((bind_of_ok hstop).trans (bind_of_error (hend Unit))).symm
  · refine (eatSymbol _).bind_congr hc fun closed d hd hle => ?_
    cases closed with
    | true => rfl
    | false =>
      refine (check .stop).bind_congr hd fun found d hd hle => ?_
      cases found with
      | true =>
        obtain ⟨e, he⟩ : ∃ e, (Parse.unexpected : Parse Unit) d = .error e :=
          Fails.unexpected.exists_error
        exact (bind_of_error he).trans (bind_of_error he).symm
      | false =>
        exact h.bind_congr hd fun a d hd hle' => bind_eq_of_eq (hnext d hd (by omega))
  · exact fun c as d hc hread => h.untilBrace.exists_moves hc hread

end Lists

end Take

/-- A step that adds something takes a token, and a level. -/
theorem Extend.exists_moves {step : Parse (Option Expr)} {grown : Expr} (h : Extend l m step step)
    (hc : c.Within l m) (hread : step c = .ok (some grown, d)) :
    ∃ taken, 1 ≤ taken ∧ c.Moves taken d ∧ d.depth = c.depth + 1 := by
  obtain ⟨levels, taken, hd, hmoves, hgrown⟩ := (h c hc).took _ d hread
  obtain ⟨hlevels, htaken⟩ := hgrown grown rfl
  have hroom := hc.room
  have hroom' := hd.room
  exact ⟨taken, htaken, hmoves, by omega⟩

/-- A loop has a turn for each level that is left, and one to find that nothing more is added. -/
theorem growFrom_ends {step : Expr → Parse (Option Expr)}
    (h : ∀ m e, Extend l m (step e) (step e)) : GrowthEnds l step := by
  refine ⟨.of_turn (fun _ _ _ hsize => absurd hsize (Nat.succ_ne_zero _)) (fun _ _ => rfl) ?_
    fun s _ => ⟨maxDepth + 1, by omega, rfl⟩, fun e c m e' d hc => (h m e).exists_moves hc⟩
  rintro next next' ⟨e, c⟩ ⟨m, hc⟩ hnext
  replace hc : c.Within l m := hc
  dsimp only [growTurn]
  cases hread : step e c with
  | error err => rw [bind_of_error hread, bind_of_error hread]
  | ok r =>
    obtain ⟨grown, d⟩ := r
    rw [bind_of_ok hread, bind_of_ok hread]
    cases grown with
    | none => rfl
    | some e' =>
      obtain ⟨levels, taken, hd, -, -⟩ := (h m e c hc).took _ d hread
      obtain ⟨-, -, -, hdepth⟩ := (h m e).exists_moves hc hread
      have hroom := hd.room
      exact hnext (e', d) ⟨levels, hd⟩ (by dsimp only; omega)

end MemoryShell.Script
