/-
  MemoryShell/Proofs/Syntax/Tracking.lean
  =======================================
  **Reading the same tokens twice.**

  The same tokens can stand in two sources: in one they are all there is, in the other something
  stands behind them that no expression goes on with.  They may have other places there, and the
  reader may have more or less room for nesting.  A second reading tracks a first one if it reads
  nothing else than the first one did, whenever both succeed; and if it has all the room of the
  first one, it does succeed.
-/
import MemoryShell.Script.Grammar

namespace MemoryShell.Script

/-! ### Tokens that are alike -/

/-- Lists whose elements are related, and in the second one some more behind them. -/
inductive Along {α : Type} (R : α → α → Prop) (extra : List α) : List α → List α → Prop where
  | done : Along R extra [] extra
  | next {a a' : α} {as as' : List α} :
      R a a' → Along R extra as as' → Along R extra (a :: as) (a' :: as')

theorem Along.length_le {α : Type} {R : α → α → Prop} {extra as as' : List α}
    (h : Along R extra as as') : as.length ≤ as'.length := by
  induction h with
  | done => exact Nat.zero_le _
  | next _ _ ih => exact Nat.succ_le_succ ih

/-- Tokens that differ in their place at most. -/
structure Token.Same (t t' : Token) : Prop where
  kind : t'.kind = t.kind
  text : t'.text = t.text
  afterNewline : t'.afterNewline = t.afterNewline

/-- Tokens before the end of a source that differ in their place at most. -/
structure Token.Like (t t' : Token) : Prop where
  ne_stop : t.kind ≠ .stop
  kind : t'.kind = t.kind
  text : t'.text = t.text
  afterNewline : t'.afterNewline = t.afterNewline

theorem Token.Like.same {t t' : Token} (h : t.Like t') : t.Same t' :=
  ⟨h.kind, h.text, h.afterNewline⟩

/-- What ends an expression: the end of the source, or a closing parenthesis or brace. -/
inductive TokenKind.Closing : TokenKind → Prop where
  | stop : Closing .stop
  | paren : Closing (.symbol .rightParen)
  | brace : Closing (.symbol .rightBrace)

/-- What no expression goes on with. -/
inductive TokenKind.Ends : TokenKind → Prop where
  | stop : Ends .stop
  | paren : Ends (.symbol .rightParen)
  | brace : Ends (.symbol .rightBrace)
  | bracket : Ends (.symbol .rightBracket)
  | comma : Ends (.symbol .comma)
  | identifier : Ends .identifier

theorem TokenKind.Closing.ends {k : TokenKind} (h : k.Closing) : k.Ends := by
  cases h with
  | stop => exact .stop
  | paren => exact .paren
  | brace => exact .brace

theorem TokenKind.Closing.beq {j k : TokenKind} (h : j.Closing) (hk : ¬ k.Closing) :
    (j == k) = false := beq_false_of_ne fun heq => hk (heq ▸ h)

/-- Two cursors at the same tokens.  `extra` stands behind those of the second one; it begins with
    what ends an expression, and not like the end of an arrow's parameters.  If there is all the
    `room`, then the second cursor is no deeper and both stand in whole sources. -/
structure Beside (room : Prop) (extra : List Token) (c c' : Cursor) : Prop where
  along : Along Token.Like extra c.rest c'.rest
  stop : c.stop.kind = .stop
  stop' : c'.stop.kind = .stop
  nameless : Grammar.isMemberName c.stop = false
  closing : (extra.head?.getD c'.stop).kind.Closing
  noArrow : (extra.head?.getD c'.stop).kind = .symbol .rightParen →
    extra[1]?.map Token.kind ≠ some (.symbol .arrow)
  depth : room → c'.depth ≤ c.depth
  whole : room → (extra.head?.getD c'.stop).kind = .stop

/-- The cursor behind the current token. -/
def Cursor.next (c : Cursor) : Cursor := { c with rest := c.rest.tail }

/-- A cursor at the end of its source. -/
structure Cursor.AtEnd (c : Cursor) : Prop where
  rest : c.rest = []
  kind : c.current.kind = .stop
  nameless : Grammar.isMemberName c.current = false

namespace Cursor.AtEnd

theorem closing {c : Cursor} (h : c.AtEnd) : c.current.kind.Closing := h.kind ▸ .stop

theorem ne_symbol {c : Cursor} (h : c.AtEnd) (s : Symbol) : c.current.kind ≠ .symbol s := by
  rw [h.kind]
  nofun

theorem next_eq {c : Cursor} (h : c.AtEnd) : c.next = c := by
  obtain ⟨rest, stop, depth⟩ := c
  obtain rfl : rest = [] := h.rest
  rfl

end Cursor.AtEnd

/-- What can stand at two cursors that are beside each other: two tokens that are alike, or the end
    of the first source, and in the second source what ends an expression. -/
inductive Beside.Heads (room : Prop) (extra : List Token) (c c' : Cursor) : Prop where
  | ahead : c.rest ≠ [] → c'.rest ≠ [] → c.current.Like c'.current →
      Beside room extra c.next c'.next → Heads room extra c c'
  | atEnd : c.AtEnd → c'.current.kind.Closing → (room → c'.current.kind = .stop) →
      Heads room extra c c'

variable {room : Prop} {extra : List Token} {c c' : Cursor} {α β : Type}

theorem Beside.heads (h : Beside room extra c c') : Beside.Heads room extra c c' := by
  obtain ⟨rest, stop, depth⟩ := c
  obtain ⟨rest', stop', depth'⟩ := c'
  obtain ⟨along, hstop, hstop', nameless, closing, noArrow, hdepth, whole⟩ := h
  cases along with
  | done => exact .atEnd ⟨rfl, hstop, nameless⟩ closing whole
  | next hlike along =>
    exact .ahead nofun nofun hlike
      ⟨along, hstop, hstop', nameless, closing, noArrow, hdepth, whole⟩

theorem Beside.withDepth (h : Beside room extra c c') {n n' : Nat} (hn : room → n' ≤ n) :
    Beside room extra { c with depth := n } { c' with depth := n' } :=
  ⟨h.along, h.stop, h.stop', h.nameless, h.closing, h.noArrow, hn, h.whole⟩

/-- Whether a token is of a kind that ends no expression is the same at both. -/
theorem Beside.current_beq (h : Beside room extra c c') {k : TokenKind} (hk : ¬ k.Closing) :
    (c'.current.kind == k) = (c.current.kind == k) := by
  cases h.heads with
  | ahead _ _ hlike => rw [hlike.kind]
  | atEnd hend hclosing =>
    have hne : c.current.kind ≠ k := fun heq => hk (heq ▸ hend.closing)
    have hne' : c'.current.kind ≠ k := fun heq => hk (heq ▸ hclosing)
    rw [beq_false_of_ne hne, beq_false_of_ne hne']

/-! ### Tracking -/

/-- What a second reading may come to if the first one has read something: the same, or an error
    unless there is all the room. -/
def Tracked (room : Prop) (extra : List Token) (c : Cursor) (r : α × Cursor) :
    Except SyntaxError (α × Cursor) → Prop
  | .ok r' => r'.1 = r.1 ∧ Beside room extra r.2 r'.2 ∧ r.2.rest.length ≤ c.rest.length
  | .error _ => ¬ room

/-- The same for what is no reading: a result, or an error unless there is all the room. -/
def Agrees (room : Prop) (a : α) : Except SyntaxError α → Prop
  | .ok a' => a' = a
  | .error _ => ¬ room

theorem except_bind_eq_ok {ε : Type} {x : Except ε α} {f : α → Except ε β} {b : β} :
    (x >>= f) = .ok b ↔ ∃ a, x = .ok a ∧ f a = .ok b := by
  cases x with
  | error e =>
    constructor
    · nofun
    · rintro ⟨a, h, -⟩
      cases h
  | ok a =>
    constructor
    · exact fun h => ⟨a, rfl, h⟩
    · rintro ⟨a', h, hf⟩
      cases h
      exact hf

theorem Agrees.bind {x y : Except SyntaxError α} {f g : α → Except SyntaxError β}
    (h : ∀ a, x = .ok a → Agrees room a y) (hf : ∀ a b, f a = .ok b → Agrees room b (g a)) {b : β}
    (hb : (x >>= f) = .ok b) : Agrees room b (y >>= g) := by
  cases x with
  | error e => cases hb
  | ok a =>
    have hagrees := h a rfl
    cases y with
    | error e => exact hagrees
    | ok a' =>
      rw [show a' = a from hagrees]
      exact hf a b hb

theorem Agrees.mono {room' : Prop} {a : α} {x : Except SyntaxError α}
    (h : Agrees room a x) (hroom : room' → room) : Agrees room' a x := by
  cases x with
  | ok _ => exact h
  | error _ => exact fun h' => h (hroom h')

/-- Reading `q` at a cursor tracks reading `p` at another one. -/
def TracksAt (room : Prop) (extra : List Token) (c c' : Cursor) (p q : Parse α) : Prop :=
  ∀ r, p c = .ok r → Tracked room extra c r (q c')

/-- Reading `q` tracks reading `p`, wherever the same tokens stand. -/
def Tracks (room : Prop) (extra : List Token) (p q : Parse α) : Prop :=
  ∀ c c', Beside room extra c c' → TracksAt room extra c c' p q

/-- Nothing is read at a cursor. -/
def Fails (p : Parse α) (c : Cursor) : Prop := ∀ r, p c ≠ .ok r

/-- Nothing can be read where the source ends. -/
def FailsAtEnd (p : Parse α) : Prop := ∀ c : Cursor, c.AtEnd → Fails p c

theorem bind_eq_ok {p : Parse α} {f : α → Parse β} {r : β × Cursor} :
    (p >>= f) c = .ok r ↔ ∃ a d, p c = .ok (a, d) ∧ f a d = .ok r := by
  change (p c >>= fun (a, d) => f a d) = .ok r ↔ _
  rw [except_bind_eq_ok, Prod.exists]

theorem bind_of_ok {p : Parse α} {f : α → Parse β} {a : α} {d : Cursor} (h : p c = .ok (a, d)) :
    (p >>= f) c = f a d := by
  change (do let (a, d) ← p c; f a d) = _
  rw [h]
  rfl

theorem current_eq (c : Cursor) : Parse.current c = .ok (c.current, c) := rfl

theorem advance_eq (c : Cursor) : Parse.advance c = .ok (c.current, c.next) := rfl

theorem bind_of_error {p : Parse α} {f : α → Parse β} {e : SyntaxError} (h : p c = .error e) :
    (p >>= f) c = .error e := by
  change (do let (a, d) ← p c; f a d) = _
  rw [h]
  rfl

namespace Fails

theorem bind {p : Parse α} {f : α → Parse β} (h : Fails p c) : Fails (p >>= f) c := by
  intro r hr
  obtain ⟨a, d, hp, -⟩ := bind_eq_ok.mp hr
  exact h _ hp

theorem map {p : Parse α} {f : α → β} (h : Fails p c) : Fails (f <$> p) c := by
  have hbind : Fails (p >>= fun a => pure (f a)) c := h.bind
  exact hbind

theorem after {p : Parse α} {f : α → Parse β} {a : α} {d : Cursor} (hp : p c = .ok (a, d))
    (h : Fails (f a) d) : Fails (p >>= f) c := by
  intro r hr
  rw [bind_of_ok hp] at hr
  exact h r hr

theorem unexpected : Fails (Parse.unexpected : Parse α) c := by
  intro r h
  unfold Parse.unexpected at h
  dsimp only at h
  split at h <;> cases h

theorem failWith {cause : SyntaxCause} : Fails (Parse.failWith cause : Parse α) c := nofun

theorem exists_error {p : Parse α} (h : Fails p c) : ∃ e, p c = .error e := by
  cases hp : p c with
  | ok r => exact absurd hp (h r)
  | error e => exact ⟨e, rfl⟩

end Fails

/-! ### Taking a token -/

theorem expect_of_eq {k : TokenKind} (h : c.current.kind = k) :
    Parse.expect k c = .ok (c.current, c.next) := by
  have hcheck : (c.current.kind == k) = true := beq_iff_eq.mpr h
  change (if (c.current.kind == k) = true then Parse.advance else Parse.unexpected) c = _
  rw [hcheck]
  rfl

theorem expect_of_ne {k : TokenKind} (h : c.current.kind ≠ k) :
    Parse.expect k c = (Parse.unexpected : Parse Token) c := by
  have hcheck : (c.current.kind == k) = false := beq_false_of_ne h
  change (if (c.current.kind == k) = true then Parse.advance else Parse.unexpected) c = _
  rw [hcheck]
  rfl

theorem fails_expect {k : TokenKind} (h : c.current.kind ≠ k) : Fails (Parse.expect k) c := by
  intro r hr
  rw [expect_of_ne h] at hr
  exact Fails.unexpected r hr

theorem eat_of_eq {k : TokenKind} (h : c.current.kind = k) :
    Parse.eat k c = (Pure.pure true : Parse Bool) c.next := by
  have hcheck : (c.current.kind == k) = true := beq_iff_eq.mpr h
  unfold Parse.eat
  rw [if_pos hcheck]
  rfl

theorem eat_of_ne {k : TokenKind} (h : c.current.kind ≠ k) : Parse.eat k c = .ok (false, c) := by
  have hcheck : (c.current.kind == k) = false := beq_false_of_ne h
  unfold Parse.eat
  rw [hcheck]
  rfl

namespace TracksAt

variable {p q : Parse α} {f g : α → Parse β}

theorem of_fails (h : Fails p c) : TracksAt room extra c c' p q := fun r hr => absurd hr (h r)

theorem bind (h : TracksAt room extra c c' p q)
    (hf : ∀ a d d', Beside room extra d d' → d.rest.length ≤ c.rest.length →
      TracksAt room extra d d' (f a) (g a)) :
    TracksAt room extra c c' (p >>= f) (q >>= g) := by
  intro r hr
  obtain ⟨a, d, hp, hfr⟩ := bind_eq_ok.mp hr
  have htracked := h _ hp
  cases hq : q c' with
  | error e =>
    rw [hq] at htracked
    rw [bind_of_error hq]
    exact htracked
  | ok r' =>
    obtain ⟨a', d'⟩ := r'
    rw [hq] at htracked
    obtain ⟨rfl, hbeside, hlength⟩ := htracked
    rw [bind_of_ok hq]
    have hrest := hf _ _ _ hbeside hlength r hfr
    cases hg : g a' d' with
    | error e =>
      rw [hg] at hrest
      exact hrest
    | ok r' =>
      rw [hg] at hrest
      exact ⟨hrest.1, hrest.2.1, Nat.le_trans hrest.2.2 hlength⟩

theorem current {f g : Token → Parse β}
    (h : TracksAt room extra c c' (f c.current) (g c'.current)) :
    TracksAt room extra c c' (Parse.current >>= f) (Parse.current >>= g) := h

theorem check {k : TokenKind} {f g : Bool → Parse β}
    (h : TracksAt room extra c c' (f (c.current.kind == k)) (g (c'.current.kind == k))) :
    TracksAt room extra c c' (Parse.check k >>= f) (Parse.check k >>= g) := h

/-- Readings that go on from two other cursors. -/
theorem move {d d' : Cursor} {p' q' : Parse α} (hp : p c = p' d) (hq : q c' = q' d')
    (hlength : d.rest.length ≤ c.rest.length) (h : TracksAt room extra d d' p' q') :
    TracksAt room extra c c' p q := by
  intro r hr
  rw [hp] at hr
  rw [hq]
  have htracked := h r hr
  cases hq' : q' d' with
  | error e => rwa [hq'] at htracked
  | ok r' =>
    rw [hq'] at htracked
    exact ⟨htracked.1, htracked.2.1, Nat.le_trans htracked.2.2 hlength⟩

theorem congr {p' q' : Parse α} (hp : p c = p' c) (hq : q c' = q' c')
    (h : TracksAt room extra c c' p' q') : TracksAt room extra c c' p q :=
  move hp hq (Nat.le_refl _) h

/-- Readings that go on behind the current token. -/
theorem ofNext {p' q' : Parse α} (hp : p c = p' c.next) (hq : q c' = q' c'.next)
    (h : TracksAt room extra c.next c'.next p' q') : TracksAt room extra c c' p q := by
  refine move hp hq ?_ h
  rw [Cursor.next, List.length_tail]
  exact Nat.sub_le _ _

theorem advance {f g : Token → Parse β}
    (h : TracksAt room extra c.next c'.next (f c.current) (g c'.current)) :
    TracksAt room extra c c' (Parse.advance >>= f) (Parse.advance >>= g) := ofNext rfl rfl h

theorem setDepth {n n' : Nat} {f g : Unit → Parse β}
    (h : TracksAt room extra { c with depth := n } { c' with depth := n' } (f ()) (g ())) :
    TracksAt room extra c c' (Parse.setDepth n >>= f) (Parse.setDepth n' >>= g) := h

theorem enter {f g : Unit → Parse β} (hb : Beside room extra c c')
    (h : ∀ n n', (room → n' ≤ n) →
      TracksAt room extra { c with depth := n } { c' with depth := n' } (f ()) (g ())) :
    TracksAt room extra c c' (Parse.enter >>= f) (Parse.enter >>= g) := by
  by_cases hdepth : c.depth + 1 > Parse.maxDepth
  · refine .of_fails (Fails.bind fun r hr => ?_)
    rw [Parse.enter, if_pos hdepth] at hr
    cases hr
  have henter : Parse.enter c = .ok ((), { c with depth := c.depth + 1 }) := if_neg hdepth
  by_cases hdepth' : c'.depth + 1 > Parse.maxDepth
  · intro r hr
    have henter' : Parse.enter c' = .error ⟨.nestingTooDeep, c'.current.position⟩ := if_pos hdepth'
    rw [bind_of_error henter']
    intro hroom
    have := hb.depth hroom
    omega
  · have henter' : Parse.enter c' = .ok ((), { c' with depth := c'.depth + 1 }) := if_neg hdepth'
    exact .move (bind_of_ok henter) (bind_of_ok henter') (Nat.le_refl _)
      (h _ _ fun hroom => Nat.add_le_add_right (hb.depth hroom) 1)

/-- Taking a token that ends no expression, or leaving it. -/
theorem eat {k : TokenKind} (hk : ¬ k.Closing) {f g : Bool → Parse β} (hb : Beside room extra c c')
    (htaken : c.rest ≠ [] → Beside room extra c.next c'.next →
      TracksAt room extra c.next c'.next (f true) (g true))
    (hleft : TracksAt room extra c c' (f false) (g false)) :
    TracksAt room extra c c' (Parse.eat k >>= f) (Parse.eat k >>= g) := by
  have hsame := hb.current_beq hk
  by_cases hkind : c.current.kind = k
  · have hkind' : c'.current.kind = k := by
      rw [beq_iff_eq.mpr hkind] at hsame
      exact beq_iff_eq.mp hsame
    cases hb.heads with
    | atEnd hend => exact absurd (hkind ▸ hend.closing) hk
    | ahead hrest _ _ hnext =>
      exact .ofNext (bind_of_ok (eat_of_eq hkind)) (bind_of_ok (eat_of_eq hkind'))
        (htaken hrest hnext)
  · have hkind' : c'.current.kind ≠ k := by
      rw [beq_false_of_ne hkind] at hsame
      exact ne_of_beq_false hsame
    intro r hr
    rw [bind_of_ok (eat_of_ne hkind)] at hr
    rw [bind_of_ok (eat_of_ne hkind')]
    exact hleft r hr

end TracksAt

namespace Tracks

variable {p q : Parse α} {f g : α → Parse β}

theorem pure (a : α) : Tracks room extra (Pure.pure a) (Pure.pure a) := by
  rintro c c' h r hr
  cases hr
  exact ⟨rfl, h, Nat.le_refl _⟩

theorem bind (h : Tracks room extra p q) (hf : ∀ a, Tracks room extra (f a) (g a)) :
    Tracks room extra (p >>= f) (q >>= g) :=
  fun c c' hb => (h c c' hb).bind fun a d d' hd _ => hf a d d' hd

theorem map (f : α → β) (h : Tracks room extra p q) : Tracks room extra (f <$> p) (f <$> q) :=
  h.bind fun a => pure (f a)

theorem of_fails (h : ∀ c, Fails p c) : Tracks room extra p q :=
  fun c _ _ => .of_fails (h c)

/-- A result that is no reading. -/
theorem lift {x y : Except SyntaxError α} (h : ∀ a, x = .ok a → Agrees room a y) :
    Tracks room extra (liftM x) (liftM y) := by
  rintro c c' hb r hr
  cases x with
  | error e => cases hr
  | ok a =>
    cases hr
    have hagrees := h a rfl
    cases y with
    | error e => exact hagrees
    | ok a' => exact ⟨hagrees, hb, Nat.le_refl _⟩

/-! ### Steps -/

theorem expect {k : TokenKind} (hk : k ≠ .stop) {f g : Token → Parse β}
    (hfg : ∀ t t', t.Like t' → Tracks room extra (f t) (g t')) :
    Tracks room extra (Parse.expect k >>= f) (Parse.expect k >>= g) := by
  intro c c' h
  cases h.heads with
  | atEnd hend => exact .of_fails (fails_expect fun heq => hk (heq.symm.trans hend.kind)).bind
  | ahead _ _ hlike hnext =>
    by_cases hkind : c.current.kind = k
    · exact .ofNext (bind_of_ok (expect_of_eq hkind))
        (bind_of_ok (expect_of_eq (hlike.kind.trans hkind))) (hfg _ _ hlike _ _ hnext)
    · exact .of_fails (fails_expect hkind).bind

theorem expectSymbol (s : Symbol) :
    Tracks room extra (Parse.expectSymbol s) (Parse.expectSymbol s) :=
  expect (k := .symbol s) nofun fun _ _ _ => pure ()

theorem expectKeyword (k : Keyword) :
    Tracks room extra (Parse.expectKeyword k) (Parse.expectKeyword k) :=
  expect (k := .keyword k) nofun fun _ _ _ => pure ()

theorem identifier : Tracks room extra Parse.identifier Parse.identifier := by
  refine expect (k := .identifier) nofun fun t t' hlike => ?_
  rw [hlike.text]
  exact pure t.text

/-- Taking a token that ends no expression, or leaving it. -/
theorem eat {k : TokenKind} (hk : ¬ k.Closing) {f g : Bool → Parse β}
    (htaken : Tracks room extra (f true) (g true))
    (hleft : Tracks room extra (f false) (g false)) :
    Tracks room extra (Parse.eat k >>= f) (Parse.eat k >>= g) :=
  fun c c' h => .eat hk h (fun _ hnext => htaken _ _ hnext) (hleft c c' h)

theorem eatSymbol {s : Symbol} (hs : ¬ (TokenKind.symbol s).Closing) {f g : Bool → Parse β}
    (htaken : Tracks room extra (f true) (g true))
    (hleft : Tracks room extra (f false) (g false)) :
    Tracks room extra (Parse.eatSymbol s >>= f) (Parse.eatSymbol s >>= g) := eat hs htaken hleft

theorem eatKeyword (k : Keyword) {f g : Bool → Parse β}
    (htaken : Tracks room extra (f true) (g true))
    (hleft : Tracks room extra (f false) (g false)) :
    Tracks room extra (Parse.eatKeyword k >>= f) (Parse.eatKeyword k >>= g) :=
  eat (k := .keyword k) nofun htaken hleft

/-- Looking for a token that ends no expression. -/
theorem check {k : TokenKind} (hk : ¬ k.Closing) {f g : Bool → Parse β}
    (hfg : ∀ found, Tracks room extra (f found) (g found)) :
    Tracks room extra (Parse.check k >>= f) (Parse.check k >>= g) := by
  intro c c' h
  refine .check ?_
  rw [h.current_beq hk]
  exact hfg _ c c' h

theorem checkSymbol {s : Symbol} (hs : ¬ (TokenKind.symbol s).Closing) {f g : Bool → Parse β}
    (hfg : ∀ found, Tracks room extra (f found) (g found)) :
    Tracks room extra (Parse.checkSymbol s >>= f) (Parse.checkSymbol s >>= g) := check hs hfg

/-- Ending a statement: where an expression ends, a statement may end, or there is not all the
    room. -/
theorem endStatement : Tracks room extra Parse.endStatement Parse.endStatement := by
  refine eatSymbol (s := .semicolon) nofun (pure ()) fun c c' h => .current ?_
  cases h.heads with
  | ahead _ _ hlike hnext =>
    rw [hlike.kind, hlike.afterNewline]
    split
    · exact pure () _ _ h
    · exact .of_fails .unexpected
  | atEnd hend _ hwhole =>
    rw [if_pos (.inr (.inl hend.kind))]
    intro r hr
    cases hr
    split
    · exact ⟨rfl, h, Nat.le_refl _⟩
    · rename_i hends
      have hfails : Fails (Parse.unexpected : Parse Unit) c' := .unexpected
      obtain ⟨e, he⟩ := hfails.exists_error
      rw [he]
      intro hroom
      exact hends (.inr (.inl (hwhole hroom)))

/-! ### Depth -/

theorem enter {f g : Unit → Parse β} (h : Tracks room extra (f ()) (g ())) :
    Tracks room extra (Parse.enter >>= f) (Parse.enter >>= g) :=
  fun _ _ hb => .enter hb fun _ _ hdepth => h _ _ (hb.withDepth hdepth)

theorem nested (h : Tracks room extra p q) :
    Tracks room extra (Parse.nested p) (Parse.nested q) := by
  refine enter (h.bind fun a c c' hb => ?_)
  have hset : TracksAt room extra c c' (Parse.setDepth (c.depth - 1) >>= fun _ => Pure.pure a)
      (Parse.setDepth (c'.depth - 1) >>= fun _ => Pure.pure a) :=
    .setDepth (pure a _ _ (hb.withDepth fun hroom => Nat.sub_le_sub_right (hb.depth hroom) 1))
  exact hset

/-! ### Repetition -/

theorem growFrom {step step' : Expr → Parse (Option Expr)}
    (h : ∀ e, Tracks room extra (step e) (step' e)) (fuel : Nat) (e : Expr) :
    Tracks room extra (Parse.growFrom step fuel e) (Parse.growFrom step' fuel e) := by
  induction fuel generalizing e with
  | zero => exact pure e
  | succ fuel ih =>
    refine (h e).bind fun grown => ?_
    cases grown with
    | none => exact pure e
    | some e => exact ih e

theorem grow {step step' : Expr → Parse (Option Expr)} {first first' : Parse Expr}
    (h : ∀ e, Tracks room extra (step e) (step' e)) (hfirst : Tracks room extra first first') :
    Tracks room extra (Parse.grow step first) (Parse.grow step' first') := by
  intro c c' hb
  have hgrown : TracksAt room extra c c' (first >>= fun e => Parse.growFrom step _ e >>= fun e =>
      Parse.setDepth c.depth >>= fun _ => Pure.pure e) (first' >>= fun e =>
      Parse.growFrom step' _ e >>= fun e => Parse.setDepth c'.depth >>= fun _ => Pure.pure e) :=
    (hfirst c c' hb).bind fun e d d' hd _ =>
      (growFrom h (Parse.maxDepth + 1) e d d' hd).bind fun e _ _ hd _ =>
        .setDepth (pure e _ _ (hd.withDepth hb.depth))
  exact hgrown

/-! ### Lists

The turns of a reader of lists are bounded by the tokens that are left.  In the second source these
are no fewer than in the first. -/

theorem itemsFrom_of_eq {s : Symbol} {item : Parse α} (fuel : Nat)
    (h : c.current.kind = .symbol s) :
    Parse.itemsFrom s item fuel c = (Pure.pure [] : Parse (List α)) c.next := by
  cases fuel with
  | zero => exact bind_of_ok (bind_of_ok (expect_of_eq h))
  | succ fuel => exact bind_of_ok (eat_of_eq h)

theorem itemsFrom {s : Symbol} {item item' : Parse α} (h : Tracks room extra item item')
    (hend : FailsAtEnd item) {fuel fuel' : Nat} (hfuel : fuel ≤ fuel') :
    Tracks room extra (Parse.itemsFrom s item fuel) (Parse.itemsFrom s item' fuel') := by
  induction fuel generalizing fuel' with
  | zero =>
    intro c c' hb
    by_cases hkind : c.current.kind = .symbol s
    · cases hb.heads with
      | atEnd hend => exact absurd hkind (hend.ne_symbol _)
      | ahead _ _ hlike hnext =>
        exact .ofNext (itemsFrom_of_eq 0 hkind) (itemsFrom_of_eq fuel' (hlike.kind.trans hkind))
          (pure [] _ _ hnext)
    · exact .of_fails (fails_expect hkind).bind.bind
  | succ fuel ih =>
    obtain _ | fuel' := fuel'
    · exact absurd hfuel (Nat.not_succ_le_zero fuel)
    intro c c' hb
    cases hb.heads with
    | atEnd hatEnd =>
      exact .of_fails (.after (eat_of_ne (hatEnd.ne_symbol s)) (hend c hatEnd).bind)
    | ahead _ _ hlike hnext =>
      by_cases hkind : c.current.kind = .symbol s
      · exact .ofNext (itemsFrom_of_eq _ hkind) (itemsFrom_of_eq _ (hlike.kind.trans hkind))
          (pure [] _ _ hnext)
      · refine .congr (bind_of_ok (eat_of_ne hkind)) (bind_of_ok (eat_of_ne (hlike.kind ▸ hkind)))
          (h.bind (fun a => ?_) c c' hb)
        refine eatSymbol (s := .comma) nofun ?_ ((expectSymbol s).bind fun _ => pure [a])
        exact (ih (Nat.le_of_succ_le_succ hfuel)).bind fun as => pure (a :: as)

/-- Items up to a closing symbol, where none of them can begin at the end of the source. -/
theorem items {s : Symbol} {item item' : Parse α} (h : Tracks room extra item item')
    (hend : FailsAtEnd item) : Tracks room extra (Parse.items s item) (Parse.items s item') :=
  fun c c' hb r hr => itemsFrom h hend (Nat.succ_le_succ hb.along.length_le) c c' hb r hr

theorem commaSeparatedFrom {item item' : Parse α} (h : Tracks room extra item item')
    (hend : FailsAtEnd item) {fuel fuel' : Nat} (hfuel : fuel ≤ fuel') (hb : Beside room extra c c')
    (hlength : c.rest.length ≤ fuel) :
    TracksAt room extra c c' (Parse.commaSeparatedFrom item fuel)
      (Parse.commaSeparatedFrom item' fuel') := by
  induction fuel generalizing c c' fuel' with
  | zero =>
    cases hb.heads with
    | ahead hrest => exact absurd (List.eq_nil_of_length_eq_zero (Nat.le_zero.mp hlength)) hrest
    | atEnd hatEnd => exact .of_fails (hend c hatEnd).bind
  | succ fuel ih =>
    obtain _ | fuel' := fuel'
    · exact absurd hfuel (Nat.not_succ_le_zero fuel)
    refine (h c c' hb).bind fun a d d' hd hshorter => ?_
    refine .eat (k := .symbol .comma) nofun hd (fun _ hnext => ?_) (pure [a] d d' hd)
    have hrest : d.next.rest.length ≤ fuel := by
      rw [Cursor.next, List.length_tail]
      exact Nat.sub_le_of_le_add (Nat.le_trans hshorter hlength)
    exact (ih (Nat.le_of_succ_le_succ hfuel) hnext hrest).bind fun as _ _ he _ =>
      pure (a :: as) _ _ he

theorem commaSeparated {item item' : Parse α} (h : Tracks room extra item item')
    (hend : FailsAtEnd item) :
    Tracks room extra (Parse.commaSeparated item) (Parse.commaSeparated item') :=
  fun _ _ hb r hr => commaSeparatedFrom h hend hb.along.length_le hb (Nat.le_refl _) r hr

theorem untilBraceFrom_of_eq {item : Parse α} (fuel : Nat)
    (h : c.current.kind = .symbol .rightBrace) :
    Parse.untilBraceFrom item fuel c = (Pure.pure [] : Parse (List α)) c.next := by
  cases fuel with
  | zero => exact bind_of_ok (bind_of_ok (expect_of_eq h))
  | succ fuel => exact bind_of_ok (eat_of_eq h)

theorem untilBraceFrom {item item' : Parse α} (h : Tracks room extra item item')
    {fuel fuel' : Nat} (hfuel : fuel ≤ fuel') :
    Tracks room extra (Parse.untilBraceFrom item fuel) (Parse.untilBraceFrom item' fuel') := by
  induction fuel generalizing fuel' with
  | zero =>
    intro c c' hb
    by_cases hkind : c.current.kind = .symbol .rightBrace
    · cases hb.heads with
      | atEnd hend => exact absurd hkind (hend.ne_symbol _)
      | ahead _ _ hlike hnext =>
        exact .ofNext (untilBraceFrom_of_eq 0 hkind)
          (untilBraceFrom_of_eq fuel' (hlike.kind.trans hkind)) (pure [] _ _ hnext)
    · exact .of_fails (fails_expect hkind).bind.bind
  | succ fuel ih =>
    obtain _ | fuel' := fuel'
    · exact absurd hfuel (Nat.not_succ_le_zero fuel)
    intro c c' hb
    cases hb.heads with
    | atEnd hend =>
      have hcheck : Parse.check .stop c = .ok (true, c) := by rw [Parse.check, hend.kind]; rfl
      exact .of_fails (.after (eat_of_ne (hend.ne_symbol _)) (.after hcheck Fails.unexpected.bind))
    | ahead _ _ hlike hnext =>
      by_cases hkind : c.current.kind = .symbol .rightBrace
      · exact .ofNext (untilBraceFrom_of_eq _ hkind)
          (untilBraceFrom_of_eq _ (hlike.kind.trans hkind)) (pure [] _ _ hnext)
      · refine .congr (bind_of_ok (eat_of_ne hkind))
          (bind_of_ok (eat_of_ne (hlike.kind ▸ hkind))) ?_
        refine .check ?_
        rw [hlike.kind]
        cases c.current.kind == .stop with
        | true => exact .of_fails Fails.unexpected.bind
        | false =>
          refine h.bind (fun a => ?_) c c' hb
          exact (ih (Nat.le_of_succ_le_succ hfuel)).bind fun as => pure (a :: as)

/-- Items up to a closing brace, which has to come before the source ends. -/
theorem untilBrace {item item' : Parse α} (h : Tracks room extra item item') :
    Tracks room extra (Parse.untilBrace item) (Parse.untilBrace item') :=
  fun c c' hb r hr => untilBraceFrom h hb.along.length_le c c' hb r hr

end Tracks

end MemoryShell.Script
