/-
  MemoryShell/Proofs/Syntax/Nesting.lean
  ======================================
  **How deep phrases nest while a source is read.**

  The source of a substitution is read by a reader of its own while the phrases around the template
  are still open.  To speak of the moments of a reading one watches it: a watched reading reads what
  it would read otherwise, and is broken off where more is open than the watch allows.  What is open
  is told for each reader at work, the innermost first; it is counted as a phrase begins.

  Each reader has all the levels for itself.  A reading that had to share them among its readers
  would read the same sources in the same way, but for those that come to a moment at which more is
  open in all.  Templates in one another are such sources.
-/
import MemoryShell.Proofs.Syntax.Substitution
import Mathlib.Algebra.GroupWithZero.Nat

namespace MemoryShell.Script

open Parse

variable {c c' d : Cursor} {α : Type}

/-! ### Readings that are broken off -/

/-- Whether to break a reading off, by how many phrases are open in each reader at work, the
    innermost reader first. -/
abbrev NestingWatch := List Nat → Bool

/-- Read a source that is a single expression. -/
def expressionSource (expression : Parse Expr) (source : List Char) :
    Except SyntaxError Expr := do
  let tokens ← tokenize (String.ofList source)
  let (e, c) ← expression.run (Cursor.start tokens)
  if c.current.kind = .stop then return e
  let (e, _) ← (unexpected : Parse Expr).run c
  return e

/-- Read a source that is a list of statements. -/
def statementSource (statement : Parse Stmt) (source : String) : Except SyntaxError Program := do
  let tokens ← tokenize source
  let (body, _) ← (untilStop statement).run (Cursor.start tokens)
  return ⟨body⟩

theorem fragmentOf_succ (size : Nat) (source : List Char) :
    fragmentOf (size + 1) source =
      expressionSource (phraseAt (fragmentOf size) maxDepth .assignment) source := rfl

theorem parse_eq (source : String) :
    parse source =
      statementSource (phraseAt (fragmentOf source.length) maxDepth .statement) source := rfl

section Watched

variable (watch : NestingWatch) (cause : SyntaxCause)

/-- Read a phrase under a watch.  In the same reader `own` phrases are open around it, and in the
    readers around that one as many as `outer` tells. -/
def phraseUntil (fragment : List Nat → List Char → Except SyntaxError Expr) (outer : List Nat) :
    Nat → Nat → {α : Type} → Phrase α → Parse α
  | 0, _, _, _ => failWith .nestingTooDeep
  | levels + 1, own, _, p => nested <|
    if watch ((own + 1) :: outer) then failWith cause
    else Grammar.phrase
      ⟨phraseUntil fragment outer levels (own + 1), fragment ((own + 1) :: outer)⟩ p

/-- Read the source of a substitution under a watch. -/
def fragmentUntil : Nat → List Nat → List Char → Except SyntaxError Expr
  | 0, _, _ => .error ⟨.nestingTooDeep, ⟨1, 1⟩⟩
  | size + 1, outer, source =>
    expressionSource
      (phraseUntil watch cause (fragmentUntil size) outer maxDepth 0 .assignment) source

/-- Read a program under a watch. -/
def parseUntil (source : String) : Except SyntaxError Program :=
  statementSource
    (phraseUntil watch cause (fragmentUntil watch cause source.length) [] maxDepth 0 .statement)
    source

/-- Whether the reading of a source comes to a moment that a watch picks: to break it off there
    makes a difference. -/
def ReadingComesTo (source : String) : Prop := ∃ cause, parseUntil watch cause source ≠ parse source

/-- A reading that shares the levels among all its readers. -/
def parseShared (source : String) : Except SyntaxError Program :=
  parseUntil (fun nestings => maxDepth < nestings.sum) .nestingTooDeep source

end Watched

/-! ### What each reader opens alone -/

section Alone

variable {watch : NestingWatch} {cause : SyntaxCause} {outer : List Nat}

theorem phraseUntil_eq_phraseAt {F : List Nat → List Char → Except SyntaxError Expr}
    {f : List Char → Except SyntaxError Expr}
    (hwatch : ∀ own ≤ maxDepth, watch (own :: outer) = false)
    (hF : ∀ own ≤ maxDepth, F (own :: outer) = f) {levels own : Nat}
    (hlevels : own + levels ≤ maxDepth) (p : Phrase α) :
    phraseUntil watch cause F outer levels own p = phraseAt f levels p := by
  induction levels generalizing own α with
  | zero => rfl
  | succ levels ih =>
    have hown : own + 1 + levels ≤ maxDepth := by omega
    have hreaders :
        (⟨phraseUntil watch cause F outer levels (own + 1), F ((own + 1) :: outer)⟩ : Readers) =
          ⟨phraseAt f levels, f⟩ := by
      rw [hF (own + 1) (Nat.le_of_add_right_le hown)]
      congr 1
      funext β q
      exact ih hown q
    rw [phraseUntil, hwatch (own + 1) (Nat.le_of_add_right_le hown), hreaders]
    rfl

/-- Whatever breaks a reading off only where a reader opens more than the levels that it has. -/
def NestingWatch.Lenient (watch : NestingWatch) : Prop :=
  ∀ nestings : List Nat, (∀ own ∈ nestings, own ≤ maxDepth) → watch nestings = false

theorem fragmentUntil_eq_fragmentOf (hwatch : watch.Lenient) (size : Nat)
    (houter : ∀ own ∈ outer, own ≤ maxDepth) :
    fragmentUntil watch cause size outer = fragmentOf size := by
  induction size generalizing outer with
  | zero => rfl
  | succ size ih =>
    have hphrase : phraseUntil watch cause (fragmentUntil watch cause size) outer maxDepth 0
        .assignment = phraseAt (fragmentOf size) maxDepth .assignment :=
      phraseUntil_eq_phraseAt
        (fun own hown => hwatch _ (List.forall_mem_cons.mpr ⟨hown, houter⟩))
        (fun own hown => ih (List.forall_mem_cons.mpr ⟨hown, houter⟩))
        (Nat.le_of_eq (Nat.zero_add maxDepth)) _
    funext source
    rw [fragmentUntil, hphrase, fragmentOf_succ]

/-- No reader opens more phrases than it has levels, so a lenient watch is never met. -/
theorem parseUntil_eq_parse (hwatch : watch.Lenient) (source : String) :
    parseUntil watch cause source = parse source := by
  have hphrase : phraseUntil watch cause (fragmentUntil watch cause source.length) [] maxDepth 0
      .statement = phraseAt (fragmentOf source.length) maxDepth .statement :=
    phraseUntil_eq_phraseAt
      (fun own hown => hwatch _ (List.forall_mem_singleton.mpr hown))
      (fun own hown => fragmentUntil_eq_fragmentOf hwatch _ (List.forall_mem_singleton.mpr hown))
      (Nat.le_of_eq (Nat.zero_add maxDepth)) _
  rw [parseUntil, hphrase, parse_eq]

theorem not_readingComesTo (hwatch : watch.Lenient) (source : String) :
    ¬ ReadingComesTo watch source := by
  rintro ⟨cause, hne⟩
  exact hne (parseUntil_eq_parse hwatch source)

end Alone

/-! ### Readings that are not broken off

What is read under a watch is read in the same way under one that picks fewer moments, and under
none. -/

section Tracks

variable {watch watch' : NestingWatch} {cause cause' : SyntaxCause} {outer : List Nat}
  {F F' : List Nat → List Char → Except SyntaxError Expr}

theorem fails_phraseUntil {levels own : Nat} {p : Phrase α} (hp : p.IsExpression)
    (h : c.current.kind.Closing) : Fails (phraseUntil watch cause F outer levels own p) c := by
  induction levels generalizing own c α with
  | zero => exact .failWith
  | succ levels ih =>
    refine fails_nested ?_
    split
    · exact .failWith
    · have hunary : Fails (phraseUntil watch cause F outer levels (own + 1) .unary)
          { c with depth := c.depth + 1 } := ih trivial h
      exact Grammar.fails_phrase (c := { c with depth := c.depth + 1 }) hunary h hp

theorem tracks_phraseUntil (hwatch : ∀ nestings, watch' nestings = true → watch nestings = true)
    (hF : ∀ nestings source e, F nestings source = .ok e → F' nestings source = .ok e)
    {levels own : Nat} (p : Phrase α) :
    Tracks True [] (phraseUntil watch cause F outer levels own p)
      (phraseUntil watch' cause' F' outer levels own p) := by
  induction levels generalizing own α with
  | zero => exact .of_fails fun c => .failWith
  | succ levels ih =>
    refine Tracks.nested ?_
    split
    · exact .of_fails fun c => .failWith
    rw [if_neg (mt (hwatch _) ‹_›)]
    refine Grammar.tracks_phrase ⟨fun p => ih p, ?_, ?_, ?_⟩ p
    · exact fun p hp c h => fails_phraseUntil hp h
    · exact fun p hp c h => fails_phraseUntil hp h
    · intro source e he
      have he' := hF _ _ _ he
      change Agrees True e (F' ((own + 1) :: outer) source)
      rw [he']
      exact rfl

/-- With all the room, what tracks a reading reads the same. -/
theorem Tracks.ok {p q : Parse α} (h : Tracks True [] p q) {a : α} (hb : Beside True [] c c')
    (hp : p c = .ok (a, d)) : ∃ d', q c' = .ok (a, d') ∧ Beside True [] d d' := by
  have htracked := h c c' hb _ hp
  cases hq : q c' with
  | error err =>
    rw [hq] at htracked
    exact absurd trivial htracked
  | ok r =>
    obtain ⟨a', d'⟩ := r
    rw [hq] at htracked
    obtain ⟨rfl, hbeside, -⟩ := htracked
    exact ⟨d', rfl, hbeside⟩

theorem Beside.stop_of_stop (hb : Beside True [] c c') (h : c.current.kind = .stop) :
    c'.current.kind = .stop := by
  rw [Cursor.current, hb.rest_eq h]
  exact hb.stop'

theorem expressionSource_mono {p q : Parse Expr} (h : Tracks True [] p q) {source : List Char}
    {e : Expr} (hp : expressionSource p source = .ok e) : expressionSource q source = .ok e := by
  obtain ⟨l, htokens, hp⟩ := except_bind_eq_ok.mp hp
  obtain ⟨⟨e', d⟩, hphrase, hp⟩ := except_bind_eq_ok.mp hp
  obtain ⟨d', hq, hbeside⟩ := h.ok (tokenize_closed htokens).beside hphrase
  dsimp only at hp
  split at hp
  · cases hp
    refine except_bind_eq_ok.mpr ⟨l, htokens, except_bind_eq_ok.mpr ⟨_, hq, ?_⟩⟩
    exact if_pos (hbeside.stop_of_stop ‹_›)
  · obtain ⟨r, hr, -⟩ := except_bind_eq_ok.mp hp
    exact absurd hr (Fails.unexpected r)

theorem untilStopFrom_mono {p q : Parse α} (h : Tracks True [] p q) {fuel : Nat} {as : List α}
    (hb : Beside True [] c c') (hp : untilStopFrom p fuel c = .ok (as, d)) :
    ∃ d', untilStopFrom q fuel c' = .ok (as, d') := by
  induction fuel generalizing c c' as with
  | zero =>
    cases hp
    exact ⟨c', rfl⟩
  | succ fuel ih =>
    cases hb.heads with
    | atEnd hend _ hwhole =>
      rw [untilStopFrom_of_stop _ hend.kind] at hp
      cases hp
      exact ⟨c', untilStopFrom_of_stop _ (hwhole trivial)⟩
    | ahead _ _ hlike _ =>
      have hturn : ∀ (r : Parse α) (e : Cursor), e.current.kind ≠ .stop →
          untilStopFrom r (fuel + 1) e =
            (r >>= fun a => untilStopFrom r fuel >>= fun as => pure (a :: as)) e := by
        intro r e he
        change (if (e.current.kind == .stop) = true then pure [] else _ : Parse (List α)) e = _
        rw [beq_false_of_ne he]
        rfl
      rw [hturn p c hlike.ne_stop] at hp
      rw [hturn q c' (hlike.kind ▸ hlike.ne_stop)]
      obtain ⟨a, e, ha, hp⟩ := bind_eq_ok.mp hp
      obtain ⟨as', e', has, hp⟩ := bind_eq_ok.mp hp
      cases hp
      obtain ⟨f, ha', hbeside⟩ := h.ok hb ha
      obtain ⟨f', has'⟩ := ih hbeside has
      exact ⟨f', (bind_of_ok ha').trans (bind_of_ok has')⟩

theorem statementSource_mono {p q : Parse Stmt} (h : Tracks True [] p q) {source : String}
    {program : Program} (hp : statementSource p source = .ok program) :
    statementSource q source = .ok program := by
  obtain ⟨l, htokens, hp⟩ := except_bind_eq_ok.mp hp
  obtain ⟨⟨body, d⟩, hbody, hp⟩ := except_bind_eq_ok.mp hp
  cases hp
  obtain ⟨d', hq⟩ := untilStopFrom_mono h (tokenize_closed htokens).beside hbody
  exact except_bind_eq_ok.mpr ⟨l, htokens, except_bind_eq_ok.mpr ⟨_, hq, rfl⟩⟩

theorem fragmentUntil_mono (hwatch : ∀ nestings, watch' nestings = true → watch nestings = true)
    {size : Nat} {source : List Char} {e : Expr}
    (h : fragmentUntil watch cause size outer source = .ok e) :
    fragmentUntil watch' cause' size outer source = .ok e := by
  induction size generalizing outer source e with
  | zero => cases h
  | succ size ih =>
    have htracks : Tracks True []
        (phraseUntil watch cause (fragmentUntil watch cause size) outer maxDepth 0 .assignment)
        (phraseUntil watch' cause' (fragmentUntil watch' cause' size) outer maxDepth 0
          .assignment) := tracks_phraseUntil hwatch (fun _ _ _ he => ih he) _
    exact expressionSource_mono htracks h

theorem parseUntil_mono (hwatch : ∀ nestings, watch' nestings = true → watch nestings = true)
    {source : String} {program : Program} (h : parseUntil watch cause source = .ok program) :
    parseUntil watch' cause' source = .ok program := by
  have htracks : Tracks True []
      (phraseUntil watch cause (fragmentUntil watch cause source.length) [] maxDepth 0 .statement)
      (phraseUntil watch' cause' (fragmentUntil watch' cause' source.length) [] maxDepth 0
        .statement) :=
    tracks_phraseUntil hwatch (fun _ _ _ he => fragmentUntil_mono hwatch he) _
  exact statementSource_mono htracks h

/-- A program is read under a watch exactly if it is read, and comes to no moment that the watch
    picks. -/
theorem parseUntil_eq_ok_iff {source : String} {program : Program} :
    parseUntil watch cause source = .ok program ↔
      parse source = .ok program ∧ ¬ ReadingComesTo watch source := by
  constructor
  · intro h
    have hnever : parseUntil (fun _ => false) cause source = .ok program :=
      parseUntil_mono (fun _ hpicked => absurd hpicked Bool.false_ne_true) h
    have hparse : parse source = .ok program := by
      rwa [parseUntil_eq_parse fun _ _ => rfl] at hnever
    refine ⟨hparse, ?_⟩
    rintro ⟨cause', hne⟩
    exact hne ((parseUntil_mono (fun _ => id) h).trans hparse.symm)
  · rintro ⟨hparse, hnone⟩
    rw [← hparse]
    exact Classical.byContradiction fun hne => hnone ⟨cause, hne⟩

end Tracks

/-! ### Templates in one another -/

section Templates

variable {e : String} {E : Expr}

/-- A text round which a template can be put: it has no backslash, and every brace its match. -/
structure Wrappable (e : String) : Prop where
  escape : '\\' ∉ e.toList
  balanced : Balanced e

/-- Templates that hold nothing but one another, and a text in the innermost one. -/
def templatesAround (e : String) : Nat → String
  | 0 => e
  | n + 1 => substitution (templatesAround e n)

/-- What templates around an expression are read as. -/
def templatesOf (E : Expr) : Nat → Expr
  | 0 => E
  | n + 1 => .template [.expr (templatesOf E n)]

theorem braces_append {n m : Nat} {cs rest : List Char} (h : braces n cs = some m) :
    braces n (cs ++ rest) = braces m rest := by
  induction cs generalizing n with
  | nil =>
    cases h
    rfl
  | cons c cs ih =>
    unfold braces at h
    rw [List.cons_append, braces.eq_def]
    dsimp only
    split at h
    · rw [if_pos ‹_›]
      exact ih h
    rw [if_neg ‹_›]
    split at h
    · rw [if_pos ‹_›]
      cases n with
      | zero => cases h
      | succ n => exact ih h
    · rw [if_neg ‹_›]
      exact ih h

theorem braces_succ {n m : Nat} {cs : List Char} (h : braces n cs = some m) :
    braces (n + 1) cs = some (m + 1) := by
  induction cs generalizing n with
  | nil =>
    cases h
    rfl
  | cons c cs ih =>
    unfold braces at h ⊢
    split at h
    · rw [if_pos ‹_›]
      exact ih h
    rw [if_neg ‹_›]
    split at h
    · rw [if_pos ‹_›]
      cases n with
      | zero => cases h
      | succ n => exact ih h
    · rw [if_neg ‹_›]
      exact ih h

theorem Wrappable.substitution (h : Wrappable e) : Wrappable (substitution e) := by
  constructor
  · rw [substitution_toList]
    simpa using h.escape
  · unfold Balanced
    rw [substitution_toList]
    have hopened : braces 1 e.toList = some 1 := braces_succ h.balanced
    exact braces_append hopened

theorem Wrappable.templatesAround (h : Wrappable e) (n : Nat) :
    Wrappable (templatesAround e n) := by
  induction n with
  | zero => exact h
  | succ n ih => exact ih.substitution

theorem plain_template {text : List Char} {p : Position} {ts : List Token} {last : Token} :
    (Cursor.start ⟨templateToken text p :: ts, last⟩).Plain :=
  .of_kind rfl (.inl rfl) nofun nofun

/-- A template round an expression is an expression. -/
theorem fragmentOf_substitution (h : Wrappable e)
    (hE : fragmentOf (e.length + 1) e.toList = .ok E) :
    fragmentOf ((substitution e).length + 1) (substitution e).toList =
      .ok (.template [.expr E]) := by
  have hsize : e.length + 1 ≤ (substitution e).length := by
    rw [length_substitution]
    omega
  obtain ⟨p, last, htokens, hlast⟩ := tokenize_substitution
    (lexerEnds_of_balanced h.escape h.balanced)
  have hparts : templateParts (fragmentOf (substitution e).length)
      (templateToken (substitutionText e) p) = .ok [.expr E] := by
    rw [templateParts_substitution (cutterEnds_iff.mpr h.balanced), fragmentOf_mono hsize hE]
    rfl
  have hprimary := (Grammar.primary_template
    (r := ⟨phraseAt (fragmentOf (substitution e).length) (maxDepth - 2),
      fragmentOf (substitution e).length⟩)
    (c := { Cursor.start ⟨[templateToken (substitutionText e) p], last⟩ with depth := 2 })
    rfl).trans (congrArg _ hparts)
  refine fragmentOf_eq_ok.mpr ⟨_, _, ?_, phraseAt_of_primary plain_template
    (show 0 + 1 < maxDepth by decide) hprimary (hlast ▸ .stop), hlast⟩
  rw [String.ofList_toList]
  exact htokens

theorem fragmentOf_templatesAround (h : Wrappable e)
    (hE : fragmentOf (e.length + 1) e.toList = .ok E) (n : Nat) :
    fragmentOf ((templatesAround e n).length + 1) (templatesAround e n).toList =
      .ok (templatesOf E n) := by
  induction n with
  | zero => exact hE
  | succ n ih => exact fragmentOf_substitution (h.templatesAround n) ih

/-- Templates around an expression are read, however many they are. -/
theorem parse_templatesAround (h : Wrappable e)
    (hE : fragmentOf (e.length + 1) e.toList = .ok E) (n : Nat) :
    parse (templatesAround e (n + 1)) = .ok ⟨[.expr (templatesOf E (n + 1))]⟩ := by
  have hwrappable := h.templatesAround n
  exact parse_substitution (fragmentOf_templatesAround h hE n)
    (lexerEnds_of_balanced hwrappable.escape hwrappable.balanced)
    (cutterEnds_iff.mpr hwrappable.balanced)

variable {watch : NestingWatch} {cause : SyntaxCause} {outer : List Nat} {levels own : Nat}
  {F : List Nat → List Char → Except SyntaxError Expr}

theorem fails_phraseUntil_of_watch (h : watch ((own + 1) :: outer) = true) (p : Phrase α) :
    Fails (phraseUntil watch cause F outer levels own p) c := by
  cases levels with
  | zero => exact .failWith
  | succ levels =>
    rw [phraseUntil, if_pos h]
    exact fails_nested .failWith

theorem fails_phraseUntil_of_primary (hplain : c.Plain)
    (h : Fails (Grammar.primary
      ⟨phraseUntil watch cause F outer levels (own + 2), F ((own + 2) :: outer)⟩)
      { c with depth := c.depth + 2 }) :
    Fails (phraseUntil watch cause F outer (levels + 2) own .assignment) c := by
  have hunary : Fails (phraseUntil watch cause F outer (levels + 1) (own + 1) .unary)
      { c with depth := c.depth + 1 } := by
    refine fails_nested ?_
    split
    · exact .failWith
    · exact Grammar.fails_unary (hplain.withDepth _) h
  refine fails_nested ?_
  split
  · exact .failWith
  · exact Grammar.fails_assignment
      (r := ⟨phraseUntil watch cause F outer (levels + 1) (own + 1), F ((own + 1) :: outer)⟩)
      (hplain.withDepth _) hunary

/-- A template is not read under a watch if its substitution is not. -/
theorem fails_primary_substitution {r : Readers} (h : Wrappable e) {p : Position}
    (hc : c.current = templateToken (substitutionText e) p)
    (hfails : ∀ E, r.fragment e.toList ≠ .ok E) : Fails (Grammar.primary r) c := by
  intro result hresult
  have hkind : c.current.kind = .template := by rw [hc]; rfl
  rw [Grammar.primary_template hkind, hc,
    templateParts_substitution (cutterEnds_iff.mpr h.balanced)] at hresult
  cases hfragment : r.fragment e.toList with
  | ok E => exact hfails E hfragment
  | error err =>
    rw [hfragment] at hresult
    cases hresult

/-- In the innermost of some templates, two phrases are open in each reader of a substitution around
    it when its own expression begins. -/
theorem fragmentUntil_templatesAround (h : Wrappable e) {n size : Nat}
    (hwatch : watch (1 :: (List.replicate n 2 ++ outer)) = true) :
    fragmentUntil watch cause size outer (templatesAround e n).toList ≠ .ok E := by
  induction n generalizing size outer E with
  | zero =>
    obtain _ | size := size
    · nofun
    intro hE
    obtain ⟨l, -, hE⟩ := except_bind_eq_ok.mp hE
    obtain ⟨r, hr, -⟩ := except_bind_eq_ok.mp hE
    exact fails_phraseUntil_of_watch hwatch .assignment r hr
  | succ n ih =>
    obtain _ | size := size
    · nofun
    intro hE
    have hwrappable := h.templatesAround n
    obtain ⟨p, last, htokens, -⟩ := tokenize_substitution
      (lexerEnds_of_balanced hwrappable.escape hwrappable.balanced)
    obtain ⟨l, hl, hE⟩ := except_bind_eq_ok.mp hE
    rw [String.ofList_toList] at hl
    obtain rfl := Except.ok.inj (htokens.symm.trans hl)
    obtain ⟨r, hr, -⟩ := except_bind_eq_ok.mp hE
    have hinner : watch (1 :: (List.replicate n 2 ++ 2 :: outer)) = true := by
      rw [List.replicate_succ', List.append_assoc] at hwatch
      exact hwatch
    have hfails : ∀ d : Cursor, d.Plain →
        d.current = templateToken (substitutionText (templatesAround e n)) p →
        Fails (phraseUntil watch cause (fragmentUntil watch cause size) outer maxDepth 0
          .assignment) d :=
      fun d hplain hd => fails_phraseUntil_of_primary hplain
        (fails_primary_substitution hwrappable hd fun E => ih hinner)
    exact hfails _ plain_template rfl r hr

/-- The same in a program: three phrases are open in its own reader, since the outermost template is
    a statement of its own. -/
theorem parseUntil_templatesAround (h : Wrappable e) {n : Nat} {program : Program}
    (hwatch : watch (1 :: (List.replicate n 2 ++ [3])) = true) :
    parseUntil watch cause (templatesAround e (n + 1)) ≠ .ok program := by
  intro hparse
  have hwrappable := h.templatesAround n
  obtain ⟨p, last, htokens, -⟩ := tokenize_substitution
    (lexerEnds_of_balanced hwrappable.escape hwrappable.balanced)
  obtain ⟨l, hl, hparse⟩ := except_bind_eq_ok.mp hparse
  obtain rfl := Except.ok.inj (htokens.symm.trans hl)
  obtain ⟨r, hr, -⟩ := except_bind_eq_ok.mp hparse
  have hbegins : BeginsPrimary (substitution (templatesAround e n)) _ := .of_template htokens rfl
  refine fails_untilStop hbegins.nonempty hbegins.ne_stop (fails_nested ?_) r hr
  split
  · exact .failWith
  intro s hs
  rw [Grammar.phrase, Grammar.statement_eq (.inl rfl)] at hs
  refine Fails.bind ?_ s hs
  exact fails_phraseUntil_of_primary (plain_template.withDepth 1)
    (fails_primary_substitution hwrappable rfl fun E => fragmentUntil_templatesAround h hwatch)

end Templates

/-! ### The levels of all readers -/

/-- **Each reader has all the levels for itself.**  No reader opens more phrases than the greatest
    depth.  What is read is what would be read if all readers shared those levels, except that a
    source that comes to a moment at which more is open in all would then not be read.  Templates in
    one another come to such moments, and are read however many they are. -/
theorem parse_nesting (source : String) :
    ¬ ReadingComesTo (fun nestings => nestings.any (maxDepth < ·)) source ∧
      (∀ program, parseShared source = .ok program ↔
        parse source = .ok program ∧
          ¬ ReadingComesTo (fun nestings => maxDepth < nestings.sum) source) ∧
      ∀ e E, Wrappable e → fragmentOf (e.length + 1) e.toList = .ok E → ∀ n,
        parse (templatesAround e (n + 1)) = .ok ⟨[.expr (templatesOf E (n + 1))]⟩ ∧
          ReadingComesTo (· == 1 :: (List.replicate n 2 ++ [3])) (templatesAround e (n + 1)) := by
  refine ⟨not_readingComesTo ?_ source, fun program => parseUntil_eq_ok_iff, ?_⟩
  · intro nestings hnestings
    rw [List.any_eq_false]
    intro own hown
    exact Bool.eq_false_iff.mp (decide_eq_false (Nat.not_lt.mpr (hnestings own hown)))
  · intro e E h hE n
    have hparse := parse_templatesAround h hE n
    refine ⟨hparse, .nestingTooDeep, fun heq => ?_⟩
    have hpicked : (1 :: (List.replicate n 2 ++ [3]) == 1 :: (List.replicate n 2 ++ [3])) = true :=
      beq_self_eq_true _
    have hbroken : ∀ program, parseUntil (· == 1 :: (List.replicate n 2 ++ [3])) .nestingTooDeep
        (templatesAround e (n + 1)) ≠ .ok program :=
      fun program => parseUntil_templatesAround h hpicked
    exact hbroken _ (heq.trans hparse)

/-- A source whose templates hold nothing but one another, and the word for truth in the innermost
    one. -/
def truthInTemplates : String := templatesAround "true" 250

/-- It is read, although more phrases are open in its readers than the greatest depth. -/
theorem readingComesTo_truthInTemplates :
    (∃ program, parse truthInTemplates = .ok program) ∧
      ReadingComesTo (fun nestings => maxDepth < nestings.sum) truthInTemplates := by
  have htokens : tokenize "true" =
      .ok ⟨[⟨.keyword .trueWord, "true", ⟨1, 1⟩, false⟩], ⟨.stop, "", ⟨1, 5⟩, false⟩⟩ :=
    tokenize_of_toOption (by decide +kernel)
  have hE : fragmentOf ("true".length + 1) "true".toList = .ok (.bool true) :=
    fragmentOf_eq_ok.mpr ⟨_, _, htokens, rfl, rfl⟩
  have hwrappable : Wrappable "true" := ⟨by decide, by decide⟩
  have hparse := parse_templatesAround hwrappable hE 249
  refine ⟨⟨_, hparse⟩, .nestingTooDeep, fun heq => ?_⟩
  have hpicked : decide (maxDepth < (1 :: (List.replicate 249 2 ++ [3])).sum) = true := by
    decide +kernel
  have hbroken : ∀ program, parseShared truthInTemplates ≠ .ok program :=
    fun program => parseUntil_templatesAround hwrappable hpicked
  exact hbroken _ (heq.trans hparse)

end MemoryShell.Script
