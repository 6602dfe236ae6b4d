/-
  MemoryShell/Proofs/Syntax/Sources.lean
  ======================================
  **The tokens of a source without comments.**

  Where no comment stands between the tokens of a source, they follow one another with nothing but
  blanks between them.  If one such source begins another one, which goes on with a closing mark,
  then both have the same tokens up to there.  A comment would spoil this: one that runs to the end
  of its line takes the mark with it.
-/
import MemoryShell.Proofs.Syntax.Lexing

namespace MemoryShell.Script

variable {stop stop' : Position} {x : Glyph} {more gs gs' : List Glyph} {s : Symbol}

/-! ### Token lists -/

theorem nextToken_stop {t : Token} {rest : List Glyph} (h : nextToken stop gs = .ok (t, rest))
    (ht : t.kind = .stop) : t.text = "" := by
  unfold nextToken at h
  obtain ⟨⟨afterNewline, gs'⟩, -, h⟩ := except_bind_eq_ok.mp h
  obtain ⟨⟨kind, text, rest⟩, htoken, h⟩ := except_bind_eq_ok.mp h
  cases h
  obtain _ | ⟨g, gs'⟩ := gs'
  · cases htoken
    rfl
  · exact absurd ht (token_suffix htoken).1

/-- What stands before the end of a source is no end, and the end has no text. -/
structure TokenList.Closed (l : TokenList) : Prop where
  tokens : ∀ t ∈ l.tokens, t.kind ≠ .stop
  stop : l.stop.kind = .stop
  text : l.stop.text = ""

/-- Tokens are added behind those that have been read. -/
theorem tokensFrom_closed {fuel : Nat} {done : List Token} {l : TokenList}
    (h : tokensFrom stop fuel done gs = .ok l) :
    ∃ ts, l.tokens = done.reverse ++ ts ∧ TokenList.Closed ⟨ts, l.stop⟩ := by
  induction fuel generalizing gs done with
  | zero =>
    rw [tokensFrom] at h
    obtain ⟨⟨t, rest⟩, hread, h⟩ := except_bind_eq_ok.mp h
    change (if t.kind = .stop then Except.ok _ else Except.ok _) = _ at h
    split at h
    · cases h
      exact ⟨[], (List.append_nil _).symm, nofun, ‹_›, nextToken_stop hread ‹_›⟩
    · cases h
      exact ⟨[t], List.reverse_cons, by simpa using ‹_›, rfl, rfl⟩
  | succ fuel ih =>
    rw [tokensFrom] at h
    obtain ⟨⟨t, rest⟩, hread, h⟩ := except_bind_eq_ok.mp h
    change (if t.kind = .stop then Except.ok _ else tokensFrom stop fuel (t :: done) rest) = _ at h
    split at h
    · cases h
      exact ⟨[], (List.append_nil _).symm, nofun, ‹_›, nextToken_stop hread ‹_›⟩
    · obtain ⟨ts, hts, hclosed⟩ := ih h
      refine ⟨t :: ts, ?_, ?_, hclosed.stop, hclosed.text⟩
      · rw [hts, List.reverse_cons, List.append_assoc]
        rfl
      · exact List.forall_mem_cons.mpr ⟨‹_›, hclosed.tokens⟩

theorem tokenize_closed {source : String} {l : TokenList} (h : tokenize source = .ok l) :
    l.Closed := by
  obtain ⟨ts, hts, hclosed⟩ := tokensFrom_closed h
  obtain ⟨tokens, last⟩ := l
  cases hts
  exact hclosed

/-! ### Blanks -/

/-- The blanks at the beginning of a rest of a source, and what stands behind them. -/
def blanks (gs : List Glyph) : List Char × List Glyph := spanChars Text.isBlank gs

/-- Whether a rest of a source begins with a comment. -/
def opensComment : List Glyph → Bool
  | [] => false
  | g :: rest => g.char = '/' && startsIn (fun c => c == '/' || c == '*') rest

theorem blanks_cons (g : Glyph) (gs : List Glyph) :
    blanks (g :: gs) =
      if Text.isBlank g.char then (g.char :: (blanks gs).1, (blanks gs).2) else ([], g :: gs) := by
  unfold blanks spanChars
  rw [List.takeWhile_cons, List.dropWhile_cons]
  split <;> rfl

/-- Where no comment follows, a gap is nothing but blanks. -/
theorem skipGap_blanks (h : opensComment (blanks gs).2 = false) (newline : Bool) :
    skipGap stop .blank newline gs =
      .ok (newline || (blanks gs).1.contains '\n', (blanks gs).2) := by
  induction gs generalizing newline with
  | nil =>
    unfold skipGap
    exact congrArg (fun b => Except.ok (b, [])) (Bool.or_false newline).symm
  | cons g gs ih =>
    rw [blanks_cons] at h ⊢
    unfold skipGap
    by_cases hline : g.char = '\n'
    · rw [hline] at h ⊢
      rw [if_pos rfl, ih h, Bool.true_or]
      exact congrArg (fun b => Except.ok (b, _)) (Bool.or_true newline).symm
    rw [if_neg hline]
    split at h
    · rw [if_pos ‹_›, if_pos ‹_›, ih h, List.contains_cons,
        beq_false_of_ne (Ne.symm hline), Bool.false_or]
    · have hnone : ∀ c, c = '/' ∨ c = '*' →
          ¬ ((g.char = '/' && startsIn (fun d => d == c) gs) = true) := by
        intro c hc hopens
        rw [Bool.and_eq_true] at hopens
        obtain _ | ⟨g', gs⟩ := gs
        · cases hopens.2
        rw [opensComment, hopens.1, Bool.true_and] at h
        have hnext : g'.char = c := beq_iff_eq.mp hopens.2
        rcases hc with rfl | rfl <;> simp [startsIn, hnext] at h
      rw [if_neg ‹_›, if_neg (hnone _ (.inl rfl)), if_neg (hnone _ (.inr rfl)), if_neg ‹_›]
      exact congrArg (fun b => Except.ok (b, _)) (Bool.or_false newline).symm

/-- The gap before a token, where no comment follows. -/
theorem skipGap_start (h : opensComment (blanks gs).2 = false) :
    skipGap stop .blank false gs = .ok ((blanks gs).1.contains '\n', (blanks gs).2) := by
  rw [skipGap_blanks h, Bool.false_or]

theorem blanks_along (hx : Closes x.char s) (h : Along Glyph.Like (x :: more) gs gs') :
    ReadsAlong (x :: more) (blanks gs) (blanks gs') :=
  spanChars_along (hx.outside (p := Text.isBlank) rfl rfl) h

theorem opensComment_along (hx : Closes x.char s) (h : Along Glyph.Like (x :: more) gs gs')
    (hgs : gs ≠ []) : opensComment gs' = opensComment gs := by
  cases h with
  | done => exact absurd rfl hgs
  | @next g g' gs gs' hlike halong =>
    rw [opensComment, opensComment, show g'.char = g.char from hlike,
      startsIn_along (hx.outside (p := fun c => c == '/' || c == '*') rfl rfl) halong]

theorem opensComment_closes (hx : Closes x.char s) : opensComment (x :: gs) = false := by
  rw [opensComment, decide_eq_false (hx.ne (by decide) (by decide)), Bool.false_and]

/-! ### Sources without comments -/

/-- Whether no comment stands between the tokens of a source.  Every turn takes a glyph, so the
    length of the rest bounds the turns. -/
def commentFreeFrom (stop : Position) : Nat → List Glyph → Bool
  | 0, gs => !opensComment (blanks gs).2
  | fuel + 1, gs =>
    !opensComment (blanks gs).2 &&
      match token stop (blanks gs).2 with
      | .ok (_, _, rest) => commentFreeFrom stop fuel rest
      | .error _ => true

/-- Whether no comment stands between the tokens of a source. -/
def CommentFree (source : String) : Prop :=
  commentFreeFrom (glyphs source).2 (glyphs source).1.length (glyphs source).1 = true

instance (source : String) : Decidable (CommentFree source) :=
  inferInstanceAs (Decidable (_ = true))

theorem opensComment_of_commentFree {fuel : Nat} (h : commentFreeFrom stop fuel gs = true) :
    opensComment (blanks gs).2 = false := by
  cases fuel with
  | zero => exact (Bool.not_eq_true' _).mp h
  | succ fuel => exact (Bool.not_eq_true' _).mp (Bool.and_eq_true_iff.mp h).1

/-- The tokens of a source that has no comments, and its end. -/
inductive Lexes (stop : Position) : List Glyph → List Token → Token → Prop where
  | done {gs : List Glyph} : (blanks gs).2 = [] →
      Lexes stop gs [] ⟨.stop, "", stop, (blanks gs).1.contains '\n'⟩
  | next {gs rest rest' : List Glyph} {g : Glyph} {kind : TokenKind} {text : List Char}
      {ts : List Token} {last : Token} :
      (blanks gs).2 = g :: rest → opensComment (g :: rest) = false →
      token stop (g :: rest) = .ok (kind, text, rest') → Lexes stop rest' ts last →
      Lexes stop gs
        (⟨kind, String.ofList text, g.position, (blanks gs).1.contains '\n'⟩ :: ts) last

theorem nextToken_done (h : (blanks gs).2 = []) :
    nextToken stop gs = .ok (⟨.stop, "", stop, (blanks gs).1.contains '\n'⟩, []) := by
  unfold nextToken
  rw [skipGap_start (by rw [h]; rfl), h]
  rfl

theorem nextToken_next {rest : List Glyph} {g : Glyph} (hrest : (blanks gs).2 = g :: rest)
    (hnone : opensComment (g :: rest) = false) :
    nextToken stop gs = (token stop (g :: rest)).map fun (kind, text, rest') =>
      (⟨kind, String.ofList text, g.position, (blanks gs).1.contains '\n'⟩, rest') := by
  unfold nextToken
  rw [skipGap_start (by rw [hrest]; exact hnone), hrest]
  change (token stop (g :: rest) >>= _) = _
  cases token stop (g :: rest) <;> rfl

theorem blanks_length (gs : List Glyph) : (blanks gs).2.length ≤ gs.length :=
  (spanChars_suffix Text.isBlank gs).length_le

section Steps

variable {fuel : Nat} {done : List Token} {g : Glyph} {rest rest' : List Glyph} {kind : TokenKind}
  {text : List Char}

theorem tokensFrom_done (h : (blanks gs).2 = []) :
    tokensFrom stop fuel done gs =
      .ok ⟨done.reverse, ⟨.stop, "", stop, (blanks gs).1.contains '\n'⟩⟩ := by
  cases fuel with
  | zero => rw [tokensFrom, nextToken_done h]; rfl
  | succ fuel => rw [tokensFrom, nextToken_done h]; rfl

theorem tokensFrom_next (hrest : (blanks gs).2 = g :: rest)
    (hnone : opensComment (g :: rest) = false)
    (htoken : token stop (g :: rest) = .ok (kind, text, rest')) :
    tokensFrom stop (fuel + 1) done gs =
      tokensFrom stop fuel
        (⟨kind, String.ofList text, g.position, (blanks gs).1.contains '\n'⟩ :: done) rest' := by
  rw [tokensFrom, nextToken_next hrest hnone, htoken]
  exact if_neg (token_suffix htoken).1

/-- A rest of which something is left takes a turn, and leaves less. -/
theorem length_after (hrest : (blanks gs).2 = g :: rest)
    (htoken : token stop (g :: rest) = .ok (kind, text, rest')) : rest'.length < gs.length := by
  have hblanks := blanks_length gs
  rw [hrest] at hblanks
  exact Nat.lt_of_lt_of_le (Nat.lt_succ_of_le (token_suffix htoken).2.length_le) hblanks

/-- The tokens of a source that has been read, one by one. -/
theorem tokensFrom_ok {l : TokenList} (hrest : (blanks gs).2 = g :: rest)
    (hnone : opensComment (g :: rest) = false) (hfuel : gs.length ≤ fuel)
    (h : tokensFrom stop fuel done gs = .ok l) :
    ∃ kind text rest' read fuel', token stop (g :: rest) = .ok (kind, text, rest') ∧
      fuel = fuel' + 1 ∧ rest'.length ≤ fuel' ∧
      tokensFrom stop fuel' (read :: done) rest' = .ok l := by
  have hblanks := blanks_length gs
  rw [hrest] at hblanks
  obtain _ | fuel := fuel
  · exact absurd (Nat.le_trans hblanks hfuel) (Nat.not_succ_le_zero _)
  cases htoken : token stop (g :: rest) with
  | error e =>
    rw [tokensFrom, nextToken_next hrest hnone, htoken] at h
    cases h
  | ok r =>
    obtain ⟨kind, text, rest'⟩ := r
    rw [tokensFrom_next hrest hnone htoken] at h
    have hshorter := length_after hrest htoken
    exact ⟨kind, text, rest', _, fuel, rfl, rfl,
      Nat.le_of_lt_succ (Nat.lt_of_lt_of_le hshorter hfuel), h⟩

end Steps

/-- Tokens that have been read alike. -/
theorem Token.like_of_eq {kind : TokenKind} {text text' space space' : List Char}
    {p p' : Position} (hkind : kind ≠ .stop) (htext : text' = text) (hspace : space' = space) :
    Token.Like ⟨kind, String.ofList text, p, space.contains '\n'⟩
      ⟨kind, String.ofList text', p', space'.contains '\n'⟩ := by
  rw [htext, hspace]
  exact ⟨hkind, rfl, rfl, rfl⟩

namespace Lexes

variable {ts : List Token} {last : Token} {fuel : Nat} {done : List Token}

theorem tokensFrom_eq (h : Lexes stop gs ts last) (hfuel : gs.length ≤ fuel) :
    tokensFrom stop fuel done gs = .ok ⟨done.reverse ++ ts, last⟩ := by
  induction h generalizing fuel done with
  | done hrest => rw [tokensFrom_done hrest, List.append_nil]
  | next hrest hnone htoken _ ih =>
    have hshorter := length_after hrest htoken
    obtain _ | fuel := fuel
    · exact absurd (Nat.lt_of_lt_of_le hshorter hfuel) (Nat.not_lt_zero _)
    rw [tokensFrom_next hrest hnone htoken,
      ih (Nat.le_of_lt_succ (Nat.lt_of_lt_of_le hshorter hfuel)), List.reverse_cons,
      List.append_assoc]
    rfl

theorem eq_of_tokensFrom (h : Lexes stop gs ts last) (hfuel : gs.length ≤ fuel) {l : TokenList}
    (htokens : tokensFrom stop fuel [] gs = .ok l) : l = ⟨ts, last⟩ :=
  Except.ok.inj (htokens.symm.trans (h.tokensFrom_eq hfuel))

theorem of_commentFree (hfree : commentFreeFrom stop fuel gs = true) (hfuel : gs.length ≤ fuel)
    {l : TokenList} (h : tokensFrom stop fuel done gs = .ok l) :
    ∃ ts last, Lexes stop gs ts last := by
  induction fuel using Nat.strongRecOn generalizing gs done with
  | ind fuel ih =>
    cases hrest : (blanks gs).2 with
    | nil => exact ⟨_, _, .done hrest⟩
    | cons g rest =>
      have hnone := opensComment_of_commentFree hfree
      rw [hrest] at hnone
      obtain ⟨kind, text, rest', read, fuel', htoken, rfl, hfuel', h⟩ :=
        tokensFrom_ok hrest hnone hfuel h
      rw [commentFreeFrom, hrest, htoken, hnone] at hfree
      obtain ⟨ts, last, hlexes⟩ := ih fuel' (Nat.lt_succ_self _) hfree hfuel' h
      exact ⟨_, _, .next hrest hnone htoken hlexes⟩

/-- A source without comments has its tokens also before a closing mark, if what follows the mark
    has no comments either. -/
theorem append (h : Lexes stop gs ts last) (hx : Closes x.char s)
    (halong : Along Glyph.Like (x :: more) gs gs') {us : List Token} {last' : Token}
    (hmore : Lexes stop' more us last') :
    ∃ t ts', t.kind = .symbol s ∧ Along Token.Like (t :: us) ts ts' ∧
      Lexes stop' gs' ts' last' := by
  -- one token after the other, until the shorter source ends and the mark is next
  induction h generalizing gs' with
  | @done gs hrest =>
    obtain ⟨-, hrest'⟩ := blanks_along hx halong
    rw [hrest] at hrest'
    generalize hgs' : (blanks gs').2 = rest' at hrest'
    cases hrest' with
    | done =>
      exact ⟨_, _, rfl, .done, .next hgs' (opensComment_closes hx) (token_closes hx _ _) hmore⟩
  | @next gs rest rest₁ g kind text ts last hrest hnone htoken _ ih =>
    obtain ⟨hspace, hrest'⟩ := blanks_along hx halong
    rw [hrest] at hrest'
    obtain ⟨⟨text', rest₁'⟩, htoken', htext, hrest₁'⟩ := token_along stop' hx hrest' nofun htoken
    have hnone' := (opensComment_along hx hrest' nofun).trans hnone
    obtain ⟨t, ts', ht, hts', hlexes⟩ := ih hrest₁'
    generalize hgs' : (blanks gs').2 = front' at hrest' htoken' hnone'
    cases hrest' with
    | @next _ g' _ rest' _ _ =>
      refine ⟨t, _, ht, .next ?_ hts', .next hgs' hnone' htoken' hlexes⟩
      exact Token.like_of_eq (token_suffix htoken).1 htext hspace

/-- A source that begins one without comments, up to a closing mark, has its tokens up to there. -/
theorem before {ts' : List Token} {last' : Token} (h : Lexes stop' gs' ts' last')
    (hx : Closes x.char s) (halong : Along Glyph.Like (x :: more) gs gs')
    (hfuel : gs.length ≤ fuel) {l : TokenList}
    (hl : tokensFrom stop fuel done gs = .ok l) :
    ∃ t ts us last, t.kind = .symbol s ∧ Along Token.Like (t :: us) ts ts' ∧
      Lexes stop gs ts last := by
  -- along the tokens of the longer source, until the mark is one of them
  induction h generalizing gs fuel done with
  | @done gs' hrest' =>
    obtain ⟨-, hrest⟩ := blanks_along hx halong
    rw [hrest'] at hrest
    generalize (blanks gs).2 = front at hrest
    cases hrest
  | @next gs' rest' rest₁' g' kind text' ts' last' hrest' hnone' htoken' _ ih =>
    obtain ⟨hspace, hrest⟩ := blanks_along hx halong
    rw [hrest'] at hrest
    generalize hgs : (blanks gs).2 = front at hrest
    cases hrest with
    | done =>
      rw [token_closes hx] at htoken'
      cases htoken'
      exact ⟨_, [], ts', _, rfl, .done, .done hgs⟩
    | @next g _ rest _ hlike hrest =>
      have hfront : Along Glyph.Like (x :: more) (g :: rest) (g' :: rest') := .next hlike hrest
      have hnone := (opensComment_along hx hfront nofun).symm.trans hnone'
      obtain ⟨kind, text, rest₁, read, fuel, htoken, rfl, hfuel, hl⟩ :=
        tokensFrom_ok hgs hnone hfuel hl
      obtain ⟨⟨text'', rest₁''⟩, htoken'', htext, hrest₁⟩ :=
        token_along stop' hx hfront nofun htoken
      rw [htoken''] at htoken'
      cases htoken'
      obtain ⟨t, ts, us, last, ht, hts, hlexes⟩ := ih hrest₁ hfuel hl
      refine ⟨t, _, us, last, ht, .next ?_ hts, .next hgs hnone htoken hlexes⟩
      exact Token.like_of_eq (token_suffix htoken).1 htext hspace

end Lexes

/-! ### The glyphs of a text -/

theorem glyphsFrom_chars (p : Position) (done : List Glyph) (cs : List Char) :
    (glyphsFrom p done cs).1.map Glyph.char = (done.map Glyph.char).reverse ++ cs := by
  induction cs generalizing p done with
  | nil => rw [glyphsFrom, List.map_reverse, List.append_nil]
  | cons c cs ih =>
    rw [glyphsFrom, ih, List.map_cons, List.reverse_cons, List.append_assoc]
    rfl

theorem glyphs_chars (source : String) : (glyphs source).1.map Glyph.char = source.toList :=
  glyphsFrom_chars _ _ _

/-- Glyphs whose characters begin with those of others. -/
theorem along_of_chars {cs : List Char}
    (h : gs'.map Glyph.char = gs.map Glyph.char ++ cs) :
    ∃ more, more.map Glyph.char = cs ∧ Along Glyph.Like more gs gs' := by
  induction gs generalizing gs' with
  | nil => exact ⟨gs', h, .done⟩
  | cons g gs ih =>
    cases gs' with
    | nil => cases h
    | cons g' gs' =>
      obtain ⟨hchar, hchars⟩ := List.cons.inj h
      obtain ⟨more, hmore, halong⟩ := ih hchars
      exact ⟨more, hmore, .next hchar halong⟩

end MemoryShell.Script
