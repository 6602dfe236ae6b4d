/-
  MemoryShell/Proofs/Syntax/Spacing.lean
  ======================================
  **What stands between tokens, and putting one blank in its place.**

  A source can be cut into runs of blanks and comments and the texts of its tokens, in turns.  If
  each run is replaced by a line end, or by a space where no line ends in it, the source has the
  same tokens, at other places.  A token looks ahead of its text, sometimes over the one behind it,
  but never over a blank or a slash; so it looks at the same characters before a run as before the
  blank that replaces it.
-/
import MemoryShell.Proofs.Syntax.Sources

namespace MemoryShell.Script

/-! ### Runs of blanks and comments -/

/-- Whether a text begins with a blank or a comment. -/
def beginsRun : List Char → Bool
  | [] => false
  | c :: cs => Text.isBlank c || c == '/' && (cs.head? == some '/' || cs.head? == some '*')

/-- A run of blanks and comments, up to a text that begins with neither.  A comment of the one kind
    goes up to the end of its line, one of the other kind up to the first mark that closes it. -/
inductive IsRun : List Char → List Char → Prop where
  | done {rest : List Char} : beginsRun rest = false → IsRun [] rest
  | blank {c : Char} {run rest : List Char} :
      Text.isBlank c = true → IsRun run rest → IsRun (c :: run) rest
  | line {body run rest : List Char} :
      '\n' ∉ body → (∀ c ∈ (run ++ rest).head?, c = '\n') → IsRun run rest →
        IsRun ('/' :: '/' :: (body ++ run)) rest
  | block {body run rest : List Char} :
      ¬ ['*', '/'] <:+: body → IsRun run rest →
        IsRun ('/' :: '*' :: (body ++ '*' :: '/' :: run)) rest

/-- What replaces a run. -/
def spacer (run : List Char) : List Char :=
  if run = [] then [] else if '\n' ∈ run then ['\n'] else [' ']

/-- A run is behind another source in turn: its first character is no part of a token. -/
theorem IsRun.head_mem_fences {run rest : List Char} (h : IsRun run rest) {c : Char}
    {cs : List Char} (hrun : run = c :: cs) : c ∈ fences := by
  cases h with
  | done => cases hrun
  | blank hblank =>
    cases hrun
    exact mem_fences_of_isBlank hblank
  | line | block =>
    cases hrun
    decide

theorem IsRun.not_beginsRun {run rest : List Char} (h : IsRun run rest) :
    beginsRun rest = false := by
  induction h with
  | done h => exact h
  | blank _ _ ih | line _ _ _ ih | block _ _ ih => exact ih

variable {stop stop' : Position} {g g' : Glyph} {gs gs' es es' rest rest' : List Glyph}

/-! ### Passing over a run -/

/-- What stands between a place in a run and the end of the run, by what is being passed over. -/
def Gap.Passes : Gap → List Char → List Char → Prop
  | .blank, run, rest => IsRun run rest
  | .line, run, rest => ∃ body run', run = body ++ run' ∧ '\n' ∉ body ∧
      (∀ c ∈ (run' ++ rest).head?, c = '\n') ∧ IsRun run' rest
  | .opening, run, rest => ∃ body run', run = '*' :: (body ++ '*' :: '/' :: run') ∧
      ¬ ['*', '/'] <:+: body ∧ IsRun run' rest
  | .block, run, rest => ∃ body run', run = body ++ '*' :: '/' :: run' ∧
      ¬ ['*', '/'] <:+: body ∧ IsRun run' rest
  | .closing, run, rest => ∃ run', run = '/' :: run' ∧ IsRun run' rest

/-- What the lexer has looked ahead for. -/
def Gap.Expects : Gap → List Glyph → Prop
  | .opening, gs => startsIn (· == '*') gs = true
  | .closing, gs => startsIn (· == '/') gs = true
  | _, _ => True

theorem startsIn_beq (c : Char) (gs : List Glyph) :
    startsIn (· == c) gs = ((gs.map Glyph.char).head? == some c) := by
  cases gs <;> rfl

/-- What begins with neither a blank nor a comment, by what the lexer looks at. -/
theorem beginsRun_cons (hblank : ¬ Text.isBlank g.char = true)
    (hline : ¬ (g.char = '/' && startsIn (· == '/') gs) = true)
    (hblock : ¬ (g.char = '/' && startsIn (· == '*') gs) = true) :
    beginsRun ((g :: gs).map Glyph.char) = false := by
  rw [Bool.not_eq_true] at hblank hline hblock
  rw [startsIn_beq] at hline hblock
  rw [List.map_cons, beginsRun, hblank, Bool.false_or, Bool.and_or_distrib_left]
  exact Bool.or_eq_false_iff.mpr ⟨hline, hblock⟩

/-- A comment to the end of its line takes its second character as well. -/
theorem IsRun.of_line {run rest : List Char} (h : Gap.line.Passes run rest)
    (hsecond : (run ++ rest).head? = some '/') : IsRun ('/' :: run) rest := by
  obtain ⟨body, run, rfl, hbody, hend, hrun⟩ := h
  obtain _ | ⟨c, body⟩ := body
  · cases hend '/' hsecond
  · cases hsecond
    rw [List.mem_cons, not_or] at hbody
    exact .line hbody.2 hend hrun

theorem contains_cons_of_ne {c : Char} (hc : c ≠ '\n') (cs : List Char) :
    (c :: cs).contains '\n' = cs.contains '\n' := by
  rw [List.contains_cons, beq_false_of_ne (Ne.symm hc), Bool.false_or]

/-- What the lexer passes over is a run, and it notices the line ends in it. -/
theorem skipGap_passes {gap : Gap} {newline flag : Bool}
    (h : skipGap stop gap newline gs = .ok (flag, rest)) (hgap : gap.Expects gs) :
    ∃ run, gs = run ++ rest ∧ gap.Passes (run.map Glyph.char) (rest.map Glyph.char) ∧
      flag = (newline || (run.map Glyph.char).contains '\n') := by
  induction gs generalizing gap newline with
  | nil =>
    have hend : IsRun [] [] := .done rfl
    cases gap with
    | opening | block => cases h
    | closing => cases hgap
    | blank =>
      cases h
      exact ⟨[], rfl, hend, (Bool.or_false _).symm⟩
    | line =>
      cases h
      exact ⟨[], rfl, ⟨[], [], rfl, nofun, nofun, hend⟩, (Bool.or_false _).symm⟩
  | cons g gs ih =>
    unfold skipGap at h
    cases gap with
    | blank =>
      dsimp only at h
      split at h
      · rename_i hline
        obtain ⟨run, rfl, hpasses, rfl⟩ := ih h trivial
        refine ⟨g :: run, rfl, .blank (by rw [hline]; rfl) hpasses, ?_⟩
        rw [List.map_cons, hline]
        simp
      rename_i hline
      split at h
      · obtain ⟨run, rfl, hpasses, rfl⟩ := ih h trivial
        refine ⟨g :: run, rfl, .blank ‹_› hpasses, ?_⟩
        rw [List.map_cons, contains_cons_of_ne hline]
      split at h
      · rename_i hopens
        rw [Bool.and_eq_true, decide_eq_true_eq, startsIn_beq] at hopens
        obtain ⟨run, rfl, hpasses, rfl⟩ := ih h trivial
        rw [List.map_append] at hopens
        refine ⟨g :: run, rfl, ?_, ?_⟩
        · rw [List.map_cons, hopens.1]
          exact .of_line hpasses (beq_iff_eq.mp hopens.2)
        · rw [List.map_cons, contains_cons_of_ne hline]
      split at h
      · rename_i hopens
        rw [Bool.and_eq_true, decide_eq_true_eq] at hopens
        obtain ⟨run, rfl, ⟨body, run', hbody, hnone, hrun⟩, rfl⟩ := ih h hopens.2
        refine ⟨g :: run, rfl, ?_, ?_⟩
        · rw [List.map_cons, hopens.1, hbody]
          exact .block hnone hrun
        · rw [List.map_cons, contains_cons_of_ne hline]
      · cases h
        exact ⟨[], rfl, .done (beginsRun_cons ‹_› ‹_› ‹_›), (Bool.or_false _).symm⟩
    | line =>
      dsimp only at h
      split at h
      · rename_i hline
        obtain ⟨run, rfl, hpasses, rfl⟩ := ih h trivial
        refine ⟨g :: run, rfl, ⟨[], '\n' :: run.map Glyph.char, ?_, nofun, ?_, ?_⟩, ?_⟩
        · rw [List.map_cons, hline]
          rfl
        · rintro c ⟨⟩
          rfl
        · exact .blank rfl hpasses
        · rw [List.map_cons, hline]
          simp
      · rename_i hline
        obtain ⟨run, rfl, ⟨body, run', hbody, hnone, hend, hrun⟩, rfl⟩ := ih h trivial
        refine ⟨g :: run, rfl, ⟨g.char :: body, run', ?_, ?_, hend, hrun⟩, ?_⟩
        · rw [List.map_cons, hbody, List.cons_append]
        · rw [List.mem_cons, not_or]
          exact ⟨Ne.symm hline, hnone⟩
        · rw [List.map_cons, contains_cons_of_ne hline]
    | opening =>
      have hmark : g.char = '*' := beq_iff_eq.mp hgap
      obtain ⟨run, rfl, ⟨body, run', hbody, hnone, hrun⟩, rfl⟩ := ih h trivial
      refine ⟨g :: run, rfl, ⟨body, run', ?_, hnone, hrun⟩, ?_⟩
      · rw [List.map_cons, hbody, hmark]
      · rw [List.map_cons, contains_cons_of_ne (by rw [hmark]; decide)]
    | block =>
      dsimp only at h
      split at h
      · rename_i hcloses
        rw [Bool.and_eq_true, decide_eq_true_eq] at hcloses
        obtain ⟨run, rfl, ⟨run', hbody, hrun⟩, rfl⟩ := ih h hcloses.2
        refine ⟨g :: run, rfl, ⟨[], run', ?_, by simp, hrun⟩, ?_⟩
        · rw [List.map_cons, hbody, hcloses.1]
          rfl
        · rw [List.map_cons, contains_cons_of_ne (by rw [hcloses.1]; decide)]
      · rename_i hopen
        obtain ⟨run, rfl, ⟨body, run', hbody, hnone, hrun⟩, rfl⟩ := ih h trivial
        refine ⟨g :: run, rfl, ⟨g.char :: body, run', ?_, ?_, hrun⟩, ?_⟩
        · rw [List.map_cons, hbody, List.cons_append]
        · intro hinfix
          obtain hprefix | hinfix := List.infix_cons_iff.mp hinfix
          · obtain ⟨hstar, hslash⟩ := List.cons_prefix_cons.mp hprefix
            refine hopen ?_
            rw [Bool.and_eq_true, decide_eq_true_eq, startsIn_beq, List.map_append, hbody]
            obtain _ | ⟨c, body⟩ := body
            · cases List.prefix_nil.mp hslash
            · obtain ⟨rfl, -⟩ := List.cons_prefix_cons.mp hslash
              exact ⟨hstar.symm, rfl⟩
          · exact hnone hinfix
        · rw [List.map_cons, List.contains_cons, Bool.or_assoc, Bool.beq_comm]
    | closing =>
      have hmark : g.char = '/' := beq_iff_eq.mp hgap
      obtain ⟨run, rfl, hpasses, rfl⟩ := ih h trivial
      refine ⟨g :: run, rfl, ⟨run.map Glyph.char, ?_, hpasses⟩, ?_⟩
      · rw [List.map_cons, hmark]
      · rw [List.map_cons, contains_cons_of_ne (by rw [hmark]; decide)]

/-! ### Cutting a source -/

/-- A source in pieces: runs and texts of tokens in turns, and a run at the end. -/
structure Cut where
  pieces : List (List Char × List Char)
  last : List Char
deriving DecidableEq, Repr

def Cut.cons (run lexeme : List Char) (cut : Cut) : Cut := ⟨(run, lexeme) :: cut.pieces, cut.last⟩

/-- The source, with each run in it replaced. -/
def Cut.respaced (cut : Cut) : List Char :=
  (cut.pieces.flatMap fun (run, lexeme) => spacer run ++ lexeme) ++ spacer cut.last

theorem Cut.respaced_cons (run lexeme : List Char) (cut : Cut) :
    (cut.cons run lexeme).respaced = spacer run ++ (lexeme ++ cut.respaced) := by
  rw [respaced, respaced, cons, List.flatMap_cons]
  simp only [List.append_assoc]

/-- The characters in which a rest of a source begins with more than another one does. -/
def charsBefore (gs rest : List Glyph) : List Char :=
  (gs.take (gs.length - rest.length)).map Glyph.char

theorem charsBefore_append (front rest : List Glyph) :
    charsBefore (front ++ rest) rest = front.map Glyph.char := by
  rw [charsBefore, List.length_append, Nat.add_sub_cancel, List.take_left]

/-- Cut a rest of a source.  Every turn takes a glyph, so the length of the rest bounds the
    turns. -/
def cutFrom (stop : Position) : Nat → List Glyph → Cut
  | 0, gs => ⟨[], gs.map Glyph.char⟩
  | fuel + 1, gs =>
    match skipGap stop .blank false gs with
    | .ok (_, g :: rest) =>
      match token stop (g :: rest) with
      | .ok (_, _, rest') =>
        (cutFrom stop fuel rest').cons (charsBefore gs (g :: rest)) (charsBefore (g :: rest) rest')
      | .error _ => ⟨[], gs.map Glyph.char⟩
    | _ => ⟨[], gs.map Glyph.char⟩

def cutOf (source : String) : Cut :=
  cutFrom (glyphs source).2 (glyphs source).1.length (glyphs source).1

/-- A source with one line end or one space in the place of each run of blanks and comments. -/
def respaced (source : String) : String := String.ofList (cutOf source).respaced

/-- The tokens of a rest of a source, and its cut: between the tokens stand runs, and a token begins
    after a new line if a line ends in the run before it. -/
inductive Cuts (stop : Position) : List Glyph → Cut → List Token → Token → Prop where
  | done {run : List Glyph} : IsRun (run.map Glyph.char) [] →
      Cuts stop run ⟨[], run.map Glyph.char⟩ []
        ⟨.stop, "", stop, (run.map Glyph.char).contains '\n'⟩
  | next {run lexeme rest : List Glyph} {g : Glyph} {kind : TokenKind} {text : List Char}
      {cut : Cut} {ts : List Token} {last : Token} :
      IsRun (run.map Glyph.char) ((g :: (lexeme ++ rest)).map Glyph.char) →
      token stop (g :: (lexeme ++ rest)) = .ok (kind, text, rest) → Cuts stop rest cut ts last →
      Cuts stop (run ++ g :: (lexeme ++ rest))
        (cut.cons (run.map Glyph.char) ((g :: lexeme).map Glyph.char))
        (⟨kind, String.ofList text, g.position, (run.map Glyph.char).contains '\n'⟩ :: ts) last

/-- What is read as one token, and the run before it. -/
theorem nextToken_eq_ok {t : Token} (h : nextToken stop gs = .ok (t, rest)) :
    ∃ run front kind text, gs = run ++ front ∧
      IsRun (run.map Glyph.char) (front.map Glyph.char) ∧
      skipGap stop .blank false gs = .ok ((run.map Glyph.char).contains '\n', front) ∧
      token stop front = .ok (kind, text, rest) ∧
      t = ⟨kind, String.ofList text, here stop front, (run.map Glyph.char).contains '\n'⟩ := by
  unfold nextToken at h
  obtain ⟨⟨flag, front⟩, hgap, h⟩ := except_bind_eq_ok.mp h
  obtain ⟨⟨kind, text, rest'⟩, htoken, h⟩ := except_bind_eq_ok.mp h
  cases h
  obtain ⟨run, hgs, hpasses, hflag⟩ := skipGap_passes hgap trivial
  rw [Bool.false_or] at hflag
  subst hflag
  exact ⟨run, front, kind, text, hgs, hpasses, hgap, htoken, rfl⟩

/-- A source that has tokens is cut at them. -/
theorem cuts_of_tokensFrom {fuel : Nat} {done : List Token} {l : TokenList}
    (hfuel : gs.length ≤ fuel) (h : tokensFrom stop fuel done gs = .ok l) :
    ∃ ts, l.tokens = done.reverse ++ ts ∧ Cuts stop gs (cutFrom stop fuel gs) ts l.stop := by
  induction fuel generalizing gs done with
  | zero =>
    obtain rfl := List.length_eq_zero_iff.mp (Nat.le_zero.mp hfuel)
    rw [tokensFrom_done rfl] at h
    cases h
    exact ⟨[], (List.append_nil _).symm, .done (.done rfl)⟩
  | succ fuel ih =>
    rw [tokensFrom] at h
    obtain ⟨⟨t, rest⟩, hnext, h⟩ := except_bind_eq_ok.mp h
    obtain ⟨run, front, kind, text, rfl, hrun, hgap, htoken, rfl⟩ := nextToken_eq_ok hnext
    dsimp only at h
    obtain _ | ⟨g, front⟩ := front
    · cases htoken
      cases h
      rw [cutFrom, hgap]
      rw [List.append_nil]
      exact ⟨[], (List.append_nil _).symm, .done hrun⟩
    · obtain ⟨hkind, lexeme, hlexeme⟩ := token_suffix htoken
      obtain rfl : lexeme ++ rest = front := hlexeme
      rw [if_neg hkind] at h
      rw [List.length_append, List.length_cons, List.length_append] at hfuel
      obtain ⟨ts, htokens, hcuts⟩ := ih (by omega) h
      refine ⟨⟨kind, String.ofList text, g.position, (run.map Glyph.char).contains '\n'⟩ :: ts,
        ?_, ?_⟩
      · rw [htokens, List.reverse_cons, List.append_assoc]
        rfl
      · rw [cutFrom, hgap]
        dsimp only
        rw [htoken]
        dsimp only
        rw [charsBefore_append, show g :: (lexeme ++ rest) = (g :: lexeme) ++ rest from rfl,
          charsBefore_append]
        exact .next hrun htoken hcuts

/-! ### Putting one blank in the place of each run -/

/-- What replaces a run is one blank, a line end if there is one in the run. -/
theorem spacer_cons (c : Char) (run : List Char) : ∃ d, spacer (c :: run) = [d] ∧
    Text.isBlank d = true ∧ (d == '\n') = (c :: run).contains '\n' := by
  unfold spacer
  rw [if_neg (List.cons_ne_nil _ _)]
  split
  · exact ⟨'\n', rfl, rfl, (List.contains_iff_mem.mpr ‹_›).symm⟩
  · exact ⟨' ', rfl, rfl, (Bool.eq_false_iff.mpr (mt List.contains_iff_mem.mp ‹_›)).symm⟩

theorem UpTo.append (h : UpTo es es' gs gs') {front front' : List Glyph}
    (hchars : front'.map Glyph.char = front.map Glyph.char) :
    UpTo es es' (front ++ gs) (front' ++ gs') := by
  induction front generalizing front' with
  | nil => rwa [List.map_eq_nil_iff.mp hchars]
  | cons g front ih =>
    obtain ⟨g', front', rfl, hg, hfront⟩ := List.map_eq_cons_iff.mp hchars
    exact .next hg (ih hfront)

/-- A rest that is at its end or begins with a blank. -/
def Spaced (es : List Glyph) : Prop := ∀ e rest, es = e :: rest → Text.isBlank e.char = true

theorem spaced_nil : Spaced [] := nofun

theorem Spaced.fenced (h : Spaced es) : Fenced es := fun e rest heq =>
  mem_fences_of_isBlank (h e rest heq)

theorem spaced_of_spacer {c : Char} {run more : List Char}
    (hchars : gs.map Glyph.char = spacer (c :: run) ++ more) : Spaced gs := by
  obtain ⟨d, hspacer, hblank, -⟩ := spacer_cons c run
  rw [hspacer] at hchars
  rintro e rest rfl
  obtain ⟨hchar, -⟩ := List.cons.inj hchars
  rwa [hchar]

/-- A source and the one that it is respaced to have the same characters up to the next run, where
    a blank stands in the second one; or up to their ends. -/
theorem Cuts.upTo {cut : Cut} {ts : List Token} {last : Token} (h : Cuts stop gs cut ts last)
    (hchars : gs'.map Glyph.char = cut.respaced) :
    ∃ es es', Fenced es ∧ Spaced es' ∧ UpTo es es' gs gs' := by
  induction h generalizing gs' with
  | @done run hrun =>
    obtain _ | ⟨g, run⟩ := run
    · obtain rfl := List.map_eq_nil_iff.mp hchars
      exact ⟨[], [], fenced_nil, spaced_nil, .done⟩
    · have hspaced : Spaced gs' := spaced_of_spacer (hchars.trans (List.append_nil _).symm)
      refine ⟨g :: run, gs', ?_, hspaced, .done⟩
      exact fenced_cons (hrun.head_mem_fences rfl) run
  | @next run lexeme rest g kind text cut ts last hrun _ _ ih =>
    rw [Cut.respaced_cons] at hchars
    obtain _ | ⟨g₁, run⟩ := run
    · change gs'.map Glyph.char = (g :: lexeme).map Glyph.char ++ cut.respaced at hchars
      obtain ⟨front', rest', rfl, hfront, hrest⟩ := List.map_eq_append_iff.mp hchars
      obtain ⟨es, es', hes, hes', hupTo⟩ := ih hrest
      have hlexeme : UpTo es es' ((g :: lexeme) ++ rest) (front' ++ rest') := hupTo.append hfront
      exact ⟨es, es', hes, hes', hlexeme⟩
    · refine ⟨_, gs', ?_, spaced_of_spacer hchars, .done⟩
      exact fenced_cons (hrun.head_mem_fences rfl) _

/-- Where no comment begins in the one, none begins in the other. -/
theorem opensComment_upTo (hes' : Spaced es') (h : UpTo es es' rest rest') (hlike : g.Like g')
    (hnone : opensComment (g :: rest) = false) : opensComment (g' :: rest') = false := by
  rw [opensComment, show g'.char = g.char from hlike]
  cases h with
  | done =>
    have hmark : startsIn (fun c => c == '/' || c == '*') es' = false := by
      obtain _ | ⟨e, es'⟩ := es'
      · rfl
      · have hblank := hes' e es' rfl
        refine Bool.eq_false_iff.mpr fun hmark => ?_
        rw [startsIn, Bool.or_eq_true, beq_iff_eq, beq_iff_eq] at hmark
        rcases hmark with hmark | hmark <;> rw [hmark] at hblank <;> cases hblank
    rw [hmark, Bool.and_false]
  | @next c c' rest rest' hchar _ =>
    rwa [startsIn, show c'.char = c.char from hchar]

/-- The blanks at the beginning of a respaced rest, and what stands behind them. -/
theorem blanks_spacer {run : List Char} {front : List Glyph}
    (hfront : front.map Glyph.char = spacer run) (hrest : startsIn Text.isBlank rest = false) :
    (blanks (front ++ rest)).2 = rest ∧
      (blanks (front ++ rest)).1.contains '\n' = run.contains '\n' := by
  have hblanks : blanks rest = ([], rest) := spanChars_of_startsIn hrest
  obtain _ | ⟨c, run⟩ := run
  · obtain rfl := List.map_eq_nil_iff.mp hfront
    rw [List.nil_append, hblanks]
    exact ⟨rfl, rfl⟩
  · obtain ⟨d, hspacer, hblank, hline⟩ := spacer_cons c run
    rw [hspacer] at hfront
    obtain ⟨x, front, rfl, rfl, hnil⟩ := List.map_eq_cons_iff.mp hfront
    obtain rfl := List.map_eq_nil_iff.mp hnil
    rw [List.cons_append, List.nil_append, blanks_cons, if_pos hblank, hblanks, ← hline]
    refine ⟨rfl, ?_⟩
    rw [List.contains_cons, List.contains_nil, Bool.or_false, Bool.beq_comm]

/-- What begins neither with a blank nor with a comment, as a rest of a source. -/
theorem not_opensComment (h : beginsRun ((g :: rest).map Glyph.char) = false) :
    Text.isBlank g.char = false ∧ opensComment (g :: rest) = false := by
  rw [List.map_cons, beginsRun, Bool.or_eq_false_iff] at h
  refine ⟨h.1, ?_⟩
  have hmark : startsIn (fun c => c == '/' || c == '*') rest =
      ((rest.map Glyph.char).head? == some '/' || (rest.map Glyph.char).head? == some '*') := by
    cases rest <;> rfl
  rw [opensComment, hmark]
  exact h.2

/-- A respaced source has the tokens of the source, at other places. -/
theorem Cuts.lexes {cut : Cut} {ts : List Token} {last : Token} (h : Cuts stop gs cut ts last)
    (hchars : gs'.map Glyph.char = cut.respaced) :
    ∃ ts' last', Lexes stop' gs' ts' last' ∧ Along Token.Same [] ts ts' ∧
      last.Same last' := by
  induction h generalizing gs' with
  | @done run hrun =>
    have hfront : gs'.map Glyph.char = spacer (run.map Glyph.char) := hchars
    have hblanks : (blanks (gs' ++ [])).2 = [] ∧ _ := blanks_spacer hfront rfl
    rw [List.append_nil] at hblanks
    exact ⟨[], _, .done hblanks.1, .done, rfl, rfl, hblanks.2⟩
  | @next run lexeme rest g kind text cut ts last hrun htoken hcuts ih =>
    rw [Cut.respaced_cons] at hchars
    obtain ⟨front, behind, rfl, hfront, hbehind⟩ := List.map_eq_append_iff.mp hchars
    obtain ⟨lexeme', rest', rfl, hlexeme, hrest⟩ := List.map_eq_append_iff.mp hbehind
    obtain ⟨g', lexeme', rfl, hlike, hlexeme⟩ := List.map_eq_cons_iff.mp hlexeme
    obtain ⟨ts', last', hlexes, hsame, hlast⟩ := ih hrest
    obtain ⟨es, es', hes, hes', hupTo⟩ := hcuts.upTo hrest
    have htail : UpTo es es' (lexeme ++ rest) (lexeme' ++ rest') := hupTo.append hlexeme
    obtain ⟨hblank, hnone⟩ := not_opensComment hrun.not_beginsRun
    have hnone' := opensComment_upTo hes' htail hlike hnone
    have hblank' : startsIn Text.isBlank ((g' :: lexeme') ++ rest') = false := by
      rw [← hblank, ← hlike]
      rfl
    obtain ⟨hblanks, hline⟩ := blanks_spacer hfront hblank'
    have hwhole : UpTo es es' (g :: (lexeme ++ rest)) (g' :: (lexeme' ++ rest')) :=
      .next hlike htail
    have hlength := hupTo.length_le
    obtain ⟨⟨text', behind⟩, htoken', rfl, hread⟩ := token_upTo stop' hes hes'.fenced hwhole
      (by rw [List.length_cons, List.length_append]; omega) htoken hlength
    -- what is left behind the token is as long as it should be, so it is what it should be
    obtain rfl : behind = rest' := by
      have hbehind := hread.length_eq
      have hrest' := hupTo.length_eq
      have hsuffix := List.suffix_of_suffix_length_le (token_suffix htoken').2
        (List.suffix_append lexeme' rest') (by dsimp only at hbehind ⊢; omega)
      exact hsuffix.eq_of_length (by dsimp only at hbehind ⊢; omega)
    exact ⟨_, last', .next hblanks hnone' htoken' hlexes, .next ⟨rfl, rfl, hline⟩ hsame, hlast⟩

/-- If a source has tokens, then the source that it is respaced to has the same ones, at other
    places. -/
theorem tokenize_respaced {source : String} {l : TokenList} (h : tokenize source = .ok l) :
    Cuts (glyphs source).2 (glyphs source).1 (cutOf source) l.tokens l.stop ∧
      ∃ l', tokenize (respaced source) = .ok l' ∧ Along Token.Same [] l.tokens l'.tokens ∧
        l.stop.Same l'.stop := by
  obtain ⟨ts, hts, hcuts⟩ := cuts_of_tokensFrom (Nat.le_refl _) h
  obtain rfl : l.tokens = ts := hts
  have hchars : (glyphs (respaced source)).1.map Glyph.char = (cutOf source).respaced := by
    rw [glyphs_chars, respaced, String.toList_ofList]
  obtain ⟨ts', last', hlexes, hsame, hlast⟩ := hcuts.lexes hchars
  exact ⟨hcuts, ⟨ts', last'⟩, hlexes.tokensFrom_eq (Nat.le_refl _), hsame, hlast⟩

end MemoryShell.Script
