/-
  MemoryShell/Proofs/Syntax/Substitution.lean
  ===========================================
  **What a template says that holds nothing but a substitution.**

  The end of a substitution is looked for twice: by the lexer, which has to find the mark behind the
  template, and by whoever cuts the template into parts.  Both count braces as they stand in the
  text, also in strings and in templates inside.  So an expression may be read well on its own and
  not in a template.
-/
import MemoryShell.Proofs.Syntax.Fragments

namespace MemoryShell.Script

open Parse

variable {c : Cursor}

/-! ### The end of a substitution -/

/-- The template that holds nothing but a substitution. -/
def substitution (e : String) : String := "\x60$\x7b" ++ e ++ "\x7d\x60"

/-- The lexer takes a template that holds nothing but a substitution for one token. -/
def LexerEnds (e : String) : Prop :=
  token (glyphs (substitution e)).2 (glyphs (substitution e)).1 =
    .ok (.template, '$' :: '\x7b' :: (e.toList ++ ['\x7d']), [])

/-- The brace that closes a substitution is found behind its source. -/
def CutterEnds (e : String) : Prop :=
  matchBrace 0 [] (e.toList ++ ['\x7d']) = some (e.toList, [])

theorem substitution_toList (e : String) :
    (substitution e).toList = '\x60' :: '$' :: '\x7b' :: (e.toList ++ ['\x7d', '\x60']) := by
  rw [substitution, String.toList_append, String.toList_append]
  rfl

theorem templatePartsFrom_substitution (f : List Char → Except SyntaxError Expr) (p : Position)
    (fuel : Nat) (inner : List Char) :
    templatePartsFrom f p (fuel + 1) [] ('$' :: '\x7b' :: inner) =
      match matchBrace 0 [] inner with
      | none => .error ⟨.unterminatedTemplate, p⟩
      | some (source, rest) => do
        let e ← f source
        let parts ← templatePartsFrom f p fuel [] rest
        return .expr e :: parts := rfl

/-- What is cut at a brace was around it. -/
theorem matchBrace_text {n : Nat} {acc cs source rest : List Char}
    (h : matchBrace n acc cs = some (source, rest)) :
    acc.reverse ++ cs = source ++ '\x7d' :: rest := by
  induction cs generalizing n acc with
  | nil => cases h
  | cons c cs ih =>
    have hmore : ∀ {m : Nat}, matchBrace m (c :: acc) cs = some (source, rest) →
        acc.reverse ++ c :: cs = source ++ '\x7d' :: rest := by
      intro m hm
      rw [← ih hm, List.reverse_cons, List.append_assoc]
      rfl
    unfold matchBrace at h
    split at h
    · exact hmore h
    split at h
    · rename_i hbrace
      subst hbrace
      cases n with
      | zero => cases h; rfl
      | succ n => exact hmore h
    · exact hmore h

/-! ### A template at the beginning of a source -/

section Template

variable {source : String} {g : Glyph} {gs rest : List Glyph} {stop : Position} {text : List Char}
  {l : TokenList}

/-- The first token of a source that begins with a template. -/
def templateToken (text : List Char) (position : Position) : Token :=
  ⟨.template, String.ofList text, position, false⟩

theorem blanks_mark (hg : g.char = '\x60') : blanks (g :: gs) = ([], g :: gs) := by
  rw [blanks_cons, hg]
  rfl

theorem opensComment_mark (hg : g.char = '\x60') : opensComment (g :: gs) = false := by
  rw [opensComment, hg]
  rfl

theorem tokensFrom_template {fuel : Nat} (hg : g.char = '\x60')
    (htoken : token stop (g :: gs) = .ok (.template, text, rest)) :
    tokensFrom stop (fuel + 1) [] (g :: gs) =
      tokensFrom stop fuel [templateToken text g.position] rest := by
  have hrest : (blanks (g :: gs)).2 = g :: gs := by rw [blanks_mark hg]
  rw [tokensFrom_next hrest (opensComment_mark hg) htoken, blanks_mark hg]
  rfl

theorem tokenize_template (hglyphs : glyphs source = (g :: gs, stop)) (hg : g.char = '\x60')
    (h : tokenize source = .ok l) :
    ∃ raw rest ts, templateFrom stop 0 [] gs = .ok (raw, rest) ∧
      l.tokens = templateToken raw g.position :: ts := by
  unfold tokenize at h
  rw [hglyphs] at h
  change tokensFrom stop (gs.length + 1) [] (g :: gs) = .ok l at h
  have htoken := token_template hg stop gs
  cases hread : templateFrom stop 0 [] gs with
  | error err =>
    rw [hread] at htoken
    have hrest : (blanks (g :: gs)).2 = g :: gs := by rw [blanks_mark hg]
    obtain ⟨kind, text, rest, read, fuel, htoken', -⟩ :=
      tokensFrom_ok hrest (opensComment_mark hg) (Nat.le_refl _) h
    rw [htoken] at htoken'
    cases htoken'
  | ok r =>
    obtain ⟨raw, rest⟩ := r
    rw [hread] at htoken
    rw [tokensFrom_template hg htoken] at h
    obtain ⟨ts, hts, -⟩ := tokensFrom_closed h
    exact ⟨raw, rest, ts, rfl, hts⟩

theorem BeginsPrimary.of_template {p : Position} {ts : List Token} (h : tokenize source = .ok l)
    (hl : l.tokens = templateToken text p :: ts) : BeginsPrimary source l := by
  have hkind : (Cursor.start l).current.kind = .template := by
    change (l.tokens.head?.getD l.stop).kind = _
    rw [hl]
    rfl
  refine ⟨h, ?_, .inl hkind, .of_kind hkind (.inl rfl) nofun nofun⟩
  rw [hl]
  nofun

/-- A source that begins with a template is read only if the template can be cut. -/
theorem templateParts_of_parse {p : Position} {ts : List Token} {program : Program}
    (htokens : tokenize source = .ok l) (hl : l.tokens = templateToken text p :: ts)
    (h : parse source = .ok program) :
    ∃ parts, templateParts (fragmentOf source.length) (templateToken text p) = .ok parts := by
  obtain ⟨tokens, last⟩ := l
  obtain rfl : tokens = templateToken text p :: ts := hl
  cases hparts : templateParts (fragmentOf source.length) (templateToken text p) with
  | ok parts => exact ⟨parts, rfl⟩
  | error err =>
    have hprimary := Grammar.primary_template (r := primaryReaders source)
      (c := { Cursor.start ⟨templateToken text p :: ts, last⟩ with depth := 3 }) rfl
    have hfails := hprimary.trans (congrArg _ hparts)
    obtain ⟨err', herr⟩ := parse_error_of_primary (.of_template htokens rfl) fun r hr => by
      cases hfails.symm.trans hr
    rw [h] at herr
    cases herr

end Template

/-! ### Where the template is read -/

/-- The text of a template that holds nothing but a substitution. -/
def substitutionText (e : String) : List Char := '$' :: '\x7b' :: (e.toList ++ ['\x7d'])

theorem length_substitution (e : String) : (substitution e).length = e.length + 5 := by
  rw [← String.length_toList, ← String.length_toList, substitution_toList]
  simp only [List.length_cons, List.length_append, List.length_nil]

theorem tokenize_substitution {e : String} (hlexer : LexerEnds e) :
    ∃ p last, tokenize (substitution e) = .ok ⟨[templateToken (substitutionText e) p], last⟩ ∧
      last.kind = .stop := by
  have hchars := glyphs_chars (substitution e)
  rw [substitution_toList] at hchars
  unfold LexerEnds at hlexer
  unfold tokenize
  generalize glyphs (substitution e) = r at hchars hlexer ⊢
  obtain ⟨gs, stop⟩ := r
  obtain ⟨g, gs, rfl, hg, -⟩ := List.map_eq_cons_iff.mp hchars
  exact ⟨g.position, _, (tokensFrom_template hg hlexer).trans (tokensFrom_done rfl), rfl⟩

/-- A template that holds nothing but a substitution is cut into what is read of its source. -/
theorem templateParts_substitution {e : String} (hcutter : CutterEnds e)
    (f : List Char → Except SyntaxError Expr) (p : Position) :
    templateParts f (templateToken (substitutionText e) p) =
      (f e.toList).map fun E => [.expr E] := by
  unfold CutterEnds at hcutter
  unfold templateParts templateToken substitutionText
  dsimp only
  rw [String.toList_ofList, List.length_cons, templatePartsFrom_substitution, hcutter]
  dsimp only
  cases f e.toList <;> rfl

/-- Where both ends are found behind the source of a substitution, the template is read as it. -/
theorem parse_substitution {e : String} {E : Expr} (hE : fragmentOf (e.length + 1) e.toList = .ok E)
    (hlexer : LexerEnds e) (hcutter : CutterEnds e) :
    parse (substitution e) = .ok ⟨[.expr (.template [.expr E])]⟩ := by
  have hsize : e.length + 1 ≤ (substitution e).length := by
    rw [length_substitution]
    omega
  obtain ⟨p, last, htokens, hlast⟩ := tokenize_substitution hlexer
  have hparts : templateParts (fragmentOf (substitution e).length)
      (templateToken (substitutionText e) p) = .ok [.expr E] := by
    rw [templateParts_substitution hcutter, fragmentOf_mono hsize hE]
    rfl
  have hprimary := Grammar.primary_template (r := primaryReaders (substitution e))
    (c := { Cursor.start ⟨[templateToken (substitutionText e) p], last⟩ with depth := 3 }) rfl
  exact parse_of_primary (.of_template htokens rfl) (hprimary.trans (congrArg _ hparts)) hlast

/-! ### Where it is not -/

/-- A text that goes on with a brace and a mark, cut at a brace: at that one, or before it. -/
theorem append_brace_cases {source cs Q : List Char}
    (h : source ++ '\x7d' :: Q = cs ++ ['\x7d', '\x60']) :
    (source = cs ∧ Q = ['\x60']) ∨ ∃ U, cs = source ++ '\x7d' :: U := by
  rcases List.append_eq_append_iff.mp h with ⟨more, rfl, hmore⟩ | ⟨more, rfl, hmore⟩
  · cases more with
    | nil =>
      cases hmore
      exact .inl ⟨(List.append_nil _).symm, rfl⟩
    | cons c more =>
      cases hmore
      exact .inr ⟨more, rfl⟩
  · cases more with
    | nil =>
      cases hmore
      exact .inl ⟨List.append_nil _, rfl⟩
    | cons c more =>
      -- the brace would stand where the mark does, or behind it
      obtain ⟨-, hmore⟩ := List.cons.inj hmore
      cases more with
      | nil => cases hmore
      | cons c more =>
        obtain ⟨-, hmore⟩ := List.cons.inj hmore
        cases more <;> cases hmore

/-- If no text before a brace inside is the source of a substitution, a template that begins with
    one can only be cut behind the last brace. -/
theorem ends_of_parts {f : List Char → Except SyntaxError Expr} {p : Position}
    {raw cs R : List Char} (htext : raw ++ '\x60' :: R = '$' :: '\x7b' :: (cs ++ ['\x7d', '\x60']))
    {parts : List TemplatePart} (hparts : templatePartsFrom f p raw.length [] raw = .ok parts)
    (hf : ∀ source rest, cs = source ++ '\x7d' :: rest → ∀ E, f source ≠ .ok E) :
    raw = '$' :: '\x7b' :: (cs ++ ['\x7d']) ∧ R = [] ∧
      matchBrace 0 [] (cs ++ ['\x7d']) = some (cs, []) := by
  obtain _ | ⟨c, _ | ⟨c', raw⟩⟩ := raw
  · cases htext
  · cases htext
  rw [List.cons_append, List.cons_append, List.cons.injEq, List.cons.injEq] at htext
  obtain ⟨rfl, rfl, htext⟩ := htext
  rw [List.length_cons, templatePartsFrom_substitution] at hparts
  cases hmatch : matchBrace 0 [] raw with
  | none =>
    rw [hmatch] at hparts
    cases hparts
  | some cut =>
    obtain ⟨source, rest⟩ := cut
    obtain rfl : raw = source ++ '\x7d' :: rest := matchBrace_text hmatch
    rw [hmatch] at hparts
    rw [List.append_assoc] at htext
    rcases append_brace_cases htext with ⟨rfl, hrest⟩ | ⟨U, hcs⟩
    · obtain _ | ⟨c, rest⟩ := rest
      · obtain rfl : R = [] := by cases hrest; rfl
        exact ⟨rfl, rfl, hmatch⟩
      · cases rest <;> cases hrest
    · cases hsource : f source with
      | error err =>
        dsimp only at hparts
        rw [hsource] at hparts
        cases hparts
      | ok E => exact absurd hsource (hf source U hcs E)

/-- A template is only read if both ends are found behind the source of its substitution. -/
theorem ends_of_parse {e : String} (hfree : CommentFree e) (hsource : IsExpression e) {p : Program}
    (h : parse (substitution e) = .ok p) : LexerEnds e ∧ CutterEnds e := by
  have hchars := glyphs_chars (substitution e)
  rw [substitution_toList] at hchars
  obtain ⟨l, htokens, -⟩ := except_bind_eq_ok.mp h
  unfold LexerEnds
  cases hglyphs : glyphs (substitution e) with
  | mk gs stop =>
    rw [hglyphs] at hchars
    obtain ⟨g, gs, rfl, hg, hinside⟩ := List.map_eq_cons_iff.mp hchars
    obtain ⟨raw, rest, ts, hread, hl⟩ := tokenize_template hglyphs hg htokens
    obtain ⟨parts, hparts⟩ := templateParts_of_parse htokens hl h
    have htoken := token_template hg stop gs
    rw [hread] at htoken
    obtain ⟨inside, mark, rfl, hmark, hraw⟩ := templateFrom_endsAtMark hread
    rw [List.map_append, List.map_cons, hmark] at hinside
    rw [List.reverse_nil, List.nil_append] at hraw
    rw [← hraw] at hinside
    unfold templateParts templateToken at hparts
    dsimp only at hparts
    rw [String.toList_ofList] at hparts
    obtain ⟨rfl, hR, hcut⟩ := ends_of_parts hinside hparts fun source rest he E =>
      not_isExpression_of_brace hfree hsource he
    obtain rfl := List.map_eq_nil_iff.mp hR
    exact ⟨htoken, hcut⟩

/-! ### Braces -/

/-- How many braces are open behind a text of which some were open before it, if none is closed
    that was not opened. -/
def braces : Nat → List Char → Option Nat
  | n, [] => some n
  | n, c :: cs =>
    if c = '\x7b' then braces (n + 1) cs
    else if c = '\x7d' then
      match n with
      | 0 => none
      | n + 1 => braces n cs
    else braces n cs

/-- Every brace of a text has its match, wherever it stands. -/
def Balanced (text : String) : Prop := braces 0 text.toList = some 0

instance (text : String) : Decidable (Balanced text) := inferInstanceAs (Decidable (_ = some 0))

section Braces

variable {n m : Nat} {acc cs rest : List Char}

theorem matchBrace_cons {c : Char} :
    matchBrace n acc (c :: cs) =
      if c = '\x7b' then matchBrace (n + 1) (c :: acc) cs
      else if c = '\x7d' then
        match n with
        | 0 => some (acc.reverse, cs)
        | n + 1 => matchBrace n (c :: acc) cs
      else matchBrace n (c :: acc) cs := matchBrace.eq_def _ _ _

theorem matchBrace_append (h : braces n cs = some m) :
    matchBrace n acc (cs ++ rest) = matchBrace m (cs.reverse ++ acc) rest := by
  induction cs generalizing n acc with
  | nil =>
    cases h
    rfl
  | cons c cs ih =>
    unfold braces at h
    rw [List.cons_append, List.reverse_cons, List.append_assoc, matchBrace_cons]
    split at h
    · rw [if_pos ‹_›]
      exact ih h
    rw [if_neg ‹_›]
    split at h
    · rw [if_pos ‹_›]
      cases n with
      | zero => cases h
      | succ n => exact ih h
    · rw [if_neg ‹_›]
      exact ih h

/-- A brace that is closed too much ends the cut inside the text. -/
theorem matchBrace_of_none (acc rest : List Char) (h : braces n cs = none) :
    ∃ source more, matchBrace n acc (cs ++ rest) = some (source, more ++ rest) := by
  induction cs generalizing n acc with
  | nil => cases h
  | cons c cs ih =>
    unfold braces at h
    rw [List.cons_append, matchBrace_cons]
    split at h
    · rw [if_pos ‹_›]
      exact ih _ h
    rw [if_neg ‹_›]
    split at h
    · rw [if_pos ‹_›]
      cases n with
      | zero => exact ⟨_, cs, rfl⟩
      | succ n => exact ih _ h
    · rw [if_neg ‹_›]
      exact ih _ h

theorem cutterEnds_iff {e : String} : CutterEnds e ↔ Balanced e := by
  unfold CutterEnds Balanced
  cases h : braces 0 e.toList with
  | none =>
    obtain ⟨source, more, hmatch⟩ := matchBrace_of_none [] ['\x7d'] h
    rw [hmatch]
    constructor
    · intro heq
      cases more <;> cases heq
    · nofun
  | some n =>
    rw [matchBrace_append h]
    cases n with
    | zero =>
      rw [List.append_nil]
      exact ⟨fun _ => rfl, fun _ => congrArg (fun cs => some (cs, [])) (List.reverse_reverse _)⟩
    | succ n => exact ⟨nofun, nofun⟩

section Inside

variable {stop : Position} {depth : Nat} {g : Glyph} {gs : List Glyph}

theorem templateFrom_plain_inside (hescape : g.char ≠ '\\') (hdollar : g.char ≠ '$') :
    templateFrom stop (depth + 1) acc (g :: gs) =
      if g.char = '\x7b' then templateFrom stop (depth + 2) (g.char :: acc) gs
      else if g.char = '\x7d' then templateFrom stop depth (g.char :: acc) gs
      else templateFrom stop (depth + 1) (g.char :: acc) gs := by
  rw [templateFrom_plain hescape hdollar]
  simp

/-- Inside a substitution, a character that is no backslash counts by what it is alone. -/
theorem templateFrom_inside (hescape : g.char ≠ '\\') (hgs : gs ≠ []) :
    templateFrom stop (depth + 1) acc (g :: gs) =
      if g.char = '\x7b' then templateFrom stop (depth + 2) (g.char :: acc) gs
      else if g.char = '\x7d' then templateFrom stop depth (g.char :: acc) gs
      else templateFrom stop (depth + 1) (g.char :: acc) gs := by
  obtain ⟨b, gs, rfl⟩ := List.exists_cons_of_ne_nil hgs
  by_cases hdollar : g.char = '$'
  · rw [hdollar, if_neg (by decide), if_neg (by decide)]
    by_cases hbrace : b.char = '\x7b'
    · have hplain : b.char ≠ '\\' ∧ b.char ≠ '$' := by rw [hbrace]; decide
      rw [templateFrom_open hdollar hbrace, templateFrom_plain_inside hplain.1 hplain.2,
        if_pos hbrace, hbrace]
    · exact templateFrom_dollar hdollar hbrace
  · exact templateFrom_plain_inside hescape hdollar

end Inside

theorem templateFrom_append {stop : Position} {front gs : List Glyph} {x : Glyph}
    (hescape : '\\' ∉ front.map Glyph.char) (h : braces n (front.map Glyph.char) = some m) :
    templateFrom stop (n + 1) acc (front ++ x :: gs) =
      templateFrom stop (m + 1) ((front.map Glyph.char).reverse ++ acc) (x :: gs) := by
  induction front generalizing n acc with
  | nil =>
    cases h
    rfl
  | cons g front ih =>
    rw [List.map_cons, List.mem_cons, not_or] at hescape
    have hne : front ++ x :: gs ≠ [] := by simp
    rw [List.map_cons] at h ⊢
    unfold braces at h
    rw [List.cons_append, List.reverse_cons, List.append_assoc,
      templateFrom_inside (Ne.symm hescape.1) hne]
    split at h
    · rw [if_pos ‹_›]
      exact ih hescape.2 h
    rw [if_neg ‹_›]
    split at h
    · rw [if_pos ‹_›]
      cases n with
      | zero => cases h
      | succ n => exact ih hescape.2 h
    · rw [if_neg ‹_›]
      exact ih hescape.2 h

theorem lexerEnds_of_balanced {e : String} (hescape : '\\' ∉ e.toList) (h : Balanced e) :
    LexerEnds e := by
  have hchars := glyphs_chars (substitution e)
  rw [substitution_toList] at hchars
  unfold LexerEnds
  generalize glyphs (substitution e) = r at hchars ⊢
  obtain ⟨gs, stop⟩ := r
  obtain ⟨g, gs, rfl, hg, hchars⟩ := List.map_eq_cons_iff.mp hchars
  obtain ⟨dollar, gs, rfl, hdollar, hchars⟩ := List.map_eq_cons_iff.mp hchars
  obtain ⟨brace, gs, rfl, hbrace, hchars⟩ := List.map_eq_cons_iff.mp hchars
  obtain ⟨front, back, rfl, hfront, hback⟩ := List.map_eq_append_iff.mp hchars
  obtain ⟨x, back, rfl, hx, hback⟩ := List.map_eq_cons_iff.mp hback
  obtain ⟨mark, back, rfl, hmark, hback⟩ := List.map_eq_cons_iff.mp hback
  obtain rfl := List.map_eq_nil_iff.mp hback
  rw [← hfront] at hescape
  unfold Balanced at h
  rw [← hfront] at h
  have hmarked : ∀ acc, templateFrom stop 0 acc [mark] = .ok (acc.reverse, []) := by
    intro acc
    rw [templateFrom_plain (by rw [hmark]; decide) (by rw [hmark]; decide), hmark]
    rfl
  dsimp only
  rw [token_template hg, templateFrom_open hdollar hbrace, templateFrom_append hescape h,
    templateFrom_inside (by rw [hx]; decide) (List.cons_ne_nil mark []), hx, if_neg (by decide),
    if_pos rfl, hmarked, ← hfront]
  simp [Except.map]

end Braces

/-! ### Substitutions -/

/-- **A substitution means what its expression means exactly where both of its ends are found behind
    it; elsewhere the template is no source at all.**  For an expression without a backslash this is
    so exactly if every brace in it, in its strings too, has its match. -/
theorem parse_substitution_iff {e : String} {E : Expr} (hfree : CommentFree e)
    (hsource : IsExpression e) (hparen : parse ("(" ++ e ++ ")") = .ok ⟨[.expr E]⟩) :
    (parse (substitution e) = .ok ⟨[.expr (.template [.expr E])]⟩ ↔ LexerEnds e ∧ CutterEnds e) ∧
      (¬ (LexerEnds e ∧ CutterEnds e) → ∃ err, parse (substitution e) = .error err) ∧
      ('\\' ∉ e.toList → (LexerEnds e ∧ CutterEnds e ↔ Balanced e)) := by
  have hends : ∀ p, parse (substitution e) = .ok p → LexerEnds e ∧ CutterEnds e :=
    fun p hp => ends_of_parse hfree hsource hp
  refine ⟨⟨hends _, ?_⟩, ?_, ?_⟩
  · rintro ⟨hlexer, hcutter⟩
    obtain ⟨E', hE'⟩ := hsource
    rw [eq_of_parenthesized hfree hE' hparen]
    exact parse_substitution hE' hlexer hcutter
  · intro hnot
    cases hparse : parse (substitution e) with
    | error err => exact ⟨err, rfl⟩
    | ok p => exact absurd (hends p hparse) hnot
  · intro hescape
    rw [cutterEnds_iff]
    exact ⟨And.right, fun h => ⟨lexerEnds_of_balanced hescape h, h⟩⟩

section Examples

theorem tokenize_of_toOption {source : String} {l : TokenList}
    (h : (tokenize source).toOption = some l) : tokenize source = .ok l := by
  cases htokens : tokenize source with
  | error err =>
    rw [htokens] at h
    cases h
  | ok l' =>
    rw [htokens] at h
    exact congrArg Except.ok (Option.some.inj h)

/-- A template with two braces in its text. -/
def bracedTemplate : String := "\x60\x7b\x7d\x60"

/-- A template inside a template is read as on its own, its braces matching each other. -/
theorem parse_substitution_bracedTemplate :
    CommentFree bracedTemplate ∧ IsExpression bracedTemplate ∧
      parse ("(" ++ bracedTemplate ++ ")") = .ok ⟨[.expr (.template [.literal "\x7b\x7d"])]⟩ ∧
      parse (substitution bracedTemplate) =
        .ok ⟨[.expr (.template [.expr (.template [.literal "\x7b\x7d"])])]⟩ := by
  have hfree : CommentFree bracedTemplate := by decide +kernel
  have htokens : tokenize bracedTemplate =
      .ok ⟨[⟨.template, "\x7b\x7d", ⟨1, 1⟩, false⟩], ⟨.stop, "", ⟨1, 5⟩, false⟩⟩ :=
    tokenize_of_toOption (by decide +kernel)
  have hsource : IsExpression bracedTemplate := .of_tokens htokens rfl rfl
  have htokens' : tokenize ("(" ++ bracedTemplate ++ ")") =
      .ok ⟨[⟨.symbol .leftParen, "(", ⟨1, 1⟩, false⟩, ⟨.template, "\x7b\x7d", ⟨1, 2⟩, false⟩,
        ⟨.symbol .rightParen, ")", ⟨1, 6⟩, false⟩], ⟨.stop, "", ⟨1, 7⟩, false⟩⟩ :=
    tokenize_of_toOption (by decide +kernel)
  have hbegins : BeginsPrimary ("(" ++ bracedTemplate ++ ")") _ :=
    ⟨htokens', nofun, .inr rfl, .of_kind rfl (.inr (.inr (.inr rfl))) nofun fun _ => rfl⟩
  have hparen := parse_of_inside hbegins rfl rfl rfl rfl rfl
  obtain ⟨hiff, -, hbalanced⟩ := parse_substitution_iff hfree hsource hparen
  exact ⟨hfree, hsource, hparen, hiff.mpr ((hbalanced (by decide)).mpr (by decide))⟩

/-- A string that holds a closing brace. -/
def quotedBrace : String := "\x27\x7d\x27"

/-- A string with a closing brace in it is an expression on its own, but no template can hold it. -/
theorem not_parse_substitution_quotedBrace :
    CommentFree quotedBrace ∧ IsExpression quotedBrace ∧
      parse ("(" ++ quotedBrace ++ ")") = .ok ⟨[.expr (.string "\x7d")]⟩ ∧
      parse (substitution quotedBrace) ≠
        .ok ⟨[.expr (.template [.expr (.string "\x7d")])]⟩ := by
  have hfree : CommentFree quotedBrace := by decide +kernel
  have htokens : tokenize quotedBrace =
      .ok ⟨[⟨.string, "\x7d", ⟨1, 1⟩, false⟩], ⟨.stop, "", ⟨1, 4⟩, false⟩⟩ :=
    tokenize_of_toOption (by decide +kernel)
  have hsource : IsExpression quotedBrace := .of_tokens htokens rfl rfl
  have htokens' : tokenize ("(" ++ quotedBrace ++ ")") =
      .ok ⟨[⟨.symbol .leftParen, "(", ⟨1, 1⟩, false⟩, ⟨.string, "\x7d", ⟨1, 2⟩, false⟩,
        ⟨.symbol .rightParen, ")", ⟨1, 5⟩, false⟩], ⟨.stop, "", ⟨1, 6⟩, false⟩⟩ :=
    tokenize_of_toOption (by decide +kernel)
  have hbegins : BeginsPrimary ("(" ++ quotedBrace ++ ")") _ :=
    ⟨htokens', nofun, .inr rfl, .of_kind rfl (.inr (.inr (.inr rfl))) nofun fun _ => rfl⟩
  refine ⟨hfree, hsource, parse_of_inside hbegins rfl rfl rfl rfl rfl, fun h => ?_⟩
  have hbalanced : Balanced quotedBrace := cutterEnds_iff.mp (ends_of_parse hfree hsource h).2
  exact absurd hbalanced (by decide)

end Examples

end MemoryShell.Script
