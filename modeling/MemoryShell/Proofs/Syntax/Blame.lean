/-
  MemoryShell/Proofs/Syntax/Blame.lean
  ====================================
  **Where an unexpected token is reported.**

  The source of a substitution is read as if it stood alone, so its tokens know their places in it
  and not in the source around it.  A token that was not expected is reported where it stands in its
  own source.  That is where it stands in the whole one if there is no template around it; else it
  is so only by luck, if no line ends before the substitution and one ends in it before the token.
-/
import MemoryShell.Proofs.Syntax.Contracts
import MemoryShell.Proofs.Syntax.Extents

namespace MemoryShell.Script

variable {stop : Position} {gs : List Glyph} {α β : Type}

/-! ### The errors of the lexer -/

/-- What does not fail over a token that was not expected. -/
def ExpectsNothing (x : Except SyntaxError α) : Prop :=
  ∀ e text, x = .error e → e.cause ≠ .unexpectedToken text

namespace ExpectsNothing

theorem ok (a : α) : ExpectsNothing (.ok a) := nofun

theorem error {e : SyntaxError} (h : ∀ text, e.cause ≠ .unexpectedToken text) :
    ExpectsNothing (.error e : Except SyntaxError α) := by
  rintro _ text ⟨⟩
  exact h text

theorem bind {x : Except SyntaxError α} {g : α → Except SyntaxError β} (h : ExpectsNothing x)
    (hg : ∀ a, ExpectsNothing (g a)) : ExpectsNothing (x >>= g) := by
  intro e text hbind
  rcases except_bind_eq_error.mp hbind with herror | ⟨a, -, herror⟩
  · exact h e text herror
  · exact hg a e text herror

theorem skipGap (gap : Gap) (newline : Bool) (gs : List Glyph) :
    ExpectsNothing (skipGap stop gap newline gs) := by
  fun_induction Script.skipGap stop gap newline gs
  all_goals first
    | assumption
    | exact error nofun
    | exact ok _

theorem number (gs : List Glyph) : ExpectsNothing (number stop gs) := by
  have hhex (gs : List Glyph) : ExpectsNothing (hexLiteral stop gs) := by
    unfold hexLiteral
    dsimp only
    split
    · exact error nofun
    · exact ok _
  unfold Script.number
  split
  · split
    · exact hhex _
    · exact ok _
  · exact ok _

theorem fixedEscape (cause : SyntaxCause) (hcause : ∀ text, cause ≠ .unexpectedToken text)
    (count : Nat) (gs : List Glyph) : ExpectsNothing (fixedEscape stop count cause gs) := by
  unfold Script.fixedEscape
  dsimp only
  split
  · exact ok _
  · exact error hcause

theorem bracedEscape (gs : List Glyph) : ExpectsNothing (bracedEscape stop gs) := by
  unfold Script.bracedEscape
  dsimp only
  split
  · exact ok _
  · exact error nofun

theorem escape (gs : List Glyph) : ExpectsNothing (escape stop gs) := by
  unfold Script.escape
  split
  · exact error nofun
  · split
    case h_8 => exact fixedEscape .invalidHexEscape nofun 2 _
    case h_9 =>
      split
      · split
        · exact bracedEscape _
        · exact fixedEscape .invalidUnicodeEscape nofun 4 _
      · exact fixedEscape .invalidUnicodeEscape nofun 4 _
    case h_11 => exact error nofun
    all_goals exact ok _

theorem stringFrom (quote : Char) (fuel : Nat) (acc : List Char) (gs : List Glyph) :
    ExpectsNothing (stringFrom stop quote fuel acc gs) := by
  fun_induction Script.stringFrom stop quote fuel acc gs with
  | case1 | case2 | case3 => exact error nofun
  | case4 => exact ok _
  | case5 _ _ _ _ _ _ _ ih => exact (escape _).bind fun r => ih r.1 r.2
  | case6 _ _ _ _ _ _ _ ih => exact ih

theorem templateFrom (depth : Nat) (acc : List Char) (gs : List Glyph) :
    ExpectsNothing (templateFrom stop depth acc gs) := by
  fun_induction Script.templateFrom stop depth acc gs
  all_goals first
    | assumption
    | exact error nofun
    | exact ok _

theorem token (gs : List Glyph) : ExpectsNothing (token stop gs) := by
  unfold Script.token
  split
  · exact ok _
  · split
    · exact (number _).bind fun _ => ok _
    split
    · exact (stringFrom _ _ _ _).bind fun _ => ok _
    split
    · exact (templateFrom _ _ _).bind fun _ => ok _
    split
    · dsimp only
      split <;> exact ok _
    · split
      · exact ok _
      · exact error nofun

theorem nextToken (gs : List Glyph) : ExpectsNothing (nextToken stop gs) :=
  (skipGap _ _ _).bind fun _ => (token _).bind fun _ => ok _

theorem tokensFrom (fuel : Nat) (done : List Token) (gs : List Glyph) :
    ExpectsNothing (tokensFrom stop fuel done gs) := by
  induction fuel generalizing done gs with
  | zero =>
    refine (nextToken gs).bind fun r => ?_
    dsimp only
    split <;> exact ok _
  | succ fuel ih =>
    refine (nextToken gs).bind fun r => ?_
    dsimp only
    split
    · exact ok _
    · exact ih _ _

theorem tokenize (source : String) : ExpectsNothing (tokenize source) := tokensFrom _ _ _

end ExpectsNothing

/-! ### Quoted sources -/

/-- What stands before the text of a template, up to what is substituted in it. -/
def beforeSubstitution (before head : List Char) : List Char :=
  before ++ '\x60' :: (head ++ ['$', '\x7b'])

/-- What stands behind it. -/
def behindSubstitution (tail after : List Char) : List Char :=
  '\x7d' :: (tail ++ '\x60' :: after)

/-- The sources that are read while a source is read, with what stands before them in it: the source
    itself, and what is substituted in a template of one of them. -/
inductive Quotes (source : List Char) : List Char → List Char → Prop where
  | whole : Quotes source [] source
  | inside {front inner before after head tail substituted : List Char} {l : TokenList}
      {t : Token} :
    Quotes source front inner → tokenize (String.ofList inner) = .ok l → t ∈ l.tokens →
    t.kind = .template → t.position = placeAt before →
    t.text.toList = head ++ '$' :: '\x7b' :: (substituted ++ '\x7d' :: tail) →
    inner = beforeSubstitution before head ++ substituted ++ behindSubstitution tail after →
    Quotes source (front ++ beforeSubstitution before head) substituted

/-- They stand in the source behind what stands before them. -/
theorem Quotes.stands {source front inner : List Char} (h : Quotes source front inner) :
    ∃ back, source = front ++ inner ++ back := by
  induction h with
  | whole => exact ⟨[], (List.append_nil source).symm⟩
  | @inside front inner before after head tail substituted l t _ _ _ _ _ _ hinner ih =>
    obtain ⟨back, hsource⟩ := ih
    refine ⟨behindSubstitution tail after ++ back, ?_⟩
    rw [hsource, hinner]
    simp only [List.append_assoc]

/-- A template stands where it says, between its marks. -/
theorem Cuts.template_stands {cut : Cut} {ts : List Token} {last t : Token}
    (h : Cuts stop gs cut ts last) {before : List Char} (hplaced : Placed stop before gs)
    (ht : t ∈ ts) (hkind : t.kind = .template) :
    ∃ front after, gs.map Glyph.char = front ++ '\x60' :: (t.text.toList ++ '\x60' :: after) ∧
      t.position = placeAt (before ++ front) := by
  induction h generalizing before with
  | done => cases ht
  | @next run lexeme rest g kind text cut ts last _ htoken _ ih =>
    have hfront := hplaced.behind
    obtain rfl | ht := List.mem_cons.mp ht
    · cases hkind
      obtain ⟨hmark, inside, mark, hlexeme, hmark', htext⟩ := template_endsAtMark htoken
      refine ⟨run.map Glyph.char, rest.map Glyph.char, ?_, hfront.here⟩
      dsimp only at hlexeme htext
      rw [hlexeme, String.toList_ofList, htext]
      simp only [List.map_append, List.map_cons, hmark, hmark', List.reverse_nil, List.nil_append]
    · rw [show g :: (lexeme ++ rest) = (g :: lexeme) ++ rest from rfl] at hfront ⊢
      obtain ⟨front, after, hchars, hposition⟩ := ih hfront.behind ht
      refine ⟨run.map Glyph.char ++ (g :: lexeme).map Glyph.char ++ front, after, ?_, ?_⟩
      · rw [List.map_append, List.map_append, hchars]
        simp only [List.append_assoc]
      · rw [hposition]
        simp only [List.append_assoc]

/-- So what is substituted in a template of a source that is read is read as well. -/
theorem Quotes.substituted {source front inner substituted : List Char} {l : TokenList} {t : Token}
    (h : Quotes source front inner) (htokens : tokenize (String.ofList inner) = .ok l)
    (ht : t ∈ l.tokens) (hkind : t.kind = .template)
    (hsubstituted : Substitutes t.text.toList substituted) :
    ∃ front', Quotes source front' substituted := by
  obtain ⟨head, tail, htext⟩ := hsubstituted
  obtain ⟨before, after, hchars, hposition⟩ :=
    (tokenize_respaced htokens).1.template_stands (glyphs_placed _) ht hkind
  rw [glyphs_chars, String.toList_ofList] at hchars
  have hinner : inner =
      beforeSubstitution before head ++ substituted ++ behindSubstitution tail after := by
    rw [hchars, htext, beforeSubstitution, behindSubstitution]
    simp only [List.append_assoc, List.cons_append, List.nil_append]
  exact ⟨_, .inside h htokens ht hkind hposition htext hinner⟩

/-! ### Places in quoted sources -/

/-- A text stands in a source at a place. -/
def StandsAt (source text : List Char) (p : Position) : Prop :=
  ∃ before after, source = before ++ text ++ after ∧ p = placeAt before

theorem takeWhile_append_of_not_mem {cs : List Char} (h : '\n' ∉ cs) (cs' : List Char) :
    (cs ++ cs').takeWhile (· != '\n') = cs ++ cs'.takeWhile (· != '\n') :=
  List.takeWhile_append_of_pos fun _ hc => bne_iff_ne.mpr fun heq => h (heq ▸ hc)

theorem takeWhile_append_of_mem {cs : List Char} (h : '\n' ∈ cs) (cs' : List Char) :
    (cs ++ cs').takeWhile (· != '\n') = cs.takeWhile (· != '\n') := by
  rw [List.takeWhile_append, if_neg]
  intro hlength
  have hall := List.all_takeWhile (p := (· != '\n')) (l := cs)
  rw [(List.takeWhile_prefix _).eq_of_length hlength, List.all_eq_true] at hall
  exact absurd (hall '\n' h) (by decide)

theorem takeWhile_of_not_mem {cs : List Char} (h : '\n' ∉ cs) :
    cs.takeWhile (· != '\n') = cs := by
  have hwhole := takeWhile_append_of_not_mem h []
  rwa [List.append_nil, List.takeWhile_nil, List.append_nil] at hwhole

/-- What stands further to the front does not count for a place if no line ends there, and one ends
    behind it. -/
theorem placeAt_append_eq_iff {front before : List Char} :
    placeAt (front ++ before) = placeAt before ↔
      front = [] ∨ '\n' ∉ front ∧ '\n' ∈ before := by
  have hlines : (front ++ before).count '\n' + 1 = before.count '\n' + 1 ↔ '\n' ∉ front := by
    rw [List.count_append, ← List.count_eq_zero]
    omega
  unfold placeAt
  rw [Position.mk.injEq, hlines, List.reverse_append]
  by_cases hline : '\n' ∈ before
  · rw [takeWhile_append_of_mem (List.mem_reverse.mpr hline)]
    constructor
    · exact fun h => .inr ⟨h.1, hline⟩
    · rintro (rfl | h)
      · exact ⟨nofun, rfl⟩
      · exact ⟨h.1, rfl⟩
  · have hreverse : '\n' ∉ before.reverse := mt List.mem_reverse.mp hline
    rw [takeWhile_append_of_not_mem hreverse, takeWhile_of_not_mem hreverse, List.length_append]
    constructor
    · rintro ⟨hfront, hcolumn⟩
      rw [takeWhile_of_not_mem (mt List.mem_reverse.mp hfront), List.length_reverse,
        List.length_reverse] at hcolumn
      exact .inl (List.eq_nil_of_length_eq_zero (by omega))
    · rintro (rfl | h)
      · exact ⟨nofun, rfl⟩
      · exact absurd h.2 hline

/-! ### Unexpected tokens -/

/-- A token of a source that is read while another one is read: what stands before this source, the
    source, what stands in it before the token, and the characters of the token. -/
structure QuotedToken (source front inner before lexeme : List Char) (t : Token) : Prop where
  quotes : Quotes source front inner
  token : ∃ l, tokenize (String.ofList inner) = .ok l ∧ t ∈ l.tokens
  stands : ∃ after, inner = before ++ lexeme ++ after ∧ t.Occupies lexeme after
  position : t.position = placeAt before

theorem Quotes.quotedToken {source front inner : List Char} {l : TokenList} {t : Token}
    (h : Quotes source front inner) (htokens : tokenize (String.ofList inner) = .ok l)
    (ht : t ∈ l.tokens) : ∃ before lexeme, QuotedToken source front inner before lexeme t := by
  have hcovers := (tokenize_respaced htokens).1.covers (glyphs_placed _)
  rw [glyphs_chars, String.toList_ofList] at hcovers
  obtain ⟨before, lexeme, after, hinner, hoccupies, hposition⟩ := hcovers.occupied ht
  exact ⟨before, lexeme, h, ⟨l, htokens, ht⟩, ⟨after, hinner, hoccupies⟩, hposition⟩

namespace QuotedToken

variable {source front inner before lexeme : List Char} {t : Token}

/-- Where it stands in the whole source. -/
theorem standsAt (h : QuotedToken source front inner before lexeme t) :
    StandsAt source lexeme (placeAt (front ++ before)) := by
  obtain ⟨back, hsource⟩ := h.quotes.stands
  obtain ⟨after, hinner, -⟩ := h.stands
  refine ⟨front ++ before, after ++ back, ?_, rfl⟩
  rw [hsource, hinner]
  simp only [List.append_assoc]

/-- Whether it says so. -/
theorem position_eq_iff (h : QuotedToken source front inner before lexeme t) :
    t.position = placeAt (front ++ before) ↔ front = [] ∨ '\n' ∉ front ∧ '\n' ∈ before := by
  rw [h.position, eq_comm]
  exact placeAt_append_eq_iff

end QuotedToken

section Errors

variable {source front inner : List Char} {l : TokenList} {text : String} {p : Position}
  {f : List Char → Except SyntaxError Expr}

/-- A token of one of the sources that are read has a text, and says that it stands at a place. -/
def HasToken (source : List Char) (text : String) (p : Position) : Prop :=
  ∃ front inner before lexeme t, QuotedToken source front inner before lexeme t ∧
    t.text = text ∧ t.position = p

theorem hasToken_of_blamed (hquotes : Quotes source front inner)
    (htokens : tokenize (String.ofList inner) = .ok l)
    (hf : ∀ front inner, Quotes source front inner →
      f inner = .error ⟨.unexpectedToken text, p⟩ → HasToken source text p)
    (h : Blamed l f ⟨.unexpectedToken text, p⟩) : HasToken source text p := by
  generalize herr : (⟨.unexpectedToken text, p⟩ : SyntaxError) = e at h
  cases h with
  | @unexpected t ht =>
    cases herr
    obtain ⟨before, lexeme, htoken⟩ := hquotes.quotedToken htokens ht
    exact ⟨front, inner, before, lexeme, t, htoken, rfl, rfl⟩
  | token _ hcause =>
    cases herr
    exact absurd rfl (hcause text)
  | source ht hkind hsubstituted herror =>
    subst herr
    obtain ⟨front', hquotes'⟩ := hquotes.substituted htokens ht hkind hsubstituted
    exact hf front' _ hquotes' herror

theorem hasToken_of_fragmentOf {size : Nat} (hquotes : Quotes source front inner)
    (h : fragmentOf size inner = .error ⟨.unexpectedToken text, p⟩) : HasToken source text p := by
  induction size generalizing front inner with
  | zero => cases h
  | succ size ih =>
    rcases blamed_fragmentOf h with herror | ⟨l, htokens, hblamed⟩
    · exact absurd rfl (ExpectsNothing.tokenize _ _ text herror)
    · exact hasToken_of_blamed hquotes htokens (fun _ _ hquotes h => ih hquotes h) hblamed

end Errors

/-- **An unexpected token is reported where it stands in its own source.**  An error over one is
    about a token of the source or of a substitution in it, has the text of this token, and the
    place of its characters in its own source.  This is the place at which they stand in the whole
    source exactly if there is no template around them, or if no line ends before the substitution
    and one ends in it before them. -/
theorem parse_unexpectedToken {source text : String} {p : Position}
    (h : parse source = .error ⟨.unexpectedToken text, p⟩) :
    ∃ front inner before lexeme t, QuotedToken source.toList front inner before lexeme t ∧
      t.text = text ∧ t.position = p ∧ StandsAt source.toList lexeme (placeAt (front ++ before)) ∧
      (p = placeAt (front ++ before) ↔ front = [] ∨ '\n' ∉ front ∧ '\n' ∈ before) := by
  have htoken : HasToken source.toList text p := by
    rcases blamed_parse h with herror | ⟨l, htokens, hblamed⟩
    · exact absurd rfl (ExpectsNothing.tokenize _ _ text herror)
    · rw [← String.ofList_toList (s := source)] at htokens
      exact hasToken_of_blamed .whole htokens (fun _ _ => hasToken_of_fragmentOf) hblamed
  obtain ⟨front, inner, before, lexeme, t, htoken, rfl, rfl⟩ := htoken
  exact ⟨front, inner, before, lexeme, t, htoken, rfl, rfl, htoken.standsAt,
    htoken.position_eq_iff⟩

/-- The error of a source that is not read. -/
def errorOf? : Except SyntaxError α → Option SyntaxError
  | .error e => some e
  | .ok _ => none

theorem eq_error_of_errorOf? {x : Except SyntaxError α} {e : SyntaxError}
    (h : errorOf? x = some e) : x = .error e := by
  cases x with
  | error e' => exact congrArg Except.error (Option.some.inj h)
  | ok a => cases h

/-- A declaration without a value. -/
theorem parse_unexpectedToken_declaration :
    parse "let x = ;" = .error ⟨.unexpectedToken ";", ⟨1, 9⟩⟩ ∧
      ∃ front inner before lexeme t, QuotedToken "let x = ;".toList front inner before lexeme t ∧
        t.text = ";" ∧ t.position = ⟨1, 9⟩ ∧
        StandsAt "let x = ;".toList lexeme (placeAt (front ++ before)) ∧
        (⟨1, 9⟩ = placeAt (front ++ before) ↔ front = [] ∨ '\n' ∉ front ∧ '\n' ∈ before) := by
  have herror : parse "let x = ;" = .error ⟨.unexpectedToken ";", ⟨1, 9⟩⟩ :=
    eq_error_of_errorOf? (by decide +kernel)
  exact ⟨herror, parse_unexpectedToken herror⟩

/-- In a substitution the place is another one: the parenthesis is in the fourth column, and
    reported in the first. -/
theorem parse_unexpectedToken_substitution :
    parse "\x60$\x7b)\x7d\x60" = .error ⟨.unexpectedToken ")", ⟨1, 1⟩⟩ ∧
      ¬ StandsAt "\x60$\x7b)\x7d\x60".toList ")".toList ⟨1, 1⟩ := by
  refine ⟨eq_error_of_errorOf? (by decide +kernel), ?_⟩
  rintro ⟨before, after, hsource, hplace⟩
  have hfirst : placeAt (before ++ []) = placeAt [] := by
    rw [List.append_nil, ← hplace]
    rfl
  obtain rfl | ⟨-, hline⟩ := placeAt_append_eq_iff.mp hfirst
  · exact absurd (List.cons.inj hsource).1 (by decide)
  · cases hline

end MemoryShell.Script
