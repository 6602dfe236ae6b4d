/-
  MemoryShell/Proofs/Syntax/Lexing.lean
  =====================================
  **A token does not look further than to where none goes on.**

  No token goes on with a blank, with a slash, or with a closing parenthesis or brace.  So if two
  texts agree up to such characters, then a token that is read from the one before it is read from
  the other one as well.  In particular a text without comments before a closing mark has the tokens
  that it has as a source of its own, and the mark is the token behind them.
-/
import MemoryShell.Proofs.Syntax.Tracking

namespace MemoryShell.Script

/-! ### Glyphs that are alike -/

/-- Glyphs of the same character. -/
def Glyph.Like (g g' : Glyph) : Prop := g'.char = g.char

/-- Rests of two sources that have the same characters up to `es` in the one and `es'` in the
    other. -/
inductive UpTo (es es' : List Glyph) : List Glyph → List Glyph → Prop where
  | done : UpTo es es' es es'
  | next {g g' : Glyph} {gs gs' : List Glyph} :
      g.Like g' → UpTo es es' gs gs' → UpTo es es' (g :: gs) (g' :: gs')

variable {stop stop' : Position} {x : Glyph} {more gs gs' es es' : List Glyph} {s : Symbol}

namespace UpTo

theorem length_le (h : UpTo es es' gs gs') : es.length ≤ gs.length := by
  induction h with
  | done => exact Nat.le_refl _
  | next _ _ ih => exact Nat.le_succ_of_le ih

/-- Both rests go on equally far. -/
theorem length_eq (h : UpTo es es' gs gs') : gs.length + es'.length = gs'.length + es.length := by
  induction h with
  | done => exact Nat.add_comm _ _
  | next _ _ ih =>
    rw [List.length_cons, List.length_cons]
    omega

end UpTo

theorem upTo_nil_iff : UpTo [] more gs gs' ↔ Along Glyph.Like more gs gs' := by
  constructor
  · intro h
    induction h with
    | done => exact .done
    | next hlike _ ih => exact .next hlike ih
  · intro h
    induction h with
    | done => exact .done
    | next hlike _ ih => exact .next hlike ih

/-- What is read from two rests that agree for a while: the same text, and rests that agree for the
    rest of that while. -/
def ReadsUpTo (es es' : List Glyph) (r r' : List Char × List Glyph) : Prop :=
  r'.1 = r.1 ∧ UpTo es es' r.2 r'.2

/-- What is read from a rest of a source that goes on is what is read from the rest alone. -/
def ReadsAlong (more : List Glyph) (r r' : List Char × List Glyph) : Prop :=
  r'.1 = r.1 ∧ Along Glyph.Like more r.2 r'.2

theorem ReadsUpTo.along {r r' : List Char × List Glyph} (h : ReadsUpTo [] more r r') :
    ReadsAlong more r r' :=
  ⟨h.1, upTo_nil_iff.mp h.2⟩

/-! ### Fences -/

/-- The blanks, and the other characters that may end a token before they are part of one. -/
def fences : List Char := [
  '\x09', '\x0a', '\x0b', '\x0c', '\x0d', ' ', '\u0085', '\u00a0', '\u1680', '\u2000', '\u2001',
  '\u2002', '\u2003', '\u2004', '\u2005', '\u2006', '\u2007', '\u2008', '\u2009', '\u200a', '\u2028',
  '\u2029', '\u202f', '\u205f', '\u3000', '/', ')', '\x7d']

theorem mem_fences_of_isBlank {c : Char} (h : Text.isBlank c = true) : c ∈ fences := by
  have hcodes : c.toNat ∈ fences.map Char.toNat := by
    unfold Text.isBlank at h
    simp only [Bool.or_eq_true, Bool.and_eq_true, decide_eq_true_eq, beq_iff_eq] at h
    have hfences : fences.map Char.toNat = [9, 10, 11, 12, 13, 0x20, 0x85, 0xa0, 0x1680, 0x2000,
      0x2001, 0x2002, 0x2003, 0x2004, 0x2005, 0x2006, 0x2007, 0x2008, 0x2009, 0x200a, 0x2028,
      0x2029, 0x202f, 0x205f, 0x3000, 0x2f, 0x29, 0x7d] := rfl
    rw [hfences]
    simp only [List.mem_cons, List.not_mem_nil, or_false]
    omega
  obtain ⟨d, hd, heq⟩ := List.mem_map.mp hcodes
  rwa [← Char.toNat_inj.mp heq]

/-- A class that none of the fences is in. -/
theorem forall_fences {p : Char → Bool} (h : fences.any p = false) : ∀ c ∈ fences, p c = false := by
  intro c hc
  exact Bool.eq_false_iff.mpr (List.any_eq_false.mp h c hc)

theorem fences_digit : ∀ c ∈ fences, c.isDigit = false := forall_fences (by decide)

/-- No fence is a letter or a numeral.  The tables are looked through as lists, which is much less
    work to check than as arrays. -/
theorem fences_letter :
    ∀ c ∈ fences, Text.isAlphabetic c = false ∧ Text.isAlphanumeric c = false := by
  have hletter : fences.any (fun c => Text.isAlphabetic c || Text.isAlphanumeric c) = false := by
    simp only [Text.isAlphabetic, Text.isAlphanumeric, Text.isNumeral, Text.inRanges,
      ← Array.any_toList]
    decide +kernel
  exact fun c hc => Bool.or_eq_false_iff.mp (forall_fences hletter c hc)

theorem fences_mark : ∀ c ∈ fences, (c == '_') = false ∧ (c == '$') = false := by
  have hmark : fences.any (fun c => c == '_' || c == '$') = false := by decide
  exact fun c hc => Bool.or_eq_false_iff.mp (forall_fences hmark c hc)

theorem fences_nameStart : ∀ c ∈ fences, isNameStart c = false := by
  intro c hc
  rw [isNameStart, (fences_letter c hc).1, (fences_mark c hc).1, (fences_mark c hc).2]
  rfl

theorem fences_namePart : ∀ c ∈ fences, isNamePart c = false := by
  intro c hc
  rw [isNamePart, (fences_letter c hc).2, (fences_mark c hc).1, (fences_mark c hc).2]
  rfl

/-- A rest that is at its end or begins with a fence. -/
def Fenced (es : List Glyph) : Prop := ∀ e rest, es = e :: rest → e.char ∈ fences

theorem fenced_nil : Fenced [] := nofun

theorem fenced_cons {e : Glyph} (h : e.char ∈ fences) (rest : List Glyph) : Fenced (e :: rest) := by
  rintro _ _ ⟨⟩
  exact h

/-- A fenced rest does not begin with a character of a class that has no fences in it. -/
theorem Fenced.startsIn {p : Char → Bool} (h : Fenced es) (hp : ∀ c ∈ fences, p c = false) :
    startsIn p es = false := by
  cases es with
  | nil => rfl
  | cons e rest => exact hp _ (h e rest rfl)

/-- Marks that close something. -/
inductive Closes : Char → Symbol → Prop where
  | paren : Closes ')' .rightParen
  | brace : Closes '\x7d' .rightBrace

namespace Closes

variable {x : Char} {s : Symbol}

/-- A class to which neither closing mark belongs. -/
theorem outside (h : Closes x s) {p : Char → Bool} (hparen : p ')' = false)
    (hbrace : p '\x7d' = false) : p x = false := by
  cases h with
  | paren => exact hparen
  | brace => exact hbrace

theorem ne (h : Closes x s) {c : Char} (hparen : ')' ≠ c) (hbrace : '\x7d' ≠ c) : x ≠ c := by
  cases h with
  | paren => exact hparen
  | brace => exact hbrace

end Closes

theorem Closes.fenced (h : Closes x.char s) (more : List Glyph) : Fenced (x :: more) := by
  refine fenced_cons ?_ more
  generalize x.char = c at h
  cases h with
  | paren => decide
  | brace => decide

/-! ### What is left -/

theorem spanChars_suffix (p : Char → Bool) (gs : List Glyph) : (spanChars p gs).2 <:+ gs :=
  List.dropWhile_suffix _

theorem spanChars_cons {p : Char → Bool} {g : Glyph} (h : p g.char = true) (gs : List Glyph) :
    (spanChars p (g :: gs)).2 <:+ gs := by
  unfold spanChars
  dsimp only
  rw [List.dropWhile_cons, if_pos h]
  exact List.dropWhile_suffix _

theorem fraction_suffix (gs : List Glyph) : (fraction gs).2 <:+ gs := by
  unfold fraction
  split
  · exact List.suffix_rfl
  · rename_i g rest
    have hspan := (spanChars_suffix Char.isDigit rest).trans (List.suffix_cons g rest)
    split
    · split
      · exact hspan
      · split
        · exact List.suffix_rfl
        · exact List.suffix_cons g rest
    · exact List.suffix_rfl

theorem exponent_suffix (gs : List Glyph) : (exponent gs).2 <:+ gs := by
  unfold exponent
  split
  · exact List.suffix_rfl
  · rename_i e rest
    split
    · split
      · exact (spanChars_suffix Char.isDigit rest).trans (List.suffix_cons e rest)
      · split
        · rename_i sign rest _
          split
          · exact (spanChars_suffix Char.isDigit rest).trans
              ((List.suffix_cons sign rest).trans (List.suffix_cons e _))
          · exact List.suffix_rfl
        · exact List.suffix_rfl
    · exact List.suffix_rfl

theorem decimal_suffix {g : Glyph} {rest : List Glyph}
    (h : (g.char.isDigit || (g.char = '.' && startsIn Char.isDigit rest)) = true) :
    (number.decimal (g :: rest)).2 <:+ rest := by
  have hexponent (gs : List Glyph) : (exponent (fraction gs).2).2 <:+ (fraction gs).2 :=
    exponent_suffix _
  unfold number.decimal
  dsimp only
  by_cases hdigit : g.char.isDigit = true
  · have hclass : (g.char.isDigit || g.char == '_') = true := by rw [hdigit]; rfl
    have hspan := spanChars_cons (p := fun c => c.isDigit || c == '_') hclass rest
    exact (hexponent _).trans ((fraction_suffix _).trans hspan)
  · obtain ⟨hpoint, hnext⟩ : g.char = '.' ∧ startsIn Char.isDigit rest = true := by
      simpa [hdigit] using h
    have hspan : (spanChars (fun c => c.isDigit || c == '_') (g :: rest)).2 = g :: rest := by
      unfold spanChars
      dsimp only
      rw [List.dropWhile_cons, hpoint]
      rfl
    have hfraction : (fraction (g :: rest)).2 <:+ rest := by
      unfold fraction
      dsimp only
      rw [if_pos hpoint, if_pos hnext]
      exact spanChars_suffix _ _
    rw [hspan]
    exact (hexponent _).trans hfraction

theorem number_suffix {g : Glyph} {rest : List Glyph} {r : List Char × List Glyph}
    (h : (g.char.isDigit || (g.char = '.' && startsIn Char.isDigit rest)) = true)
    (hr : number stop (g :: rest) = .ok r) : r.2 <:+ rest := by
  have hdecimal := decimal_suffix h
  unfold number at hr
  split at hr
  · rename_i x rest heq
    cases heq
    split at hr
    · unfold hexLiteral at hr
      dsimp only at hr
      split at hr
      · cases hr
      · cases hr
        exact (spanChars_suffix _ rest).trans (List.suffix_cons x rest)
    · cases hr
      exact hdecimal
  · cases hr
    exact hdecimal

theorem fixedEscape_suffix {count : Nat} {cause : SyntaxCause} {r : List Char × List Glyph}
    (hr : fixedEscape stop count cause gs = .ok r) : r.2 <:+ gs := by
  unfold fixedEscape at hr
  dsimp only at hr
  split at hr
  · cases hr
    exact List.drop_suffix count gs
  · cases hr

theorem fixedEscape_length {count : Nat} {cause : SyntaxCause} {r : List Char × List Glyph}
    (hr : fixedEscape stop count cause gs = .ok r) : r.2.length + count = gs.length := by
  unfold fixedEscape at hr
  dsimp only at hr
  split at hr
  · rename_i hcode
    cases hr
    split at hcode
    · rename_i hcount
      rw [List.length_map, List.length_take] at hcount
      rw [List.length_drop]
      omega
    · cases hcode
  · cases hr

theorem bracedEscape_suffix {r : List Char × List Glyph} (hr : bracedEscape stop gs = .ok r) :
    r.2 <:+ gs := by
  unfold bracedEscape at hr
  dsimp only at hr
  split at hr
  · cases hr
    exact (List.drop_suffix 1 _).trans (spanChars_suffix _ gs)
  · cases hr

/-- An escape takes its first character. -/
theorem escape_suffix_cons {g : Glyph} {rest : List Glyph} {r : List Char × List Glyph}
    (hr : escape stop (g :: rest) = .ok r) : r.2 <:+ rest := by
  unfold escape at hr
  dsimp only at hr
  split at hr
  case h_8 => exact fixedEscape_suffix hr
  case h_9 =>
    split at hr
    · rename_i brace inner
      split at hr
      · exact (bracedEscape_suffix hr).trans (List.suffix_cons brace inner)
      · exact fixedEscape_suffix hr
    · exact fixedEscape_suffix hr
  case h_11 => cases hr
  all_goals
    cases hr
    exact List.suffix_rfl

theorem escape_suffix {r : List Char × List Glyph} (hr : escape stop gs = .ok r) : r.2 <:+ gs := by
  obtain _ | ⟨g, rest⟩ := gs
  · cases hr
  · exact (escape_suffix_cons hr).trans (List.suffix_cons g rest)

theorem escape_length {r : List Char × List Glyph} (hr : escape stop gs = .ok r) :
    r.2.length < gs.length := by
  obtain _ | ⟨g, rest⟩ := gs
  · cases hr
  · exact Nat.lt_succ_of_le (escape_suffix_cons hr).length_le

theorem stringFrom_suffix_cons {quote : Char} {fuel : Nat} {acc : List Char} {g : Glyph}
    {rest : List Glyph} {r : List Char × List Glyph}
    (hr : stringFrom stop quote fuel acc (g :: rest) = .ok r) : r.2 <:+ rest := by
  induction fuel generalizing acc g rest with
  | zero => cases hr
  | succ fuel ih =>
    have hinside {acc : List Char} {gs : List Glyph}
        (hr : stringFrom stop quote fuel acc gs = .ok r) : r.2 <:+ gs := by
      obtain _ | ⟨g, rest⟩ := gs
      · cases fuel <;> cases hr
      · exact (ih hr).trans (List.suffix_cons g rest)
    unfold stringFrom at hr
    split at hr
    · cases hr
    split at hr
    · cases hr
      exact List.suffix_rfl
    split at hr
    · obtain ⟨r₁, hescape, hr⟩ := except_bind_eq_ok.mp hr
      exact (hinside hr).trans (escape_suffix hescape)
    · exact hinside hr

/-! ### Classes of characters -/

section Classes

variable {p : Char → Bool}

theorem startsIn_upTo (hes : startsIn p es = false) (hes' : startsIn p es' = false)
    (h : UpTo es es' gs gs') : startsIn p gs' = startsIn p gs := by
  cases h with
  | done => rw [hes, hes']
  | next hlike _ => exact congrArg p hlike

theorem spanChars_of_startsIn (h : startsIn p gs = false) : spanChars p gs = ([], gs) := by
  cases gs with
  | nil => rfl
  | cons g gs =>
    have hg : ¬ (p g.char) = true := Bool.eq_false_iff.mp h
    rw [spanChars, List.takeWhile_cons, List.dropWhile_cons, if_neg hg, if_neg hg]
    rfl

/-- Spans end before a character outside their class. -/
theorem spanChars_upTo (hes : startsIn p es = false) (hes' : startsIn p es' = false)
    (h : UpTo es es' gs gs') : ReadsUpTo es es' (spanChars p gs) (spanChars p gs') := by
  induction h with
  | done =>
    rw [spanChars_of_startsIn hes, spanChars_of_startsIn hes']
    exact ⟨rfl, .done⟩
  | @next g g' gs gs' hlike hupTo ih =>
    unfold ReadsUpTo spanChars at *
    dsimp only at *
    rw [List.takeWhile_cons, List.takeWhile_cons, List.dropWhile_cons, List.dropWhile_cons,
      show g'.char = g.char from hlike]
    split
    · exact ⟨by rw [List.map_cons, List.map_cons, ih.1, show g'.char = g.char from hlike], ih.2⟩
    · exact ⟨rfl, .next hlike hupTo⟩

end Classes

/-! ### Numbers -/

theorem hexLiteral_upTo (hes : Fenced es) (hes' : Fenced es') (h : UpTo es es' gs gs')
    {r : List Char × List Glyph} (hr : hexLiteral stop gs = .ok r) :
    ∃ r', hexLiteral stop' gs' = .ok r' ∧ ReadsUpTo es es' r r' := by
  have hhex : ∀ c ∈ fences, isHexDigit c = false := forall_fences (by decide)
  obtain ⟨hdigits, hrest⟩ := spanChars_upTo (hes.startsIn hhex) (hes'.startsIn hhex) h
  unfold hexLiteral at hr ⊢
  dsimp only at hr ⊢
  rw [hdigits]
  split at hr
  · cases hr
  · cases hr
    rw [if_neg ‹_›]
    exact ⟨_, rfl, rfl, hrest⟩

/-- No fence is the point of a number. -/
theorem Fenced.fraction (h : Fenced gs) : fraction gs = ([], gs) := by
  cases gs with
  | nil => rfl
  | cons g rest =>
    have hpoint : ∀ c ∈ fences, (c == '.') = false := forall_fences (by decide)
    exact if_neg (ne_of_beq_false (hpoint _ (h g rest rfl)))

theorem fraction_upTo (hes : Fenced es) (hes' : Fenced es') (h : UpTo es es' gs gs') :
    ReadsUpTo es es' (fraction gs) (fraction gs') := by
  have hdigit := hes.startsIn fences_digit
  have hdigit' := hes'.startsIn fences_digit
  cases h with
  | done =>
    rw [hes.fraction, hes'.fraction]
    exact ⟨rfl, .done⟩
  | @next g g' gs gs' hlike hupTo =>
    unfold Script.fraction
    dsimp only
    rw [show g'.char = g.char from hlike, startsIn_upTo hdigit hdigit' hupTo,
      startsIn_upTo (hes.startsIn fences_nameStart) (hes'.startsIn fences_nameStart) hupTo]
    split
    · split
      · obtain ⟨hdigits, hrest⟩ := spanChars_upTo hdigit hdigit' hupTo
        exact ⟨by rw [hdigits], hrest⟩
      · split
        · exact ⟨rfl, .next hlike hupTo⟩
        · exact ⟨rfl, hupTo⟩
    · exact ⟨rfl, .next hlike hupTo⟩

/-- No fence is the mark of an exponent. -/
theorem Fenced.exponent (h : Fenced gs) : exponent gs = ([], gs) := by
  cases gs with
  | nil => rfl
  | cons g rest =>
    have hmark : ∀ c ∈ fences, (decide (c = 'e') || decide (c = 'E')) = false :=
      forall_fences (by decide)
    exact if_neg (Bool.eq_false_iff.mp (hmark _ (h g rest rfl)))

/-- Nor is one the sign of an exponent. -/
theorem exponent_of_fenced {e : Glyph} (h : Fenced gs) : exponent (e :: gs) = ([], e :: gs) := by
  have hsign : ∀ c ∈ fences, (decide (c = '+') || decide (c = '-')) = false :=
    forall_fences (by decide)
  unfold Script.exponent
  dsimp only
  rw [h.startsIn fences_digit, if_neg Bool.false_ne_true]
  obtain _ | ⟨sign, rest⟩ := gs
  · exact ite_self _
  · dsimp only
    rw [hsign _ (h sign rest rfl), Bool.false_and, if_neg Bool.false_ne_true, ite_self]

theorem exponent_upTo (hes : Fenced es) (hes' : Fenced es') (h : UpTo es es' gs gs') :
    ReadsUpTo es es' (exponent gs) (exponent gs') := by
  have hdigit := hes.startsIn fences_digit
  have hdigit' := hes'.startsIn fences_digit
  cases h with
  | done =>
    rw [hes.exponent, hes'.exponent]
    exact ⟨rfl, .done⟩
  | @next g g' gs gs' hlike hupTo =>
    cases hupTo with
    | done =>
      rw [exponent_of_fenced hes, exponent_of_fenced hes']
      exact ⟨rfl, .next hlike .done⟩
    | @next sign sign' gs gs' hlike' hupTo =>
      have hsigned : UpTo es es' (sign :: gs) (sign' :: gs') := .next hlike' hupTo
      unfold Script.exponent
      dsimp only
      rw [show g'.char = g.char from hlike, startsIn_upTo hdigit hdigit' hsigned,
        show sign'.char = sign.char from hlike', startsIn_upTo hdigit hdigit' hupTo]
      split
      · split
        · obtain ⟨hdigits, hrest⟩ := spanChars_upTo hdigit hdigit' hsigned
          exact ⟨by rw [hdigits], hrest⟩
        · split
          · obtain ⟨hdigits, hrest⟩ := spanChars_upTo hdigit hdigit' hupTo
            exact ⟨by rw [hdigits], hrest⟩
          · exact ⟨rfl, .next hlike hsigned⟩
      · exact ⟨rfl, .next hlike hsigned⟩

theorem decimal_upTo (hes : Fenced es) (hes' : Fenced es') (h : UpTo es es' gs gs') :
    ReadsUpTo es es' (number.decimal gs) (number.decimal gs') := by
  have hclass : ∀ c ∈ fences, (c.isDigit || c == '_') = false := forall_fences (by decide)
  obtain ⟨hdigits, hrest⟩ := spanChars_upTo (p := fun c => c.isDigit || c == '_')
    (hes.startsIn hclass) (hes'.startsIn hclass) h
  obtain ⟨hfraction, hrest⟩ := fraction_upTo hes hes' hrest
  obtain ⟨hexponent, hrest⟩ := exponent_upTo hes hes' hrest
  unfold number.decimal
  dsimp only
  rw [hdigits, hfraction, hexponent]
  exact ⟨rfl, hrest⟩

/-- Behind a zero, only the mark of a hexadecimal literal makes a number anything but decimal. -/
theorem number_of_startsIn {g : Glyph} (h : startsIn (fun c => c = 'x' || c = 'X') gs = false) :
    number stop (g :: gs) = .ok (number.decimal (g :: gs)) := by
  unfold number
  cases gs with
  | nil => rfl
  | cons mark gs =>
    dsimp only
    rw [startsIn] at h
    rw [h, Bool.and_false]
    rfl

theorem number_upTo (stop' : Position) (hes : Fenced es) (hes' : Fenced es')
    (h : UpTo es es' gs gs') (hlength : es.length < gs.length) {r : List Char × List Glyph}
    (hr : number stop gs = .ok r) :
    ∃ r', number stop' gs' = .ok r' ∧ ReadsUpTo es es' r r' := by
  have hdecimal := decimal_upTo hes hes' h
  have hmark : ∀ c ∈ fences, (decide (c = 'x') || decide (c = 'X')) = false :=
    forall_fences (by decide)
  cases h with
  | done => exact absurd hlength (Nat.lt_irrefl _)
  | @next zero zero' gs gs' hlike hupTo =>
    cases hupTo with
    | done =>
      rw [number_of_startsIn (hes.startsIn hmark)] at hr
      cases hr
      exact ⟨_, number_of_startsIn (hes'.startsIn hmark), hdecimal⟩
    | @next mark mark' gs gs' hlike' hupTo =>
      unfold number at hr ⊢
      dsimp only at hr ⊢
      rw [show zero'.char = zero.char from hlike, show mark'.char = mark.char from hlike']
      split at hr
      · rw [if_pos ‹_›]
        exact hexLiteral_upTo hes hes' hupTo hr
      · cases hr
        rw [if_neg ‹_›]
        exact ⟨_, rfl, hdecimal⟩

/-! ### Strings

A string may hold any characters, fences among them.  It is read alike from two rests if it ends
before the place up to which they agree. -/

theorem map_take_upTo (h : UpTo es es' gs gs') {n : Nat} (hn : n + es.length ≤ gs.length) :
    (gs'.take n).map Glyph.char = (gs.take n).map Glyph.char ∧
      UpTo es es' (gs.drop n) (gs'.drop n) := by
  induction n generalizing gs gs' with
  | zero => exact ⟨rfl, h⟩
  | succ n ih =>
    cases h with
    | done => omega
    | next hlike hupTo =>
      rw [List.length_cons] at hn
      obtain ⟨htake, hdrop⟩ := ih hupTo (by omega)
      rw [List.take_succ_cons, List.take_succ_cons, List.map_cons, List.map_cons, htake,
        show Glyph.char _ = Glyph.char _ from hlike]
      exact ⟨rfl, hdrop⟩

theorem fixedEscape_upTo (h : UpTo es es' gs gs') {count : Nat} {cause : SyntaxCause}
    {r : List Char × List Glyph} (hr : fixedEscape stop count cause gs = .ok r)
    (hrest : es.length ≤ r.2.length) :
    ∃ r', fixedEscape stop' count cause gs' = .ok r' ∧ ReadsUpTo es es' r r' := by
  unfold fixedEscape at hr ⊢
  dsimp only at hr ⊢
  by_cases hcount : ((gs.take count).map Glyph.char).length = count
  · rw [if_pos hcount] at hr
    split at hr
    · rename_i code hcode
      cases hr
      rw [List.length_map, List.length_take] at hcount
      rw [List.length_drop] at hrest
      obtain ⟨htake, hdrop⟩ := map_take_upTo h (n := count) (by omega)
      have hcount' : ((gs.take count).map Glyph.char).length = count := by
        rw [List.length_map, List.length_take, hcount]
      rw [htake, if_pos hcount', hcode]
      exact ⟨_, rfl, rfl, hdrop⟩
    · cases hr
  · rw [if_neg hcount] at hr
    cases hr

/-- A span that ends before that place ends alike. -/
theorem spanChars_inside (p : Char → Bool) (h : UpTo es es' gs gs')
    (hrest : es.length < (spanChars p gs).2.length) :
    ReadsUpTo es es' (spanChars p gs) (spanChars p gs') := by
  unfold ReadsUpTo spanChars at *
  dsimp only at *
  induction h with
  | done => exact absurd hrest (Nat.not_lt.mpr (List.dropWhile_suffix _).length_le)
  | @next g g' gs gs' hlike hupTo ih =>
    rw [List.dropWhile_cons] at hrest
    rw [List.takeWhile_cons, List.takeWhile_cons, List.dropWhile_cons, List.dropWhile_cons,
      show g'.char = g.char from hlike]
    split at hrest
    · obtain ⟨htake, hdrop⟩ := ih hrest
      rw [if_pos ‹_›, if_pos ‹_›, if_pos ‹_›, if_pos ‹_›]
      exact ⟨by rw [List.map_cons, List.map_cons, htake, show g'.char = g.char from hlike], hdrop⟩
    · rw [if_neg ‹_›, if_neg ‹_›, if_neg ‹_›, if_neg ‹_›]
      exact ⟨rfl, .next hlike hupTo⟩

/-- An escape in braces ends alike, if its brace stands before that place. -/
theorem bracedEscape_upTo (h : UpTo es es' gs gs') {r : List Char × List Glyph}
    (hr : bracedEscape stop gs = .ok r) (hrest : es.length ≤ r.2.length) (hne : r.2 ≠ []) :
    ∃ r', bracedEscape stop' gs' = .ok r' ∧ ReadsUpTo es es' r r' := by
  unfold bracedEscape at hr ⊢
  dsimp only at hr ⊢
  split at hr
  · rename_i code hcode
    cases hr
    dsimp only at hrest hne
    rw [List.length_drop] at hrest
    have hpos := List.length_pos_iff.mpr hne
    rw [List.length_drop] at hpos
    obtain ⟨htext, hupTo⟩ := spanChars_inside (· != '\x7d') h (by omega)
    rw [htext, hcode]
    refine ⟨_, rfl, rfl, ?_⟩
    exact (map_take_upTo hupTo (n := 1) (by omega)).2
  · cases hr

/-- An escape that is followed by something ends alike. -/
theorem escape_upTo (stop' : Position) (h : UpTo es es' gs gs') {r : List Char × List Glyph}
    (hr : escape stop gs = .ok r) (hrest : es.length ≤ r.2.length) (hne : r.2 ≠ []) :
    ∃ r', escape stop' gs' = .ok r' ∧ ReadsUpTo es es' r r' := by
  cases h with
  | done => exact absurd hrest (Nat.not_le.mpr (escape_length hr))
  | @next g g' gs gs' hlike hupTo =>
    unfold escape at hr ⊢
    dsimp only at hr ⊢
    rw [show g'.char = g.char from hlike]
    revert hr
    generalize g.char = c
    split
    case h_8 => exact fun hr => fixedEscape_upTo hupTo hr hrest
    case h_9 =>
      cases hupTo with
      | done =>
        intro hr
        refine absurd hrest (Nat.not_le.mpr ?_)
        obtain _ | ⟨brace, inner⟩ := es
        · cases hr
        dsimp only at hr
        split at hr
        · exact Nat.lt_succ_of_le (bracedEscape_suffix hr).length_le
        · have hlength := fixedEscape_length hr
          omega
      | @next brace brace' gs gs' hlike' hupTo' =>
        dsimp only
        rw [show brace'.char = brace.char from hlike']
        split
        · exact fun hr => bracedEscape_upTo hupTo' hr hrest hne
        · exact fun hr => fixedEscape_upTo (.next hlike' hupTo') hr hrest
    case h_11 => nofun
    all_goals
      intro hr
      cases hr
      exact ⟨_, rfl, rfl, hupTo⟩

theorem stringFrom_length {quote : Char} {fuel : Nat} {acc : List Char}
    {r : List Char × List Glyph} (hr : stringFrom stop quote fuel acc gs = .ok r) :
    r.2.length < gs.length := by
  obtain _ | ⟨g, rest⟩ := gs
  · cases fuel <;> cases hr
  · exact Nat.lt_succ_of_le (stringFrom_suffix_cons hr).length_le

theorem stringFrom_upTo (stop' : Position) {quote : Char} {fuel fuel' : Nat}
    (hfuel : gs'.length ≤ fuel') (h : UpTo es es' gs gs') {acc : List Char}
    {r : List Char × List Glyph} (hr : stringFrom stop quote fuel acc gs = .ok r)
    (hrest : es.length ≤ r.2.length) :
    ∃ r', stringFrom stop' quote fuel' acc gs' = .ok r' ∧ ReadsUpTo es es' r r' := by
  induction fuel generalizing fuel' acc gs gs' with
  | zero => cases hr
  | succ fuel ih =>
    cases h with
    | done => exact absurd hrest (Nat.not_le.mpr (stringFrom_length hr))
    | @next g g' gs gs' hlike hupTo =>
      obtain _ | fuel' := fuel'
      · exact absurd hfuel (Nat.not_succ_le_zero gs'.length)
      have hfuel := Nat.le_of_succ_le_succ hfuel
      unfold stringFrom at hr ⊢
      rw [show g'.char = g.char from hlike]
      split at hr
      · cases hr
      rw [if_neg ‹_›]
      split at hr
      · cases hr
        rw [if_pos ‹_›]
        exact ⟨_, rfl, rfl, hupTo⟩
      rw [if_neg ‹_›]
      split at hr
      · rw [if_pos ‹_›]
        obtain ⟨r₁, hescape, hr⟩ := except_bind_eq_ok.mp hr
        have hshorter : r.2.length < r₁.2.length := stringFrom_length hr
        obtain ⟨r₁', hescape', htext, hupTo⟩ := escape_upTo stop' hupTo hescape
          (Nat.le_trans hrest (Nat.le_of_lt hshorter)) (List.ne_nil_of_length_pos (by omega))
        have hlength := escape_length hescape'
        have hfuel : r₁'.2.length ≤ fuel' := by omega
        obtain ⟨r', hstring, hread⟩ := ih hfuel hupTo hr
        refine ⟨r', ?_, hread⟩
        rw [hescape', ← hstring, ← htext]
        rfl
      · rw [if_neg ‹_›]
        exact ih hfuel hupTo hr

/-! ### Templates -/

section Templates

variable {g g' : Glyph} {depth : Nat} {acc : List Char}

theorem templateFrom_escape (hg : g.char = '\\') :
    templateFrom stop depth acc (g :: g' :: gs) =
      templateFrom stop depth (g'.char :: '\\' :: acc) gs := by
  rw [templateFrom.eq_def]
  simp only [hg]

theorem templateFrom_open (hg : g.char = '$') (hg' : g'.char = '\x7b') :
    templateFrom stop depth acc (g :: g' :: gs) =
      templateFrom stop (depth + 1) ('\x7b' :: '$' :: acc) gs := by
  rw [templateFrom.eq_def]
  simp only [hg]
  exact if_pos hg'

theorem templateFrom_dollar (hg : g.char = '$') (hg' : g'.char ≠ '\x7b') :
    templateFrom stop depth acc (g :: g' :: gs) =
      templateFrom stop depth ('$' :: acc) (g' :: gs) := by
  rw [templateFrom.eq_def]
  simp only [hg]
  exact if_neg hg'

theorem templateFrom_plain (hescape : g.char ≠ '\\') (hdollar : g.char ≠ '$') :
    templateFrom stop depth acc (g :: gs) =
      if g.char = '\x60' && depth == 0 then .ok (acc.reverse, gs)
      else if g.char = '\x7b' && depth > 0 then templateFrom stop (depth + 1) (g.char :: acc) gs
      else if g.char = '\x7d' && depth > 0 then templateFrom stop (depth - 1) (g.char :: acc) gs
      else templateFrom stop depth (g.char :: acc) gs := by
  rw [templateFrom.eq_def]
  dsimp only
  split
  · exact absurd ‹_› hescape
  · exact absurd ‹_› hescape
  · exact absurd ‹_› hdollar
  · rfl

/-- A single character is no whole rest of a template, unless it is its end. -/
theorem templateFrom_last {r : List Char × List Glyph}
    (hr : templateFrom stop depth acc [g] = .ok r) : g.char = '\x60' ∧ depth = 0 := by
  rw [templateFrom.eq_def] at hr
  dsimp only at hr
  split at hr
  · cases ‹[] = _ :: _›
  · cases hr
  · cases ‹[] = _ :: _›
  · split at hr
    · rename_i hend
      simpa using hend
    · split at hr
      · cases hr
      · split at hr <;> cases hr

end Templates

/-- A template that has been read, with `acc` before it: its text reaches up to a mark. -/
def EndsAtMark (acc : List Char) (gs : List Glyph) (r : List Char × List Glyph) : Prop :=
  ∃ inside mark, gs = inside ++ mark :: r.2 ∧ mark.char = '\x60' ∧
    r.1 = acc.reverse ++ inside.map Glyph.char

theorem EndsAtMark.cons {acc : List Char} {g : Glyph} {r : List Char × List Glyph}
    (h : EndsAtMark (g.char :: acc) gs r) : EndsAtMark acc (g :: gs) r := by
  obtain ⟨inside, mark, rfl, hmark, htext⟩ := h
  refine ⟨g :: inside, mark, rfl, hmark, ?_⟩
  rw [htext, List.reverse_cons, List.append_assoc]
  rfl

theorem templateFrom_endsAtMark {depth : Nat} {acc : List Char} {r : List Char × List Glyph}
    (hr : templateFrom stop depth acc gs = .ok r) : EndsAtMark acc gs r := by
  induction hlength : gs.length using Nat.strongRecOn generalizing gs depth acc with
  | ind n ih =>
    subst hlength
    obtain _ | ⟨g, rest⟩ := gs
    · cases hr
    have hshorter : rest.length < (g :: rest).length := Nat.lt_succ_self _
    have hlast : rest = [] → g.char = '\x60' ∧ depth = 0 := by
      rintro rfl
      exact templateFrom_last hr
    by_cases hescape : g.char = '\\'
    · obtain _ | ⟨e, rest⟩ := rest
      · exact absurd (hescape.symm.trans (hlast rfl).1) (by decide)
      rw [templateFrom_escape hescape, ← hescape] at hr
      exact (ih _ (Nat.lt_of_succ_lt hshorter) hr rfl).cons.cons
    by_cases hdollar : g.char = '$'
    · obtain _ | ⟨b, rest⟩ := rest
      · exact absurd (hdollar.symm.trans (hlast rfl).1) (by decide)
      by_cases hbrace : b.char = '\x7b'
      · rw [templateFrom_open hdollar hbrace, ← hdollar, ← hbrace] at hr
        exact (ih _ (Nat.lt_of_succ_lt hshorter) hr rfl).cons.cons
      · rw [templateFrom_dollar hdollar hbrace, ← hdollar] at hr
        exact (ih _ hshorter hr rfl).cons
    rw [templateFrom_plain hescape hdollar] at hr
    split at hr
    · rename_i hend
      cases hr
      rw [Bool.and_eq_true, decide_eq_true_eq] at hend
      exact ⟨[], g, rfl, hend.1, (List.append_nil _).symm⟩
    split at hr
    · exact (ih _ hshorter hr rfl).cons
    split at hr
    · exact (ih _ hshorter hr rfl).cons
    · exact (ih _ hshorter hr rfl).cons

theorem templateFrom_length {depth : Nat} {acc : List Char} {r : List Char × List Glyph}
    (hr : templateFrom stop depth acc gs = .ok r) : r.2.length < gs.length := by
  obtain ⟨inside, mark, rfl, -⟩ := templateFrom_endsAtMark hr
  rw [List.length_append, List.length_cons]
  omega

/-- Behind another character than its mark, a template takes one more. -/
theorem templateFrom_length_cons {g : Glyph} {depth : Nat} {acc : List Char}
    {r : List Char × List Glyph} (hr : templateFrom stop depth acc (g :: gs) = .ok r)
    (hg : g.char ≠ '\x60') : r.2.length < gs.length := by
  obtain ⟨inside, mark, heq, hmark, -⟩ := templateFrom_endsAtMark hr
  obtain _ | ⟨g', inside⟩ := inside
  · cases heq
    exact absurd hmark hg
  · have hlength := congrArg List.length heq
    rw [List.length_cons, List.length_append, List.length_cons, List.length_cons] at hlength
    omega

theorem templateFrom_upTo (stop' : Position) {depth : Nat} {acc : List Char}
    (h : UpTo es es' gs gs') {r : List Char × List Glyph}
    (hr : templateFrom stop depth acc gs = .ok r) (hrest : es.length ≤ r.2.length) :
    ∃ r', templateFrom stop' depth acc gs' = .ok r' ∧ ReadsUpTo es es' r r' := by
  induction hlength : gs.length using Nat.strongRecOn generalizing gs gs' depth acc with
  | ind n ih =>
    subst hlength
    cases h with
    | done => exact absurd hrest (Nat.not_le.mpr (templateFrom_length hr))
    | @next g g' gs gs' hlike hupTo =>
      have hchar : g'.char = g.char := hlike
      have hshorter : gs.length < (g :: gs).length := Nat.lt_succ_self _
      by_cases hescape : g.char = '\\'
      · cases hupTo with
        | done =>
          have hlength := templateFrom_length_cons hr (by rw [hescape]; decide)
          exact absurd hrest (Nat.not_le.mpr hlength)
        | @next e e' gs gs' hlike' hupTo =>
          rw [templateFrom_escape hescape] at hr
          rw [templateFrom_escape (hchar.trans hescape), show e'.char = e.char from hlike']
          exact ih gs.length (Nat.lt_of_succ_lt hshorter) hupTo hr rfl
      by_cases hdollar : g.char = '$'
      · cases hupTo with
        | done =>
          have hlength := templateFrom_length_cons hr (by rw [hdollar]; decide)
          exact absurd hrest (Nat.not_le.mpr hlength)
        | @next b b' gs gs' hlike' hupTo =>
          by_cases hbrace : b.char = '\x7b'
          · rw [templateFrom_open hdollar hbrace] at hr
            rw [templateFrom_open (hchar.trans hdollar) (Eq.trans hlike' hbrace)]
            exact ih gs.length (Nat.lt_of_succ_lt hshorter) hupTo hr rfl
          · rw [templateFrom_dollar hdollar hbrace] at hr
            rw [templateFrom_dollar (hchar.trans hdollar)
              fun heq => hbrace (Eq.trans (Eq.symm hlike') heq)]
            exact ih _ hshorter (.next hlike' hupTo) hr rfl
      rw [templateFrom_plain hescape hdollar] at hr
      rw [templateFrom_plain (fun heq => hescape (hchar.symm.trans heq))
        fun heq => hdollar (hchar.symm.trans heq), hchar]
      split at hr
      · rw [if_pos ‹_›]
        cases hr
        exact ⟨_, rfl, rfl, hupTo⟩
      rw [if_neg ‹_›]
      split at hr
      · rw [if_pos ‹_›]
        exact ih _ hshorter hupTo hr rfl
      rw [if_neg ‹_›]
      split at hr
      · rw [if_pos ‹_›]
        exact ih _ hshorter hupTo hr rfl
      · rw [if_neg ‹_›]
        exact ih _ hshorter hupTo hr rfl

/-! ### Symbols -/

/-- A word without fences begins a text or not before the first fence of it. -/
theorem isPrefixOf_append_fenced {q : List Char} (hq : ∀ c ∈ q, c ∉ fences) {v : List Char}
    (hv : ∀ c w, v = c :: w → c ∈ fences) (u : List Char) :
    q.isPrefixOf (u ++ v) = q.isPrefixOf u := by
  induction q generalizing u with
  | nil => rw [List.isPrefixOf_nil_left, List.isPrefixOf_nil_left]
  | cons a q ih =>
    obtain ⟨ha, hq⟩ := List.forall_mem_cons.mp hq
    cases u with
    | nil =>
      obtain _ | ⟨c, w⟩ := v
      · rfl
      · have hfalse : (a == c) = false := beq_false_of_ne fun heq => ha (heq ▸ hv c w rfl)
        rw [List.nil_append, List.isPrefixOf_cons_cons, hfalse, Bool.false_and]
        rfl
    | cons b u =>
      rw [List.cons_append, List.isPrefixOf_cons_cons, List.isPrefixOf_cons_cons, ih hq]

/-- The first characters of two rests: a common beginning, and fences from there on. -/
theorem map_take_fenced (hes : Fenced es) (hes' : Fenced es') (h : UpTo es es' gs gs') (n : Nat) :
    ∃ u v v', (gs.take n).map Glyph.char = u ++ v ∧ (gs'.take n).map Glyph.char = u ++ v' ∧
      (∀ c w, v = c :: w → c ∈ fences) ∧ ∀ c w, v' = c :: w → c ∈ fences := by
  have hfenced {es : List Glyph} (hes : Fenced es) (n : Nat) (c : Char) (w : List Char)
      (h : (es.take n).map Glyph.char = c :: w) : c ∈ fences := by
    obtain ⟨e, rest, heq, rfl, -⟩ := List.map_eq_cons_iff.mp h
    obtain _ | ⟨e', rest'⟩ := es
    · rw [List.take_nil] at heq
      cases heq
    · cases n with
      | zero => cases heq
      | succ n =>
        cases heq
        exact hes _ _ rfl
  induction n generalizing gs gs' with
  | zero => exact ⟨[], [], [], rfl, rfl, nofun, nofun⟩
  | succ n ih =>
    cases h with
    | done => exact ⟨[], _, _, rfl, rfl, hfenced hes _, hfenced hes' _⟩
    | @next g g' gs gs' hlike hupTo =>
      obtain ⟨u, v, v', heq, heq', hv, hv'⟩ := ih hupTo
      refine ⟨g.char :: u, v, v', ?_, ?_, hv, hv'⟩
      · rw [List.take_succ_cons, List.map_cons, heq, List.cons_append]
      · rw [List.take_succ_cons, List.map_cons, heq', show g'.char = g.char from hlike,
          List.cons_append]

theorem symbol?_congr {table : List (String × Symbol)} {cs cs' : List Char}
    (h : ∀ entry ∈ table, entry.1.toList.isPrefixOf cs' = entry.1.toList.isPrefixOf cs) :
    symbol? table cs' = symbol? table cs := by
  unfold symbol?
  induction table with
  | nil => rfl
  | cons entry table ih =>
    rw [List.find?_cons, List.find?_cons, h entry List.mem_cons_self,
      ih fun entry hentry => h entry (List.mem_cons_of_mem _ hentry)]

/-- No symbol has a fence behind its first character. -/
theorem not_mem_fences_of_symbol :
    ∀ entry ∈ Symbol.table, ∀ c ∈ entry.1.toList.tail, c ∉ fences := by
  have htable : (Symbol.table.all fun entry =>
      entry.1.toList.tail.all fun c => !fences.contains c) = true := by decide +kernel
  intro entry hentry c hc hmem
  have hnone := List.all_eq_true.mp (List.all_eq_true.mp htable entry hentry) c hc
  rw [List.contains_iff_mem.mpr hmem] at hnone
  cases hnone

/-- So the symbol at the beginning is the same in both rests. -/
theorem symbol?_upTo (hes : Fenced es) (hes' : Fenced es') (h : UpTo es es' gs gs')
    (hlength : es.length < gs.length) :
    symbol? Symbol.table ((gs'.take maxSymbolLength).map Glyph.char) =
      symbol? Symbol.table ((gs.take maxSymbolLength).map Glyph.char) := by
  refine symbol?_congr fun entry hentry => ?_
  cases h with
  | done => exact absurd hlength (Nat.lt_irrefl _)
  | @next g g' gs gs' hlike hupTo =>
    obtain ⟨u, v, v', heq, heq', hv, hv'⟩ := map_take_fenced hes hes' hupTo 2
    rw [maxSymbolLength, List.take_succ_cons, List.take_succ_cons, List.map_cons, List.map_cons,
      heq, heq', show g'.char = g.char from hlike]
    cases hspelling : entry.1.toList with
    | nil => rw [List.isPrefixOf_nil_left, List.isPrefixOf_nil_left]
    | cons a q =>
      have hq := not_mem_fences_of_symbol entry hentry
      rw [hspelling, List.tail_cons] at hq
      rw [List.isPrefixOf_cons_cons, List.isPrefixOf_cons_cons, isPrefixOf_append_fenced hq hv,
        isPrefixOf_append_fenced hq hv']

/-- The text of a symbol stands where the symbol does. -/
theorem symbol?_length {n : Nat} {text : String} {symbol : Symbol}
    (h : symbol? Symbol.table ((gs.take n).map Glyph.char) = some (text, symbol)) :
    text.length ≤ gs.length := by
  unfold symbol? at h
  have hfound := List.find?_some h
  have hlength := (List.isPrefixOf_iff_prefix.mp hfound).length_le
  rw [List.length_map, List.length_take, String.length_toList] at hlength
  exact Nat.le_trans hlength (Nat.min_le_right n gs.length)

/-! ### Tokens -/

theorem isNamePart_of_isNameStart {c : Char} (h : isNameStart c = true) : isNamePart c = true := by
  unfold isNameStart at h
  unfold isNamePart Text.isAlphanumeric
  rw [Bool.or_assoc] at h ⊢
  rcases Bool.or_eq_true_iff.mp h with halpha | hmark
  · rw [halpha]
    rfl
  · rw [hmark, Bool.or_true]

/-- No symbol is spelled without characters. -/
theorem symbol?_ne_empty {cs : List Char} {text : String} {symbol : Symbol}
    (h : symbol? Symbol.table cs = some (text, symbol)) : ∃ n, text.length = n + 1 := by
  have htable : ∀ entry ∈ Symbol.table, entry.1.length ≠ 0 := by decide
  exact Nat.exists_eq_succ_of_ne_zero (htable _ (List.mem_of_find?_eq_some h))

/-- A token that is read where something is left is no end, and takes something of it. -/
theorem token_suffix {g : Glyph} {rest : List Glyph} {kind : TokenKind}
    {r : List Char × List Glyph} (hr : token stop (g :: rest) = .ok (kind, r)) :
    kind ≠ .stop ∧ r.2 <:+ rest := by
  unfold token at hr
  dsimp only at hr
  split at hr
  · rename_i hnumeric
    obtain ⟨r, hnumber, hr⟩ := except_bind_eq_ok.mp hr
    cases hr
    exact ⟨nofun, number_suffix hnumeric hnumber⟩
  split at hr
  · obtain ⟨r, hstring, hr⟩ := except_bind_eq_ok.mp hr
    cases hr
    obtain _ | ⟨g', rest⟩ := rest
    · cases hstring
    exact ⟨nofun, (stringFrom_suffix_cons hstring).trans (List.suffix_cons g' rest)⟩
  split at hr
  · obtain ⟨r, htemplate, hr⟩ := except_bind_eq_ok.mp hr
    cases hr
    obtain ⟨inside, mark, rfl, -⟩ := templateFrom_endsAtMark htemplate
    exact ⟨nofun, (List.suffix_cons mark _).trans (List.suffix_append inside _)⟩
  split at hr
  · rename_i hstart
    have hspan := spanChars_cons (p := isNamePart) (isNamePart_of_isNameStart hstart) rest
    split at hr
    · cases hr
      exact ⟨nofun, hspan⟩
    · cases hr
      exact ⟨nofun, hspan⟩
  · split at hr
    · rename_i text symbol hsymbol
      cases hr
      obtain ⟨n, hn⟩ := symbol?_ne_empty hsymbol
      rw [hn]
      exact ⟨nofun, List.drop_suffix n rest⟩
    · cases hr

/-- A template stands between marks. -/
theorem template_endsAtMark {g : Glyph} {rest : List Glyph} {r : List Char × List Glyph}
    (h : token stop (g :: rest) = .ok (.template, r)) :
    g.char = '\x60' ∧ EndsAtMark [] rest r := by
  unfold token at h
  dsimp only at h
  split at h
  · obtain ⟨_, -, h⟩ := except_bind_eq_ok.mp h
    cases h
  split at h
  · obtain ⟨_, -, h⟩ := except_bind_eq_ok.mp h
    cases h
  split at h
  · obtain ⟨r, htemplate, h⟩ := except_bind_eq_ok.mp h
    cases h
    exact ⟨‹_›, templateFrom_endsAtMark htemplate⟩
  split at h
  · split at h <;> cases h
  · split at h <;> cases h

/-- A token that is read from one rest, and ends before the place up to which the rests agree, is
    read from the other rest as well. -/
theorem token_upTo (stop' : Position) (hes : Fenced es) (hes' : Fenced es')
    (h : UpTo es es' gs gs') (hlength : es.length < gs.length) {kind : TokenKind}
    {r : List Char × List Glyph} (hr : token stop gs = .ok (kind, r))
    (hrest : es.length ≤ r.2.length) :
    ∃ r', token stop' gs' = .ok (kind, r') ∧ ReadsUpTo es es' r r' := by
  cases h with
  | done => exact absurd hlength (Nat.lt_irrefl _)
  | @next g g' gs gs' hlike hupTo =>
    have hchar : g'.char = g.char := hlike
    have h : UpTo es es' (g :: gs) (g' :: gs') := .next hlike hupTo
    unfold token at hr ⊢
    dsimp only at hr ⊢
    rw [hchar, startsIn_upTo (hes.startsIn fences_digit) (hes'.startsIn fences_digit) hupTo]
    split at hr
    · rw [if_pos ‹_›]
      obtain ⟨r, hnumber, hr⟩ := except_bind_eq_ok.mp hr
      cases hr
      obtain ⟨r', hnumber', hread⟩ := number_upTo stop' hes hes' h hlength hnumber
      rw [hnumber']
      exact ⟨_, rfl, hread⟩
    rw [if_neg ‹_›]
    split at hr
    · rw [if_pos ‹_›]
      obtain ⟨r, hstring, hr⟩ := except_bind_eq_ok.mp hr
      cases hr
      obtain ⟨r', hstring', hread⟩ := stringFrom_upTo stop' (Nat.le_refl _) hupTo hstring hrest
      rw [show stringBody stop' g.char gs' = _ from hstring']
      exact ⟨_, rfl, hread⟩
    rw [if_neg ‹_›]
    split at hr
    · rw [if_pos ‹_›]
      obtain ⟨r, htemplate, hr⟩ := except_bind_eq_ok.mp hr
      cases hr
      obtain ⟨r', htemplate', hread⟩ := templateFrom_upTo stop' hupTo htemplate hrest
      rw [htemplate']
      exact ⟨_, rfl, hread⟩
    rw [if_neg ‹_›]
    split at hr
    · rw [if_pos ‹_›]
      obtain ⟨hname, hupTo⟩ :=
        spanChars_upTo (hes.startsIn fences_namePart) (hes'.startsIn fences_namePart) h
      rw [hname]
      split at hr
      · cases hr
        exact ⟨_, rfl, rfl, hupTo⟩
      · cases hr
        exact ⟨_, rfl, rfl, hupTo⟩
    · rw [if_neg ‹_›, symbol?_upTo hes hes' h hlength]
      split at hr
      · rename_i text symbol hsymbol
        cases hr
        have hspelled := symbol?_length hsymbol
        rw [List.length_drop] at hrest
        exact ⟨_, rfl, rfl, (map_take_upTo h (by omega)).2⟩
      · cases hr

/-! ### Before a closing mark

A source alone and the same text before a closing mark agree up to the end of the source. -/

section Marks

theorem symbol?_closes (hx : Closes x.char s) (cs : List Char) :
    ∃ text, symbol? Symbol.table (x.char :: cs) = some (text, s) ∧ text.toList = [x.char] := by
  generalize x.char = c at hx
  cases hx with
  | paren => exact ⟨")", rfl, rfl⟩
  | brace => exact ⟨"\x7d", rfl, rfl⟩

variable {p : Char → Bool}

theorem startsIn_along (hx : p x.char = false) (h : Along Glyph.Like (x :: more) gs gs') :
    startsIn p gs' = startsIn p gs := by
  have hx' : startsIn p (x :: more) = false := hx
  exact startsIn_upTo rfl hx' (upTo_nil_iff.mpr h)

theorem spanChars_along (hx : p x.char = false) (h : Along Glyph.Like (x :: more) gs gs') :
    ReadsAlong (x :: more) (spanChars p gs) (spanChars p gs') := by
  have hx' : startsIn p (x :: more) = false := hx
  exact (spanChars_upTo rfl hx' (upTo_nil_iff.mpr h)).along

theorem token_along (stop' : Position) (hx : Closes x.char s)
    (h : Along Glyph.Like (x :: more) gs gs') (hgs : gs ≠ []) {kind : TokenKind}
    {r : List Char × List Glyph} (hr : token stop gs = .ok (kind, r)) :
    ∃ r', token stop' gs' = .ok (kind, r') ∧ ReadsAlong (x :: more) r r' := by
  obtain ⟨r', htoken, hread⟩ := token_upTo stop' fenced_nil (hx.fenced more) (upTo_nil_iff.mpr h)
    (List.length_pos_iff.mpr hgs) hr (Nat.zero_le _)
  exact ⟨r', htoken, hread.along⟩

/-- A character that is a symbol, whatever follows it. -/
theorem token_symbol {g : Glyph} {symbol : Symbol} (hdigit : g.char.isDigit = false)
    (hname : isNameStart g.char = false)
    (hne : g.char ≠ '.' ∧ g.char ≠ '\x22' ∧ g.char ≠ '\x27' ∧ g.char ≠ '\x60')
    (hsymbol : ∀ cs, ∃ text,
      symbol? Symbol.table (g.char :: cs) = some (text, symbol) ∧ text.toList = [g.char])
    (stop : Position) (gs : List Glyph) :
    token stop (g :: gs) = .ok (.symbol symbol, [g.char], gs) := by
  obtain ⟨text, hsymbol, htext⟩ := hsymbol ((gs.take 2).map Glyph.char)
  have hlength : text.length = 1 := by rw [← String.length_toList, htext]; rfl
  obtain ⟨hpoint, hdouble, hsingle, hmark⟩ := hne
  unfold token
  dsimp only
  rw [hdigit, hname, if_neg (by simp [hpoint]), if_neg (by simp [hdouble, hsingle]), if_neg hmark,
    if_neg nofun, maxSymbolLength, List.take_succ_cons, List.map_cons, hsymbol]
  dsimp only
  rw [htext, hlength]
  rfl

theorem token_closes (hx : Closes x.char s) (stop : Position) (gs : List Glyph) :
    token stop (x :: gs) = .ok (.symbol s, [x.char], gs) := by
  refine token_symbol (hx.outside (p := Char.isDigit) rfl rfl)
    (hx.outside (p := isNameStart) rfl rfl) ⟨?_, ?_, ?_, ?_⟩ (symbol?_closes hx) stop gs
  all_goals exact hx.ne (by decide) (by decide)

theorem token_leftParen (hx : x.char = '(') (stop : Position) (gs : List Glyph) :
    token stop (x :: gs) = .ok (.symbol .leftParen, [x.char], gs) := by
  refine token_symbol ?_ ?_ ?_ ?_ stop gs
  · rw [hx]; rfl
  · rw [hx]; rfl
  · rw [hx]; decide
  · rw [hx]
    exact fun cs => ⟨"(", rfl, rfl⟩

theorem token_template (hx : x.char = '\x60') (stop : Position) (gs : List Glyph) :
    token stop (x :: gs) =
      (templateFrom stop 0 [] gs).map fun (text, rest) => (.template, text, rest) := by
  unfold token
  dsimp only
  rw [hx]
  change (templateFrom stop 0 [] gs >>= _) = _
  cases templateFrom stop 0 [] gs <;> rfl

end Marks

end MemoryShell.Script
