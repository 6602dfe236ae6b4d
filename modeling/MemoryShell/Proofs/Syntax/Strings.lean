/-
  MemoryShell/Proofs/Syntax/Strings.lean
  ======================================
  **What a string says.**

  Between its quotes a string has characters that stand for themselves and escapes.  An escape is a
  letter or the code of a character, and the code is hexadecimal digits, but not only digits: the
  reader allows a plus sign before them.  The grammar of strings here is as wide as the reader, so
  the tokens that are strings are exactly its literals.  Among these is what the writer of documents
  puts into quotes.
-/
import Mathlib.Tactic.IntervalCases
import MemoryShell.Proofs.Syntax.Spelling

namespace MemoryShell.Script

variable {stop : Position} {g : Glyph} {gs rest back : List Glyph}

/-! ### Codes of characters -/

/-- One or more hexadecimal digits. -/
structure IsHex (digits : List Char) : Prop where
  nonempty : digits ≠ []
  hex : ∀ c ∈ digits, isHexDigit c = true

/-- What an escape may have for the code of a character, and the code. -/
inductive EscapeCode : List Char → Nat → Prop where
  | plain {digits : List Char} : IsHex digits → hexValue digits < 2 ^ 32 →
    EscapeCode digits (hexValue digits)
  | signed {digits : List Char} : IsHex digits → hexValue digits < 2 ^ 32 →
    EscapeCode ('+' :: digits) (hexValue digits)

section Codes

variable {text digits : List Char} {code : Nat}

theorem IsHex.head?_ne_plus (h : IsHex digits) : digits.head? ≠ some '+' := by
  intro hhead
  have hplus := h.hex '+' (List.mem_of_mem_head? hhead)
  cases hplus

theorem EscapeCode.of_mem (h : EscapeCode text code) {c : Char} (hc : c ∈ text) :
    c = '+' ∨ isHexDigit c = true := by
  cases h with
  | plain hdigits _ => exact .inr (hdigits.hex c hc)
  | signed hdigits _ =>
    rcases List.mem_cons.mp hc with rfl | hc
    · exact .inl rfl
    · exact .inr (hdigits.hex c hc)

theorem EscapeCode.ne_brace (h : EscapeCode text code) {c : Char} (hc : c ∈ text) :
    c ≠ '\x7b' ∧ c ≠ '\x7d' := by
  obtain rfl | hhex := h.of_mem hc
  · decide
  · constructor
    all_goals
      rintro rfl
      cases hhex

theorem isHex_iff : IsHex digits ↔ (digits.isEmpty || !digits.all isHexDigit) = false := by
  rw [Bool.or_eq_false_iff, List.isEmpty_eq_false_iff, Bool.not_eq_false', List.all_eq_true]
  exact ⟨fun h => ⟨h.nonempty, h.hex⟩, fun h => ⟨h.1, h.2⟩⟩

theorem escapeCode?_eq_some : escapeCode? text = some code ↔ EscapeCode text code := by
  have hcode : escapeCode? text = some code ↔
      ∃ digits, digits = (if text.head? = some '+' then text.tail else text) ∧ IsHex digits ∧
        hexValue digits < 2 ^ 32 ∧ hexValue digits = code := by
    unfold escapeCode?
    simp only [exists_eq_left, isHex_iff]
    generalize (if text.head? = some '+' then text.tail else text) = digits
    split
    · rename_i hnone
      rw [hnone]
      exact iff_of_false nofun nofun
    · rename_i hhex
      rw [Bool.eq_false_iff.mpr hhex]
      split
      · rename_i hsmall
        exact Option.some_inj.trans ⟨fun h => ⟨rfl, hsmall, h⟩, fun h => h.2.2⟩
      · rename_i hlarge
        exact iff_of_false nofun fun h => hlarge h.2.1
  rw [hcode]
  constructor
  · rintro ⟨digits, hdigits, hhex, hsmall, rfl⟩
    split at hdigits
    · rename_i hplus
      obtain ⟨tail, rfl⟩ := List.head?_eq_some_iff.mp hplus
      cases hdigits
      exact .signed hhex hsmall
    · cases hdigits
      exact .plain hhex hsmall
  · rintro (⟨hhex, hsmall⟩ | ⟨hhex, hsmall⟩)
    · exact ⟨_, (if_neg hhex.head?_ne_plus).symm, hhex, hsmall, rfl⟩
    · exact ⟨_, (if_pos rfl).symm, hhex, hsmall, rfl⟩

/-- A code that is that of a character gives this character, and any other one the replacement
    character. -/
theorem charOfCode_spec (code : Nat) :
    if code.isValidChar then (charOfCode code).toNat = code else charOfCode code = '\uFFFD' := by
  unfold charOfCode
  split
  · rename_i hvalid
    have hrange : (code < 0xd800 || (0xdfff < code && code < 0x110000)) = true := by
      rw [Bool.or_eq_true, Bool.and_eq_true, decide_eq_true_iff, decide_eq_true_iff,
        decide_eq_true_iff]
      exact hvalid
    rw [if_pos hrange, Char.ofNat, dif_pos hvalid]
    rfl
  · rename_i hinvalid
    have hrange : ¬ (code < 0xd800 || (0xdfff < code && code < 0x110000)) = true := by
      rw [Bool.or_eq_true, Bool.and_eq_true, decide_eq_true_iff, decide_eq_true_iff,
        decide_eq_true_iff]
      exact hinvalid
    rw [if_neg hrange]

end Codes

/-! ### Escapes -/

/-- The characters that a single one stands for behind a backslash; a code has more of them. -/
def letterEscape? (c : Char) : Option (List Char) :=
  match c with
  | 'n' => some ['\n']
  | 't' => some ['\t']
  | 'r' => some ['\r']
  | 'b' => some ['\x08']
  | 'f' => some ['\x0c']
  | 'v' => some ['\x0b']
  | '0' => some ['\x00']
  | '\n' => some []
  | 'x' | 'u' | '\x00' => none
  | c => some [c]

/-- What may stand behind a backslash, and the characters that it stands for. -/
inductive EscapeText : List Char → List Char → Prop where
  | letter {c : Char} {chars : List Char} : letterEscape? c = some chars → EscapeText [c] chars
  | hex {text : List Char} {code : Nat} : text.length = 2 → EscapeCode text code →
    EscapeText ('x' :: text) [charOfCode code]
  | unicode {text : List Char} {code : Nat} : text.length = 4 → EscapeCode text code →
    EscapeText ('u' :: text) [charOfCode code]
  | braced {text : List Char} {code : Nat} : EscapeCode text code →
    EscapeText ('u' :: '\x7b' :: (text ++ ['\x7d'])) [charOfCode code]

section Escapes

variable {count : Nat} {cause : SyntaxCause} {text chars e : List Char} {code : Nat}

theorem fixedEscape_eq_ok (h : fixedEscape stop count cause gs = .ok (chars, back)) :
    ∃ text code, Stands text gs back ∧ text.length = count ∧ EscapeCode text code ∧
      chars = [charOfCode code] := by
  unfold fixedEscape at h
  dsimp only at h
  split at h
  · rename_i code hcode
    cases h
    split at hcode
    · rename_i hlength
      exact ⟨_, code, ⟨gs.take count, rfl, (List.take_append_drop count gs).symm⟩, hlength,
        escapeCode?_eq_some.mp hcode, rfl⟩
    · cases hcode
  · cases h

theorem fixedEscape_of_code (hlength : text.length = count) (hcode : EscapeCode text code)
    (hgs : Stands text gs back) :
    fixedEscape stop count cause gs = .ok ([charOfCode code], back) := by
  obtain ⟨front, rfl, rfl⟩ := hgs
  have hfront : front.length = count := (List.length_map _).symm.trans hlength
  have htake : (front ++ back).take count = front := by rw [← hfront, List.take_left]
  have hdrop : (front ++ back).drop count = back := by rw [← hfront, List.drop_left]
  rw [fixedEscape, htake, hdrop, if_pos hlength, escapeCode?_eq_some.mpr hcode]

/-- If there is something behind the code in braces, the closing brace is before it. -/
theorem bracedEscape_eq_ok (h : bracedEscape stop gs = .ok (chars, back)) (hback : back ≠ []) :
    ∃ text code, Stands (text ++ ['\x7d']) gs back ∧ EscapeCode text code ∧
      chars = [charOfCode code] := by
  unfold bracedEscape spanChars at h
  dsimp only at h
  split at h
  · rename_i code hcode
    cases h
    have hwhole := List.takeWhile_append_dropWhile (p := fun g : Glyph => g.char != '\x7d') (l := gs)
    cases hrest : gs.dropWhile (fun g : Glyph => g.char != '\x7d') with
    | nil =>
      rw [hrest] at hback
      exact absurd rfl hback
    | cons brace rest =>
      have hsome : gs.dropWhile (fun g : Glyph => g.char != '\x7d') ≠ [] := by
        rw [hrest]
        exact List.cons_ne_nil _ _
      have hbrace := List.head_dropWhile_not (fun g : Glyph => g.char != '\x7d') hsome
      simp only [hrest, List.head_cons, bne_eq_false_iff_eq] at hbrace
      rw [hrest] at hwhole
      refine ⟨_, code, Stands.append_iff.mpr ⟨brace :: rest, ⟨_, rfl, hwhole.symm⟩, ?_⟩,
        escapeCode?_eq_some.mp hcode, rfl⟩
      exact Stands.cons_iff.mpr ⟨brace, rest, rfl, hbrace, Stands.nil_iff.mpr rfl⟩
  · cases h

theorem bracedEscape_of_code (hcode : EscapeCode text code)
    (hgs : Stands (text ++ ['\x7d']) gs back) :
    bracedEscape stop gs = .ok ([charOfCode code], back) := by
  obtain ⟨mid, ⟨front, rfl, rfl⟩, hmid⟩ := Stands.append_iff.mp hgs
  obtain ⟨brace, rest, rfl, hbrace, hrest⟩ := Stands.cons_iff.mp hmid
  obtain rfl := Stands.nil_iff.mp hrest
  have hinside : ∀ c ∈ front.map Glyph.char, (c != '\x7d') = true :=
    fun c hc => bne_iff_ne.mpr (hcode.ne_brace hc).2
  have hends : startsIn (· != '\x7d') (brace :: rest) = false := by
    rw [startsIn, hbrace]
    rfl
  rw [bracedEscape, spanChars_append hinside hends]
  dsimp only
  rw [escapeCode?_eq_some.mpr hcode]
  rfl

theorem letterEscape?_eq_none {c : Char} (h : letterEscape? c = none) :
    c = 'x' ∨ c = 'u' ∨ c = '\x00' := by
  unfold letterEscape? at h
  split at h
  case h_9 => exact .inl rfl
  case h_10 => exact .inr (.inl rfl)
  case h_11 => exact .inr (.inr rfl)
  all_goals cases h

theorem escape_of_letter (h : letterEscape? g.char = some chars) :
    escape stop (g :: rest) = .ok (chars, rest) := by
  obtain ⟨c, p⟩ := g
  dsimp only at h
  unfold letterEscape? at h
  split at h
  case h_9 | h_10 | h_11 => cases h
  case h_12 =>
    cases h
    unfold escape
    dsimp only
    split
    case h_12 => rfl
    all_goals contradiction
  all_goals
    cases h
    rfl

theorem escape_hex (hg : g.char = 'x') :
    escape stop (g :: rest) = fixedEscape stop 2 .invalidHexEscape rest := by
  obtain ⟨_, p⟩ := g
  subst hg
  rfl

theorem escape_braced {brace : Glyph} (hg : g.char = 'u') (hbrace : brace.char = '\x7b') :
    escape stop (g :: brace :: rest) = bracedEscape stop rest := by
  obtain ⟨_, p⟩ := g
  subst hg
  exact if_pos hbrace

theorem escape_unicode (hg : g.char = 'u') (hrest : startsIn (· == '\x7b') rest = false) :
    escape stop (g :: rest) = fixedEscape stop 4 .invalidUnicodeEscape rest := by
  obtain ⟨_, p⟩ := g
  subst hg
  cases rest with
  | nil => rfl
  | cons brace inner => exact if_neg (beq_eq_false_iff_ne.mp hrest)

/-- What is read behind a backslash, if there is something behind it. -/
theorem escape_eq_ok (h : escape stop gs = .ok (chars, back)) (hback : back ≠ []) :
    ∃ e, Stands e gs back ∧ EscapeText e chars := by
  obtain _ | ⟨g, rest⟩ := gs
  · cases h
  cases hletter : letterEscape? g.char with
  | some chars' =>
    rw [escape_of_letter hletter] at h
    cases h
    exact ⟨_, Stands.cons_iff.mpr ⟨g, back, rfl, rfl, Stands.nil_iff.mpr rfl⟩, .letter hletter⟩
  | none =>
    obtain hx | hu | hnul := letterEscape?_eq_none hletter
    · rw [escape_hex hx] at h
      obtain ⟨text, code, hstands, hlength, hcode, rfl⟩ := fixedEscape_eq_ok h
      exact ⟨_, Stands.cons_iff.mpr ⟨g, rest, rfl, hx, hstands⟩, .hex hlength hcode⟩
    · cases hopens : startsIn (· == '\x7b') rest with
      | true =>
        obtain _ | ⟨brace, inner⟩ := rest
        · cases hopens
        have hbrace : brace.char = '\x7b' := beq_iff_eq.mp hopens
        rw [escape_braced hu hbrace] at h
        obtain ⟨text, code, hstands, hcode, rfl⟩ := bracedEscape_eq_ok h hback
        have hinner := Stands.cons_iff.mpr ⟨brace, inner, rfl, hbrace, hstands⟩
        exact ⟨_, Stands.cons_iff.mpr ⟨g, _, rfl, hu, hinner⟩, .braced hcode⟩
      | false =>
        rw [escape_unicode hu hopens] at h
        obtain ⟨text, code, hstands, hlength, hcode, rfl⟩ := fixedEscape_eq_ok h
        exact ⟨_, Stands.cons_iff.mpr ⟨g, rest, rfl, hu, hstands⟩, .unicode hlength hcode⟩
    · obtain ⟨_, p⟩ := g
      subst hnul
      cases h

theorem escape_of_text (he : EscapeText e chars) (hgs : Stands e gs back) :
    escape stop gs = .ok (chars, back) := by
  cases he with
  | letter hletter =>
    obtain ⟨g, rest, rfl, rfl, hrest⟩ := Stands.cons_iff.mp hgs
    obtain rfl := Stands.nil_iff.mp hrest
    exact escape_of_letter hletter
  | hex hlength hcode =>
    obtain ⟨g, rest, rfl, hx, hrest⟩ := Stands.cons_iff.mp hgs
    rw [escape_hex hx]
    exact fixedEscape_of_code hlength hcode hrest
  | @unicode text code hlength hcode =>
    obtain ⟨g, rest, rfl, hu, hrest⟩ := Stands.cons_iff.mp hgs
    -- A code does not begin with a brace, so it is not read as one in braces.
    have hnone : startsIn (· == '\x7b') rest = false := by
      obtain _ | ⟨c, text⟩ := text
      · cases hlength
      obtain ⟨g', rest', rfl, rfl, -⟩ := Stands.cons_iff.mp hrest
      exact beq_eq_false_iff_ne.mpr (hcode.ne_brace List.mem_cons_self).1
    rw [escape_unicode hu hnone]
    exact fixedEscape_of_code hlength hcode hrest
  | braced hcode =>
    obtain ⟨g, rest, rfl, hu, hrest⟩ := Stands.cons_iff.mp hgs
    obtain ⟨brace, inner, rfl, hbrace, hinner⟩ := Stands.cons_iff.mp hrest
    rw [escape_braced hu hbrace]
    exact bracedEscape_of_code hcode hinner

end Escapes

/-! ### Strings -/

/-- What may stand in a string between its quotes, and the text of the string. -/
inductive StringText (quote : Char) : List Char → List Char → Prop where
  | nil : StringText quote [] []
  | plain {c : Char} {body text : List Char} : c ≠ '\n' → c ≠ quote → c ≠ '\\' →
    StringText quote body text → StringText quote (c :: body) (c :: text)
  | escape {e chars body text : List Char} : EscapeText e chars → StringText quote body text →
    StringText quote ('\\' :: (e ++ body)) (chars ++ text)

/-- A string as it is written, in quotes of the one or the other kind, and its text. -/
inductive StringLiteral : List Char → List Char → Prop where
  | quoted {quote : Char} {body text : List Char} : quote = '\x22' ∨ quote = '\x27' →
    StringText quote body text → StringLiteral (quote :: (body ++ [quote])) text

section Strings

variable {quote : Char} {fuel : Nat} {acc body text lexeme : List Char}

/-- What is read behind a quote, if it is a string. -/
theorem stringFrom_eq_ok (h : stringFrom stop quote fuel acc gs = .ok (text, back)) :
    ∃ body value, Stands (body ++ [quote]) gs back ∧ StringText quote body value ∧
      text = acc.reverse ++ value := by
  induction fuel generalizing acc gs with
  | zero => cases h
  | succ fuel ih =>
    obtain _ | ⟨g, rest⟩ := gs
    · cases h
    rw [stringFrom] at h
    split at h
    · cases h
    rename_i hline
    split at h
    · rename_i hquote
      cases h
      refine ⟨[], [], ?_, .nil, (List.append_nil _).symm⟩
      exact Stands.cons_iff.mpr ⟨g, back, rfl, hquote, Stands.nil_iff.mpr rfl⟩
    rename_i hquote
    split at h
    · rename_i hback
      obtain ⟨⟨chars, rest'⟩, hescape, h⟩ := except_bind_eq_ok.mp h
      obtain ⟨body, value, hbody, hvalue, rfl⟩ := ih h
      -- The quote is behind the escape, so no code in braces was read to the end of the source.
      have hmore : rest' ≠ [] := by
        rintro rfl
        have hnone := hbody.length_le
        rw [List.length_append] at hnone
        exact absurd hnone (Nat.not_succ_le_zero _)
      obtain ⟨e, he, hchars⟩ := escape_eq_ok hescape hmore
      refine ⟨'\\' :: (e ++ body), chars ++ value, ?_, .escape hchars hvalue, ?_⟩
      · rw [List.cons_append, List.append_assoc]
        have hrest := Stands.append_iff.mpr ⟨rest', he, hbody⟩
        exact Stands.cons_iff.mpr ⟨g, rest, rfl, hback, hrest⟩
      · rw [List.reverse_append, List.reverse_reverse, List.append_assoc]
    · rename_i hback
      obtain ⟨body, value, hbody, hvalue, rfl⟩ := ih h
      refine ⟨g.char :: body, g.char :: value, ?_, .plain hline hquote hback hvalue, ?_⟩
      · exact Stands.cons_iff.mpr ⟨g, rest, rfl, rfl, hbody⟩
      · rw [List.reverse_cons, List.append_assoc]
        rfl

theorem stringFrom_of_escape {chars : List Char} (hquote : '\\' ≠ quote) (hg : g.char = '\\')
    (h : escape stop rest = .ok (chars, back)) :
    stringFrom stop quote (fuel + 1) acc (g :: rest) =
      stringFrom stop quote fuel (chars.reverse ++ acc) back := by
  rw [stringFrom, hg, if_neg (by decide), if_neg hquote, if_pos rfl, h]
  rfl

theorem stringFrom_of_text (h : StringText quote body text) (hline : quote ≠ '\n')
    (hback : quote ≠ '\\') (hfuel : body.length < fuel) (hgs : Stands (body ++ [quote]) gs back) :
    stringFrom stop quote fuel acc gs = .ok (acc.reverse ++ text, back) := by
  induction h generalizing fuel acc gs with
  | nil =>
    obtain ⟨fuel, rfl⟩ := Nat.exists_eq_add_one_of_ne_zero (Nat.ne_zero_of_lt hfuel)
    obtain ⟨g, rest, rfl, hg, hrest⟩ := Stands.cons_iff.mp hgs
    obtain rfl := Stands.nil_iff.mp hrest
    rw [stringFrom, hg, if_neg hline, if_pos rfl, List.append_nil]
  | @plain c body text hcline hcquote hcback _ ih =>
    obtain ⟨fuel, rfl⟩ := Nat.exists_eq_add_one_of_ne_zero (Nat.ne_zero_of_lt hfuel)
    obtain ⟨g, rest, rfl, rfl, hrest⟩ := Stands.cons_iff.mp hgs
    rw [stringFrom, if_neg hcline, if_neg hcquote, if_neg hcback,
      ih (Nat.lt_of_succ_lt_succ hfuel) hrest, List.reverse_cons, List.append_assoc]
    rfl
  | @escape e chars body text he _ ih =>
    obtain ⟨fuel, rfl⟩ := Nat.exists_eq_add_one_of_ne_zero (Nat.ne_zero_of_lt hfuel)
    rw [List.cons_append, List.append_assoc] at hgs
    obtain ⟨g, rest, rfl, hg, hrest⟩ := Stands.cons_iff.mp hgs
    obtain ⟨mid, hescape, hbody⟩ := Stands.append_iff.mp hrest
    rw [List.length_cons, List.length_append] at hfuel
    rw [stringFrom_of_escape hback.symm hg (escape_of_text he hescape), ih (by omega) hbody,
      List.reverse_append, List.reverse_reverse, List.append_assoc]

/-- The string tokens are the literals of strings. -/
theorem token_string_iff : token stop gs = .ok (.string, text, back) ↔
    ∃ lexeme, Stands lexeme gs back ∧ StringLiteral lexeme text := by
  constructor
  · intro h
    obtain _ | ⟨g, rest⟩ := gs
    · cases h
    unfold token at h
    dsimp only at h
    split at h
    · obtain ⟨r, -, h⟩ := except_bind_eq_ok.mp h
      cases h
    split at h
    · rename_i hquote
      obtain ⟨r, hbody, h⟩ := except_bind_eq_ok.mp h
      cases h
      rw [Bool.or_eq_true, decide_eq_true_eq, decide_eq_true_eq] at hquote
      obtain ⟨body, value, hstands, hvalue, rfl⟩ := stringFrom_eq_ok hbody
      exact ⟨_, Stands.cons_iff.mpr ⟨g, rest, rfl, rfl, hstands⟩, .quoted hquote hvalue⟩
    split at h
    · obtain ⟨r, -, h⟩ := except_bind_eq_ok.mp h
      cases h
    split at h
    · split at h <;> cases h
    · split at h <;> cases h
  · rintro ⟨_, hgs, @⟨quote, body, _, hquote, hbody⟩⟩
    obtain ⟨g, rest, rfl, rfl, hrest⟩ := Stands.cons_iff.mp hgs
    have hfuel : body.length < rest.length := by
      have hlength := hrest.length_le
      rw [List.length_append] at hlength
      exact hlength
    have hmark : g.char.isDigit = false ∧ g.char ≠ '.' ∧ g.char ≠ '\n' ∧ g.char ≠ '\\' := by
      obtain hquote | hquote := hquote
      all_goals
        rw [hquote]
        decide
    obtain ⟨hdigit, hpoint, hline, hback⟩ := hmark
    have htext : stringBody stop g.char rest = .ok (text, back) :=
      stringFrom_of_text hbody hline hback hfuel hrest
    rw [token, hdigit, if_neg (by simp [hpoint]), if_pos (by simpa using hquote), htext]
    rfl

/-- Wherever a string stands, it is one token. -/
theorem spelled_stringLiteral (h : StringLiteral lexeme text) :
    Spelled lexeme [(.string, String.ofList text)] := by
  intro stop gs back hgs _
  have htoken : token stop gs = .ok (.string, text, back) := token_string_iff.mpr ⟨lexeme, hgs, h⟩
  obtain ⟨hquote, -⟩ := h
  obtain ⟨g, rest, rfl, rfl, -⟩ := Stands.cons_iff.mp hgs
  have hmark : Text.isBlank g.char = false ∧ g.char ≠ '/' := by
    obtain hquote | hquote := hquote
    all_goals
      rw [hquote]
      decide
  exact .token hmark.1 hmark.2 htoken

end Strings

/-! ### Strings of documents -/

section Documents

variable {body text : List Char}

theorem charOfCode_toNat (c : Char) : charOfCode c.toNat = c := by
  have hvalid : c.toNat.isValidChar := c.valid
  have hchar := charOfCode_spec c.toNat
  rw [if_pos hvalid] at hchar
  exact Char.toNat_inj.mp hchar

theorem escapeCode_hexPair {n : Nat} (hn : n < 32) :
    EscapeCode ('0' :: '0' :: Document.hexPair n) n := by
  have hcode : escapeCode? ('0' :: '0' :: Document.hexPair n) = some n := by
    interval_cases n <;> rfl
  exact escapeCode?_eq_some.mp hcode

/-- What the writer of documents puts for a character says that character. -/
theorem StringText.escapeChar (h : StringText '\x22' body text) (c : Char) :
    StringText '\x22' (Document.escapeChar c ++ body) (c :: text) := by
  have hletter {e : Char} (he : letterEscape? e = some [c]) :
      StringText '\x22' ('\\' :: ([e] ++ body)) (c :: text) := .escape (.letter he) h
  unfold Document.escapeChar
  split_ifs with hquote hback hline hreturn htab hbell hfeed hcontrol
  · exact hletter (by rw [hquote]; rfl)
  · exact hletter (by rw [hback]; rfl)
  · exact hletter (by rw [hline]; rfl)
  · exact hletter (by rw [hreturn]; rfl)
  · exact hletter (by rw [htab]; rfl)
  · exact hletter (by rw [hbell]; rfl)
  · exact hletter (by rw [hfeed]; rfl)
  · have hcode := StringText.escape (.unicode rfl (escapeCode_hexPair hcontrol)) h
    rw [charOfCode_toNat] at hcode
    exact hcode
  · exact .plain hline hquote hback h

/-- What the writer of documents puts into quotes is a string. -/
theorem stringLiteral_stringText (s : String) : StringLiteral (Document.stringText s) s.toList := by
  have htext (cs : List Char) : StringText '\x22' (cs.flatMap Document.escapeChar) cs := by
    induction cs with
    | nil => exact .nil
    | cons c cs ih =>
      rw [List.flatMap_cons]
      exact ih.escapeChar c
  exact .quoted (.inl rfl) (htext s.toList)

theorem spelled_stringText (s : String) : Spelled (Document.stringText s) [(.string, s)] := by
  have hspelled := spelled_stringLiteral (stringLiteral_stringText s)
  rw [String.ofList_toList] at hspelled
  exact hspelled

end Documents

end MemoryShell.Script
