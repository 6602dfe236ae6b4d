/-
  MemoryShell/Proofs/Syntax/Hexadecimal.lean
  ==========================================
  **What is taken for a hexadecimal number.**

  Strings can name a character by its code, and text can be a number behind a mark.  What is read
  there is digits, but not only digits: a sign is allowed before them, a plus sign in a string and
  both signs in text.
-/
import MemoryShell.Proofs.Syntax.Extents
import MemoryShell.Proofs.Syntax.Strings
import MemoryShell.Script.Functions

namespace MemoryShell.Script

variable {stop : Position} {gs : List Glyph}

/-! ### Strings -/

/-- The string tokens of a source are literals of strings, where they say that they stand. -/
theorem Cuts.stringLiterals {cut : Cut} {ts : List Token} {last t : Token}
    (h : Cuts stop gs cut ts last) {before : List Char} (hplaced : Placed stop before gs)
    (ht : t ∈ ts) (hkind : t.kind = .string) :
    ∃ front lexeme rest, gs.map Glyph.char = front ++ (lexeme ++ rest) ∧
      t.position = placeAt (before ++ front) ∧ StringLiteral lexeme t.text.toList := by
  induction h generalizing before with
  | done => cases ht
  | @next run lexeme rest g kind text cut ts last hrun htoken _ ih =>
    have hfront := hplaced.behind
    obtain rfl | ht := List.mem_cons.mp ht
    · obtain rfl : kind = .string := hkind
      obtain ⟨lexeme', ⟨front, rfl, hlexeme⟩, hliteral⟩ := token_string_iff.mp htoken
      refine ⟨run.map Glyph.char, front.map Glyph.char, rest.map Glyph.char, ?_, hfront.here, ?_⟩
      · rw [hlexeme, List.map_append, List.map_append]
      · rw [String.toList_ofList]
        exact hliteral
    · rw [show g :: (lexeme ++ rest) = (g :: lexeme) ++ rest from rfl] at hfront ⊢
      obtain ⟨front, lexeme', rest', hrest, hposition, hliteral⟩ := ih hfront.behind ht
      refine ⟨run.map Glyph.char ++ (g :: lexeme).map Glyph.char ++ front, lexeme', rest', ?_, ?_,
        hliteral⟩
      · rw [List.map_append, List.map_append, hrest]
        simp only [List.append_assoc]
      · rw [hposition]
        simp only [List.append_assoc]

/-! ### Numbers -/

/-- What text may have behind its hexadecimal mark, and the number that it is. -/
inductive HexNumber : List Char → Float → Prop where
  | plain {digits : List Char} : IsHex digits → hexValue digits < 2 ^ 63 →
    HexNumber digits (Float.ofNat (hexValue digits))
  | plus {digits : List Char} : IsHex digits → hexValue digits < 2 ^ 63 →
    HexNumber ('+' :: digits) (Float.ofNat (hexValue digits))
  | minus {digits : List Char} : IsHex digits → hexValue digits ≤ 2 ^ 63 →
    HexNumber ('-' :: digits) (-Float.ofNat (hexValue digits))

section Numbers

variable {text digits : List Char} {negative : Bool} {x : Float}

theorem digitIn?_hex (c : Char) :
    digitIn? 16 c = if isHexDigit c then some (hexDigitValue c) else none := by
  have hle (d d' : Char) : d ≤ d' ↔ d.toNat ≤ d'.toNat := Iff.rfl
  unfold digitIn? digitOf? isHexDigit hexDigitValue
  simp only [hle, Bool.or_eq_true, Bool.and_eq_true, decide_eq_true_iff]
  have hdigit : c.isDigit = true → 48 ≤ c.toNat ∧ c.toNat ≤ 57 := fun h => by
    rw [Char.isDigit, Bool.and_eq_true, decide_eq_true_iff, decide_eq_true_iff] at h
    exact h
  have hletters : 'a'.toNat = 97 ∧ 'f'.toNat = 102 ∧ 'z'.toNat = 122 ∧ 'A'.toNat = 65 ∧
      'F'.toNat = 70 ∧ 'Z'.toNat = 90 := ⟨rfl, rfl, rfl, rfl, rfl, rfl⟩
  obtain ⟨ha, hf, hz, hA, hF, hZ⟩ := hletters
  rw [ha, hf, hz, hA, hF, hZ]
  split_ifs
  all_goals
    simp only [Option.filter_some, Option.filter_none]
  all_goals grind

theorem mapM_digitIn?_hex (digits : List Char) :
    digits.mapM (digitIn? 16) =
      if digits.all isHexDigit then some (digits.map hexDigitValue) else none := by
  induction digits with
  | nil => rfl
  | cons c digits ih =>
    rw [List.mapM_cons, ih, digitIn?_hex, List.all_cons]
    cases isHexDigit c with
    | false => rfl
    | true => cases digits.all isHexDigit <;> rfl

theorem IsHex.readSign (h : IsHex digits) : Decimal.readSign digits = (false, digits) := by
  unfold Decimal.readSign
  split
  · cases h.hex '-' List.mem_cons_self
  · cases h.hex '+' List.mem_cons_self
  · rfl

/-- What is read as a number, by its sign and what is behind it. -/
theorem hexNumber_iff (hsign : Decimal.readSign text = (negative, digits)) :
    HexNumber text x ↔ IsHex digits ∧
      if negative then hexValue digits ≤ 2 ^ 63 ∧ x = -Float.ofNat (hexValue digits)
      else hexValue digits < 2 ^ 63 ∧ x = Float.ofNat (hexValue digits) := by
  constructor
  · rintro (⟨hhex, hsmall⟩ | ⟨hhex, hsmall⟩ | ⟨hhex, hsmall⟩)
    · rw [hhex.readSign] at hsign
      cases hsign
      exact ⟨hhex, hsmall, rfl⟩
    all_goals
      cases hsign
      exact ⟨hhex, hsmall, rfl⟩
  · rintro ⟨hhex, hvalue⟩
    unfold Decimal.readSign at hsign
    split at hsign
    all_goals
      cases hsign
      obtain ⟨hsmall, rfl⟩ := hvalue
    · exact .minus hhex hsmall
    · exact .plus hhex hsmall
    · exact .plain hhex hsmall

theorem readHex_of_hex (hsign : Decimal.readSign text = (negative, digits)) (hhex : IsHex digits) :
    readHex text =
      if negative then
        if hexValue digits ≤ 2 ^ 63 then -Float.ofNat (hexValue digits) else notANumber
      else if hexValue digits < 2 ^ 63 then Float.ofNat (hexValue digits)
      else notANumber := by
  have hvalue : (digits.map hexDigitValue).foldl (fun n d => 16 * n + d) 0 = hexValue digits :=
    List.foldl_map
  obtain ⟨d, ds, hmap⟩ := List.exists_cons_of_ne_nil
    (mt List.map_eq_nil_iff.mp hhex.nonempty : digits.map hexDigitValue ≠ [])
  rw [readHex, hsign]
  dsimp only
  rw [mapM_digitIn?_hex, if_pos (List.all_eq_true.mpr hhex.hex), hmap]
  dsimp only
  rw [← hmap, hvalue]
  rfl

theorem readHex_of_not_hex (hsign : Decimal.readSign text = (negative, digits))
    (hnot : ¬ IsHex digits) : readHex text = notANumber := by
  rw [readHex, hsign]
  dsimp only
  rw [mapM_digitIn?_hex]
  by_cases hall : digits.all isHexDigit = true
  · obtain rfl : digits = [] := by
      by_contra hsome
      exact hnot ⟨hsome, List.all_eq_true.mp hall⟩
    rfl
  · rw [if_neg hall]

/-- Text behind a mark is the number that it should be, or none if it should be none. -/
theorem readHex_spec (text : List Char) :
    HexNumber text (readHex text) ∨ readHex text = notANumber ∧ ∀ x, ¬ HexNumber text x := by
  generalize hsign : Decimal.readSign text = r
  obtain ⟨negative, digits⟩ := r
  simp only [hexNumber_iff hsign]
  by_cases hhex : IsHex digits
  · rw [readHex_of_hex hsign hhex]
    cases negative with
    | false =>
      by_cases hsmall : hexValue digits < 2 ^ 63
      · exact .inl ⟨hhex, hsmall, if_pos hsmall⟩
      · exact .inr ⟨if_neg hsmall, fun x h => hsmall h.2.1⟩
    | true =>
      by_cases hsmall : hexValue digits ≤ 2 ^ 63
      · exact .inl ⟨hhex, hsmall, if_pos hsmall⟩
      · exact .inr ⟨if_neg hsmall, fun x h => hsmall h.2.1⟩
  · exact .inr ⟨readHex_of_not_hex hsign hhex, fun x h => hhex h.1⟩

/-- Text with a mark is neither empty nor spelled as infinity. -/
theorem textToNumber_of_mark {s : String}
    (h : afterHexMark? (Text.trimChars s.toList) = some text) : textToNumber s = readHex text := by
  unfold textToNumber
  generalize Text.trimChars s.toList = trimmed at h
  dsimp only
  have hmark : ∃ c, trimmed = '0' :: c :: text := by
    unfold afterHexMark? at h
    split at h
    · cases h
      exact ⟨_, rfl⟩
    · cases h
      exact ⟨_, rfl⟩
    · cases h
  obtain ⟨c, rfl⟩ := hmark
  rw [if_neg nofun, if_neg (by rintro (heq | heq) <;> cases heq), if_neg (by intro heq; cases heq), h]

end Numbers

/-- **Hexadecimal text is hexadecimal digits, and a sign before them.**  In every source that has
    tokens, each string token is the literal of a string with the text of the token.  In it every
    escape that begins with `\x` or `\u` has for its code two, four or, in braces, any number of
    characters, which are hexadecimal digits but for a plus sign that the first may be; it stands
    for the character of this code, or the replacement character if the code has none.  And every
    such literal is read as that token wherever it stands.  A text behind whose blanks there is a
    hexadecimal mark is a number only if hexadecimal digits follow, with a sign allowed before
    them, and it is their number. -/
theorem hexadecimal_text {σ : Type} [Host σ] :
    (∀ source l, tokenize source = .ok l → ∀ t ∈ l.tokens, t.kind = .string →
      ∃ front lexeme rest, source.toList = front ++ (lexeme ++ rest) ∧
        t.position = placeAt front ∧ StringLiteral lexeme t.text.toList) ∧
    (∀ lexeme text, StringLiteral lexeme text →
      Spelled lexeme [(.string, String.ofList text)]) ∧
    (∀ code : Nat, if code.isValidChar then (charOfCode code).toNat = code
      else charOfCode code = '\uFFFD') ∧
    (∀ s text, afterHexMark? (Text.trimChars s.toList) = some text → ∃ x,
      (∀ args (m : Machine σ),
        Act.callNative .toNumber (.string s :: args) m = .ok (.number x) m) ∧
      (HexNumber text x ∨ x = notANumber ∧ ∀ y, ¬ HexNumber text y)) := by
  refine ⟨fun source l hl t ht hkind => ?_, fun _ _ => spelled_stringLiteral, charOfCode_spec,
    fun s text hs => ⟨readHex text, fun args m => ?_, readHex_spec text⟩⟩
  · obtain ⟨hcuts, -⟩ := tokenize_respaced hl
    rw [← glyphs_chars source]
    exact hcuts.stringLiterals (glyphs_placed source) ht hkind
  · rw [← textToNumber_of_mark hs]
    rfl

/-- A literal with two characters by their codes, and its token. -/
def namedByCodes : String := "'\\u\x7b1F60\x7d\\xe9'"

def namedByCodesToken : Token := ⟨.string, "\u1f60é", ⟨1, 1⟩, false⟩

theorem hexadecimal_text_named :
    (tokenize namedByCodes = .ok ⟨[namedByCodesToken], ⟨.stop, "", ⟨1, 15⟩, false⟩⟩ ∧
      afterHexMark? (Text.trimChars " 0xfF ".toList) = some ['f', 'F']) ∧
    (∃ front lexeme rest, namedByCodes.toList = front ++ (lexeme ++ rest) ∧
      namedByCodesToken.position = placeAt front ∧
      StringLiteral lexeme namedByCodesToken.text.toList) ∧
    ∃ x, (∀ args (m : Machine Tree),
        Act.callNative .toNumber (.string " 0xfF " :: args) m = .ok (.number x) m) ∧
      (HexNumber ['f', 'F'] x ∨ x = notANumber ∧ ∀ y, ¬ HexNumber ['f', 'F'] y) := by
  have htokens : tokenize namedByCodes =
      .ok ⟨[namedByCodesToken], ⟨.stop, "", ⟨1, 15⟩, false⟩⟩ :=
    tokenize_of_toOption (by decide +kernel)
  have hmark : afterHexMark? (Text.trimChars " 0xfF ".toList) = some ['f', 'F'] := by
    decide +kernel
  obtain ⟨hstrings, -, -, hnumbers⟩ := hexadecimal_text (σ := Tree)
  exact ⟨⟨htokens, hmark⟩, hstrings _ _ htokens _ List.mem_cons_self rfl, hnumbers _ _ hmark⟩

/-- A plus sign is accepted in the code of an escape, and a minus sign in the digits of a number. -/
theorem hexadecimal_text_signs :
    tokenize "'\\x+f'" =
      .ok ⟨[⟨.string, "\x0f", ⟨1, 1⟩, false⟩], ⟨.stop, "", ⟨1, 7⟩, false⟩⟩ ∧
    isHexDigit '+' = false ∧ (textToNumber "0x-5").isNaN = false ∧ isHexDigit '-' = false :=
  ⟨tokenize_of_toOption (by decide +kernel), rfl, by decide +kernel, rfl⟩

end MemoryShell.Script
