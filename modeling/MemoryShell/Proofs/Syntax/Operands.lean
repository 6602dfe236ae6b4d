/-
  MemoryShell/Proofs/Syntax/Operands.lean
  =======================================
  **Words with a space between them, and the names and numbers among them.**

  A text that is one token when it stands alone is that token before a blank as well.  So words with
  spaces between them are read as the tokens that they are.  Among the words are operators, which
  are never read as more or less than they are written, and operands: names and numbers.  Every
  number that is read has a value.
-/
import MemoryShell.Proofs.Syntax.Operators
import MemoryShell.Proofs.Syntax.Spacing
import MemoryShell.Proofs.Syntax.Spelling
import MemoryShell.Script.Grammar

namespace MemoryShell.Script

variable {stop : Position} {g : Glyph} {gs rest back : List Glyph} {c : Char} {text : List Char}

/-! ### Words -/

/-- A text that is read as one token. -/
def ReadWhole (text : List Char) (s : Spelling) : Prop :=
  ∃ stop gs, gs.map Glyph.char = text ∧ token stop gs = .ok (s.1, s.2.toList, [])

/-- It is read so before whatever ends a token, too. -/
theorem ReadWhole.token {s : Spelling} (h : ReadWhole text s) (hne : text ≠ [])
    (hgs : Stands text gs back) (hback : Fenced back) :
    token stop gs = .ok (s.1, s.2.toList, back) := by
  obtain ⟨stop', gs', hchars, htoken⟩ := h
  obtain ⟨front, hfront, rfl⟩ := hgs
  have hupTo : UpTo [] back (gs' ++ []) (front ++ back) :=
    UpTo.done.append (hfront.trans hchars.symm)
  rw [List.append_nil] at hupTo
  have hlength : 0 < gs'.length := by
    rw [← List.length_map (f := Glyph.char), hchars]
    exact List.length_pos_iff.mpr hne
  obtain ⟨⟨text', rest'⟩, htoken', rfl, hrest⟩ :=
    token_upTo stop fenced_nil hback hupTo hlength htoken (Nat.zero_le _)
  cases hrest
  exact htoken'

/-- A text that is one token, and begins neither with a blank nor with a comment. -/
structure IsWord (text : List Char) (s : Spelling) : Prop where
  whole : ReadWhole text s
  begins : ∃ c cs, text = c :: cs ∧ Text.isBlank c = false ∧ (c = '/' → cs = [])

/-- A word behind blanks, and before a blank or at the end. -/
theorem IsWord.lexesTo {s : Spelling} {pad : List Char} (h : IsWord text s)
    (hpad : ∀ c ∈ pad, Text.isBlank c = true) (hgs : Stands (pad ++ text) gs back)
    (hback : Spaced back) : LexesTo stop gs [s] back := by
  obtain ⟨c, cs, rfl, hblank, hslash⟩ := h.begins
  obtain ⟨front, ⟨blank, hblanks, rfl⟩, htext⟩ := Stands.append_iff.mp hgs
  have htoken : token stop _ = _ := h.whole.token (List.cons_ne_nil _ _) htext hback.fenced
  obtain ⟨g, rest, rfl, rfl, hrest⟩ := Stands.cons_iff.mp htext
  have hspan : blanks (blank ++ g :: rest) = (blank.map Glyph.char, g :: rest) :=
    spanChars_append (hblanks ▸ hpad) hblank
  have hnone : opensComment (g :: rest) = false := by
    by_cases hc : g.char = '/'
    · obtain rfl := Stands.nil_iff.mp (hslash hc ▸ hrest)
      exact opensComment_upTo hback (.done : UpTo [] rest [] rest) rfl
        (by rw [opensComment, startsIn, Bool.and_false])
    · rw [opensComment, decide_eq_false hc, Bool.false_and]
  intro us last hus
  have hlexes := Lexes.next (congrArg Prod.snd hspan) hnone htoken hus
  rw [String.ofList_toList] at hlexes
  exact ⟨[_], rfl, hlexes⟩

/-- Words with a space between them are read as their tokens. -/
theorem IsWord.lexesTo_words {s : Spelling} {texts : List (List Char)} {spellings : List Spelling}
    {pad : List Char} (h : IsWord text s) (hmore : List.Forall₂ IsWord texts spellings)
    (hpad : ∀ c ∈ pad, Text.isBlank c = true)
    (hgs : Stands (pad ++ [' '].intercalate (text :: texts)) gs []) :
    LexesTo stop gs (s :: spellings) [] := by
  induction hmore generalizing text s pad gs with
  | nil =>
    rw [List.intercalate_singleton] at hgs
    exact h.lexesTo hpad hgs spaced_nil
  | @cons text' s' texts spellings hnext _ ih =>
    rw [List.intercalate_cons_cons, List.append_assoc, ← List.append_assoc pad] at hgs
    obtain ⟨mid, htext, hmid⟩ := Stands.append_iff.mp hgs
    have hspaced : Spaced mid := by
      obtain ⟨g, rest, rfl, hg, -⟩ := Stands.cons_iff.mp hmid
      rintro _ _ ⟨⟩
      rw [hg]
      rfl
    have hspace : ∀ c ∈ [' '], Text.isBlank c = true := List.all_eq_true.mp rfl
    exact (h.lexesTo hpad htext hspaced).append (ih hnext hspace hmid)

/-! ### Operators -/

theorem Operator.isWord (op : Operator) :
    IsWord op.spelling.toList (.symbol op.symbol, op.spelling) := by
  refine ⟨⟨(glyphs op.spelling).2, (glyphs op.spelling).1, glyphs_chars _, ?_⟩, ?_⟩
  · rcases op with op | op <;> cases op <;> rfl
  · rcases op with op | op <;> cases op <;> exact ⟨_, _, rfl, rfl, by decide⟩

/-! ### The values of numbers -/

/-- One digit or more. -/
def IsDigits (cs : List Char) : Prop := cs ≠ [] ∧ ∀ c ∈ cs, c.isDigit = true

/-- What may stand behind the digits of a number: a point and digits. -/
inductive IsFraction : List Char → Prop where
  | none : IsFraction []
  | point {digits : List Char} : IsDigits digits → IsFraction ('.' :: digits)

/-- What may stand behind that: an exponent, with or without a sign. -/
inductive IsExponent : List Char → Prop where
  | none : IsExponent []
  | unsigned {mark : Char} {digits : List Char} :
      mark = 'e' ∨ mark = 'E' → IsDigits digits → IsExponent (mark :: digits)
  | signed {mark sign : Char} {digits : List Char} :
      mark = 'e' ∨ mark = 'E' → sign = '+' ∨ sign = '-' → IsDigits digits →
      IsExponent (mark :: sign :: digits)

theorem isDigits_spanChars (h : startsIn Char.isDigit gs = true) :
    IsDigits (spanChars Char.isDigit gs).1 := by
  obtain _ | ⟨g, gs⟩ := gs
  · cases h
  have hall : ∀ c ∈ (spanChars Char.isDigit (g :: gs)).1, c.isDigit = true := by
    intro c hc
    obtain ⟨g', hg', rfl⟩ := List.mem_map.mp hc
    exact List.all_eq_true.mp List.all_takeWhile g' hg'
  refine ⟨?_, hall⟩
  have hg : g.char.isDigit = true := h
  rw [spanChars, List.takeWhile_cons, if_pos hg]
  exact List.cons_ne_nil _ _

theorem isFraction_fraction (gs : List Glyph) : IsFraction (fraction gs).1 := by
  unfold fraction
  split
  · exact .none
  · split
    · split
      · exact .point (isDigits_spanChars ‹_›)
      · split <;> exact .none
    · exact .none

theorem isExponent_exponent (gs : List Glyph) : IsExponent (exponent gs).1 := by
  unfold exponent
  split
  · exact .none
  · split
    · rename_i hmark
      rw [Bool.or_eq_true, decide_eq_true_eq, decide_eq_true_eq] at hmark
      split
      · exact .unsigned hmark (isDigits_spanChars ‹_›)
      · split
        · split
          · rename_i hsign
            rw [Bool.and_eq_true, Bool.or_eq_true, decide_eq_true_eq, decide_eq_true_eq] at hsign
            exact .signed hmark hsign.1 (isDigits_spanChars hsign.2)
          · exact .none
        · exact .none
    · exact .none

theorem readSign_of_head {cs : List Char} (h : ∀ c ∈ cs.head?, c.isDigit = true ∨ c = '.') :
    Decimal.readSign cs = (false, cs) := by
  unfold Decimal.readSign
  split
  · rcases h _ rfl with h | h <;> cases h
  · rcases h _ rfl with h | h <;> cases h
  · rfl

theorem IsDigits.readSign {digits : List Char} (h : IsDigits digits) :
    Decimal.readSign digits = (false, digits) :=
  readSign_of_head fun c hc => .inl (h.2 c (List.mem_of_mem_head? hc))

theorem isSome_readExponent {mark : Char} {rest digits : List Char} {negative : Bool}
    (hmark : mark = 'e' ∨ mark = 'E') (hrest : Decimal.readSign rest = (negative, digits))
    (hdigits : IsDigits digits) : (Decimal.readExponent (mark :: rest)).isSome = true := by
  unfold Decimal.readExponent
  dsimp only
  rw [if_pos hmark, hrest]
  dsimp only
  rw [List.all_eq_true.mpr hdigits.2, List.isEmpty_eq_false_iff.mpr hdigits.1]
  rfl

theorem IsExponent.isSome {cs : List Char} (h : IsExponent cs) :
    (Decimal.readExponent cs).isSome = true := by
  cases h with
  | none => rfl
  | unsigned hmark hdigits => exact isSome_readExponent hmark hdigits.readSign hdigits
  | signed hmark hsign hdigits =>
    rcases hsign with rfl | rfl
    · exact isSome_readExponent hmark rfl hdigits
    · exact isSome_readExponent hmark rfl hdigits

/-- Digits before what begins with none. -/
theorem span_digits {digits rest : List Char} (hdigits : ∀ c ∈ digits, c.isDigit = true)
    (hrest : ∀ c ∈ rest.head?, c.isDigit = false) :
    (digits ++ rest).takeWhile Char.isDigit = digits ∧
      (digits ++ rest).dropWhile Char.isDigit = rest := by
  rw [List.takeWhile_append_of_pos hdigits, List.dropWhile_append_of_pos hdigits]
  cases rest with
  | nil => exact ⟨List.append_nil _, rfl⟩
  | cons c rest =>
    have hc : ¬ c.isDigit = true := Bool.eq_false_iff.mp (hrest c rfl)
    rw [List.takeWhile_cons_of_neg hc, List.dropWhile_cons_of_neg hc, List.append_nil]
    exact ⟨rfl, rfl⟩

theorem IsExponent.head {cs : List Char} (h : IsExponent cs) :
    ∀ c ∈ cs.head?, c.isDigit = false ∧ c ≠ '.' := by
  cases h with
  | none => nofun
  | unsigned hmark _ | signed hmark _ _ =>
    rintro _ ⟨⟩
    rcases hmark with rfl | rfl <;> exact ⟨rfl, by decide⟩

/-- A number has a value if it has a digit before or behind its point. -/
theorem isSome_read? {whole fraction exponent : List Char}
    (hwhole : ∀ c ∈ whole, c.isDigit = true) (hfraction : IsFraction fraction)
    (hexponent : IsExponent exponent) (hne : whole ≠ [] ∨ fraction ≠ []) :
    (Decimal.read? (whole ++ (fraction ++ exponent))).isSome = true := by
  have hsign : Decimal.readSign (whole ++ (fraction ++ exponent)) =
      (false, whole ++ (fraction ++ exponent)) := by
    refine readSign_of_head fun c hc => ?_
    obtain _ | ⟨c', whole⟩ := whole
    · cases hfraction with
      | none => exact absurd rfl (hne.resolve_left fun h => h rfl)
      | point _ =>
        cases hc
        exact .inr rfl
    · cases hc
      exact .inl (hwhole c List.mem_cons_self)
  have hexp := hexponent.isSome
  unfold Decimal.read? Decimal.Written.ofText?
  rw [hsign, Option.isSome_map]
  dsimp only
  cases hfraction with
  | none =>
    obtain ⟨htake, hdrop⟩ := span_digits hwhole fun c hc => (hexponent.head c hc).1
    have hnone : whole.isEmpty = false :=
      List.isEmpty_eq_false_iff.mpr (hne.resolve_right fun h => h rfl)
    rw [List.nil_append, htake, hdrop]
    split
    · exact absurd rfl (hexponent.head '.' rfl).2
    · rw [hnone, Bool.false_and, if_neg Bool.false_ne_true, Option.isSome_map]
      exact hexp
  | @point digits hdigits =>
    have hpoint : ∀ c ∈ ('.' :: (digits ++ exponent)).head?, c.isDigit = false := by
      rintro _ ⟨⟩
      rfl
    obtain ⟨htake, hdrop⟩ := span_digits hwhole hpoint
    obtain ⟨htake', hdrop'⟩ := span_digits hdigits.2 fun c hc => (hexponent.head c hc).1
    rw [List.cons_append, htake, hdrop]
    split
    · rename_i hpointed
      cases hpointed
      rw [htake', hdrop', List.isEmpty_eq_false_iff.mpr hdigits.1, Bool.and_false,
        if_neg Bool.false_ne_true, Option.isSome_map]
      exact hexp
    · rename_i hnone
      exact absurd rfl (hnone _)

theorem isSome_decimal
    (h : (g.char.isDigit || (g.char = '.' && startsIn Char.isDigit rest)) = true) :
    (Decimal.read? (number.decimal (g :: rest)).1).isSome = true := by
  unfold number.decimal
  dsimp only
  rw [List.append_assoc]
  refine isSome_read? (fun c hc => ?_) (isFraction_fraction _) (isExponent_exponent _) ?_
  · obtain ⟨hspan, hmark⟩ := List.mem_filter.mp hc
    obtain ⟨g', hg', rfl⟩ := List.mem_map.mp hspan
    have hclass := List.all_eq_true.mp List.all_takeWhile g' hg'
    exact (Bool.or_eq_true_iff.mp hclass).resolve_right (ne_true_of_eq_false
      (beq_false_of_ne (bne_iff_ne.mp hmark)))
  · by_cases hdigit : g.char.isDigit = true
    · refine .inl (List.ne_nil_of_mem (a := g.char) (List.mem_filter.mpr ⟨?_, ?_⟩))
      · rw [spanChars, List.takeWhile_cons, if_pos (by rw [hdigit]; rfl)]
        exact List.mem_cons_self
      · refine bne_iff_ne.mpr fun hmark => ?_
        rw [hmark] at hdigit
        cases hdigit
    · obtain ⟨hpoint, hnext⟩ : g.char = '.' ∧ startsIn Char.isDigit rest = true := by
        simpa [hdigit] using h
      have hspan : spanChars (fun c => c.isDigit || c == '_') (g :: rest) = ([], g :: rest) :=
        spanChars_of_startsIn (by rw [startsIn, hpoint]; rfl)
      rw [hspan, fraction]
      dsimp only
      rw [if_pos hpoint, if_pos hnext]
      exact .inr (List.cons_ne_nil _ _)

/-- Every number that is read has a value. -/
theorem isSome_of_number (h : token stop gs = .ok (.number, text, rest)) :
    (Decimal.read? text).isSome = true := by
  unfold token at h
  split at h
  · cases h
  split at h
  · rename_i g more hnumeric
    obtain ⟨⟨text', rest'⟩, hnumber, h⟩ := except_bind_eq_ok.mp h
    cases h
    have hdecimal := isSome_decimal hnumeric
    unfold number at hnumber
    split at hnumber
    · rename_i heq
      cases heq
      split at hnumber
      · unfold hexLiteral at hnumber
        dsimp only at hnumber
        split at hnumber
        · cases hnumber
        · cases hnumber
          rw [← List.append_nil (Nat.toDigits _ _), ← List.append_nil []]
          exact isSome_read? (fun c hc => Nat.isDigit_of_mem_toDigits (by decide) (by decide) hc)
            .none .none (.inl Nat.toDigits_ne_nil)
      · cases hnumber
        exact hdecimal
    · cases hnumber
      exact hdecimal
  split at h
  · obtain ⟨r, -, h⟩ := except_bind_eq_ok.mp h
    cases h
  split at h
  · obtain ⟨r, -, h⟩ := except_bind_eq_ok.mp h
    cases h
  split at h
  · dsimp only at h
    split at h <;> cases h
  · split at h <;> cases h

/-! ### Operands -/

/-- Neither a name nor a number begins with a blank, or with the mark of a comment. -/
theorem not_mem_fences_of_token {kind : TokenKind}
    (h : token stop (g :: gs) = .ok (kind, text, rest))
    (hkind : kind = .identifier ∨ kind = .number) : g.char ∉ fences := by
  intro hmem
  have hopening : fences.any
      (fun c => c == '.' || c == '\x22' || c == '\x27' || c == '\x60') = false := by decide
  have hmarks := forall_fences hopening g.char hmem
  simp only [Bool.or_eq_false_iff, beq_eq_false_iff_ne] at hmarks
  obtain ⟨⟨⟨hpoint, hdouble⟩, hsingle⟩, hmark⟩ := hmarks
  unfold token at h
  dsimp only at h
  rw [fences_digit _ hmem, fences_nameStart _ hmem, if_neg (by simp [hpoint]),
    if_neg (by simp [hdouble, hsingle]), if_neg hmark, if_neg nofun] at h
  split at h
  · cases h
    rcases hkind with h | h <;> cases h
  · cases h

/-- A name or a number as it is written, and the token that it is. -/
structure Operand where
  written : String
  kind : TokenKind
  text : String
  reads : ReadWhole written.toList (kind, text)
  simple : kind = .identifier ∨ kind = .number

namespace Operand

variable (x : Operand)

def spelling : Spelling := (x.kind, x.text)

theorem isSome_value (h : x.kind = .number) : (Decimal.read? x.text.toList).isSome = true := by
  obtain ⟨stop, gs, -, htoken⟩ := x.reads
  rw [show ((x.kind, x.text) : Spelling).1 = .number from h] at htoken
  exact isSome_of_number htoken

/-- What an operand says by itself. -/
def expr : Expr :=
  if h : x.kind = .number then .number ((Decimal.read? x.text.toList).get (x.isSome_value h))
  else if x.text = "undefined" then .undefined
  else .ident x.text

theorem expr_of_identifier (h : x.kind = .identifier) :
    x.expr = if x.text = "undefined" then .undefined else .ident x.text := by
  unfold expr
  rw [dif_neg (by rw [h]; nofun)]

theorem expr_of_number (h : x.kind = .number) :
    ∃ v, Decimal.read? x.text.toList = some v ∧ x.expr = .number v := by
  unfold expr
  rw [dif_pos h]
  exact ⟨_, (Option.some_get _).symm, rfl⟩

theorem isWord : IsWord x.written.toList x.spelling := by
  refine ⟨x.reads, ?_⟩
  obtain ⟨stop, gs, hchars, htoken⟩ := x.reads
  have hsimple : x.kind = .identifier ∨ x.kind = .number := x.simple
  change token stop gs = .ok (x.kind, x.text.toList, []) at htoken
  obtain _ | ⟨g, rest⟩ := gs
  · have hstop : TokenKind.stop = x.kind := congrArg Prod.fst (Except.ok.inj htoken)
    rcases hsimple with h | h <;> rw [← hstop] at h <;> cases h
  have hfence := not_mem_fences_of_token htoken hsimple
  refine ⟨g.char, rest.map Glyph.char, hchars.symm, ?_, fun hslash => ?_⟩
  · exact Bool.eq_false_iff.mpr fun hblank => hfence (mem_fences_of_isBlank hblank)
  · exact absurd (by rw [hslash]; decide) hfence

end Operand

/-! ### Chains -/

namespace Chain

/-- The words of a chain. -/
def words (c : Chain Operand) : List String :=
  c.first.written :: c.rest.flatMap fun (op, x) => [op.spelling, x.written]

/-- A chain as it is written: its words with a space between them. -/
def source (c : Chain Operand) : String := " ".intercalate c.words

theorem intercalate_words (word : String) (rest : List (Operator × Operand)) :
    " ".intercalate (word :: rest.flatMap fun (op, x) => [op.spelling, x.written]) =
      word ++ String.join (rest.map fun (op, x) => " " ++ op.spelling ++ " " ++ x.written) := by
  induction rest generalizing word with
  | nil => rw [List.flatMap_nil, String.intercalate_singleton, List.map_nil, String.join_nil,
      String.append_empty]
  | cons next rest ih =>
    obtain ⟨op, x⟩ := next
    rw [List.flatMap_cons, List.cons_append, List.cons_append, List.nil_append,
      String.intercalate_cons_of_ne_nil (List.cons_ne_nil _ _),
      String.intercalate_cons_of_ne_nil (List.cons_ne_nil _ _), ih, List.map_cons,
      String.join_cons]
    simp only [String.append_assoc]

/-- What is behind the first operand is written with spaces before the words. -/
theorem source_eq (c : Chain Operand) :
    c.source = c.first.written ++
      String.join (c.rest.map fun (op, x) => " " ++ op.spelling ++ " " ++ x.written) :=
  intercalate_words _ _

/-- The tokens of a chain. -/
def spellings (c : Chain Operand) : List Spelling :=
  c.first.spelling :: c.rest.flatMap fun (op, x) => [(.symbol op.symbol, op.spelling), x.spelling]

theorem spellings_append (c : Chain Operand) (op : Operator) (c' : Chain Operand) :
    (c.append op c').spellings =
      c.spellings ++ (.symbol op.symbol, op.spelling) :: c'.spellings := by
  rw [spellings, append, List.flatMap_append, List.flatMap_cons, spellings, spellings]
  rfl

theorem isWord_rest (rest : List (Operator × Operand)) :
    List.Forall₂ IsWord
      ((rest.flatMap fun (op, x) => [op.spelling, x.written]).map String.toList)
      (rest.flatMap fun (op, x) => [(.symbol op.symbol, op.spelling), x.spelling]) := by
  induction rest with
  | nil => exact .nil
  | cons next rest ih => exact .cons next.1.isWord (.cons next.2.isWord ih)

/-- A chain is read as its tokens. -/
theorem tokenize_source (c : Chain Operand) :
    ∃ ts p, tokenize c.source = .ok ⟨ts, ⟨.stop, "", p, false⟩⟩ ∧
      ts.map Token.spelling = c.spellings := by
  refine tokenize_of_lexesTo fun stop gs hgs => ?_
  have htext : c.source.toList = [] ++ [' '].intercalate (c.words.map String.toList) :=
    String.toList_intercalate
  rw [htext] at hgs
  exact c.first.isWord.lexesTo_words (isWord_rest c.rest) (by nofun) hgs

end Chain

end MemoryShell.Script
