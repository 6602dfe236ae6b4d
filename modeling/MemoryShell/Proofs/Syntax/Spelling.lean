/-
  MemoryShell/Proofs/Syntax/Spelling.lean
  =======================================
  **What a text is read as, wherever it stands.**

  The tokens of a text depend on what stands behind it only where a name could go on there.  So a
  text is spelled by tokens if it is read as these in any source, as long as no name goes on behind
  it.  Marks and words are spelled by a token each, and texts that are set out between two marks by
  the tokens of all of them.
-/
import Mathlib.Data.List.Forall2
import MemoryShell.Document.Printer
import MemoryShell.Proofs.Syntax.Sources

namespace MemoryShell.Script

/-! ### Texts in a source -/

/-- What a token says: its kind and its text. -/
abbrev Spelling := TokenKind × String

def Token.spelling (t : Token) : Spelling := (t.kind, t.text)

variable {stop : Position} {gs rest back : List Glyph} {g : Glyph} {c : Char} {cs cs' : List Char}

/-- A text stands at the beginning of some glyphs, and others stand behind it. -/
def Stands (cs : List Char) (gs back : List Glyph) : Prop :=
  ∃ front, front.map Glyph.char = cs ∧ gs = front ++ back

namespace Stands

theorem nil_iff : Stands [] gs back ↔ gs = back := by
  constructor
  · rintro ⟨front, hfront, rfl⟩
    rw [List.map_eq_nil_iff.mp hfront]
    rfl
  · rintro rfl
    exact ⟨[], rfl, rfl⟩

theorem cons_iff :
    Stands (c :: cs) gs back ↔ ∃ g rest, gs = g :: rest ∧ g.char = c ∧ Stands cs rest back := by
  constructor
  · rintro ⟨front, hfront, rfl⟩
    obtain ⟨g, front, rfl, hg, hfront⟩ := List.map_eq_cons_iff.mp hfront
    exact ⟨g, front ++ back, rfl, hg, front, hfront, rfl⟩
  · rintro ⟨g, rest, rfl, rfl, front, rfl, rfl⟩
    exact ⟨g :: front, rfl, rfl⟩

theorem append_iff :
    Stands (cs ++ cs') gs back ↔ ∃ mid, Stands cs gs mid ∧ Stands cs' mid back := by
  constructor
  · rintro ⟨front, hfront, rfl⟩
    obtain ⟨front, front', rfl, hfront, hfront'⟩ := List.map_eq_append_iff.mp hfront
    exact ⟨front' ++ back, ⟨front, hfront, List.append_assoc _ _ _⟩, front', hfront', rfl⟩
  · rintro ⟨mid, ⟨front, rfl, rfl⟩, front', rfl, rfl⟩
    exact ⟨front ++ front', List.map_append, (List.append_assoc _ _ _).symm⟩

theorem length_le (h : Stands cs gs back) : cs.length ≤ gs.length := by
  obtain ⟨front, rfl, rfl⟩ := h
  rw [List.length_map, List.length_append]
  exact Nat.le_add_right _ _

end Stands

/-- What is read from some glyphs up to others says what it should. -/
def LexesTo (stop : Position) (gs : List Glyph) (spellings : List Spelling) (back : List Glyph) :
    Prop :=
  ∀ us last, Lexes stop back us last →
    ∃ ts : List Token, ts.map Token.spelling = spellings ∧ Lexes stop gs (ts ++ us) last

namespace LexesTo

variable {spellings spellings' : List Spelling} {mid : List Glyph}

theorem append (h : LexesTo stop gs spellings mid) (h' : LexesTo stop mid spellings' back) :
    LexesTo stop gs (spellings ++ spellings') back := by
  intro us last hback
  obtain ⟨ts', rfl, hmid⟩ := h' us last hback
  obtain ⟨ts, rfl, hgs⟩ := h (ts' ++ us) last hmid
  exact ⟨ts ++ ts', List.map_append, by rwa [List.append_assoc]⟩

/-- A character that is neither blank nor the beginning of a comment begins a token. -/
theorem token {kind : TokenKind} {text : List Char} (hblank : Text.isBlank g.char = false)
    (hslash : g.char ≠ '/') (h : token stop (g :: rest) = .ok (kind, text, back)) :
    LexesTo stop (g :: rest) [(kind, String.ofList text)] back := by
  intro us last hback
  have hblanks : blanks (g :: rest) = ([], g :: rest) := by
    rw [blanks_cons, hblank]
    rfl
  have hnone : opensComment (g :: rest) = false := by
    rw [opensComment, decide_eq_false hslash, Bool.false_and]
  have hlexes := Lexes.next (by rw [hblanks]) hnone h hback
  exact ⟨[_], rfl, hlexes⟩

end LexesTo

/-- Where a text stands and no name goes on behind it, it is read as tokens that say this. -/
def Spelled (text : List Char) (spellings : List Spelling) : Prop :=
  ∀ stop gs back, Stands text gs back → startsIn isNamePart back = false →
    LexesTo stop gs spellings back

theorem Spelled.nil : Spelled [] [] := by
  intro stop gs back hgs _ us last hback
  obtain rfl := Stands.nil_iff.mp hgs
  exact ⟨[], rfl, hback⟩

/-- One text behind another one that cannot run into it. -/
theorem Spelled.append {spellings spellings' : List Spelling} (h : Spelled cs spellings)
    (h' : Spelled (c :: cs') spellings') (hc : isNamePart c = false) :
    Spelled (cs ++ c :: cs') (spellings ++ spellings') := by
  intro stop gs back hgs hback
  obtain ⟨mid, hfirst, hsecond⟩ := Stands.append_iff.mp hgs
  obtain ⟨g, rest, rfl, hg, -⟩ := Stands.cons_iff.mp hsecond
  have hmid : startsIn isNamePart (g :: rest) = false := by
    rw [← hg] at hc
    exact hc
  exact (h stop gs _ hfirst hmid).append (h' stop _ back hsecond hback)

/-- The tokens of a source that is read as some, wherever it stands alone. -/
theorem tokenize_of_lexesTo {source : String} {spellings : List Spelling}
    (h : ∀ stop gs, Stands source.toList gs [] → LexesTo stop gs spellings []) :
    ∃ ts p, tokenize source = .ok ⟨ts, ⟨.stop, "", p, false⟩⟩ ∧
      ts.map Token.spelling = spellings := by
  have hchars := glyphs_chars source
  unfold tokenize
  generalize glyphs source = r at hchars ⊢
  obtain ⟨gs, stop⟩ := r
  have hstands : Stands source.toList gs [] := ⟨gs, hchars, (List.append_nil gs).symm⟩
  have hend : Lexes stop [] [] ⟨.stop, "", stop, false⟩ := .done rfl
  obtain ⟨ts, hts, hlexes⟩ := h stop gs hstands [] _ hend
  rw [List.append_nil] at hlexes
  exact ⟨ts, stop, hlexes.tokensFrom_eq (Nat.le_refl _), hts⟩

/-- The tokens of a source that is spelled by some. -/
theorem tokenize_of_spelled {source : String} {spellings : List Spelling}
    (h : Spelled source.toList spellings) :
    ∃ ts p, tokenize source = .ok ⟨ts, ⟨.stop, "", p, false⟩⟩ ∧
      ts.map Token.spelling = spellings :=
  tokenize_of_lexesTo fun stop gs hgs => h stop gs [] hgs rfl

/-! ### Marks and words -/

/-- A symbol of one character. -/
def mark (c : Char) (s : Symbol) : Spelling := (.symbol s, String.ofList [c])

/-- The marks of literals. -/
inductive Marks : Char → Symbol → Prop where
  | opensArray : Marks '[' .leftBracket
  | closesArray : Marks ']' .rightBracket
  | opensObject : Marks '\x7b' .leftBrace
  | closesObject : Marks '\x7d' .rightBrace
  | comma : Marks ',' .comma
  | colon : Marks ':' .colon
  | opensGroup : Marks '(' .leftParen
  | closesGroup : Marks ')' .rightParen

namespace Marks

variable {s : Symbol}

theorem symbol? (h : Marks c s) (cs : List Char) :
    ∃ text, symbol? Symbol.table (c :: cs) = some (text, s) ∧ text.toList = [c] := by
  cases h <;> exact ⟨_, rfl, rfl⟩

/-- A mark begins nothing but a symbol, and ends a name. -/
theorem outside (h : Marks c s) :
    c.isDigit = false ∧ isNameStart c = false ∧ isNamePart c = false ∧ Text.isBlank c = false := by
  cases h <;> exact ⟨rfl, rfl, rfl, rfl⟩

theorem ne (h : Marks c s) :
    (c ≠ '.' ∧ c ≠ '\x22' ∧ c ≠ '\x27' ∧ c ≠ '\x60') ∧ c ≠ '/' := by
  cases h <;> decide

/-- A text behind a mark. -/
theorem before {spellings : List Spelling} (h : Marks c s) (hcs : Spelled cs spellings) :
    Spelled (c :: cs) (mark c s :: spellings) := by
  intro stop gs back hgs hback
  obtain ⟨g, rest, rfl, rfl, hrest⟩ := Stands.cons_iff.mp hgs
  obtain ⟨hdigit, hname, -, hblank⟩ := h.outside
  have hmark : LexesTo stop (g :: rest) [mark g.char s] rest :=
    .token hblank h.ne.2 (token_symbol hdigit hname h.ne.1 h.symbol? stop rest)
  exact hmark.append (hcs stop rest back hrest hback)

theorem spelled (h : Marks c s) : Spelled [c] [mark c s] := h.before .nil

/-- A text before a mark. -/
theorem behind {spellings spellings' : List Spelling} (h : Marks c s) (hcs : Spelled cs spellings)
    (hcs' : Spelled (c :: cs') spellings') : Spelled (cs ++ c :: cs') (spellings ++ spellings') :=
  hcs.append hcs' h.outside.2.2.1

end Marks

theorem spanChars_append {p : Char → Bool} {front : List Glyph}
    (hfront : ∀ c ∈ front.map Glyph.char, p c = true) (hback : startsIn p back = false) :
    spanChars p (front ++ back) = (front.map Glyph.char, back) := by
  have hchars : ∀ g ∈ front, p g.char = true :=
    fun g hg => hfront g.char (List.mem_map_of_mem hg)
  have hnone : back.takeWhile (fun g => p g.char) = [] ∧
      back.dropWhile (fun g => p g.char) = back := by
    cases back with
    | nil => exact ⟨rfl, rfl⟩
    | cons g rest =>
      have hg : ¬ p g.char = true := Bool.eq_false_iff.mp hback
      exact ⟨List.takeWhile_cons_of_neg hg, List.dropWhile_cons_of_neg hg⟩
  unfold spanChars
  rw [List.takeWhile_append_of_pos hchars, List.dropWhile_append_of_pos hchars, hnone.1, hnone.2,
    List.append_nil]

/-- The words of literals. -/
inductive Words : List Char → Keyword → Prop where
  | nullWord : Words ['n', 'u', 'l', 'l'] .nullWord
  | trueWord : Words ['t', 'r', 'u', 'e'] .trueWord
  | falseWord : Words ['f', 'a', 'l', 's', 'e'] .falseWord

namespace Words

variable {word : Keyword}

/-- A word begins with a letter, which begins nothing but a name. -/
theorem begins (h : Words (c :: cs) word) :
    isNameStart c = true ∧ c.isDigit = false ∧ Text.isBlank c = false ∧
      (c ≠ '.' ∧ c ≠ '\x22' ∧ c ≠ '\x27' ∧ c ≠ '\x60') ∧ c ≠ '/' := by
  cases h <;> exact ⟨rfl, rfl, rfl, by decide⟩

theorem token_eq (h : Words (c :: cs) word) (hg : g.char = c)
    (hspan : spanChars isNamePart (g :: rest) = (c :: cs, back)) :
    token stop (g :: rest) = .ok (.keyword word, c :: cs, back) := by
  obtain ⟨hname, hdigit, -, ⟨hpoint, hdouble, hsingle, hmark⟩, -⟩ := h.begins
  have hword : Keyword.ofText? (String.ofList (c :: cs)) = some word := by cases h <;> rfl
  subst hg
  unfold token
  dsimp only
  rw [hdigit, hname, if_neg (by simp [hpoint]), if_neg (by simp [hdouble, hsingle]), if_neg hmark,
    if_pos rfl, hspan]
  dsimp only
  rw [hword]

theorem spelled (h : Words cs word) : Spelled cs [(.keyword word, String.ofList cs)] := by
  intro stop gs back hgs hback
  have hparts : ∀ c ∈ cs, isNamePart c = true := by cases h <;> exact List.all_eq_true.mp rfl
  obtain ⟨front, rfl, rfl⟩ := hgs
  have hspan := spanChars_append hparts hback
  cases front with
  | nil => nomatch h
  | cons g front =>
    obtain ⟨-, -, hblank, -, hslash⟩ := h.begins
    exact .token hblank hslash (h.token_eq rfl hspan)

end Words

/-! ### Enclosed lists -/

/-- Lists of tokens between two marks, separated by commas. -/
def enclosed (opening closing : Spelling) (items : List (List Spelling)) : List Spelling :=
  opening :: ([mark ',' .comma].intercalate items ++ [closing])

theorem enclose_compact (opening closing : Char) (depth : Nat) (texts : List (List Char)) :
    Document.Layout.compact.enclose opening closing depth texts =
      opening :: ([','].intercalate texts ++ [closing]) := by
  cases texts with
  | nil => rfl
  | cons t ts =>
    change opening :: ([] ++ [','].intercalate (t :: ts) ++ [] ++ [closing]) = _
    rw [List.nil_append, List.append_nil]

theorem spelled_intercalate {closing : Char} {s : Symbol} {texts : List (List Char)}
    {items : List (List Spelling)} (hclose : Marks closing s)
    (h : List.Forall₂ Spelled texts items) :
    Spelled ([','].intercalate texts ++ [closing])
      ([mark ',' .comma].intercalate items ++ [mark closing s]) := by
  induction h with
  | nil => exact hclose.spelled
  | @cons text item texts items hfirst hrest ih =>
    cases hrest with
    | nil =>
      rw [List.intercalate_singleton, List.intercalate_singleton]
      exact hclose.behind hfirst hclose.spelled
    | cons _ _ =>
      rw [List.intercalate_cons_cons, List.intercalate_cons_cons, List.append_assoc,
        List.append_assoc, List.append_assoc, List.append_assoc]
      exact Marks.comma.behind hfirst (Marks.comma.before ih)

theorem spelled_enclose {opening closing : Char} {s s' : Symbol} {texts : List (List Char)}
    {items : List (List Spelling)} (hopen : Marks opening s) (hclose : Marks closing s')
    (h : List.Forall₂ Spelled texts items) (depth : Nat) :
    Spelled (Document.Layout.compact.enclose opening closing depth texts)
      (enclosed (mark opening s) (mark closing s') items) := by
  rw [enclose_compact]
  exact hopen.before (spelled_intercalate hclose h)

end MemoryShell.Script
