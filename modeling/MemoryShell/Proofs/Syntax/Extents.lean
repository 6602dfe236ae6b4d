/-
  MemoryShell/Proofs/Syntax/Extents.lean
  ======================================
  **Where the tokens of a source stand in it.**

  A source that has tokens is made of gaps and of the characters of its tokens, in turns, with a gap
  at the end.  A gap is blanks and complete comments and nothing else.  So the tokens stand one
  behind the other and do not overlap; each is recorded where its first character stands, and
  nothing of the source is lost between them.  Places are counted here from the text before them:
  the line ends in it, and the characters behind the last of these.
-/
import MemoryShell.Proofs.Syntax.Spacing
import MemoryShell.Proofs.Syntax.Substitution

namespace MemoryShell.Script

variable {stop : Position} {g : Glyph} {gs rest : List Glyph}

/-! ### Places -/

/-- The place behind a text. -/
def placeAt (before : List Char) : Position :=
  ⟨before.count '\n' + 1, (before.reverse.takeWhile (· != '\n')).length + 1⟩

theorem placeAt_concat (before : List Char) (c : Char) :
    placeAt (before ++ [c]) = (placeAt before).after c := by
  unfold placeAt Position.after
  rw [List.count_append, List.reverse_concat, List.takeWhile_cons]
  by_cases hline : c = '\n'
  · rw [if_pos hline, hline]
    rfl
  · have hne : (c != '\n') = true := bne_iff_ne.mpr hline
    rw [if_neg hline, if_pos hne, List.count_singleton, beq_false_of_ne hline]
    rfl

/-- Glyphs that stand behind a text where they say, as does the end behind them. -/
def Placed (stop : Position) (before : List Char) (gs : List Glyph) : Prop :=
  ∀ front back, gs = front ++ back → here stop back = placeAt (before ++ front.map Glyph.char)

theorem Placed.here {before : List Char} (h : Placed stop before gs) :
    here stop gs = placeAt before :=
  (h [] gs rfl).trans (congrArg placeAt (List.append_nil before))

theorem Placed.behind {before : List Char} {front : List Glyph}
    (h : Placed stop before (front ++ gs)) :
    Placed stop (before ++ front.map Glyph.char) gs := by
  rintro middle back rfl
  rw [h (front ++ middle) back (List.append_assoc _ _ _).symm, List.map_append, List.append_assoc]

/-- The characters of a text are given their places. -/
theorem glyphsFrom_placed (before : List Char) (done : List Glyph) (cs : List Char) :
    ∃ gs, (glyphsFrom (placeAt before) done cs).1 = done.reverse ++ gs ∧
      Placed (glyphsFrom (placeAt before) done cs).2 before gs := by
  induction cs generalizing before done with
  | nil =>
    refine ⟨[], (List.append_nil _).symm, fun front back hnil => ?_⟩
    obtain ⟨rfl, rfl⟩ := List.nil_eq_append_iff.mp hnil
    rw [List.map_nil, List.append_nil]
    rfl
  | cons c cs ih =>
    obtain ⟨gs, hgs, hplaced⟩ := ih (before ++ [c]) (⟨c, placeAt before⟩ :: done)
    rw [placeAt_concat] at hgs hplaced
    refine ⟨⟨c, placeAt before⟩ :: gs, ?_, fun front back hcons => ?_⟩
    · rw [glyphsFrom, hgs, List.reverse_cons, List.append_assoc]
      rfl
    · obtain _ | ⟨g, front⟩ := front
      · rw [List.nil_append] at hcons
        rw [← hcons, List.map_nil, List.append_nil]
        rfl
      · obtain ⟨rfl, rfl⟩ := List.cons.inj hcons
        rw [glyphsFrom, hplaced front back rfl, List.map_cons, List.append_assoc]
        rfl

theorem glyphs_placed (source : String) : Placed (glyphs source).2 [] (glyphs source).1 := by
  obtain ⟨gs, hgs, hplaced⟩ := glyphsFrom_placed [] [] source.toList
  obtain rfl : (glyphs source).1 = gs := hgs
  exact hplaced

/-! ### Symbols -/

/-- The longest symbol that stands at the beginning of a text. -/
structure LongestAt (text : String) (symbol : Symbol) (cs : List Char) : Prop where
  listed : (text, symbol) ∈ Symbol.table
  stands : text.toList <+: cs
  longest : ∀ entry ∈ Symbol.table, entry.1.toList <+: cs → entry.1.length ≤ text.length

/-- In the table of symbols, a spelling does not stand before one that begins with it. -/
theorem symbols_ordered :
    Symbol.table.Pairwise fun entry entry' => ¬ entry.1.toList <+: entry'.1.toList := by
  decide +kernel

theorem length_le_maxSymbolLength :
    ∀ entry ∈ Symbol.table, entry.1.toList.length ≤ maxSymbolLength := by
  decide

/-- So the first symbol that fits is the longest. -/
theorem longestAt_of_symbol? {cs : List Char} {text : String} {symbol : Symbol}
    (h : symbol? Symbol.table (cs.take maxSymbolLength) = some (text, symbol)) :
    LongestAt text symbol cs := by
  obtain ⟨hfits, before, behind, htable, hbefore⟩ := List.find?_eq_some_iff_append.mp h
  have hstands : text.toList <+: cs :=
    (List.isPrefixOf_iff_prefix.mp hfits).trans (List.take_prefix _ _)
  refine ⟨List.mem_of_find?_eq_some h, hstands, fun entry hentry hheld => ?_⟩
  have hfound : entry.1.toList <+: cs.take maxSymbolLength :=
    List.prefix_take_iff.mpr ⟨hheld, length_le_maxSymbolLength entry hentry⟩
  have hordered := symbols_ordered
  rw [htable] at hentry hordered
  rw [← String.length_toList, ← String.length_toList]
  rcases List.mem_append.mp hentry with hmem | hmem
  · have hnone := hbefore entry hmem
    rw [List.isPrefixOf_iff_prefix.mpr hfound] at hnone
    cases hnone
  obtain rfl | hmem := List.mem_cons.mp hmem
  · exact Nat.le_refl _
  refine Nat.le_of_not_lt fun hlonger => ?_
  have hrelated := (List.pairwise_cons.mp (List.pairwise_append.mp hordered).2.1).1 entry hmem
  exact hrelated (List.prefix_of_prefix_length_le hstands hheld (Nat.le_of_lt hlonger))

/-! ### Tokens -/

/-- The kinds of token whose text is what is written in the source. -/
def TokenKind.IsWritten : TokenKind → Prop
  | .identifier | .keyword _ | .symbol _ => True
  | .number | .string | .template | .stop => False

/-- A token that is read from `lexeme`, before `rest`. -/
structure Token.Occupies (t : Token) (lexeme rest : List Char) : Prop where
  token : t.kind ≠ .stop
  nonempty : lexeme ≠ []
  written : t.kind.IsWritten → t.text.toList = lexeme
  longest : ∀ symbol, t.kind = .symbol symbol → LongestAt t.text symbol (lexeme ++ rest)

/-- A token, or the end, behind a text and a gap. -/
structure Token.Follows (t : Token) (before gap : List Char) : Prop where
  position : t.position = placeAt (before ++ gap)
  afterNewline : t.afterNewline = true ↔ '\n' ∈ gap

/-- What a span takes is what stands before what it leaves. -/
theorem spanChars_front {p : Char → Bool} {front : List Glyph}
    (h : (spanChars p (front ++ rest)).2 = rest) :
    (spanChars p (front ++ rest)).1 = front.map Glyph.char := by
  have hwhole : (front ++ rest).takeWhile (fun g => p g.char) ++ rest = front ++ rest :=
    (congrArg _ h.symm).trans List.takeWhile_append_dropWhile
  exact congrArg (List.map Glyph.char) (List.append_cancel_right hwhole)

/-- The text of an identifier, a keyword or a symbol is what is read; a symbol is read as long as
    can be. -/
theorem token_written {lexeme : List Glyph} {kind : TokenKind} {text : List Char}
    (h : token stop (g :: (lexeme ++ rest)) = .ok (kind, text, rest)) (hkind : kind.IsWritten) :
    text = (g :: lexeme).map Glyph.char ∧ ∀ symbol, kind = .symbol symbol →
      LongestAt (String.ofList text) symbol ((g :: (lexeme ++ rest)).map Glyph.char) := by
  unfold token at h
  dsimp only at h
  split at h
  · obtain ⟨r, -, h⟩ := except_bind_eq_ok.mp h
    cases h
    cases hkind
  split at h
  · obtain ⟨r, -, h⟩ := except_bind_eq_ok.mp h
    cases h
    cases hkind
  split at h
  · obtain ⟨r, -, h⟩ := except_bind_eq_ok.mp h
    cases h
    cases hkind
  split at h
  · -- keywords and identifiers are read alike
    split at h
    all_goals
      obtain ⟨rfl, hread⟩ := Prod.mk.inj (Except.ok.inj h)
      obtain ⟨rfl, hrest⟩ := Prod.mk.inj hread
      exact ⟨@spanChars_front rest isNamePart (g :: lexeme) hrest, nofun⟩
  · split at h
    · rename_i spelling symbol hsymbol
      obtain ⟨rfl, hread⟩ := Prod.mk.inj (Except.ok.inj h)
      obtain ⟨rfl, hrest⟩ := Prod.mk.inj hread
      rw [List.map_take] at hsymbol
      have hlongest := longestAt_of_symbol? hsymbol
      refine ⟨?_, ?_⟩
      · have hwhole : (g :: (lexeme ++ rest)).take spelling.length ++ rest =
            g :: lexeme ++ rest :=
          (congrArg _ hrest.symm).trans (List.take_append_drop _ _)
        rw [← List.append_cancel_right hwhole, List.map_take, ← String.length_toList]
        exact List.prefix_iff_eq_take.mp hlongest.stands
      · rintro _ ⟨⟩
        rw [String.ofList_toList]
        exact hlongest
    · cases h

/-! ### Sources -/

/-- The tokens of what stands behind `before` in a source: gaps of blanks and complete comments and
    the characters of the tokens in turns, and a gap before the end. -/
inductive Covers : List Char → List Char → List Token → Token → Prop where
  | done {before gap : List Char} {last : Token} :
      IsRun gap [] → last.kind = .stop → last.Follows before gap → Covers before gap [] last
  | next {before gap lexeme rest : List Char} {t : Token} {ts : List Token} {last : Token} :
      IsRun gap (lexeme ++ rest) → t.Follows before gap → t.Occupies lexeme rest →
      Covers (before ++ gap ++ lexeme) rest ts last →
      Covers before (gap ++ lexeme ++ rest) (t :: ts) last

theorem Cuts.covers {cut : Cut} {ts : List Token} {last : Token} (h : Cuts stop gs cut ts last)
    {before : List Char} (hplaced : Placed stop before gs) :
    Covers before (gs.map Glyph.char) ts last := by
  induction h generalizing before with
  | @done run hrun =>
    rw [← List.append_nil run] at hplaced
    exact .done hrun rfl ⟨hplaced.behind.here, List.contains_iff_mem⟩
  | @next run lexeme rest g kind text cut ts last hrun htoken hcuts ih =>
    have hfront := hplaced.behind
    have hkind := (token_suffix htoken).1
    have hwritten := token_written htoken
    rw [show g :: (lexeme ++ rest) = (g :: lexeme) ++ rest from rfl] at hrun hfront hwritten ⊢
    rw [List.map_append] at hrun hwritten
    rw [List.map_append, List.map_append, ← List.append_assoc]
    refine .next hrun ⟨hfront.here, List.contains_iff_mem⟩ ⟨hkind, List.cons_ne_nil _ _, ?_, ?_⟩
      (ih hfront.behind)
    · intro hasWritten
      rw [String.toList_ofList]
      exact (hwritten hasWritten).1
    · intro symbol hsymbol
      obtain rfl : kind = .symbol symbol := hsymbol
      exact (hwritten trivial).2 symbol rfl

/-- Each of the tokens stands in the source where it says. -/
theorem Covers.occupied {before cs : List Char} {ts : List Token} {last t : Token}
    (h : Covers before cs ts last) (ht : t ∈ ts) :
    ∃ front lexeme rest, cs = front ++ lexeme ++ rest ∧ t.Occupies lexeme rest ∧
      t.position = placeAt (before ++ front) := by
  induction h with
  | done => cases ht
  | @next before gap lexeme rest t' ts last _ hfollows hoccupies _ ih =>
    obtain rfl | ht := List.mem_cons.mp ht
    · exact ⟨gap, lexeme, rest, rfl, hoccupies, hfollows.position⟩
    · obtain ⟨front, lexeme', rest', hrest, hoccupies', hposition⟩ := ih ht
      refine ⟨gap ++ lexeme ++ front, lexeme', rest', ?_, hoccupies', ?_⟩
      · rw [hrest]
        simp only [List.append_assoc]
      · rw [hposition]
        simp only [List.append_assoc]

/-- **The tokens of a source cover it.**  They stand in it one behind the other, each where it says
    and with the text that it says, each symbol as long as it can be, with nothing but blanks and
    complete comments between them; and a token begins after a new line exactly if there is a line
    end between it and the token before it. -/
theorem tokens_cover_source {source : String} {l : TokenList} (h : tokenize source = .ok l) :
    Covers [] source.toList l.tokens l.stop := by
  obtain ⟨hcuts, -⟩ := tokenize_respaced h
  rw [← glyphs_chars source]
  exact hcuts.covers (glyphs_placed source)

/-- A source with a line end in a comment and one in a template, a symbol before one that could go
    on with it, and a number that begins with its point. -/
def spread : String := "x /*\n*/ **= \x60\n$\x7b'b'\x7d\x60 // c\n.5 typeof y"

def spreadTokens : TokenList := ⟨[
  ⟨.identifier, "x", ⟨1, 1⟩, false⟩, ⟨.symbol .power, "**", ⟨2, 4⟩, true⟩,
  ⟨.symbol .assign, "=", ⟨2, 6⟩, false⟩, ⟨.template, "\n$\x7b'b'\x7d", ⟨2, 8⟩, false⟩,
  ⟨.number, ".5", ⟨4, 1⟩, true⟩, ⟨.keyword .typeofWord, "typeof", ⟨4, 4⟩, false⟩,
  ⟨.identifier, "y", ⟨4, 11⟩, false⟩], ⟨.stop, "", ⟨4, 12⟩, false⟩⟩

theorem spread_covered : tokenize spread = .ok spreadTokens ∧
    Covers [] spread.toList spreadTokens.tokens spreadTokens.stop := by
  have htokens : tokenize spread = .ok spreadTokens := tokenize_of_toOption (by decide +kernel)
  exact ⟨htokens, tokens_cover_source htokens⟩

end MemoryShell.Script
