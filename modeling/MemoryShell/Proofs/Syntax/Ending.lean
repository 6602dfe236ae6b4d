/-
  MemoryShell/Proofs/Syntax/Ending.lean
  =====================================
  **Parsing ends, and takes tokens all the way.**

  Every recursion of the lexer and of the grammar runs under a bound, and none of them needs it.
  Without bounds, the readers are what the grammar makes of themselves.  A phrase has fewer levels
  left than the phrase around it; a loop takes a token in each turn; the source of a substitution is
  shorter than the template around it.  So no bound is what ends the reading of a source, and where
  a program is read, no token is left.
-/
import MemoryShell.Proofs.Syntax.Consuming
import MemoryShell.Proofs.Syntax.Places

namespace MemoryShell.Script

open Parse

variable {l : TokenList} {m n : Nat} {c d : Cursor} {α : Type}

/-! ### The readers of the language -/

/-- Read the source of a substitution, as deep as its own length allows. -/
def wholeFragment (source : List Char) : Except SyntaxError Expr :=
  fragmentOf (source.length + 1) source

/-- The readers of the language, with all the levels below each phrase. -/
def wholeReaders : Readers := ⟨phraseAt wholeFragment maxDepth, wholeFragment⟩

theorem expressionSource_congr {p q : Parse Expr} {source : List Char}
    (h : ∀ l, tokenize (String.ofList source) = .ok l → p (Cursor.start l) = q (Cursor.start l)) :
    expressionSource p source = expressionSource q source := by
  unfold expressionSource
  cases htokens : tokenize (String.ofList source) with
  | error e => rfl
  | ok l =>
    have hstart : p.run (Cursor.start l) = q.run (Cursor.start l) := h l htokens
    change (p.run (Cursor.start l) >>= _) = (q.run (Cursor.start l) >>= _)
    rw [hstart]

theorem statementSource_congr {p q : Parse Stmt} {source : String}
    (h : ∀ l, tokenize source = .ok l →
      untilStop p (Cursor.start l) = untilStop q (Cursor.start l)) :
    statementSource p source = statementSource q source := by
  unfold statementSource
  cases htokens : tokenize source with
  | error e => rfl
  | ok l =>
    have hstart : (untilStop p).run (Cursor.start l) = (untilStop q).run (Cursor.start l) :=
      h l htokens
    change ((untilStop p).run (Cursor.start l) >>= _) = ((untilStop q).run (Cursor.start l) >>= _)
    rw [hstart]

/-- A phrase at the beginning of a source does not depend on how sources are read that are not
    shorter. -/
theorem takes_phraseAt_source {source : String} (htokens : tokenize source = .ok l)
    {f f' : List Char → Except SyntaxError Expr}
    (hf : ∀ inner : List Char, inner.length + 1 < source.length → f inner = f' inner)
    (p : Phrase α) : Take l maxDepth 1 (phraseAt f maxDepth p) (phraseAt f' maxDepth p) := by
  refine takes_phraseAt (tokenize_closed htokens) (fun t ht hkind => ?_) (Nat.le_refl _)
    (Nat.le_refl _) p
  have hshort := tokenize_short htokens ht hkind
  exact templateParts_congr fun inner hinner => hf inner (by omega)

/-- Substitutions nest no deeper than their sources are long. -/
theorem fragmentOf_ends :
    EndsBySize (fun _ => True) (fun source : List Char => source.length + 1)
      (fun next source => expressionSource (phraseAt next maxDepth .assignment) source)
      fragmentOf wholeFragment := by
  refine .of_turn (fun _ _ _ hsize => absurd hsize (Nat.succ_ne_zero _))
    (fun n source => fragmentOf_succ n source) (fun next next' source _ hnext => ?_)
    fun source _ => ⟨source.length + 1, Nat.le_refl _, rfl⟩
  refine expressionSource_congr fun l htokens => ?_
  refine (takes_phraseAt_source htokens (fun inner hinner => ?_) .assignment _
    (.start (tokenize_closed htokens).stop)).same
  rw [String.length_ofList] at hinner
  exact hnext inner trivial (by omega)

/-- A program is a list of statements of the language. -/
theorem parse_eq_statementSource (source : String) :
    parse source = statementSource (wholeReaders.phrase .statement) source := by
  rw [parse_eq]
  refine statementSource_congr fun l htokens => ?_
  have hstatement : Take l maxDepth 1
      (phraseAt (fragmentOf source.length) maxDepth .statement)
      (wholeReaders.phrase .statement) :=
    takes_phraseAt_source htokens
      (fun inner hinner => fragmentOf_ends.bound inner trivial _ (by omega)) .statement
  exact (hstatement.untilStop _ (.start (tokenize_closed htokens).stop)).same

theorem wholeReaders_agree (hl : l.Closed) (m : Nat) : wholeReaders.Agree l m wholeReaders := by
  refine ⟨fun p n _ => ?_, fun _ _ _ => rfl⟩
  by_cases hn : n ≤ maxDepth
  · exact takes_phraseAt hl (fun _ _ _ => rfl) hn hn p
  · intro c hc
    have hroom := hc.room
    omega

/-! ### The end of a program -/

theorem Cursor.Within.rest_eq_nil (h : c.Within l m) (hl : l.Closed)
    (hstop : c.current.kind = .stop) : c.rest = [] := by
  by_contra hrest
  obtain ⟨t, rest, heq⟩ := List.exists_cons_of_ne_nil hrest
  rw [Cursor.current, heq] at hstop
  exact hl.tokens t (h.rest.subset (heq ▸ List.mem_cons_self)) hstop

/-- A list that ends with the source is read to its end. -/
theorem rest_of_untilStopFrom {item : Parse α} (hl : l.Closed) (h : Take l m 1 item item)
    {fuel : Nat} {as : List α} (hc : c.Within l m) (hfuel : c.rest.length ≤ fuel)
    (hread : untilStopFrom item fuel c = .ok (as, d)) : d.rest = [] := by
  induction fuel generalizing c as with
  | zero =>
    cases hread
    exact List.length_eq_zero_iff.mp (Nat.le_zero.mp hfuel)
  | succ fuel ih =>
    obtain ⟨found, c', hcheck, hread⟩ := bind_eq_ok.mp hread
    cases hcheck
    split at hread
    · cases hread
      exact hc.rest_eq_nil hl (beq_iff_eq.mp ‹_›)
    · obtain ⟨a, c₁, hitem, hread⟩ := bind_eq_ok.mp hread
      obtain ⟨as', c₂, hmore, hread⟩ := bind_eq_ok.mp hread
      cases hread
      obtain ⟨_, taken, hc₁, hmoves, rfl, htaken⟩ := (h c hc).took a c₁ hitem
      have hlength := hmoves.length
      exact ih hc₁ (by omega) hmore

/-! ### Parsing -/

/-- The readers of a grammar need no bounds among the tokens of a list.  A phrase is what the
    grammar makes of the readers, one level deeper, and asks for phrases with fewer levels left
    only.  It takes a token, and so does each item of a list and each turn of a loop.  A template
    asks for sources only that are shorter than its text. -/
structure GrammarEnds (l : TokenList) (r : Readers) : Prop where
  phrase : ∀ {α : Type} (p : Phrase α) (m : Nat) (c : Cursor), c.Within l m →
    r.phrase p c = nested (Grammar.phrase r p) c
  deeper : ∀ {α : Type} (p : Phrase α) (m : Nat) (r' : Readers) (c : Cursor), r.Agree l m r' →
    c.Within l (m + 1) → nested (Grammar.phrase r p) c = nested (Grammar.phrase r' p) c
  progress : ∀ {α : Type} (p : Phrase α) (m : Nat) (c d : Cursor) (a : α), c.Within l m →
    r.phrase p c = .ok (a, d) → d.Within l m ∧ ∃ taken, 1 ≤ taken ∧ c.Moves taken d
  program : ∀ m, UntilStopEnds l m (r.phrase .statement)
  block : ∀ m, UntilBraceEnds l m (r.phrase .statement)
  arguments : ∀ m, ItemsEnd l m .rightParen (r.phrase .assignment)
  parameters : ∀ m, ItemsEnd l m .rightParen identifier
  array : ∀ m, ItemsEnd l m .rightBracket (r.phrase .assignment)
  object : ∀ m, ItemsEnd l m .rightBrace (Grammar.objectMember r)
  declarations : ∀ m kind, CommaSeparatedEnds l m (Grammar.declaration r kind)
  operators : ∀ n, GrowthEnds l (Grammar.levelStep (Grammar.combine n) (Grammar.operation r n))
  suffixes : ∀ allowCall, GrowthEnds l (Grammar.suffix r allowCall)
  substitutions : ∀ t ∈ l.tokens, t.kind = .template → ∀ f : List Char → Except SyntaxError Expr,
    (∀ inner : List Char, inner.length < t.text.length → r.fragment inner = f inner) →
    templateParts r.fragment t = templateParts f t

theorem grammar_ends (hl : l.Closed) : GrammarEnds l wholeReaders := by
  have hagree := wholeReaders_agree hl
  refine {
    phrase := fun p m c hc => ?_
    deeper := fun p m r' c H hc => ?_
    progress := fun p m c d a hc hread => ?_
    program := fun m => ((hagree m).read .statement).untilStopFrom_ends
    block := fun m => ((hagree m).read .statement).untilBraceFrom_ends
    arguments := fun m => ((hagree m).read .assignment).itemsFrom_ends _
    parameters := fun m => Take.identifier.itemsFrom_ends _
    array := fun m => ((hagree m).read .assignment).itemsFrom_ends _
    object := fun m => (Grammar.takes_objectMember hl (hagree m)).itemsFrom_ends _
    declarations := fun m kind =>
      (Grammar.takes_declaration (hagree m) kind).commaSeparatedFrom_ends
    operators := fun n => growFrom_ends fun m left =>
      Grammar.extends_levelStep n (fun k _ => Grammar.takes_operation (hagree k) n) left
    suffixes := fun allowCall => growFrom_ends fun m e =>
      Grammar.extends_suffix (hagree m) allowCall e
    substitutions := fun t _ _ f hf => templateParts_congr hf }
  · have hroom := hc.room
    have hdeeper : Take l m 1 (phraseAt wholeFragment maxDepth p)
        (phraseAt wholeFragment (maxDepth + 1) p) :=
      takes_phraseAt hl (fun _ _ _ => rfl) (by omega) (by omega) p
    exact (hdeeper c hc).same
  · have hnested : Take l (m + 1) 1 (nested (Grammar.phrase wholeReaders p))
        (nested (Grammar.phrase r' p)) := by
      refine .nested fun n hn => ?_
      obtain rfl := Nat.succ.inj hn
      exact Grammar.takes_phrase hl H p
    exact (hnested c hc).same
  · obtain ⟨_, taken, hd, hmoves, rfl, htaken⟩ := ((hagree m).read p c hc).took a d hread
    exact ⟨hd, taken, htaken, hmoves⟩

/-- Reading a source ends of itself.  The lexer, its reader of strings, the cutter of templates and
    the reader of substitutions need no bounds, and neither do the readers of the grammar among the
    tokens of the source.  A program is a list of statements that these readers read, and behind it
    no token is left. -/
structure ParsingEnds (source : String) : Prop where
  tokens : ∀ stop, EndsBySize (fun _ => True) (fun s => s.2.length) (tokensTurn stop)
    (fun n s => tokensFrom stop n s.1 s.2) (fun s => tokensFrom stop s.2.length s.1 s.2)
  strings : ∀ stop quote, EndsBySize (fun _ => True) (fun s => s.2.length) (stringTurn stop quote)
    (fun n s => stringFrom stop quote n s.1 s.2)
    (fun s => stringFrom stop quote s.2.length s.1 s.2)
  templates : ∀ position, EndsBySize (fun _ => True) (fun s => s.2.length)
    (templateTurn wholeReaders.fragment position)
    (fun n s => templatePartsFrom wholeReaders.fragment position n s.1 s.2)
    (fun s => templatePartsFrom wholeReaders.fragment position s.2.length s.1 s.2)
  fragments : EndsBySize (fun _ => True) (fun inner : List Char => inner.length + 1)
    (fun next inner => expressionSource (phraseAt next maxDepth .assignment) inner)
    fragmentOf wholeReaders.fragment
  grammar : ∀ l, tokenize source = .ok l → GrammarEnds l wholeReaders
  program : parse source = statementSource (wholeReaders.phrase .statement) source
  consumed : ∀ program, parse source = .ok program → ∃ l d, tokenize source = .ok l ∧
    untilStop (wholeReaders.phrase .statement) (Cursor.start l) = .ok (program.body, d) ∧
    d.rest = []

/-- **Parsing ends, and takes a token wherever it goes on.**  Of whatever source, no bound is what
    ends the reading: with higher bounds, and with none, the lexer and the grammar come to the same.
    Every phrase that is read takes at least a token, and never goes back; every loop takes one in
    each turn; every substitution is read from a text that is shorter than the template around it;
    and a program that is read takes all tokens up to the end. -/
theorem parsing_ends (source : String) : ParsingEnds source := by
  refine {
    tokens := tokensFrom_ends
    strings := stringFrom_ends
    templates := templatePartsFrom_ends wholeFragment
    fragments := fragmentOf_ends
    grammar := fun l htokens => grammar_ends (tokenize_closed htokens)
    program := parse_eq_statementSource source
    consumed := fun program hparse => ?_ }
  rw [parse_eq_statementSource] at hparse
  obtain ⟨l, htokens, hparse⟩ := except_bind_eq_ok.mp hparse
  obtain ⟨⟨body, d⟩, hbody, hparse⟩ := except_bind_eq_ok.mp hparse
  cases hparse
  have hclosed := tokenize_closed htokens
  refine ⟨l, d, htokens, hbody, ?_⟩
  exact rest_of_untilStopFrom hclosed ((wholeReaders_agree hclosed maxDepth).read .statement)
    (.start hclosed.stop) (Nat.le_refl _) hbody

end MemoryShell.Script
