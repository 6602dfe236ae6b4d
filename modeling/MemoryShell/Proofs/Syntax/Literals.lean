/-
  MemoryShell/Proofs/Syntax/Literals.lean
  =======================================
  **JSON text as a literal.**

  What the writer of documents puts on one line is an expression of the language: its arrays and
  objects are set out like literals, and each takes two levels of nesting.  The text is followed
  twice, from its characters to its tokens and from these to the expression.
-/
import MemoryShell.Proofs.Document.RoundTrip
import MemoryShell.Proofs.Syntax.Fragments
import MemoryShell.Proofs.Syntax.Strings

namespace MemoryShell.Script

open Parse

variable {α : Type} {r : Readers} {f : List Char → Except SyntaxError Expr} {read : Parse α}
  {levels depth : Nat} {e : Expr} {spellings : List Spelling} {a : α} {c : Cursor}

/-! ### Readers of tokens -/

/-- The kinds of token that a literal begins with. -/
inductive TokenKind.Opens : TokenKind → Prop where
  | string : Opens .string
  | nullWord : Opens (.keyword .nullWord)
  | trueWord : Opens (.keyword .trueWord)
  | falseWord : Opens (.keyword .falseWord)
  | bracket : Opens (.symbol .leftBracket)
  | brace : Opens (.symbol .leftBrace)

/-- No operator, no construction and no arrow begins like a literal. -/
theorem Cursor.Plain.of_opens (h : c.current.kind.Opens) : c.Plain := by
  have hunary : Grammar.unaryOf? c.current = none := by
    unfold Grammar.unaryOf?
    generalize c.current.kind = k at h
    cases h <;> rfl
  have hupdate : Grammar.updateOf? c.current = none := by
    unfold Grammar.updateOf?
    generalize c.current.kind = k at h
    cases h <;> rfl
  have hne : c.current.kind ≠ .keyword .newWord ∧ c.current.kind ≠ .identifier ∧
      c.current.kind ≠ .symbol .leftParen := by
    generalize c.current.kind = k at h
    cases h <;> exact ⟨nofun, nofun, nofun⟩
  refine ⟨hunary, hupdate, hne.1, ?_, ?_⟩
  · rw [beq_false_of_ne hne.2.1, Bool.false_and]
  · rw [beq_false_of_ne hne.2.2, Bool.false_and]

/-- Tokens that say this begin a literal, and are read as `a` before whatever ends an expression. -/
structure ReadAs (read : Parse α) (depth : Nat) (spellings : List Spelling) (a : α) : Prop where
  opens : ∃ s rest, spellings = s :: rest ∧ s.1.Opens
  reads : ∀ (ts us : List Token) (last : Token), ts.map Token.spelling = spellings →
    (Cursor.mk us last depth).current.kind.Ends →
    read ⟨ts ++ us, last, depth⟩ = .ok (a, ⟨us, last, depth⟩)

theorem kind_of_spelling {t : Token} {k : TokenKind} {text : String} (h : t.spelling = (k, text)) :
    t.kind = k := congrArg Prod.fst h

/-- A literal of one token. -/
theorem ReadAs.single {k : TokenKind} {text : String} (hk : k.Opens)
    (h : ∀ position newline us last,
      read ⟨⟨k, text, position, newline⟩ :: us, last, depth⟩ = .ok (a, ⟨us, last, depth⟩)) :
    ReadAs read depth [(k, text)] a := by
  refine ⟨⟨_, _, rfl, hk⟩, fun ts us last hts _ => ?_⟩
  obtain ⟨⟨_, _, position, newline⟩, ts, rfl, ht, hnil⟩ := List.map_eq_cons_iff.mp hts
  obtain rfl := List.map_eq_nil_iff.mp hnil
  cases ht
  exact h position newline us last

theorem eat_cons_of_eq {t : Token} {ts : List Token} {last : Token} {k : TokenKind}
    (h : t.kind = k) : eat k ⟨t :: ts, last, depth⟩ = .ok (true, ⟨ts, last, depth⟩) :=
  eat_of_eq (c := ⟨t :: ts, last, depth⟩) h

theorem eat_cons_of_ne {t : Token} {ts : List Token} {last : Token} {k : TokenKind}
    (h : t.kind ≠ k) : eat k ⟨t :: ts, last, depth⟩ = .ok (false, ⟨t :: ts, last, depth⟩) :=
  eat_of_ne (c := ⟨t :: ts, last, depth⟩) h

theorem expectSymbol_cons {t : Token} {ts : List Token} {last : Token} {s : Symbol}
    (h : t.kind = .symbol s) :
    expectSymbol s ⟨t :: ts, last, depth⟩ = .ok ((), ⟨ts, last, depth⟩) :=
  bind_of_ok (expect_of_eq (c := ⟨t :: ts, last, depth⟩) h)

/-! ### Lists of items -/

theorem length_le_intercalate {β : Type} (x : β) (items : List (List β)) :
    items.length ≤ ([x].intercalate items).length + 1 := by
  induction items with
  | nil => exact Nat.zero_le _
  | cons item items ih =>
    cases items with
    | nil => exact Nat.succ_le_succ (Nat.zero_le _)
    | cons _ _ =>
      rw [List.intercalate_cons_cons, List.length_append, List.length_append, List.length_singleton,
        List.length_cons]
      omega

/-- The marks that close a list of items. -/
inductive ClosesItems : Char → Symbol → Prop where
  | bracket : ClosesItems ']' .rightBracket
  | brace : ClosesItems '\x7d' .rightBrace

namespace ClosesItems

variable {closing : Char} {close : Symbol}

theorem ends (h : ClosesItems closing close) : TokenKind.Ends (.symbol close) := by
  cases h with
  | bracket => exact .bracket
  | brace => exact .brace

theorem ne_of_opens {k : TokenKind} (h : ClosesItems closing close) (hk : k.Opens) :
    k ≠ .symbol close := by
  cases h <;> cases hk <;> nofun

theorem ne_comma (h : ClosesItems closing close) :
    (.symbol close : TokenKind) ≠ .symbol .comma := by
  cases h <;> nofun

end ClosesItems

section Items

variable {item : Parse α} {closing : Char} {close : Symbol} {as : List α}
  {items : List (List Spelling)} {ts us : List Token} {last : Token}

/-- A turn with an item, up to what stands behind it. -/
theorem itemsFrom_item {t : Token} (hclose : ClosesItems closing close)
    (hitem : ReadAs item depth spellings a) (hts : ts.map Token.spelling = spellings)
    (ht : t.kind.Ends) (n : Nat) :
    itemsFrom close item (n + 1) ⟨ts ++ t :: us, last, depth⟩ =
      (eatSymbol .comma >>= fun goesOn =>
        if goesOn then itemsFrom close item n >>= fun as => pure (a :: as)
        else expectSymbol close >>= fun _ => pure [a]) ⟨t :: us, last, depth⟩ := by
  have hreads := hitem.reads ts (t :: us) last hts ht
  obtain ⟨⟨k, text⟩, rest, rfl, hopens⟩ := hitem.opens
  obtain ⟨u, ts, rfl, hu, -⟩ := List.map_eq_cons_iff.mp hts
  have hne : u.kind ≠ .symbol close := by
    rw [kind_of_spelling hu]
    exact hclose.ne_of_opens hopens
  exact (bind_of_ok (eat_cons_of_ne hne)).trans (bind_of_ok hreads)

/-- Items that are separated by commas are read up to their closing mark, in as many turns as there
    are items. -/
theorem itemsFrom_of_readAs (hclose : ClosesItems closing close)
    (h : List.Forall₂ (ReadAs item depth) items as) {n : Nat} (hn : items.length ≤ n)
    (hts : ts.map Token.spelling =
      [mark ',' .comma].intercalate items ++ [mark closing close]) :
    itemsFrom close item n ⟨ts ++ us, last, depth⟩ = .ok (as, ⟨us, last, depth⟩) := by
  induction h generalizing n ts with
  | nil =>
    obtain ⟨t, ts, rfl, ht, hnil⟩ := List.map_eq_cons_iff.mp hts
    obtain rfl := List.map_eq_nil_iff.mp hnil
    have hkind := kind_of_spelling ht
    cases n with
    | zero => exact bind_of_ok (expectSymbol_cons hkind)
    | succ n => exact bind_of_ok (eat_cons_of_eq hkind)
  | @cons spec a items as hfirst hrest ih =>
    obtain _ | n := n
    · exact absurd hn (Nat.not_succ_le_zero _)
    cases hrest with
    | nil =>
      rw [List.intercalate_singleton] at hts
      obtain ⟨ts, ts', rfl, hspec, hts'⟩ := List.map_eq_append_iff.mp hts
      obtain ⟨t, ts', rfl, ht, hnil⟩ := List.map_eq_cons_iff.mp hts'
      obtain rfl := List.map_eq_nil_iff.mp hnil
      have hkind := kind_of_spelling ht
      have hne : t.kind ≠ .symbol .comma := hkind ▸ hclose.ne_comma
      rw [List.append_assoc]
      refine (itemsFrom_item hclose hfirst hspec (hkind ▸ hclose.ends) n).trans ?_
      exact (bind_of_ok (eat_cons_of_ne hne)).trans (bind_of_ok (expectSymbol_cons hkind))
    | cons _ _ =>
      rw [List.intercalate_cons_cons, List.append_assoc, List.append_assoc] at hts
      obtain ⟨ts, ts', rfl, hspec, hts'⟩ := List.map_eq_append_iff.mp hts
      obtain ⟨t, ts', rfl, ht, hrest⟩ := List.map_eq_cons_iff.mp hts'
      have hkind : t.kind = .symbol .comma := kind_of_spelling ht
      rw [List.append_assoc]
      refine (itemsFrom_item hclose hfirst hspec (hkind ▸ .comma) n).trans ?_
      exact (bind_of_ok (eat_cons_of_eq hkind)).trans
        (bind_of_ok (ih (Nat.le_of_succ_le_succ hn) hrest))

theorem items_of_readAs (hclose : ClosesItems closing close)
    (h : List.Forall₂ (ReadAs item depth) items as)
    (hts : ts.map Token.spelling =
      [mark ',' .comma].intercalate items ++ [mark closing close]) :
    Parse.items close item ⟨ts ++ us, last, depth⟩ = .ok (as, ⟨us, last, depth⟩) := by
  have hn : items.length ≤ (ts ++ us).length + 1 := by
    have hlength := congrArg List.length hts
    have hitems := length_le_intercalate (mark ',' .comma) items
    rw [List.length_map, List.length_append, List.length_singleton] at hlength
    rw [List.length_append]
    omega
  exact itemsFrom_of_readAs hclose h hn hts

end Items

/-! ### Literals -/

section Primary

open Grammar

theorem readAs_string (s : String) : ReadAs (primary r) depth [(.string, s)] (.string s) :=
  .single .string fun _ _ _ _ => rfl

theorem readAs_null : ReadAs (primary r) depth [(.keyword .nullWord, "null")] .null :=
  .single .nullWord fun _ _ _ _ => rfl

theorem readAs_true : ReadAs (primary r) depth [(.keyword .trueWord, "true")] (.bool true) :=
  .single .trueWord fun _ _ _ _ => rfl

theorem readAs_false : ReadAs (primary r) depth [(.keyword .falseWord, "false")] (.bool false) :=
  .single .falseWord fun _ _ _ _ => rfl

theorem primary_bracket (h : c.current.kind = .symbol .leftBracket) :
    primary r c = (items .rightBracket (r.phrase .assignment) >>= fun es => pure (.array es))
      c.next := by
  unfold primary
  rw [bind_of_ok (current_eq c), h]
  exact bind_of_ok (advance_eq c)

theorem primary_brace (h : c.current.kind = .symbol .leftBrace) :
    primary r c = (items .rightBrace (objectMember r) >>= fun ms => pure (.object ms)) c.next := by
  unfold primary
  rw [bind_of_ok (current_eq c), h]
  exact bind_of_ok (advance_eq c)

theorem readAs_array {es : List Expr} {items : List (List Spelling)}
    (h : List.Forall₂ (ReadAs (r.phrase .assignment) depth) items es) :
    ReadAs (primary r) depth
      (enclosed (mark '[' .leftBracket) (mark ']' .rightBracket) items) (.array es) := by
  refine ⟨⟨_, _, rfl, .bracket⟩, fun ts us last hts _ => ?_⟩
  obtain ⟨t, ts, rfl, ht, hitems⟩ := List.map_eq_cons_iff.mp hts
  have hbracket : (Cursor.mk (t :: (ts ++ us)) last depth).current.kind = .symbol .leftBracket :=
    kind_of_spelling ht
  exact (primary_bracket hbracket).trans (bind_of_ok (items_of_readAs .bracket h hitems))

theorem readAs_object {ms : List (String × Expr)} {items : List (List Spelling)}
    (h : List.Forall₂ (ReadAs (objectMember r) depth) items ms) :
    ReadAs (primary r) depth
      (enclosed (mark '\x7b' .leftBrace) (mark '\x7d' .rightBrace) items) (.object ms) := by
  refine ⟨⟨_, _, rfl, .brace⟩, fun ts us last hts _ => ?_⟩
  obtain ⟨t, ts, rfl, ht, hitems⟩ := List.map_eq_cons_iff.mp hts
  have hbrace : (Cursor.mk (t :: (ts ++ us)) last depth).current.kind = .symbol .leftBrace :=
    kind_of_spelling ht
  exact (primary_brace hbrace).trans (bind_of_ok (items_of_readAs .brace h hitems))

/-- A member of an object whose key is a string. -/
theorem readAs_member {name : String} (h : ReadAs (r.phrase .assignment) depth spellings e) :
    ReadAs (objectMember r) depth ((.string, name) :: mark ':' .colon :: spellings) (name, e) := by
  refine ⟨⟨_, _, rfl, .string⟩, fun ts us last hts hends => ?_⟩
  obtain ⟨⟨_, key, position, newline⟩, ts, rfl, ht, hrest⟩ := List.map_eq_cons_iff.mp hts
  cases ht
  obtain ⟨⟨_, _, position', newline'⟩, ts, rfl, ht', hvalue⟩ := List.map_eq_cons_iff.mp hrest
  cases ht'
  have hmember : objectMember r ⟨⟨.string, key, position, newline⟩ ::
      ⟨.symbol .colon, String.ofList [':'], position', newline'⟩ :: (ts ++ us), last, depth⟩ =
      (r.phrase .assignment >>= fun e => pure (key, e)) ⟨ts ++ us, last, depth⟩ := rfl
  exact hmember.trans (bind_of_ok (h.reads ts us last hvalue hends))

/-- A primary expression that begins like a literal is an expression, two levels higher. -/
theorem readAs_phrase (hdepth : depth + 1 < maxDepth)
    (h : ReadAs (primary ⟨phraseAt f levels, f⟩) (depth + 2) spellings e) :
    ReadAs (phraseAt f (levels + 2) .assignment) depth spellings e := by
  refine ⟨h.opens, fun ts us last hts hends => ?_⟩
  have hprimary := h.reads ts us last hts hends
  obtain ⟨⟨k, text⟩, rest, rfl, hopens⟩ := h.opens
  obtain ⟨t, ts, rfl, ht, -⟩ := List.map_eq_cons_iff.mp hts
  have hkind : (Cursor.mk (t :: ts ++ us) last depth).current.kind.Opens := by
    have hk : t.kind.Opens := kind_of_spelling ht ▸ hopens
    exact hk
  exact phraseAt_of_primary (.of_opens hkind) hdepth hprimary hends

/-- What begins like a literal does not begin like the parameters of an arrow. -/
theorem startsArrow_of_opens {t : Token} {ts : List Token} (h : t.kind.Opens) :
    startsArrow (t :: ts) = false := by
  unfold startsArrow
  generalize t.kind = k at h
  cases h <;> rfl

/-- A source that is a literal in parentheses. -/
theorem parse_of_readAs {source : String}
    (hspelled : Spelled source.toList
      (mark '(' .leftParen :: (spellings ++ [mark ')' .rightParen])))
    (h : ReadAs ((primaryReaders source).phrase .assignment) 3 spellings e) :
    parse source = .ok ⟨[.expr e]⟩ := by
  obtain ⟨ts, p, htokens, hts⟩ := tokenize_of_spelled hspelled
  obtain ⟨u, ts, rfl, hu, hrest⟩ := List.map_eq_cons_iff.mp hts
  obtain ⟨ts, ts', rfl, hinside, hclosing⟩ := List.map_eq_append_iff.mp hrest
  obtain ⟨t, ts', rfl, ht, hnil⟩ := List.map_eq_cons_iff.mp hclosing
  obtain rfl := List.map_eq_nil_iff.mp hnil
  have hopen : u.kind = .symbol .leftParen := kind_of_spelling hu
  have hclose : t.kind = .symbol .rightParen := kind_of_spelling ht
  have hlisted : startsArrow (ts ++ [t]) = false := by
    obtain ⟨s, rest, rfl, hopens⟩ := h.opens
    obtain ⟨first, ts, rfl, hfirst, -⟩ := List.map_eq_cons_iff.mp hinside
    have hkind : first.kind.Opens := kind_of_spelling hfirst ▸ hopens
    exact startsArrow_of_opens hkind
  have hbegins : BeginsPrimary source ⟨u :: (ts ++ [t]), ⟨.stop, "", p, false⟩⟩ :=
    ⟨htokens, nofun, .inr hopen, .of_kind hopen (.inr (.inr (.inr rfl))) nofun fun _ => hlisted⟩
  have hends : (Cursor.mk [t] ⟨.stop, "", p, false⟩ 3).current.kind.Ends := by
    change t.kind.Ends
    rw [hclose]
    exact .paren
  exact parse_of_inside hbegins hopen (h.reads ts [t] _ hinside hends) rfl hclose rfl

end Primary

end MemoryShell.Script

/-! ### Documents as literals -/

namespace MemoryShell.Document

open Script

mutual

/-- The tokens of a document that holds no numbers. -/
def spellings : Document → List Spelling
  | .null => [(.keyword .nullWord, "null")]
  | .bool b => if b then [(.keyword .trueWord, "true")] else [(.keyword .falseWord, "false")]
  | .number _ => []
  | .string s => [(.string, s)]
  | .array items => enclosed (mark '[' .leftBracket) (mark ']' .rightBracket) (itemSpellings items)
  | .object members =>
    enclosed (mark '\x7b' .leftBrace) (mark '\x7d' .rightBrace) (memberSpellings members)

def itemSpellings : List Document → List (List Spelling)
  | [] => []
  | d :: ds => spellings d :: itemSpellings ds

def memberSpellings : List (String × Document) → List (List Spelling)
  | [] => []
  | (name, d) :: ds => ((.string, name) :: mark ':' .colon :: spellings d) :: memberSpellings ds

end

mutual

/-- The expression that says what a document says. -/
def literal : Document → Expr
  | .null => .null
  | .bool b => .bool b
  | .number x => .number x
  | .string s => .string s
  | .array items => .array (itemLiterals items)
  | .object members => .object (memberLiterals members)

def itemLiterals : List Document → List Expr
  | [] => []
  | d :: ds => literal d :: itemLiterals ds

def memberLiterals : List (String × Document) → List (String × Expr)
  | [] => []
  | (name, d) :: ds => (name, literal d) :: memberLiterals ds

end

mutual

/-- The text of a document on one line is read as its tokens. -/
theorem spelled_textAt (depth : Nat) : (d : Document) → d.Plain →
    Spelled (textAt .compact depth d) d.spellings
  | .null, _ => Words.nullWord.spelled
  | .bool true, _ => Words.trueWord.spelled
  | .bool false, _ => Words.falseWord.spelled
  | .string s, _ => spelled_stringText s
  | .array items, h =>
    spelled_enclose .opensArray .closesArray (spelled_itemTexts (depth + 1) items h) depth
  | .object members, h =>
    spelled_enclose .opensObject .closesObject (spelled_memberTexts (depth + 1) members h.2) depth

theorem spelled_itemTexts (depth : Nat) : (ds : List Document) → ItemsPlain ds →
    List.Forall₂ Spelled (itemTexts .compact depth ds) (itemSpellings ds)
  | [], _ => .nil
  | d :: ds, h => .cons (spelled_textAt depth d h.1) (spelled_itemTexts depth ds h.2)

theorem spelled_memberTexts (depth : Nat) : (ds : List (String × Document)) → MembersPlain ds →
    List.Forall₂ Spelled (memberTexts .compact depth ds) (memberSpellings ds)
  | [], _ => .nil
  | (name, d) :: ds, h => by
    have hvalue := Marks.colon.before (spelled_textAt depth d h.1)
    have hmember := Marks.colon.behind (spelled_stringText name) hvalue
    rw [memberTexts, List.append_assoc]
    exact .cons hmember (spelled_memberTexts depth ds h.2)

end

/-! ### Reading a literal -/

section Reading

open Parse

variable {f : List Char → Except SyntaxError Expr}

mutual

/-- The tokens of a document are read as its literal, two levels of nesting being left for each of
    its own. -/
theorem readAs_literal (levels depth : Nat) : (d : Document) → d.Plain → 2 * d.levels ≤ levels →
    depth + 2 * d.levels ≤ maxDepth →
    ReadAs (phraseAt f levels .assignment) depth d.spellings d.literal
  | .null, _, hlevels, hdepth => by
    obtain ⟨levels, rfl⟩ := Nat.exists_eq_add_of_le' hlevels
    exact readAs_phrase hdepth readAs_null
  | .bool true, _, hlevels, hdepth => by
    obtain ⟨levels, rfl⟩ := Nat.exists_eq_add_of_le' hlevels
    exact readAs_phrase hdepth readAs_true
  | .bool false, _, hlevels, hdepth => by
    obtain ⟨levels, rfl⟩ := Nat.exists_eq_add_of_le' hlevels
    exact readAs_phrase hdepth readAs_false
  | .string s, _, hlevels, hdepth => by
    obtain ⟨levels, rfl⟩ := Nat.exists_eq_add_of_le' hlevels
    exact readAs_phrase hdepth (readAs_string s)
  | .array items, h, hlevels, hdepth => by
    have hheight : (Document.array items).levels = itemsHeight 1 items + 1 := rfl
    rw [hheight] at hlevels hdepth
    obtain ⟨levels, rfl⟩ : ∃ l, levels = l + 2 := ⟨levels - 2, by omega⟩
    have hitems := readAs_itemLiterals levels (depth + 2) items h (by omega) (by omega)
    exact readAs_phrase (by omega) (readAs_array hitems)
  | .object members, h, hlevels, hdepth => by
    have hheight : (Document.object members).levels = membersHeight 1 members + 1 := rfl
    rw [hheight] at hlevels hdepth
    obtain ⟨levels, rfl⟩ : ∃ l, levels = l + 2 := ⟨levels - 2, by omega⟩
    have hmembers := readAs_memberLiterals levels (depth + 2) members h.2 (by omega) (by omega)
    exact readAs_phrase (by omega) (readAs_object hmembers)

theorem readAs_itemLiterals (levels depth : Nat) : (ds : List Document) → ItemsPlain ds →
    2 * itemsHeight 1 ds ≤ levels → depth + 2 * itemsHeight 1 ds ≤ maxDepth →
    List.Forall₂ (ReadAs (phraseAt f levels .assignment) depth) (itemSpellings ds)
      (itemLiterals ds)
  | [], _, _, _ => .nil
  | d :: ds, h, hlevels, hdepth => by
    rw [itemsHeight] at hlevels hdepth
    have hd : d.levels ≤ max (d.height 1) (itemsHeight 1 ds) := Nat.le_max_left _ _
    have hds : itemsHeight 1 ds ≤ max (d.height 1) (itemsHeight 1 ds) := Nat.le_max_right _ _
    exact .cons (readAs_literal levels depth d h.1 (by omega) (by omega))
      (readAs_itemLiterals levels depth ds h.2 (by omega) (by omega))

theorem readAs_memberLiterals (levels depth : Nat) : (ds : List (String × Document)) →
    MembersPlain ds → 2 * membersHeight 1 ds ≤ levels →
    depth + 2 * membersHeight 1 ds ≤ maxDepth →
    List.Forall₂ (ReadAs (Grammar.objectMember ⟨phraseAt f levels, f⟩) depth)
      (memberSpellings ds) (memberLiterals ds)
  | [], _, _, _ => .nil
  | (name, d) :: ds, h, hlevels, hdepth => by
    rw [membersHeight] at hlevels hdepth
    have hd : d.levels ≤ max (d.height 1) (membersHeight 1 ds) := Nat.le_max_left _ _
    have hds : membersHeight 1 ds ≤ max (d.height 1) (membersHeight 1 ds) := Nat.le_max_right _ _
    have hvalue := readAs_literal levels depth d h.1 (by omega) (by omega)
    exact .cons (readAs_member (r := ⟨phraseAt f levels, f⟩) hvalue)
      (readAs_memberLiterals levels depth ds h.2 (by omega) (by omega))

end

end Reading

/-- **The text of a document on one line, in parentheses, is the program that says what it says**,
    if two levels of nesting are left for each of its own. -/
theorem parse_render {d : Document} (h : d.Plain) (hlevels : 2 * d.levels + 3 ≤ Parse.maxDepth) :
    parse ("(" ++ d.render .compact ++ ")") = .ok ⟨[.expr d.literal]⟩ := by
  have htext : ("(" ++ d.render .compact ++ ")").toList =
      '(' :: (textAt .compact 0 d ++ [')']) := by
    have hinside : (d.render .compact).toList = textAt .compact 0 d := String.toList_ofList
    rw [String.toList_append, String.toList_append, hinside]
    rfl
  have hclosed := Marks.closesGroup.behind (spelled_textAt 0 d h) Marks.closesGroup.spelled
  have hspelled := Marks.opensGroup.before hclosed
  rw [← htext] at hspelled
  have hbelow : 2 * d.levels ≤ Parse.maxDepth - 3 := by omega
  exact parse_of_readAs hspelled (readAs_literal _ 3 d h hbelow (by omega))

/-- The text of a string is one token, the string, and nothing stands behind it. -/
theorem tokenize_render_string (layout : Layout) (s : String) :
    ∃ t p, tokenize ((Document.string s).render layout) = .ok ⟨[t], ⟨.stop, "", p, false⟩⟩ ∧
      t.kind = .string ∧ t.text = s := by
  have hspelled : Spelled ((Document.string s).render layout).toList [(.string, s)] := by
    rw [render, String.toList_ofList]
    exact spelled_stringText s
  obtain ⟨ts, p, htokens, hts⟩ := tokenize_of_spelled hspelled
  obtain ⟨t, ts, rfl, ht, hnil⟩ := List.map_eq_cons_iff.mp hts
  obtain rfl := List.map_eq_nil_iff.mp hnil
  exact ⟨t, p, htokens, kind_of_spelling ht, congrArg Prod.snd ht⟩

end MemoryShell.Document
