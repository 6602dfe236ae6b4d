/-
  MemoryShell/Proofs/Syntax/Turns.lean
  ====================================
  **Recursions that end before their bounds do.**

  The lexer, the cutter of templates and the grammar recur under bounds.  A bound says nothing of
  why a recursion ends, and where it was met it would cut off what is read.  So each recursion has a
  turn here, which is written without a bound: it is what one round does, given the rounds behind
  it.  A turn asks for a further round only where less is left.  This is why the recursion ends, and
  why a bound that is no less than what is left does not matter.
-/
import MemoryShell.Proofs.Syntax.Spacing
import MemoryShell.Proofs.Syntax.Substitution

namespace MemoryShell.Script

/-! ### Recursions under a bound -/

section Recursion

variable {σ ρ : Type} {P : σ → Prop} {size : σ → Nat} {turn : (σ → ρ) → σ → ρ}
  {run : Nat → σ → ρ} {whole : σ → ρ}

/-- A recursion that needs no bound.  A turn asks for the rest of the recursion at smaller states
    only; a bound that is no less than the size of a state does not matter there; and the whole
    recursion is a turn, and then itself. -/
structure EndsBySize (P : σ → Prop) (size : σ → Nat) (turn : (σ → ρ) → σ → ρ) (run : Nat → σ → ρ)
    (whole : σ → ρ) : Prop where
  smaller : ∀ next next' s, P s → (∀ s', P s' → size s' < size s → next s' = next' s') →
    turn next s = turn next' s
  bound : ∀ s, P s → ∀ n, size s ≤ n → run n s = whole s
  whole : ∀ s, P s → whole s = turn whole s

/-- Two bounds that both suffice come to the same. -/
theorem run_eq_of_size_le (hzero : ∀ next s, P s → size s = 0 → run 0 s = turn next s)
    (hsucc : ∀ n s, run (n + 1) s = turn (run n) s)
    (hsmaller : ∀ next next' s, P s → (∀ s', P s' → size s' < size s → next s' = next' s') →
      turn next s = turn next' s)
    {n m : Nat} {s : σ} (hs : P s) (hn : size s ≤ n) (hm : size s ≤ m) : run n s = run m s := by
  induction n generalizing m s with
  | zero =>
    cases m with
    | zero => rfl
    | succ m => rw [hsucc, hzero (run m) s hs (Nat.le_zero.mp hn)]
  | succ n ih =>
    cases m with
    | zero => rw [hsucc, hzero (run n) s hs (Nat.le_zero.mp hm)]
    | succ m =>
      rw [hsucc, hsucc]
      exact hsmaller _ _ s hs fun s' hs' hlt => ih hs' (by omega) (by omega)

/-- A recursion needs no bound if its turns ask for smaller states, and a bound of nothing is enough
    where nothing is left. -/
theorem EndsBySize.of_turn (hzero : ∀ next s, P s → size s = 0 → run 0 s = turn next s)
    (hsucc : ∀ n s, run (n + 1) s = turn (run n) s)
    (hsmaller : ∀ next next' s, P s → (∀ s', P s' → size s' < size s → next s' = next' s') →
      turn next s = turn next' s)
    (hwhole : ∀ s, P s → ∃ n, size s ≤ n ∧ whole s = run n s) :
    EndsBySize P size turn run whole := by
  have hbound : ∀ s, P s → ∀ n, size s ≤ n → run n s = whole s := by
    intro s hs n hn
    obtain ⟨m, hm, hrun⟩ := hwhole s hs
    rw [hrun]
    exact run_eq_of_size_le hzero hsucc hsmaller hs hn hm
  refine ⟨hsmaller, hbound, fun s hs => ?_⟩
  rw [← hbound s hs (size s + 1) (Nat.le_succ _), hsucc]
  exact hsmaller _ _ s hs fun s' hs' hlt => hbound s' hs' (size s) (Nat.le_of_lt hlt)

end Recursion

/-! ### The lexer -/

variable {stop : Position} {gs rest : List Glyph}

/-- Reading a token takes something, unless it is the end. -/
theorem nextToken_length {t : Token} (h : nextToken stop gs = .ok (t, rest)) (ht : t.kind ≠ .stop) :
    rest.length < gs.length := by
  obtain ⟨run, front, kind, text, rfl, -, -, htoken, rfl⟩ := nextToken_eq_ok h
  obtain _ | ⟨g, front⟩ := front
  · cases htoken
    exact absurd rfl ht
  · have hlength := (token_suffix htoken).2.length_le
    rw [List.length_append, List.length_cons]
    exact Nat.lt_of_lt_of_le (Nat.lt_succ_of_le hlength) (Nat.le_add_left _ _)

/-- One round of the lexer: read a token, and more unless it is the end. -/
def tokensTurn (stop : Position) (next : List Token × List Glyph → Except SyntaxError TokenList)
    (s : List Token × List Glyph) : Except SyntaxError TokenList := do
  let (read, rest) ← nextToken stop s.2
  if read.kind = .stop then return ⟨s.1.reverse, read⟩
  next (read :: s.1, rest)

/-- The lexer needs no bound: it takes something in each turn. -/
theorem tokensFrom_ends (stop : Position) :
    EndsBySize (fun _ => True) (fun s => s.2.length) (tokensTurn stop)
      (fun n s => tokensFrom stop n s.1 s.2) (fun s => tokensFrom stop s.2.length s.1 s.2) := by
  refine .of_turn ?_ (fun _ _ => rfl) ?_ fun s _ => ⟨s.2.length, Nat.le_refl _, rfl⟩
  · rintro next ⟨done, gs⟩ - hsize
    obtain rfl := List.length_eq_zero_iff.mp hsize
    rfl
  · rintro next next' ⟨done, gs⟩ - hnext
    dsimp only [tokensTurn]
    cases hread : nextToken stop gs with
    | error e => rfl
    | ok r =>
      obtain ⟨t, rest⟩ := r
      change (if t.kind = .stop then _ else next (t :: done, rest)) =
        (if t.kind = .stop then _ else next' (t :: done, rest))
      split
      · rfl
      · exact hnext _ trivial (nextToken_length hread ‹_›)

/-- One round of the reader of strings: the end of the string, an escape or a character. -/
def stringTurn (stop : Position) (quote : Char)
    (next : List Char × List Glyph → Except SyntaxError (List Char × List Glyph)) :
    List Char × List Glyph → Except SyntaxError (List Char × List Glyph)
  | (_, []) => .error ⟨.invalidToken, stop⟩
  | (acc, g :: rest) =>
    if g.char = '\n' then .error ⟨.invalidToken, g.position⟩
    else if g.char = quote then .ok (acc.reverse, rest)
    else if g.char = '\\' then do
      let (chars, rest) ← escape stop rest
      next (chars.reverse ++ acc, rest)
    else next (g.char :: acc, rest)

/-- The reader of strings needs no bound: it takes something in each turn. -/
theorem stringFrom_ends (stop : Position) (quote : Char) :
    EndsBySize (fun _ => True) (fun s => s.2.length) (stringTurn stop quote)
      (fun n s => stringFrom stop quote n s.1 s.2)
      (fun s => stringFrom stop quote s.2.length s.1 s.2) := by
  refine .of_turn ?_ ?_ ?_ fun s _ => ⟨s.2.length, Nat.le_refl _, rfl⟩
  · rintro next ⟨acc, gs⟩ - hsize
    obtain rfl := List.length_eq_zero_iff.mp hsize
    rfl
  · rintro n ⟨acc, _ | ⟨g, rest⟩⟩ <;> rfl
  · rintro next next' ⟨acc, _ | ⟨g, rest⟩⟩ - hnext
    · rfl
    · dsimp only [stringTurn]
      split
      · rfl
      split
      · rfl
      split
      · cases hescape : escape stop rest with
        | error e => rfl
        | ok r =>
          have hlength := escape_length hescape
          exact hnext _ trivial (Nat.lt_succ_of_lt hlength)
      · exact hnext _ trivial (Nat.lt_succ_self _)

/-! ### Templates -/

/-- One round of the cutter of templates: an escape, a substitution or a character. -/
def templateTurn (fragment : List Char → Except SyntaxError Expr) (position : Position)
    (next : List Char × List Char → Except SyntaxError (List TemplatePart)) :
    List Char × List Char → Except SyntaxError (List TemplatePart)
  | (literal, []) => .ok (literalPart literal)
  | (literal, c :: cs) =>
    match c, cs with
    | '\\', escaped :: rest => next ((templateEscape escaped).reverse ++ literal, rest)
    | '$', '\x7b' :: inner =>
      match matchBrace 0 [] inner with
      | none => .error ⟨.unterminatedTemplate, position⟩
      | some (source, rest) => do
        let e ← fragment source
        let parts ← next ([], rest)
        return literalPart literal ++ .expr e :: parts
    | c, cs => next (c :: literal, cs)

/-- What a substitution is cut from is longer than it, and than what stands behind it. -/
theorem matchBrace_length {inner source rest : List Char}
    (h : matchBrace 0 [] inner = some (source, rest)) :
    source.length + rest.length < inner.length := by
  have hlength := congrArg List.length (matchBrace_text h)
  rw [List.length_append, List.length_append, List.length_cons, List.length_reverse] at hlength
  rw [List.length_nil, Nat.zero_add] at hlength
  omega

/-- A turn asks for what is left behind it, and for the source of a substitution, which is shorter
    by its marks. -/
theorem templateTurn_congr {f f' : List Char → Except SyntaxError Expr} {position : Position}
    {next next' : List Char × List Char → Except SyntaxError (List TemplatePart)}
    {literal text : List Char} (hf : ∀ source, source.length < text.length → f source = f' source)
    (hnext : ∀ s, s.2.length < text.length → next s = next' s) :
    templateTurn f position next (literal, text) =
      templateTurn f' position next' (literal, text) := by
  unfold templateTurn
  split
  · rfl
  · rename_i heq
    cases heq
    split
    · exact hnext _ (by simp only [List.length_cons]; omega)
    · rename_i inner
      split
      · rfl
      · rename_i hmatch
        have hlength := matchBrace_length hmatch
        rw [List.length_cons, List.length_cons] at hf hnext
        rw [hf _ (by omega), hnext ([], _) (show _ < _ by dsimp only; omega)]
    · exact hnext _ (Nat.lt_succ_self _)

theorem templatePartsFrom_succ (f : List Char → Except SyntaxError Expr) (position : Position)
    (n : Nat) (s : List Char × List Char) :
    templatePartsFrom f position (n + 1) s.1 s.2 =
      templateTurn f position (fun s => templatePartsFrom f position n s.1 s.2) s := by
  obtain ⟨literal, _ | ⟨c, cs⟩⟩ := s <;> rfl

/-- The cutter of templates needs no bound: it takes something in each turn. -/
theorem templatePartsFrom_ends (f : List Char → Except SyntaxError Expr) (position : Position) :
    EndsBySize (fun _ => True) (fun s => s.2.length) (templateTurn f position)
      (fun n s => templatePartsFrom f position n s.1 s.2)
      (fun s => templatePartsFrom f position s.2.length s.1 s.2) := by
  refine .of_turn ?_ (templatePartsFrom_succ f position) ?_
    fun s _ => ⟨s.2.length, Nat.le_refl _, rfl⟩
  · rintro next ⟨literal, text⟩ - hsize
    obtain rfl := List.length_eq_zero_iff.mp hsize
    rfl
  · exact fun next next' s _ hnext =>
      templateTurn_congr (fun _ _ => rfl) fun s' hlt => hnext s' trivial hlt

/-- The parts of a template come to the same for two readers of the sources that are shorter. -/
theorem templatePartsFrom_congr {f f' : List Char → Except SyntaxError Expr} (position : Position)
    (n : Nat) {literal text : List Char}
    (hf : ∀ source, source.length < text.length → f source = f' source) :
    templatePartsFrom f position n literal text = templatePartsFrom f' position n literal text := by
  induction n generalizing literal text with
  | zero => rfl
  | succ n ih =>
    have hturn := templatePartsFrom_succ f position n (literal, text)
    have hturn' := templatePartsFrom_succ f' position n (literal, text)
    dsimp only at hturn hturn'
    rw [hturn, hturn']
    exact templateTurn_congr hf fun s hlt => ih fun source hsource => hf source (by omega)

theorem templateParts_congr {f f' : List Char → Except SyntaxError Expr} {t : Token}
    (hf : ∀ source, source.length < t.text.length → f source = f' source) :
    templateParts f t = templateParts f' t := by
  refine templatePartsFrom_congr _ _ fun source hsource => hf source ?_
  rwa [String.length_toList] at hsource

end MemoryShell.Script
