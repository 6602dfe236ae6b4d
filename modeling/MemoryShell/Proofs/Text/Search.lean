/-
  MemoryShell/Proofs/Text/Search.lean
  ===================================
  **Going over a text from left to right.**

  Cutting, replacing and showing marked-up text all go over a text in one way: they look at each
  character for what begins there, pass over what they find, and keep all other characters.  `Scan`
  is that way, and the functions are instances of it.  Which occurrences of a separator are found is
  said once, by `Cut`: the first one, then the first one behind it, and so on.  What cutting and
  replacing come to is read off the cut.
-/
import Mathlib.Data.List.Basic
import Mathlib.Order.Bounds.Defs
import MemoryShell.Text.Search

namespace MemoryShell.Text

/-! ### Finding -/

/-- What is found at the start of a text, and how many characters it takes. -/
abbrev Finder (α : Type) := List Char → Option (α × Nat)

/-- Nothing is found at any character of a text, seen with what follows the text. -/
def Finder.FindsNone {α : Type} (find : Finder α) (before rest : List Char) : Prop :=
  ∀ tail, tail <:+ before → tail ≠ [] → find (tail ++ rest) = none

namespace Finder.FindsNone

variable {α : Type} {find : Finder α} {c : Char} {cs before before' rest : List Char}

theorem nil : FindsNone find [] rest := fun _ htail hne => absurd (List.suffix_nil.mp htail) hne

theorem cons_iff :
    FindsNone find (c :: cs) rest ↔ find (c :: cs ++ rest) = none ∧ FindsNone find cs rest := by
  constructor
  · intro h
    exact ⟨h _ List.suffix_rfl (List.cons_ne_nil _ _),
      fun tail htail => h tail (htail.trans (List.suffix_cons _ _))⟩
  · rintro ⟨hfirst, hrest⟩ tail htail hne
    rcases List.suffix_cons_iff.mp htail with rfl | htail
    · exact hfirst
    · exact hrest tail htail hne

theorem append (h : FindsNone find before (before' ++ rest)) (h' : FindsNone find before' rest) :
    FindsNone find (before ++ before') rest := by
  induction before with
  | nil => exact h'
  | cons c cs ih =>
    obtain ⟨hfirst, hrest⟩ := cons_iff.mp h
    rw [← List.append_assoc, List.cons_append] at hfirst
    exact cons_iff.mpr ⟨hfirst, ih hrest⟩

/-- What can only begin with a character is not found where the character is not. -/
theorem of_not_mem {first : Char} (hfind : ∀ c cs, c ≠ first → find (c :: cs) = none)
    (h : first ∉ before) : FindsNone find before rest := by
  induction before with
  | nil => exact nil
  | cons c cs ih =>
    rw [List.mem_cons, not_or] at h
    exact cons_iff.mpr ⟨hfind c _ (Ne.symm h.1), ih h.2⟩

end Finder.FindsNone

/-! ### Scans -/

/-- A way to go over a text: what to look for, and what to make of it and of the other characters. -/
structure Scan (α S R : Type) where
  find : Finder α
  keep : S → Char → S
  found : S → α → S
  finish : S → R

namespace Scan

variable {α S R : Type} (scan : Scan α S R)

/-- Go over a text; `skip` characters of what was found last remain. -/
def run : Nat → S → List Char → R
  | _, s, [] => scan.finish s
  | skip + 1, s, _ :: cs => run skip s cs
  | 0, s, c :: cs =>
    match scan.find (c :: cs) with
    | some (a, size) => run (size - 1) (scan.found s a) cs
    | none => run 0 (scan.keep s c) cs

theorem run_skip (skip : Nat) (s : S) (cs : List Char) :
    scan.run skip s cs = scan.run 0 s (cs.drop skip) := by
  induction cs generalizing skip with
  | nil =>
    rw [List.drop_nil]
    cases skip <;> rfl
  | cons c cs ih =>
    cases skip with
    | zero => rfl
    | succ skip => exact ih skip

/-- Characters at which nothing is found are kept. -/
theorem run_keep {before rest : List Char} (h : scan.find.FindsNone before rest) (s : S) :
    scan.run 0 s (before ++ rest) = scan.run 0 (before.foldl scan.keep s) rest := by
  induction before generalizing s with
  | nil => rfl
  | cons c cs ih =>
    obtain ⟨hfirst, hrest⟩ := Finder.FindsNone.cons_iff.mp h
    rw [List.cons_append] at hfirst
    rw [List.cons_append, run, hfirst]
    exact ih hrest _

/-- What is found is passed over as a whole. -/
theorem run_found {word rest : List Char} {a : α}
    (h : scan.find (word ++ rest) = some (a, word.length)) (hne : word ≠ []) (s : S) :
    scan.run 0 s (word ++ rest) = scan.run 0 (scan.found s a) rest := by
  cases word with
  | nil => exact absurd rfl hne
  | cons c cs =>
    rw [List.cons_append] at h ⊢
    rw [run, h]
    exact (scan.run_skip _ _ _).trans (congrArg _ List.drop_left)

/-- What does not change how a scan goes on changes only its end. -/
theorem run_map {f : S → S} {g : R → R} (hkeep : ∀ s c, scan.keep (f s) c = f (scan.keep s c))
    (hfound : ∀ s a, scan.found (f s) a = f (scan.found s a))
    (hfinish : ∀ s, scan.finish (f s) = g (scan.finish s)) (skip : Nat) (s : S) (cs : List Char) :
    scan.run skip (f s) cs = g (scan.run skip s cs) := by
  induction cs generalizing skip s with
  | nil => cases skip <;> exact hfinish s
  | cons c cs ih =>
    cases skip with
    | succ skip => exact ih skip s
    | zero =>
      rw [run, run]
      split
      · rw [hfound, ih]
      · rw [hkeep, ih]

end Scan

/-! ### Occurrences of a pattern -/

/-- Find a pattern. -/
def patternFinder (pattern : List Char) : Finder Unit := fun cs =>
  if pattern.isPrefixOf cs then some ((), pattern.length) else none

variable {pattern separator text before rest : List Char}

theorem patternFinder_eq_none {cs : List Char} :
    patternFinder pattern cs = none ↔ ¬ pattern <+: cs := by
  rw [patternFinder, ← List.isPrefixOf_iff_prefix]
  split <;> simp [*]

theorem patternFinder_append (pattern rest : List Char) :
    patternFinder pattern (pattern ++ rest) = some ((), pattern.length) :=
  if_pos (List.isPrefixOf_iff_prefix.mpr (List.prefix_append _ _))

/-- A pattern begins with its first character. -/
theorem patternFinder_cons_of_ne {first c : Char} (h : c ≠ first) (pattern cs : List Char) :
    patternFinder (first :: pattern) (c :: cs) = none :=
  patternFinder_eq_none.mpr fun hprefix => h (List.cons_prefix_cons.mp hprefix).1.symm

theorem findsNone_of_infix_free (h : ¬ pattern <:+: before) :
    (patternFinder pattern).FindsNone before [] := by
  intro tail htail _
  rw [List.append_nil, patternFinder_eq_none]
  exact fun hstart => h (hstart.isInfix.trans htail.isInfix)

theorem infix_free_of_findsNone (h : (patternFinder pattern).FindsNone before rest)
    (hne : pattern ≠ []) : ¬ pattern <:+: before := by
  rintro ⟨earlier, later, rfl⟩
  have hnone := h (pattern ++ later) ⟨earlier, (List.append_assoc _ _ _).symm⟩ (by simp [hne])
  rw [List.append_assoc, patternFinder_append] at hnone
  cases hnone

/-- A pattern that stands somewhere stands somewhere first. -/
theorem exists_first (h : pattern <:+: text) : ∃ before rest, text = before ++ (pattern ++ rest) ∧
    (patternFinder pattern).FindsNone before (pattern ++ rest) := by
  induction text with
  | nil =>
    rw [List.infix_nil] at h
    exact ⟨[], [], by rw [h]; rfl, .nil⟩
  | cons c cs ih =>
    by_cases hprefix : pattern <+: c :: cs
    · obtain ⟨rest, hrest⟩ := hprefix
      exact ⟨[], rest, hrest.symm, .nil⟩
    · obtain ⟨before, rest, rfl, hnone⟩ := ih ((List.infix_cons_iff.mp h).resolve_left hprefix)
      exact ⟨c :: before, rest, rfl,
        Finder.FindsNone.cons_iff.mpr ⟨patternFinder_eq_none.mpr hprefix, hnone⟩⟩

theorem firstFrom_of_prefix (h : pattern <+: text) (i : Nat) :
    firstFrom pattern i text = some i := by
  cases text with
  | nil =>
    rw [List.prefix_nil] at h
    exact if_pos (by rw [h]; rfl)
  | cons c cs => exact if_pos (List.isPrefixOf_iff_prefix.mpr h)

theorem firstFrom_keep (h : (patternFinder pattern).FindsNone before rest) (i : Nat) :
    firstFrom pattern i (before ++ rest) = firstFrom pattern (i + before.length) rest := by
  induction before generalizing i with
  | nil => rfl
  | cons c cs ih =>
    obtain ⟨hfirst, hnone⟩ := Finder.FindsNone.cons_iff.mp h
    rw [List.cons_append, patternFinder_eq_none, ← List.isPrefixOf_iff_prefix] at hfirst
    rw [List.cons_append, firstFrom, if_neg hfirst, ih hnone, List.length_cons, Nat.add_right_comm,
      Nat.add_assoc]

theorem first?_eq_length (h : (patternFinder pattern).FindsNone before (pattern ++ rest)) :
    first? pattern (before ++ (pattern ++ rest)) = some before.length := by
  rw [first?, firstFrom_keep h, firstFrom_of_prefix (List.prefix_append _ _), Nat.zero_add]

theorem first?_eq_none (h : ¬ pattern <:+: text) : first? pattern text = none := by
  have hkeep := firstFrom_keep (findsNone_of_infix_free h) 0
  have hne : pattern ≠ [] := fun hnil => h (hnil ▸ List.nil_infix)
  rw [List.append_nil] at hkeep
  rw [first?, hkeep, firstFrom, if_neg (by simpa using hne)]

theorem occurs_iff : occurs pattern text = true ↔ pattern <:+: text := by
  rw [occurs]
  by_cases h : pattern <:+: text
  · obtain ⟨before, rest, rfl, hnone⟩ := exists_first h
    rw [first?_eq_length hnone]
    exact iff_of_true rfl h
  · rw [first?_eq_none h]
    exact iff_of_false Bool.false_ne_true h

theorem first?_eq_zero_iff : first? pattern text = some 0 ↔ pattern <+: text := by
  constructor
  · intro h
    have hoccurs : pattern <:+: text := occurs_iff.mp (by rw [occurs, h]; rfl)
    obtain ⟨before, rest, rfl, hnone⟩ := exists_first hoccurs
    rw [first?_eq_length hnone, Option.some_inj, List.length_eq_zero_iff] at h
    rw [h, List.nil_append]
    exact List.prefix_append _ _
  · exact fun h => firstFrom_of_prefix h 0

/-! ### Positions -/

/-- Whether what begins at a position of a text begins with the pattern.  The end of the text is a
    position as well. -/
def StandsAt (pattern text : List Char) (i : Nat) : Prop :=
  i ≤ text.length ∧ pattern <+: text.drop i

section Positions

variable {c : Char} {cs : List Char} {i : Nat}

theorem standsAt_zero : StandsAt pattern text 0 ↔ pattern <+: text := by
  simp [StandsAt]

theorem standsAt_succ : StandsAt pattern (c :: cs) (i + 1) ↔ StandsAt pattern cs i := by
  simp [StandsAt]

theorem standsAt_nil : StandsAt pattern [] i ↔ i = 0 ∧ pattern = [] := by
  simp [StandsAt]

/-- A pattern stands somewhere if it is a part of the text. -/
theorem exists_standsAt : (∃ i, StandsAt pattern text i) ↔ pattern <:+: text := by
  constructor
  · rintro ⟨i, -, hstands⟩
    exact hstands.isInfix.trans (List.drop_suffix i text).isInfix
  · rintro ⟨before, behind, rfl⟩
    refine ⟨before.length, by simp, behind, ?_⟩
    rw [List.append_assoc, List.drop_left]

/-- A pattern stands last where the text ends with it. -/
theorem exists_standsAt_end :
    (∃ i, i + pattern.length = text.length ∧ StandsAt pattern text i) ↔ pattern <:+ text := by
  constructor
  · rintro ⟨i, hi, -, hstands⟩
    have hdrop : (text.drop i).length ≤ pattern.length := by
      rw [List.length_drop]
      omega
    rw [hstands.eq_of_length_le hdrop]
    exact List.drop_suffix i text
  · rintro ⟨before, rfl⟩
    refine ⟨before.length, by simp, by simp, ?_⟩
    simp only [List.drop_left, List.prefix_rfl]

theorem firstFrom_of_isLeast (h : IsLeast {i | StandsAt pattern text i} i) (k : Nat) :
    firstFrom pattern k text = some (k + i) := by
  induction text generalizing i k with
  | nil =>
    obtain ⟨rfl, rfl⟩ := standsAt_nil.mp h.1
    rfl
  | cons c cs ih =>
    by_cases hprefix : pattern <+: c :: cs
    · have hzero : i ≤ 0 := h.2 (standsAt_zero.mpr hprefix)
      rw [Nat.le_zero.mp hzero]
      exact firstFrom_of_prefix hprefix k
    · cases i with
      | zero => exact absurd (standsAt_zero.mp h.1) hprefix
      | succ i =>
        have hrest : IsLeast {i | StandsAt pattern cs i} i :=
          ⟨standsAt_succ.mp h.1, fun j hj => Nat.le_of_succ_le_succ (h.2 (standsAt_succ.mpr hj))⟩
        rw [firstFrom, if_neg (mt List.isPrefixOf_iff_prefix.mp hprefix), ih hrest]
        congr 1
        omega

theorem lastFrom_of_infix_free (h : ¬ pattern <:+: text) (k : Nat) (found : Option Nat) :
    lastFrom pattern k found text = found := by
  induction text generalizing k with
  | nil =>
    have hne : pattern ≠ [] := fun hnil => h (hnil ▸ List.nil_infix)
    exact if_neg (by simpa using hne)
  | cons c cs ih =>
    rw [List.infix_cons_iff, not_or] at h
    rw [lastFrom, if_neg (mt List.isPrefixOf_iff_prefix.mp h.1), ih h.2]

theorem lastFrom_of_isGreatest (h : IsGreatest {i | StandsAt pattern text i} i) (k : Nat)
    (found : Option Nat) : lastFrom pattern k found text = some (k + i) := by
  induction text generalizing i k found with
  | nil =>
    obtain ⟨rfl, rfl⟩ := standsAt_nil.mp h.1
    rfl
  | cons c cs ih =>
    cases i with
    | zero =>
      have hprefix := standsAt_zero.mp h.1
      have hrest : ¬ pattern <:+: cs := by
        rw [← exists_standsAt]
        rintro ⟨j, hj⟩
        exact absurd (h.2 (standsAt_succ.mpr hj)) (Nat.not_succ_le_zero j)
      rw [lastFrom, if_pos (List.isPrefixOf_iff_prefix.mpr hprefix), lastFrom_of_infix_free hrest]
      rfl
    | succ i =>
      have hrest : IsGreatest {i | StandsAt pattern cs i} i :=
        ⟨standsAt_succ.mp h.1, fun j hj => Nat.le_of_succ_le_succ (h.2 (standsAt_succ.mpr hj))⟩
      rw [lastFrom, ih hrest]
      congr 1
      omega

/-- The position that is found first is the least one. -/
theorem first?_of_isLeast (h : IsLeast {i | StandsAt pattern text i} i) :
    first? pattern text = some i := by
  rw [first?, firstFrom_of_isLeast h, Nat.zero_add]

/-- The position that is found last is the greatest one. -/
theorem last?_of_isGreatest (h : IsGreatest {i | StandsAt pattern text i} i) :
    last? pattern text = some i := by
  rw [last?, lastFrom_of_isGreatest h, Nat.zero_add]

theorem last?_eq_none (h : ¬ pattern <:+: text) : last? pattern text = none :=
  lastFrom_of_infix_free h 0 none

end Positions

/-! ### Replacing -/

/-- Put something in the place of all that is found. -/
def replacing {α : Type} (find : Finder α) (new : α → List Char) : Scan α (List Char) (List Char) where
  find := find
  keep acc c := c :: acc
  found acc a := (new a).reverse ++ acc
  finish := List.reverse

/-- A text with something in the place of all that is found in it. -/
def replaced {α : Type} (find : Finder α) (new : α → List Char) (cs : List Char) : List Char :=
  (replacing find new).run 0 [] cs

section Replaced

variable {α : Type} {find : Finder α} {new : α → List Char}

theorem run_replacing (acc cs : List Char) :
    (replacing find new).run 0 acc cs = acc.reverse ++ replaced find new cs :=
  (replacing find new).run_map (f := fun s => s ++ acc) (g := fun r => acc.reverse ++ r)
    (fun _ _ => rfl) (fun _ _ => (List.append_assoc _ _ _).symm) (fun _ => List.reverse_append) 0 [] cs

theorem replaced_nil : replaced find new [] = [] := rfl

theorem replaced_keep (h : find.FindsNone before rest) :
    replaced find new (before ++ rest) = before ++ replaced find new rest := by
  have hkept : before.foldl (fun acc c => c :: acc) [] = before.reverse := by
    rw [List.foldl_flip_cons_eq_append', List.append_nil]
  rw [replaced, (replacing find new).run_keep h]
  exact (congrArg (fun acc => (replacing find new).run 0 acc rest) hkept).trans (by
    rw [run_replacing, List.reverse_reverse])

theorem replaced_found {word : List Char} {a : α}
    (h : find (word ++ rest) = some (a, word.length)) (hne : word ≠ []) :
    replaced find new (word ++ rest) = new a ++ replaced find new rest := by
  rw [replaced, (replacing find new).run_found h hne, run_replacing]
  exact congrArg (· ++ _) (by simp [replacing])

end Replaced

theorem replaceFrom_eq_run (pattern new : List Char) (skip : Nat) (acc cs : List Char) :
    replaceFrom pattern new skip acc cs =
      (replacing (patternFinder pattern) fun _ => new).run skip acc cs := by
  induction cs generalizing skip acc with
  | nil => cases skip <;> rfl
  | cons c cs ih =>
    cases skip with
    | succ skip => exact ih skip acc
    | zero =>
      simp only [replaceFrom, Scan.run, replacing, patternFinder]
      split <;> exact ih _ _

theorem replaceAll_eq_replaced (h : pattern ≠ []) (new text : List Char) :
    replaceAll pattern new text = replaced (patternFinder pattern) (fun _ => new) text := by
  rw [replaceAll, if_neg (by simpa using h), replaceFrom_eq_run, replaced]

/-! ### Cutting -/

/-- Cut at all that is found; `mark` stays behind each piece but the last, and `last` says what
    becomes of that one. -/
def cutting {α : Type} (find : Finder α) (mark : List Char)
    (last : List Char → List (List Char)) :
    Scan α (List Char × List (List Char)) (List (List Char)) where
  find := find
  keep s c := (c :: s.1, s.2)
  found s _ := ([], (s.1.reverse ++ mark) :: s.2)
  finish s := s.2.reverse ++ last s.1.reverse

section Cutting

variable {α : Type} {find : Finder α} {mark : List Char} {last : List Char → List (List Char)}

theorem foldl_keep_cutting (s : List Char × List (List Char)) :
    before.foldl (cutting find mark last).keep s = (before.reverse ++ s.1, s.2) := by
  induction before generalizing s with
  | nil => rfl
  | cons c cs ih =>
    rw [List.foldl_cons, ih, List.reverse_cons, List.append_assoc]
    rfl

/-- A text in which nothing is found is the last piece. -/
theorem run_cutting_last (h : find.FindsNone text []) :
    (cutting find mark last).run 0 ([], []) text = last text := by
  have hkeep := (cutting find mark last).run_keep h ([], [])
  rw [List.append_nil, foldl_keep_cutting, List.append_nil] at hkeep
  rw [hkeep]
  exact congrArg last (List.reverse_reverse text)

/-- What stands before the first thing that is found is the first piece. -/
theorem run_cutting_first {word : List Char} {a : α} (h : find.FindsNone before (word ++ rest))
    (hword : find (word ++ rest) = some (a, word.length)) (hne : word ≠ []) :
    (cutting find mark last).run 0 ([], []) (before ++ (word ++ rest)) =
      (before ++ mark) :: (cutting find mark last).run 0 ([], []) rest := by
  have hdone := (cutting find mark last).run_map
    (f := fun s => (s.1, s.2 ++ [before ++ mark])) (g := ((before ++ mark) :: ·))
    (fun _ _ => rfl) (fun _ _ => rfl) (fun _ => by simp [cutting]) 0 ([], []) rest
  rw [← hdone, (cutting find mark last).run_keep h, (cutting find mark last).run_found hword hne,
    foldl_keep_cutting]
  simp [cutting]

end Cutting

/-- The pieces between occurrences. -/
theorem splitFrom_eq_run (skip : Nat) (piece : List Char) (done : List (List Char))
    (cs : List Char) : splitFrom separator skip piece done cs =
      (cutting (patternFinder separator) [] fun last => [last]).run skip (piece, done) cs := by
  induction cs generalizing skip piece done with
  | nil =>
    rw [splitFrom, List.reverse_cons]
    cases skip <;> rfl
  | cons c cs ih =>
    cases skip with
    | succ skip => exact ih skip piece done
    | zero =>
      simp only [splitFrom, Scan.run, cutting, patternFinder]
      split
      · rw [List.append_nil]
        exact ih _ _ _
      · exact ih _ _ _

theorem splitAfterFrom_eq_run (skip : Nat) (piece : List Char) (done : List (List Char))
    (cs : List Char) : splitAfterFrom separator skip piece done cs =
      (cutting (patternFinder separator) separator fun last =>
        if last.isEmpty then [] else [last]).run skip (piece, done) cs := by
  induction cs generalizing skip piece done with
  | nil =>
    have hend : splitAfterFrom separator skip piece done [] =
        done.reverse ++ if piece.reverse.isEmpty then [] else [piece.reverse] := by
      rw [splitAfterFrom, List.isEmpty_reverse]
      split <;> simp
    rw [hend]
    cases skip <;> rfl
  | cons c cs ih =>
    cases skip with
    | succ skip => exact ih skip piece done
    | zero =>
      simp only [splitAfterFrom, Scan.run, cutting, patternFinder]
      split <;> exact ih _ _ _

/-- Where the separator does not stand there is one piece. -/
theorem splitOn_last (h : ¬ separator <:+: text) : splitOn separator text = [text] := by
  rw [splitOn, splitFrom_eq_run, run_cutting_last (findsNone_of_infix_free h)]

theorem splitAfter_last (h : ¬ separator <:+: text) :
    splitAfter separator text = if text.isEmpty then [] else [text] := by
  rw [splitAfter, splitAfterFrom_eq_run, run_cutting_last (findsNone_of_infix_free h)]

section Separator

variable (hne : separator ≠ [])
include hne

theorem splitOn_first (h : (patternFinder separator).FindsNone before (separator ++ rest)) :
    splitOn separator (before ++ (separator ++ rest)) = before :: splitOn separator rest := by
  rw [splitOn, splitFrom_eq_run, run_cutting_first h (patternFinder_append _ _) hne,
    List.append_nil, splitOn, splitFrom_eq_run]

theorem splitAfter_first (h : (patternFinder separator).FindsNone before (separator ++ rest)) :
    splitAfter separator (before ++ (separator ++ rest)) =
      (before ++ separator) :: splitAfter separator rest := by
  rw [splitAfter, splitAfterFrom_eq_run, run_cutting_first h (patternFinder_append _ _) hne,
    splitAfter, splitAfterFrom_eq_run]

theorem replaceAll_last (h : ¬ separator <:+: text) (new : List Char) :
    replaceAll separator new text = text := by
  have hkeep : replaced (patternFinder separator) (fun _ => new) (text ++ []) = text ++ _ :=
    replaced_keep (findsNone_of_infix_free h)
  rw [List.append_nil, replaced_nil, List.append_nil] at hkeep
  rw [replaceAll_eq_replaced hne, hkeep]

theorem replaceAll_first (h : (patternFinder separator).FindsNone before (separator ++ rest))
    (new : List Char) : replaceAll separator new (before ++ (separator ++ rest)) =
      before ++ (new ++ replaceAll separator new rest) := by
  rw [replaceAll_eq_replaced hne, replaced_keep h, replaced_found (patternFinder_append _ _) hne,
    replaceAll_eq_replaced hne]

end Separator

theorem map_toList_ofList (pieces : List (List Char)) :
    (pieces.map String.ofList).map String.toList = pieces := by
  rw [List.map_map]
  exact (List.map_congr_left fun _ _ => String.toList_ofList).trans (List.map_id _)

/-! ### The cut of a text -/

/-- A text ends with the separator and has it nowhere else. -/
structure EndsOnce (separator piece : List Char) : Prop where
  ends : separator <:+ piece
  once : ∀ earlier later, piece = earlier ++ (separator ++ later) → later = []

theorem endsOnce_of_findsNone
    (h : (patternFinder separator).FindsNone before (separator ++ rest)) :
    EndsOnce separator (before ++ separator) := by
  refine ⟨List.suffix_append _ _, fun earlier later heq => ?_⟩
  by_contra hlater
  have hpos := List.length_pos_of_ne_nil hlater
  rcases List.append_eq_append_iff.mp heq with ⟨tail, -, hseparator⟩ | ⟨tail, hbefore, htail⟩
  · have hlength := congrArg List.length hseparator
    simp only [List.length_append] at hlength
    omega
  · -- An occurrence that ends sooner begins before the one at the end.
    have hne : tail ≠ [] := by
      rintro rfl
      have hlength := congrArg List.length htail
      simp only [List.length_append, List.length_nil] at hlength
      omega
    have hnone := h tail ⟨earlier, hbefore.symm⟩ hne
    rw [← List.append_assoc, ← htail, List.append_assoc, patternFinder_append] at hnone
    cases hnone

/-- A text is cut at the first occurrence of the separator, and what is behind it in the same way.
    -/
inductive Cut (separator : List Char) : List Char → List (List Char) → Prop
  | last {text : List Char} : ¬ separator <:+: text → Cut separator text [text]
  | first {before rest : List Char} {pieces : List (List Char)} :
    (patternFinder separator).FindsNone before (separator ++ rest) →
    Cut separator rest pieces → Cut separator (before ++ (separator ++ rest)) (before :: pieces)

theorem exists_cut (hne : separator ≠ []) (text : List Char) :
    ∃ pieces, Cut separator text pieces := by
  induction hlength : text.length using Nat.strongRecOn generalizing text with
  | ind n ih =>
    by_cases h : separator <:+: text
    · obtain ⟨before, rest, rfl, hnone⟩ := exists_first h
      have hshorter : rest.length < n := by
        have hpos := List.length_pos_of_ne_nil hne
        simp only [List.length_append] at hlength
        omega
      obtain ⟨pieces, hpieces⟩ := ih _ hshorter rest rfl
      exact ⟨before :: pieces, .first hnone hpieces⟩
    · exact ⟨[text], .last h⟩

namespace Cut

variable {pieces : List (List Char)}

theorem ne_nil (h : Cut separator text pieces) : pieces ≠ [] := by
  cases h <;> exact List.cons_ne_nil _ _

theorem splitOn_eq (h : Cut separator text pieces) (hne : separator ≠ []) :
    splitOn separator text = pieces := by
  induction h with
  | last h => exact splitOn_last h
  | first h _ ih => rw [splitOn_first hne h, ih]

/-- Between the pieces there is nothing but the separator. -/
theorem intercalate (h : Cut separator text pieces) : separator.intercalate pieces = text := by
  induction h with
  | last h => exact List.intercalate_singleton
  | first _ hrest ih =>
    rw [List.intercalate_cons_of_ne_nil hrest.ne_nil, ih, List.append_assoc]

/-- No piece holds the separator. -/
theorem infix_free (h : Cut separator text pieces) (hne : separator ≠ []) {piece : List Char}
    (hmem : piece ∈ pieces) : ¬ separator <:+: piece := by
  induction h with
  | last h => rwa [List.mem_singleton.mp hmem]
  | first h _ ih =>
    rcases List.mem_cons.mp hmem with rfl | hmem
    · exact infix_free_of_findsNone h hne
    · exact ih hmem

theorem replaceAll_eq (h : Cut separator text pieces) (hne : separator ≠ []) (new : List Char) :
    replaceAll separator new text = new.intercalate pieces := by
  induction h with
  | last h => rw [replaceAll_last hne h, List.intercalate_singleton]
  | first h hrest ih =>
    rw [replaceAll_first hne h, ih, List.intercalate_cons_of_ne_nil hrest.ne_nil, List.append_assoc]

/-- The pieces with the separator behind each are the whole text. -/
theorem flatten_splitAfter (h : Cut separator text pieces) (hne : separator ≠ []) :
    (splitAfter separator text).flatten = text := by
  induction h with
  | @last text h =>
    rw [splitAfter_last h]
    cases text <;> simp
  | first h _ ih => rw [splitAfter_first hne h, List.flatten_cons, ih, List.append_assoc]

/-- Each piece has the separator at its end and nowhere else, but for what is left behind the last
    separator. -/
theorem splitAfter_eq (h : Cut separator text pieces) (hne : separator ≠ []) :
    ∃ ended last, splitAfter separator text = ended ++ (if last.isEmpty then [] else [last]) ∧
      (∀ piece ∈ ended, EndsOnce separator piece) ∧ ¬ separator <:+: last := by
  induction h with
  | @last text h => exact ⟨[], text, splitAfter_last h, nofun, h⟩
  | @first before _ _ h _ ih =>
    obtain ⟨ended, last, heq, hended, hlast⟩ := ih
    refine ⟨(before ++ separator) :: ended, last, ?_, ?_, hlast⟩
    · rw [splitAfter_first hne h, heq, List.cons_append]
    · exact List.forall_mem_cons.mpr ⟨endsOnce_of_findsNone h, hended⟩

end Cut

theorem cut_splitOn (hne : separator ≠ []) (text : List Char) :
    Cut separator text (splitOn separator text) := by
  obtain ⟨pieces, h⟩ := exists_cut hne text
  rwa [h.splitOn_eq hne]

end MemoryShell.Text
