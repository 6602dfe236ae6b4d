/-
  MemoryShell/Proofs/Text/Blank.lean
  ==================================
  **Trimmed texts and words.**

  Trimming takes blanks from both ends and nothing else, so what is trimmed stays as it is when it
  is trimmed again.  A text without a blank is a word of every text that it stands in by itself or
  before a blank.
-/
import Mathlib.Data.List.DropRight
import MemoryShell.Text.Blank

namespace MemoryShell.Text

/-! ### Trimming -/

section Dark

variable {c : Char} (hc : isBlank c = false)
include hc

theorem trimStartChars_cons (cs : List Char) : trimStartChars (c :: cs) = c :: cs := by
  simp [trimStartChars, hc]

theorem trimStartChars_append_cons (cs ds : List Char) :
    trimStartChars (cs ++ c :: ds) = trimStartChars cs ++ c :: ds := by
  rw [trimStartChars, List.dropWhile_append, ← trimStartChars, ← trimStartChars,
    trimStartChars_cons hc]
  split
  · rename_i hblank
    rw [List.isEmpty_iff.mp hblank, List.nil_append]
  · rfl

/-- Blanks are only taken from the start of what has something else in it. -/
theorem trimStartChars_append {cs : List Char} (hmem : c ∈ cs) (ds : List Char) :
    trimStartChars (cs ++ ds) = trimStartChars cs ++ ds := by
  obtain ⟨before, behind, rfl⟩ := List.append_of_mem hmem
  rw [List.append_assoc, List.cons_append, trimStartChars_append_cons hc,
    trimStartChars_append_cons hc, List.append_assoc, List.cons_append]

/-- What does not end with a blank is trimmed at its start alone. -/
theorem trimChars_concat (cs : List Char) : trimChars (cs ++ [c]) = trimStartChars (cs ++ [c]) := by
  rw [trimChars, trimStartChars_append_cons hc]
  simp [trimEndChars, hc]

end Dark

theorem trimStartChars_blank {c : Char} (hc : isBlank c = true) (cs : List Char) :
    trimStartChars (c :: cs) = trimStartChars cs := by
  simp [trimStartChars, hc]

theorem trimEndChars_isPrefix (cs : List Char) : trimEndChars cs <+: cs :=
  cs.rdropWhile_prefix isBlank

theorem trimChars_sublist (cs : List Char) : (trimChars cs).Sublist cs :=
  (trimEndChars_isPrefix _).sublist.trans (List.dropWhile_sublist _)

/-- What trimming leaves has no blank at its start. -/
theorem trimStartChars_trimChars (cs : List Char) :
    trimStartChars (trimChars cs) = trimChars cs := by
  cases htrimmed : trimChars cs with
  | nil => rfl
  | cons c rest =>
    have hhead : (trimStartChars cs).head? = some c := by
      obtain ⟨after, hafter⟩ := trimEndChars_isPrefix (trimStartChars cs)
      rw [← hafter, ← trimChars, htrimmed]
      rfl
    have hdark := List.head?_dropWhile_not isBlank cs
    rw [← trimStartChars, hhead] at hdark
    exact trimStartChars_cons hdark rest

/-- To trim once more takes nothing. -/
theorem trimChars_trimChars (cs : List Char) : trimChars (trimChars cs) = trimChars cs := by
  have htwice : trimEndChars (trimEndChars (trimStartChars cs)) =
      trimEndChars (trimStartChars cs) := List.rdropWhile_idempotent isBlank _
  rw [trimChars, trimStartChars_trimChars, trimChars, htwice]

theorem trim_trim (s : String) : trim (trim s) = trim s := by
  rw [trim, trim, String.toList_ofList, trimChars_trimChars]

theorem trim_space (s : String) : trim (" " ++ s) = trim s := by
  have hspace : trimStartChars (" " ++ s).toList = trimStartChars s.toList := by
    rw [String.toList_append]
    exact trimStartChars_blank rfl s.toList
  rw [trim, trim, trimChars, hspace, trimChars]

/-! ### Words -/

/-- A word grows by what follows without a blank. -/
theorem wordsFrom_append {more : List Char} (h : ∀ c ∈ more, isBlank c = false)
    (word rest : List Char) :
    wordsFrom word (more ++ rest) = wordsFrom (more.reverse ++ word) rest := by
  induction more generalizing word with
  | nil => rfl
  | cons c more ih =>
    rw [List.forall_mem_cons] at h
    rw [List.cons_append, wordsFrom, if_neg (by rw [h.1]; exact Bool.false_ne_true), ih h.2,
      List.reverse_cons, List.append_assoc, List.singleton_append]

/-- Whether a text can be a word: it is not empty and holds no blank. -/
def IsSolid (word : List Char) : Prop := word ≠ [] ∧ ∀ c ∈ word, isBlank c = false

instance (word : List Char) : Decidable (IsSolid word) :=
  decidable_of_iff (!word.isEmpty && word.all (!isBlank ·)) (by simp [IsSolid])

section Word

variable {word : List Char} (h : IsSolid word)
include h

theorem wordsFrom_single : wordsFrom [] word = [word] := by
  have hwords := wordsFrom_append h.2 [] []
  rw [List.append_nil, List.append_nil] at hwords
  rw [hwords, wordsFrom, if_neg (by simpa using h.1), List.reverse_reverse]

/-- A word ends at a blank. -/
theorem wordsFrom_blank {c : Char} (hc : isBlank c = true) (rest : List Char) :
    wordsFrom [] (word ++ c :: rest) = word :: wordsFrom [] rest := by
  rw [wordsFrom_append h.2, List.append_nil, wordsFrom, if_pos hc, if_neg (by simpa using h.1),
    List.reverse_reverse]

end Word

/-- Nothing but blanks comes between words. -/
theorem not_mem_intercalate {c : Char} (hc : c ≠ ' ') {words : List (List Char)}
    (h : ∀ word ∈ words, c ∉ word) : c ∉ [' '].intercalate words := by
  induction words with
  | nil => exact List.not_mem_nil
  | cons word words ih =>
    rw [List.forall_mem_cons] at h
    cases words with
    | nil =>
      rw [List.intercalate_singleton]
      exact h.1
    | cons word' words =>
      rw [List.intercalate_cons_cons, List.mem_append, List.mem_append, List.mem_singleton, not_or,
        not_or]
      exact ⟨⟨h.1, hc⟩, ih h.2⟩

section Words

variable {words : List (List Char)} (h : ∀ word ∈ words, IsSolid word)
include h

/-- Words are found again in what they are written to. -/
theorem wordsFrom_intercalate : wordsFrom [] ([' '].intercalate words) = words := by
  induction words with
  | nil => rfl
  | cons word words ih =>
    rw [List.forall_mem_cons] at h
    cases words with
    | nil =>
      rw [List.intercalate_singleton]
      exact wordsFrom_single h.1
    | cons word' words =>
      rw [List.intercalate_cons_cons, List.append_assoc, List.singleton_append,
        wordsFrom_blank h.1 rfl, ih h.2]

/-- What follows the words behind a blank is read by itself. -/
theorem wordsFrom_intercalate_blank (hne : words ≠ []) (rest : List Char) :
    wordsFrom [] ([' '].intercalate words ++ ' ' :: rest) = words ++ wordsFrom [] rest := by
  induction words with
  | nil => exact absurd rfl hne
  | cons word words ih =>
    rw [List.forall_mem_cons] at h
    cases words with
    | nil =>
      rw [List.intercalate_singleton, wordsFrom_blank h.1 rfl]
      rfl
    | cons word' words =>
      rw [List.intercalate_cons_cons, List.append_assoc, List.append_assoc, List.singleton_append,
        wordsFrom_blank h.1 rfl, ih h.2 (List.cons_ne_nil _ _)]
      rfl

theorem exists_concat_intercalate (hne : words ≠ []) :
    ∃ before c, isBlank c = false ∧ [' '].intercalate words = before ++ [c] := by
  induction words with
  | nil => exact absurd rfl hne
  | cons word words ih =>
    rw [List.forall_mem_cons] at h
    cases words with
    | nil =>
      obtain ⟨before, c, rfl⟩ := (List.eq_nil_or_concat' word).resolve_left h.1.1
      exact ⟨before, c, h.1.2 c (by simp), List.intercalate_singleton⟩
    | cons word' words =>
      obtain ⟨before, c, hc, hcs⟩ := ih h.2 (List.cons_ne_nil _ _)
      refine ⟨word ++ [' '] ++ before, c, hc, ?_⟩
      rw [List.intercalate_cons_cons, hcs, List.append_assoc _ before]

theorem trimStartChars_intercalate :
    trimStartChars ([' '].intercalate words) = [' '].intercalate words := by
  rcases words with _ | ⟨_ | ⟨c, word⟩, _ | ⟨word', words⟩⟩
  · rfl
  · rfl
  · exact absurd rfl (h [] List.mem_cons_self).1
  · exact trimStartChars_cons ((h _ List.mem_cons_self).2 c List.mem_cons_self) _
  · exact trimStartChars_cons ((h _ List.mem_cons_self).2 c List.mem_cons_self) _

/-- What words are written to begins and ends with no blank. -/
theorem trimChars_intercalate : trimChars ([' '].intercalate words) = [' '].intercalate words := by
  by_cases hne : words = []
  · subst hne
    rfl
  · obtain ⟨before, c, hc, hcs⟩ := exists_concat_intercalate h hne
    rw [hcs, trimChars_concat hc, ← hcs, trimStartChars_intercalate h]

end Words

end MemoryShell.Text
