/-
  MemoryShell/Proofs/Display/Retention.lean
  =========================================
  **What a display keeps, and what its lines are made of.**

  Of all lines that came since the display was cleared the newest are kept, as many as the cap
  allows.  The lines of an output hold all of its text: marked-up text is cut behind its line breaks,
  which stay with the lines that they end, and other text at its newlines, which go.
-/
import Mathlib.Data.List.DropRight
import MemoryShell.Proofs.Display.Viewer
import MemoryShell.Proofs.Text.Search

namespace MemoryShell.Display

/-! ### The lines of a text -/

theorem lineBreak_ne_nil : lineBreak ≠ [] := by decide +kernel

/-- Text with a line break in it is cut behind each of them. -/
theorem renderedLines_of_lineBreak {text : String} (h : lineBreak <:+: text.toList) :
    renderedLines text = (Text.splitAfter lineBreak text.toList).map String.ofList := by
  have hne : text.toList ≠ [] := by
    intro hnil
    rw [hnil] at h
    exact lineBreak_ne_nil (List.infix_nil.mp h)
  rw [renderedLines, if_neg (by simpa using hne), if_pos (Text.occurs_iff.mpr h)]

/-- Other text is cut at each newline. -/
theorem renderedLines_of_not_lineBreak {text : String} (h : ¬ lineBreak <:+: text.toList)
    (hne : text ≠ "") :
    renderedLines text = (Text.splitOn ['\n'] text.toList).map String.ofList := by
  rw [renderedLines, if_neg (by simpa using hne), if_neg (mt Text.occurs_iff.mp h)]

/-! ### The lines that came -/

namespace Step

/-- The lines that a step brings. -/
def lines : Step → List DisplayLine
  | .prompt input => [⟨.prompt, input⟩]
  | .output text => outputLines text
  | .clear | .take => []

/-- The lines that came with some steps since the last clearing. -/
def linesSinceClear (steps : List Step) : List DisplayLine :=
  (steps.rtakeWhile (· ≠ .clear)).flatMap lines

theorem linesSinceClear_concat_clear (steps : List Step) :
    linesSinceClear (steps ++ [.clear]) = [] := by
  rw [linesSinceClear, List.rtakeWhile_concat_neg _ _ _ (by simp), List.flatMap_nil]

theorem linesSinceClear_concat {s : Step} (hs : s ≠ .clear) (steps : List Step) :
    linesSinceClear (steps ++ [s]) = linesSinceClear steps ++ s.lines := by
  rw [linesSinceClear, List.rtakeWhile_concat_pos _ _ _ (by simpa using hs), List.flatMap_append,
    List.flatMap_singleton, linesSinceClear]

end Step

/-- A display after one step; to take its events leaves its lines. -/
def step (d : Display) : Step → Display
  | .prompt input => d.pushPrompt input
  | .output text => d.pushOutput text
  | .clear => d.clear
  | .take => d.takeEvents.2

def after (d : Display) (steps : List Step) : Display := steps.foldl step d

/-! ### The lines that are kept -/

namespace Holds

variable {d : Display} {cap : Nat} {came : List DisplayLine}

/-- Each step but a clearing keeps the newest lines of those before it and its own. -/
theorem step (h : Holds d cap came) {s : Step} (hs : s ≠ .clear) :
    Holds (d.step s) cap (came ++ s.lines) := by
  cases s with
  | prompt input => exact h.push [⟨.prompt, input⟩]
  | output text =>
    change Holds (d.pushOutput text) cap _
    rw [pushOutput_eq]
    exact h.push _
  | clear => exact absurd rfl hs
  | take =>
    rw [Step.lines, List.append_nil]
    exact ⟨h.cap_eq, h.lines_eq⟩

theorem clear (h : Holds d cap came) : Holds d.clear cap [] := ⟨h.cap_eq, (newest_nil cap).symm⟩

end Holds

theorem holds_after (cap : Nat) (steps : List Step) :
    Holds ((new cap).after steps) (max cap 1) (Step.linesSinceClear steps) := by
  -- From the end: whether the last step is a clearing decides which lines came since.
  induction steps using List.reverseRecOn with
  | nil => exact ⟨rfl, (newest_nil _).symm⟩
  | append_singleton steps s ih =>
    rw [after, List.foldl_concat]
    by_cases hs : s = .clear
    · subst hs
      rw [Step.linesSinceClear_concat_clear]
      exact ih.clear
    · rw [Step.linesSinceClear_concat hs]
      exact ih.step hs

/-! ### All of a text -/

/-- The lines of marked-up text are the text, and each has a line break at its end and nowhere else,
    but for what is left behind the last one. -/
theorem renderedLines_markup {text : String} (h : lineBreak <:+: text.toList) :
    String.join (renderedLines text) = text ∧
      ∃ ended last, renderedLines text = ended ++ (if last = "" then [] else [last]) ∧
        (∀ line ∈ ended, Text.EndsOnce lineBreak line.toList) ∧ ¬ lineBreak <:+: last.toList := by
  obtain ⟨pieces, hcut⟩ := Text.exists_cut lineBreak_ne_nil text.toList
  rw [renderedLines_of_lineBreak h]
  constructor
  · rw [← String.toList_inj, String.toList_join, List.flatMap_def, Text.map_toList_ofList]
    exact hcut.flatten_splitAfter lineBreak_ne_nil
  · obtain ⟨ended, last, heq, hended, hlast⟩ := hcut.splitAfter_eq lineBreak_ne_nil
    refine ⟨ended.map String.ofList, String.ofList last, ?_, ?_, ?_⟩
    · rw [heq, List.map_append]
      cases last <;> simp
    · intro line hline
      obtain ⟨piece, hpiece, rfl⟩ := List.mem_map.mp hline
      rw [String.toList_ofList]
      exact hended piece hpiece
    · rwa [String.toList_ofList]

/-- The lines of other text with newlines between them are the text, and none holds a newline. -/
theorem renderedLines_plain {text : String} (h : ¬ lineBreak <:+: text.toList) :
    "\n".intercalate (renderedLines text) = text ∧
      ∀ line ∈ renderedLines text, '\n' ∉ line.toList := by
  by_cases hempty : text = ""
  · subst hempty
    exact ⟨rfl, nofun⟩
  · have hcut := Text.cut_splitOn (List.cons_ne_nil '\n' []) text.toList
    rw [renderedLines_of_not_lineBreak h hempty]
    constructor
    · rw [← String.toList_inj, String.toList_intercalate, Text.map_toList_ofList]
      exact hcut.intercalate
    · intro line hline hmem
      obtain ⟨piece, hpiece, rfl⟩ := List.mem_map.mp hline
      rw [String.toList_ofList] at hmem
      obtain ⟨before, behind, rfl⟩ := List.append_of_mem hmem
      exact hcut.infix_free (List.cons_ne_nil _ _) hpiece ⟨before, behind, by simp⟩

/-- **A display keeps the newest lines, and lines hold all of their text.**  Whatever is done to a
    display, its lines are the newest of those that came since it was last cleared, in their order
    and as many as the cap allows, a cap of zero acting as one.  The lines of an output are its text
    cut behind each line break; or, if there is none, cut at each newline; and no text gives no line.
    -/
theorem lines_newest_and_whole :
    (∀ cap steps,
      ((new cap).after steps).lines <:+ Step.linesSinceClear steps ∧
      ((new cap).after steps).lines.length =
        min (max cap 1) (Step.linesSinceClear steps).length) ∧
    ∀ text, (Step.output text).lines = (renderedLines text).map (⟨.output, ·⟩) ∧
      (text = "" → renderedLines text = []) ∧
      (lineBreak <:+: text.toList → String.join (renderedLines text) = text ∧
        ∃ ended last, renderedLines text = ended ++ (if last = "" then [] else [last]) ∧
          (∀ line ∈ ended, Text.EndsOnce lineBreak line.toList) ∧ ¬ lineBreak <:+: last.toList) ∧
      (¬ lineBreak <:+: text.toList → "\n".intercalate (renderedLines text) = text ∧
        ∀ line ∈ renderedLines text, '\n' ∉ line.toList) := by
  refine ⟨fun cap steps => ?_, fun text => ⟨rfl, ?_, renderedLines_markup, renderedLines_plain⟩⟩
  · rw [(holds_after cap steps).lines_eq]
    exact ⟨newest_isSuffix _ _, length_newest _ _⟩
  · rintro rfl
    rfl

/-- A text with line breaks is not cut at its newline, and a display without room keeps what is
    behind the last line break. -/
theorem lines_newest_mixed :
    lineBreak <:+: "a\n<br><br>b".toList ∧
      String.join ["a\n<br>", "<br>", "b"] = "a\n<br><br>b" ∧
      (∀ line ∈ ["a\n<br>", "<br>"], Text.EndsOnce lineBreak line.toList) ∧
      ((new 0).after [.output "stale", .clear, .prompt "cat notes", .output "a\n<br><br>b"]).lines =
        [⟨.output, "b"⟩] := by
  have hmarkup : lineBreak <:+: "a\n<br><br>b".toList := ⟨['a', '\n'], "<br>b".toList, by decide⟩
  have hlines : renderedLines "a\n<br><br>b" = ["a\n<br>", "<br>", "b"] := by decide +kernel
  obtain ⟨hkeeps, hwhole⟩ := lines_newest_and_whole
  obtain ⟨-, -, hbreaks, -⟩ := hwhole "a\n<br><br>b"
  obtain ⟨hjoin, ended, last, heq, hended, -⟩ := hbreaks hmarkup
  rw [hlines] at hjoin heq
  have hlast : last ≠ "" := by
    rintro rfl
    rw [if_pos rfl, List.append_nil] at heq
    have hends := (hended "b" (by simp [← heq])).ends
    exact absurd hends (by decide +kernel)
  rw [if_neg hlast] at heq
  have hsplit : ["a\n<br>", "<br>"] ++ ["b"] = ended ++ [last] := heq
  obtain ⟨rfl, -⟩ := List.append_inj' hsplit rfl
  refine ⟨hmarkup, hjoin, hended, ?_⟩
  obtain ⟨hsuffix, hlength⟩ := hkeeps 0 [.output "stale", .clear, .prompt "cat notes",
    .output "a\n<br><br>b"]
  have hcame : Step.linesSinceClear [.output "stale", .clear, .prompt "cat notes",
      .output "a\n<br><br>b"] =
      [⟨.prompt, "cat notes"⟩, ⟨.output, "a\n<br>"⟩, ⟨.output, "<br>"⟩, ⟨.output, "b"⟩] := by
    decide +kernel
  rw [hcame] at hsuffix hlength
  rw [List.suffix_iff_eq_drop.mp hsuffix, hlength]
  rfl

end MemoryShell.Display
