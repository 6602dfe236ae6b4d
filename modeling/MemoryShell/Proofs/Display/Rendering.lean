/-
  MemoryShell/Proofs/Display/Rendering.lean
  =========================================
  **Markup shown line by line.**

  A line is made of parts: text as it is, and text in a colour.  If no text holds the character that
  all markup begins with, each part is shown in its own way wherever it stands, and the only line
  breaks are those at the ends of lines.  So a display has the same lines, and each by itself is
  shown as it is among the others.
-/
import MemoryShell.Display.Ansi
import MemoryShell.Proofs.Display.Retention

namespace MemoryShell.Ansi

open Text (Finder replacing replaced)

/-! ### Spans and breaks are found by scans -/

/-- Find a coloured span: its colour and its text. -/
def spanFinder : Finder (List Char × List Char) := fun cs =>
  (span? cs).map fun (name, inner, size) => ((name, inner), size)

def breakFinder : Finder Unit := fun cs => (break? cs).map fun size => ((), size)

theorem replaceSpans_eq_run (skip : Nat) (acc cs : List Char) :
    replaceSpans skip acc cs =
      (replacing spanFinder fun p => colored p.1 p.2).run skip acc cs := by
  induction cs generalizing skip acc with
  | nil => cases skip <;> rfl
  | cons c cs ih =>
    cases skip with
    | succ skip => exact ih skip acc
    | zero =>
      simp only [replaceSpans, Text.Scan.run, replacing, spanFinder]
      cases span? (c :: cs) <;> exact ih _ _

theorem replaceBreaks_eq_run (skip : Nat) (acc cs : List Char) :
    replaceBreaks skip acc cs = (replacing breakFinder fun _ => ['\n']).run skip acc cs := by
  induction cs generalizing skip acc with
  | nil => cases skip <;> rfl
  | cons c cs ih =>
    cases skip with
    | succ skip => exact ih skip acc
    | zero =>
      simp only [replaceBreaks, Text.Scan.run, replacing, breakFinder]
      cases break? (c :: cs) <;> exact ih _ _

/-- A text with its spans shown. -/
def withSpans (cs : List Char) : List Char := replaced spanFinder (fun p => colored p.1 p.2) cs

/-- A text with its line breaks shown. -/
def withBreaks (cs : List Char) : List Char := replaced breakFinder (fun _ => ['\n']) cs

theorem ofMarkup_eq (text : String) :
    ofMarkup text = String.ofList (dropLastNewline (withBreaks (withSpans text.toList))) := by
  rw [ofMarkup, replaceSpans_eq_run, replaceBreaks_eq_run]
  rfl

/-! ### Where markup is found -/

variable {text color rest : List Char}

theorem afterPrefix?_append (start rest : List Char) :
    afterPrefix? start (start ++ rest) = some rest := by
  rw [afterPrefix?, if_pos (List.isPrefixOf_iff_prefix.mpr (List.prefix_append _ _)),
    List.drop_left]

theorem afterPrefix?_cons_of_ne {first c : Char} (h : c ≠ first) (start cs : List Char) :
    afterPrefix? (first :: start) (c :: cs) = none := by
  rw [afterPrefix?, if_neg]
  exact fun hprefix => h (List.cons_prefix_cons.mp (List.isPrefixOf_iff_prefix.mp hprefix)).1.symm

theorem spanFinder_cons_of_ne (c : Char) (cs : List Char) (h : c ≠ '<') :
    spanFinder (c :: cs) = none := by
  have hopen : spanOpen = '<' :: spanOpen.tail := by decide +kernel
  rw [spanFinder, span?, hopen, afterPrefix?_cons_of_ne h]
  rfl

theorem breakFinder_cons_of_ne (c : Char) (cs : List Char) (h : c ≠ '<') :
    breakFinder (c :: cs) = none := by
  have hopen : "<br".toList = ['<', 'b', 'r'] := by decide +kernel
  rw [breakFinder, break?, hopen, afterPrefix?_cons_of_ne h]
  rfl

theorem lineBreak_eq : Display.lineBreak = ['<', 'b', 'r', '>'] := by decide +kernel

theorem breakFinder_lineBreak (rest : List Char) :
    breakFinder (Display.lineBreak ++ rest) = some ((), Display.lineBreak.length) := by
  rw [lineBreak_eq]
  rfl

/-- A line break is no span. -/
theorem spanFinder_lineBreak (rest : List Char) :
    spanFinder.FindsNone Display.lineBreak rest := by
  have hopen : spanOpen = '<' :: 's' :: spanOpen.tail.tail := by decide +kernel
  rw [lineBreak_eq]
  refine Finder.FindsNone.cons_iff.mpr
    ⟨?_, .of_not_mem spanFinder_cons_of_ne (by decide)⟩
  rw [spanFinder, span?, hopen, afterPrefix?, if_neg]
  · rfl
  · rw [List.isPrefixOf_iff_prefix]
    intro hprefix
    have hsecond := (List.cons_prefix_cons.mp (List.cons_prefix_cons.mp hprefix).2).1
    exact absurd hsecond (by decide)

/-! ### Parts of a line -/

/-- A part of a line: text as it is, or in a colour. -/
inductive Part where
  | plain (text : List Char)
  | colored (color text : List Char)
deriving DecidableEq, Repr

namespace Part

def markup : Part → List Char
  | .plain text => text
  | .colored color text => spanOpen ++ (color ++ (spanMiddle ++ (text ++ spanClose)))

/-- What a terminal is sent for a part. -/
def shown : Part → List Char
  | .plain text => text
  | .colored color text => Ansi.colored color text

/-- A part in which markup begins nowhere but at its start. -/
def IsClean : Part → Prop
  | .plain text => '<' ∉ text
  | .colored color text => IsColor color ∧ '<' ∉ text
where
  /-- The name of a colour, which ends where its style does. -/
  IsColor (color : List Char) : Prop := color ≠ [] ∧ ∀ c ∈ color, c ≠ ';' ∧ c ≠ '\x22' ∧ c ≠ '<'

end Part

theorem span?_markup (hcolor : Part.IsClean.IsColor color) (htext : '<' ∉ text)
    (rest : List Char) : span? ((Part.colored color text).markup ++ rest) =
      some (color, text, (Part.colored color text).markup.length) := by
  have hmiddle : spanMiddle = ';' :: spanMiddle.tail := by decide +kernel
  have hclose : spanClose = '<' :: spanClose.tail := by decide +kernel
  have hname : (color ++ (spanMiddle ++ (text ++ (spanClose ++ rest)))).takeWhile
      (fun c => c ≠ ';' && c ≠ '\x22') = color := by
    rw [List.takeWhile_append_of_pos, hmiddle]
    · simp
    · intro c hc
      simp [hcolor.2 c hc]
  have hfirst : Text.first? spanClose (text ++ (spanClose ++ rest)) = some text.length :=
    Text.first?_eq_length <| .of_not_mem
      (fun c cs hc => by rw [hclose]; exact Text.patternFinder_cons_of_ne hc _ _) htext
  have hempty : color.isEmpty = false := by simpa using hcolor.1
  have hmarkup : (Part.colored color text).markup ++ rest =
      spanOpen ++ (color ++ (spanMiddle ++ (text ++ (spanClose ++ rest)))) := by
    simp only [Part.markup, List.append_assoc]
  rw [span?, hmarkup, afterPrefix?_append]
  simp only [Option.bind_eq_bind, Option.bind_some, hname, hempty, List.drop_left,
    afterPrefix?_append, hfirst, List.take_left]
  rw [if_neg Bool.false_ne_true, Part.markup]
  simp only [List.length_append, Nat.add_assoc]
  rfl

section Parts

variable {part : Part} {parts : List Part}

theorem not_mem_colored (h : '<' ∉ text) : '<' ∉ colored color text := by
  have hcode : ∀ code ∈ Ansi.color (String.ofList color), '<' ∉ code.toList := by
    intro code hcode
    unfold Ansi.color at hcode
    dsimp only at hcode
    split at hcode
    · cases hcode
      decide +kernel
    · split at hcode
      · cases hcode
        decide +kernel
      · split at hcode
        · cases hcode
          decide +kernel
        · cases hcode
  have hreset : '<' ∉ reset.toList := by decide +kernel
  unfold colored
  split
  · rename_i code heq
    simpa using ⟨hcode code heq, h, hreset⟩
  · exact h

theorem Part.IsClean.not_mem_shown (h : part.IsClean) : '<' ∉ part.shown := by
  cases part with
  | plain text => exact h
  | colored color text => exact not_mem_colored h.2

/-- Each part is shown in its own way, whatever follows it. -/
theorem withSpans_parts (h : ∀ part ∈ parts, part.IsClean) (rest : List Char) :
    withSpans (parts.flatMap Part.markup ++ rest) =
      parts.flatMap Part.shown ++ withSpans rest := by
  induction parts with
  | nil => rfl
  | cons part parts ih =>
    rw [List.forall_mem_cons] at h
    rw [List.flatMap_cons, List.flatMap_cons, List.append_assoc, List.append_assoc, ← ih h.2]
    cases part with
    | plain text => exact Text.replaced_keep (.of_not_mem spanFinder_cons_of_ne h.1)
    | colored color text =>
      refine Text.replaced_found (a := (color, text)) ?_ ?_
      · rw [spanFinder, span?_markup h.1.1 h.1.2]
        rfl
      · have hopen : spanOpen ≠ [] := by decide +kernel
        simp [Part.markup, hopen]

theorem withSpans_lineBreak (rest : List Char) :
    withSpans (Display.lineBreak ++ rest) = Display.lineBreak ++ withSpans rest :=
  Text.replaced_keep (spanFinder_lineBreak rest)

theorem withBreaks_lineBreak (rest : List Char) :
    withBreaks (Display.lineBreak ++ rest) = '\n' :: withBreaks rest :=
  Text.replaced_found (breakFinder_lineBreak rest) Display.lineBreak_ne_nil

theorem withBreaks_parts (h : ∀ part ∈ parts, part.IsClean) (rest : List Char) :
    withBreaks (parts.flatMap Part.shown ++ rest) =
      parts.flatMap Part.shown ++ withBreaks rest := by
  refine Text.replaced_keep (.of_not_mem breakFinder_cons_of_ne fun hmem => ?_)
  obtain ⟨part, hpart, hmem⟩ := List.mem_flatMap.mp hmem
  exact (h part hpart).not_mem_shown hmem

/-! ### Line breaks inside of parts

There are none: the two tags of a span begin like a line break, but do not go on like one. -/

theorem findsNone_of_not_mem (h : '<' ∉ text) :
    (Text.patternFinder Display.lineBreak).FindsNone text rest := by
  rw [lineBreak_eq]
  exact .of_not_mem (fun c cs hc => Text.patternFinder_cons_of_ne hc _ cs) h

theorem findsNone_tag {c : Char} (hc : c ≠ 'b') (h : '<' ∉ c :: text) :
    (Text.patternFinder Display.lineBreak).FindsNone ('<' :: c :: text) rest := by
  refine Finder.FindsNone.cons_iff.mpr ⟨?_, findsNone_of_not_mem h⟩
  rw [Text.patternFinder_eq_none, lineBreak_eq]
  exact fun hprefix =>
    hc (List.cons_prefix_cons.mp (List.cons_prefix_cons.mp hprefix).2).1.symm

theorem Part.IsClean.findsNone (h : part.IsClean) (rest : List Char) :
    (Text.patternFinder Display.lineBreak).FindsNone part.markup rest := by
  cases part with
  | plain text => exact findsNone_of_not_mem h
  | colored color text =>
    have hopen : spanOpen = '<' :: 's' :: spanOpen.tail.tail := by decide +kernel
    have hclose : spanClose = '<' :: '/' :: spanClose.tail.tail := by decide +kernel
    have hcolor : '<' ∉ color := fun hmem => (h.1.2 _ hmem).2.2 rfl
    rw [Part.markup]
    refine .append ?_ (.append (findsNone_of_not_mem hcolor) (.append (findsNone_of_not_mem ?_)
      (.append (findsNone_of_not_mem h.2) ?_)))
    · rw [hopen]
      exact findsNone_tag (by decide) (by decide +kernel)
    · decide +kernel
    · rw [hclose]
      exact findsNone_tag (by decide) (by decide +kernel)

theorem findsNone_parts (h : ∀ part ∈ parts, part.IsClean) (rest : List Char) :
    (Text.patternFinder Display.lineBreak).FindsNone (parts.flatMap Part.markup) rest := by
  induction parts with
  | nil => exact .nil
  | cons part parts ih =>
    rw [List.forall_mem_cons] at h
    rw [List.flatMap_cons]
    exact .append (h.1.findsNone _) (ih h.2)

end Parts

/-! ### Lines -/

/-- The markup of a line with its line break. -/
def lineMarkup (parts : List Part) : List Char := parts.flatMap Part.markup ++ Display.lineBreak

def lineShown (parts : List Part) : List Char := parts.flatMap Part.shown

/-- Lines in which markup begins nowhere but at the start of a part. -/
def CleanLines (lines : List (List Part)) : Prop := ∀ parts ∈ lines, ∀ part ∈ parts, part.IsClean

section Lines

variable {lines : List (List Part)}

theorem CleanLines.of_cons {parts : List Part} (h : CleanLines (parts :: lines)) :
    (∀ part ∈ parts, part.IsClean) ∧ CleanLines lines := List.forall_mem_cons.mp h

theorem withSpans_lines (h : CleanLines lines) : withSpans (lines.flatMap lineMarkup) =
    lines.flatMap fun parts => lineShown parts ++ Display.lineBreak := by
  induction lines with
  | nil => rfl
  | cons parts lines ih =>
    obtain ⟨hparts, hlines⟩ := h.of_cons
    rw [List.flatMap_cons, List.flatMap_cons, lineMarkup, List.append_assoc,
      withSpans_parts hparts, withSpans_lineBreak, ih hlines, List.append_assoc]
    rfl

theorem withBreaks_lines (h : CleanLines lines) :
    withBreaks (lines.flatMap fun parts => lineShown parts ++ Display.lineBreak) =
      lines.flatMap fun parts => lineShown parts ++ ['\n'] := by
  induction lines with
  | nil => rfl
  | cons parts lines ih =>
    obtain ⟨hparts, hlines⟩ := h.of_cons
    rw [List.flatMap_cons, List.flatMap_cons, lineShown, List.append_assoc,
      withBreaks_parts hparts, withBreaks_lineBreak, ih hlines, List.append_assoc]
    rfl

/-- Lines that are each ended by a newline have newlines between them when the last one is dropped.
    -/
theorem dropLastNewline_lines (texts : List (List Char)) :
    dropLastNewline (texts.flatMap (· ++ ['\n'])) = ['\n'].intercalate texts := by
  have hlast : texts ≠ [] →
      texts.flatMap (· ++ ['\n']) = ['\n'].intercalate texts ++ ['\n'] := by
    intro hne
    induction texts with
    | nil => exact absurd rfl hne
    | cons text texts ih =>
      cases texts with
      | nil => simp
      | cons text' texts =>
        rw [List.flatMap_cons, ih (List.cons_ne_nil _ _), List.intercalate_cons_cons,
          List.append_assoc, List.append_assoc, List.append_assoc]
  cases texts with
  | nil => rfl
  | cons text texts =>
    rw [hlast (List.cons_ne_nil _ _), dropLastNewline, if_pos List.getLast?_concat,
      List.dropLast_concat]

/-- Lines are shown with newlines between them. -/
theorem ofMarkup_lines (h : CleanLines lines) :
    ofMarkup (String.ofList (lines.flatMap lineMarkup)) =
      String.ofList (['\n'].intercalate (lines.map lineShown)) := by
  rw [ofMarkup_eq, String.toList_ofList, withSpans_lines h, withBreaks_lines h,
    ← dropLastNewline_lines, List.flatMap_map]

/-- A line by itself is shown as it is among others. -/
theorem ofMarkup_line {parts : List Part} (h : ∀ part ∈ parts, part.IsClean) :
    ofMarkup (String.ofList (lineMarkup parts)) = String.ofList (lineShown parts) := by
  have hclean : CleanLines [parts] := List.forall_mem_singleton.mpr h
  have hline := ofMarkup_lines hclean
  rwa [List.flatMap_singleton, List.map_singleton, List.intercalate_singleton] at hline

theorem splitAfter_lines (h : CleanLines lines) :
    Text.splitAfter Display.lineBreak (lines.flatMap lineMarkup) = lines.map lineMarkup := by
  induction lines with
  | nil => rfl
  | cons parts lines ih =>
    obtain ⟨hparts, hlines⟩ := h.of_cons
    rw [List.flatMap_cons, lineMarkup, List.append_assoc,
      Text.splitAfter_first Display.lineBreak_ne_nil (findsNone_parts hparts _), ih hlines]
    rfl

/-- Lines are the lines of a display. -/
theorem renderedLines_lines (h : CleanLines lines) :
    Display.renderedLines (String.ofList (lines.flatMap lineMarkup)) =
      (lines.map lineMarkup).map String.ofList := by
  cases lines with
  | nil => rfl
  | cons parts lines =>
    have hbreak : Display.lineBreak <:+: ((parts :: lines).flatMap lineMarkup) :=
      ⟨parts.flatMap Part.markup, lines.flatMap lineMarkup, by rw [List.flatMap_cons, lineMarkup]⟩
    rw [Display.renderedLines_of_lineBreak (by rwa [String.toList_ofList]), String.toList_ofList,
      splitAfter_lines h]

end Lines

end MemoryShell.Ansi
