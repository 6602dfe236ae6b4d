/-
  MemoryShell/Proofs/Script/ConsoleLines.lean
  ===========================================
  **A console shown line by line.**

  Each call that writes to the console writes one line, made of the texts it is given and of markup
  around them.  A text in which no markup begins cannot end a line or a colour, so the lines of the
  console become the lines of the display.  The one thing that trimming the output can change is how
  the first line begins, and only if that line is without markup.
-/
import MemoryShell.Proofs.Display.Rendering
import MemoryShell.Proofs.Text.Blank
import MemoryShell.Script.Console

namespace MemoryShell.Script.Console

open Ansi (Part lineMarkup lineShown CleanLines)

/-! ### Calls that write to the console -/

/-- A call that writes a line to the console, or the error that ends a run. -/
inductive Call where
  | log (texts : List String)
  | warn (texts : List String)
  | error (texts : List String)
  | output (text : String)
  | executionError (message : String)
deriving DecidableEq, Repr

namespace Call

/-- The texts that a call is given. -/
def texts : Call → List String
  | .log texts | .warn texts | .error texts => texts
  | .output text | .executionError text => [text]

/-- What a call writes. -/
def line : Call → String
  | .log texts => Console.log texts
  | .warn texts => Console.warn texts
  | .error texts => Console.error texts
  | .output text => plain text
  | .executionError message => Console.executionError message

def colored (color text : String) : Part := .colored color.toList text.toList

/-- The parts of the line that a call writes. -/
def parts : Call → List Part
  | .log texts => (texts.map (colored "#33FF33")).intersperse (.plain [' '])
  | .warn texts => [colored "yellow" ("Warning" ++ ": " ++ " ".intercalate texts)]
  | .error texts => [colored "red" ("Error" ++ ": " ++ " ".intercalate texts)]
  | .output text => [.plain text.toList]
  | .executionError message => [colored "red" ("Execution Error" ++ ": " ++ message)]

end Call

theorem toList_span (color text : String) :
    (span color text).toList = (Call.colored color text).markup := by
  unfold span Call.colored Part.markup Ansi.spanOpen Ansi.spanMiddle Ansi.spanClose
  simp only [String.toList_append, List.append_assoc]

theorem toList_lineBreak : lineBreak.toList = Display.lineBreak := rfl

theorem toList_labelled (color label text : String) :
    (labelled color label text).toList =
      lineMarkup [Call.colored color (label ++ ": " ++ text)] := by
  rw [labelled, String.toList_append, toList_span, toList_lineBreak, lineMarkup,
    List.flatMap_singleton]

/-- Spans with spaces between them are parts of a line, and so are the spaces. -/
theorem toList_spans (color : String) (texts : List String) :
    (" ".intercalate (texts.map (span color))).toList =
      ((texts.map (Call.colored color)).intersperse (.plain [' '])).flatMap Part.markup := by
  rw [String.toList_intercalate]
  induction texts with
  | nil => rfl
  | cons text texts ih =>
    cases texts with
    | nil => simp [toList_span]
    | cons text' texts =>
      simp only [List.map_cons] at ih ⊢
      rw [List.intercalate_cons_cons, ih, toList_span, List.intersperse_cons_cons,
        List.flatMap_cons, List.flatMap_cons, List.append_assoc]
      rfl

theorem Call.toList_line (call : Call) : call.line.toList = lineMarkup call.parts := by
  cases call with
  | log texts =>
    rw [line, Console.log, String.toList_append, toList_spans, toList_lineBreak]
    rfl
  | warn texts => exact toList_labelled _ _ _
  | error texts => exact toList_labelled _ _ _
  | output text =>
    rw [line, Console.plain, String.toList_append, toList_lineBreak, parts, lineMarkup,
      List.flatMap_singleton]
    rfl
  | executionError message => exact toList_labelled _ _ _

/-! ### Texts without markup -/

theorem isColor_of_console {color : String} (h : color ∈ ["#33FF33", "yellow", "red"]) :
    Part.IsClean.IsColor color.toList := by
  simp only [List.mem_cons, List.not_mem_nil, or_false] at h
  rcases h with rfl | rfl | rfl <;> exact ⟨by decide +kernel, by simp⟩

theorem isClean_labelled {color label text : String} (hcolor : color ∈ ["#33FF33", "yellow", "red"])
    (hlabel : '<' ∉ label.toList) (h : '<' ∉ text.toList) :
    (Call.colored color (label ++ ": " ++ text)).IsClean := by
  refine ⟨isColor_of_console hcolor, ?_⟩
  have hcolon : '<' ∉ ": ".toList := by decide +kernel
  rw [String.toList_append, String.toList_append, List.mem_append, List.mem_append, not_or, not_or]
  exact ⟨⟨hlabel, hcolon⟩, h⟩

theorem not_mem_words {texts : List String} (h : ∀ text ∈ texts, '<' ∉ text.toList) :
    '<' ∉ (" ".intercalate texts).toList := by
  rw [String.toList_intercalate]
  exact Text.not_mem_intercalate (by decide) (List.forall_mem_map.mpr h)

/-- What holds of parts and of what is put between them holds of all. -/
theorem forall_mem_intersperse {p : Part → Prop} {sep : Part} {parts : List Part} (hsep : p sep)
    (h : ∀ part ∈ parts, p part) : ∀ part ∈ parts.intersperse sep, p part := by
  induction parts with
  | nil => exact h
  | cons part parts ih =>
    cases parts with
    | nil => exact h
    | cons part' parts =>
      rw [List.forall_mem_cons] at h
      rw [List.intersperse_cons_cons, List.forall_mem_cons, List.forall_mem_cons]
      exact ⟨h.1, hsep, ih h.2⟩

namespace Call

/-- A call none of whose texts holds the character that markup begins with. -/
def IsPlain (call : Call) : Prop := ∀ text ∈ call.texts, '<' ∉ text.toList

instance (call : Call) : Decidable call.IsPlain :=
  inferInstanceAs (Decidable (∀ text ∈ call.texts, '<' ∉ text.toList))

theorem IsPlain.isClean {call : Call} (h : call.IsPlain) : ∀ part ∈ call.parts, part.IsClean := by
  cases call with
  | log texts =>
    refine forall_mem_intersperse (by decide : '<' ∉ [' ']) (List.forall_mem_map.mpr ?_)
    exact fun text htext => ⟨isColor_of_console (by decide), h text htext⟩
  | warn texts =>
    exact List.forall_mem_singleton.mpr
      (isClean_labelled (by decide) (by decide +kernel) (not_mem_words h))
  | error texts =>
    exact List.forall_mem_singleton.mpr
      (isClean_labelled (by decide) (by decide +kernel) (not_mem_words h))
  | output text => exact List.forall_mem_singleton.mpr (h text List.mem_cons_self)
  | executionError message =>
    exact List.forall_mem_singleton.mpr
      (isClean_labelled (by decide) (by decide +kernel) (h message List.mem_cons_self))

end Call

/-! ### What all calls write -/

/-- What calls write, one after another. -/
def written (calls : List Call) : String := String.join (calls.map Call.line)

theorem toList_written (calls : List Call) :
    (written calls).toList = (calls.map Call.parts).flatMap lineMarkup := by
  rw [written, String.toList_join, List.flatMap_map, List.flatMap_map]
  exact List.flatMap_congr fun call _ => call.toList_line

theorem cleanLines {calls : List Call} (h : ∀ call ∈ calls, call.IsPlain) :
    CleanLines (calls.map Call.parts) :=
  List.forall_mem_map.mpr fun call hcall => (h call hcall).isClean

/-- The calls that would have written what trimming leaves: only the text of an output that comes
    first can begin with a blank. -/
def trimmed : List Call → List Call
  | .output text :: calls => .output (Text.trimStart text) :: calls
  | calls => calls

theorem length_trimmed (calls : List Call) : (trimmed calls).length = calls.length := by
  unfold trimmed
  split <;> rfl

theorem isPlain_trimmed {calls : List Call} (h : ∀ call ∈ calls, call.IsPlain) :
    ∀ call ∈ trimmed calls, call.IsPlain := by
  unfold trimmed
  split
  · rename_i text calls
    rw [List.forall_mem_cons] at h ⊢
    refine ⟨List.forall_mem_singleton.mpr fun hmem => ?_, h.2⟩
    rw [Text.trimStart, String.toList_ofList] at hmem
    exact h.1 text List.mem_cons_self ((List.dropWhile_sublist _).mem hmem)
  · exact h

/-- A line whose first part is in a colour, if it has parts at all, begins with markup. -/
theorem lineMarkup_eq_cons {parts : List Part}
    (h : ∀ part ∈ parts.head?, ∃ color text, part = .colored color text) :
    ∃ cs, lineMarkup parts = '<' :: cs := by
  have hopen : Ansi.spanOpen = '<' :: Ansi.spanOpen.tail := by decide +kernel
  have hbreak : Display.lineBreak = '<' :: Display.lineBreak.tail := by decide +kernel
  cases parts with
  | nil => exact ⟨_, hbreak⟩
  | cons part parts =>
    obtain ⟨color, text, rfl⟩ := h part rfl
    rw [lineMarkup, List.flatMap_cons, Part.markup, hopen]
    exact ⟨_, rfl⟩

theorem Call.toList_line_of_ne {call : Call} (h : ∀ text, call ≠ .output text) :
    ∃ cs, call.line.toList = '<' :: cs := by
  rw [call.toList_line]
  refine lineMarkup_eq_cons fun part hpart => ?_
  cases call with
  | log texts =>
    rcases texts with _ | ⟨text, _ | ⟨text', texts⟩⟩ <;> cases hpart <;> exact ⟨_, _, rfl⟩
  | warn texts | error texts | executionError message =>
    cases hpart
    exact ⟨_, _, rfl⟩
  | output text => exact absurd rfl (h text)

theorem trimStartChars_written (calls : List Call) :
    Text.trimStartChars (written calls).toList = (written (trimmed calls)).toList := by
  unfold trimmed
  split
  -- The text of an output is trimmed up to its line break at most.
  · rename_i text calls
    have hline : ∀ text, (written (.output text :: calls)).toList =
        text.toList ++ '<' :: (['b', 'r', '>'] ++ (written calls).toList) := by
      intro text
      rw [written, List.map_cons, String.join_cons, String.toList_append, Call.line, Console.plain,
        String.toList_append, toList_lineBreak, Ansi.lineBreak_eq, List.append_assoc]
      rfl
    rw [hline, hline, Text.trimStartChars_append_cons rfl, Text.trimStart, String.toList_ofList]
  · rename_i hfirst
    cases calls with
    | nil => rfl
    | cons call calls =>
      obtain ⟨cs, hcs⟩ := Call.toList_line_of_ne fun text htext => hfirst text calls (htext ▸ rfl)
      rw [written, List.map_cons, String.join_cons, String.toList_append, hcs]
      exact Text.trimStartChars_cons rfl _

/-- What was written ends with a line break, so nothing is trimmed at its end. -/
theorem finish_written (calls : List Call) : finish (written calls) = written (trimmed calls) := by
  have htrim : Text.trimChars (written calls).toList =
      Text.trimStartChars (written calls).toList := by
    rcases List.eq_nil_or_concat' calls with rfl | ⟨calls, call, rfl⟩
    · rfl
    · have hend : ∃ before, (written (calls ++ [call])).toList = before ++ ['>'] := by
        rw [toList_written, List.map_append, List.flatMap_append, List.map_singleton,
          List.flatMap_singleton, lineMarkup, Ansi.lineBreak_eq]
        exact ⟨(calls.map Call.parts).flatMap lineMarkup ++
          (call.parts.flatMap Part.markup ++ ['<', 'b', 'r']), by simp⟩
      obtain ⟨before, hbefore⟩ := hend
      rw [hbefore]
      exact Text.trimChars_concat rfl before
  rw [finish, Text.trim, htrim, trimStartChars_written, String.ofList_toList]

/-! ### Lines on display -/

theorem outputLines_finish {calls : List Call} (h : ∀ call ∈ calls, call.IsPlain) :
    Display.outputLines (finish (written calls)) =
      (trimmed calls).map fun call => ⟨.output, call.line⟩ := by
  have hlines := Ansi.renderedLines_lines (cleanLines (isPlain_trimmed h))
  rw [← toList_written, String.ofList_toList, ← finish_written] at hlines
  rw [Display.outputLines, hlines, List.map_map, List.map_map, List.map_map]
  refine List.map_congr_left fun call _ => ?_
  simp only [Function.comp_apply, ← Call.toList_line, String.ofList_toList]

/-- The line of a call is shown as its parts are. -/
theorem renderLine_line {call : Call} (h : call.IsPlain) :
    Ansi.renderLine ⟨.output, call.line⟩ = String.ofList (lineShown call.parts) := by
  rw [← Ansi.ofMarkup_line h.isClean, ← call.toList_line, String.ofList_toList]
  rfl

/-- What all calls wrote is shown as their lines are, with newlines between them. -/
theorem ofMarkup_finish {calls : List Call} (h : ∀ call ∈ calls, call.IsPlain) :
    Ansi.ofMarkup (finish (written calls)) = "\n".intercalate
      ((trimmed calls).map fun call => Ansi.renderLine ⟨.output, call.line⟩) := by
  have hplain := isPlain_trimmed h
  have hshown := Ansi.ofMarkup_lines (cleanLines hplain)
  rw [← toList_written, String.ofList_toList, ← finish_written] at hshown
  have hlines : (trimmed calls).map (fun call => Ansi.renderLine ⟨.output, call.line⟩) =
      (((trimmed calls).map Call.parts).map lineShown).map String.ofList := by
    rw [List.map_map, List.map_map]
    exact List.map_congr_left fun call hcall => renderLine_line (hplain call hcall)
  rw [hshown, hlines, ← String.toList_inj, String.toList_ofList, String.toList_intercalate,
    Text.map_toList_ofList]
  rfl

/-- **To show a console line by line is to show it at once.**  Let calls write texts in which no
    markup begins, and a display have room for a line of each.  What they wrote, without the blanks
    around it, then adds one line for each call to the display, and these lines as a terminal is
    sent them, with newlines between them, are all that was written as a terminal is sent it. -/
theorem console_shown_by_lines {calls : List Call} (h : ∀ call ∈ calls, call.IsPlain) {d : Display}
    (hroom : d.lines.length + calls.length ≤ d.cap) :
    ∃ lines, (d.pushOutput (finish (written calls))).lines = d.lines ++ lines ∧
      lines.length = calls.length ∧
      "\n".intercalate (lines.map Ansi.renderLine) = Ansi.ofMarkup (finish (written calls)) := by
  have hlines := outputLines_finish h
  have hlength : (Display.outputLines (finish (written calls))).length = calls.length := by
    rw [hlines, List.length_map, length_trimmed]
  refine ⟨_, ?_, hlength, ?_⟩
  · rw [Display.pushOutput_eq, Display.foldl_push_lines _ (by omega),
      Display.newest_of_length_le (by rwa [List.length_append, hlength])]
  · rw [ofMarkup_finish h, hlines, List.map_map]
    rfl

/-- Blanks at the start go, a call without a text has its line, and a text with newlines and a
    closing bracket stays on one. -/
theorem console_shown_by_lines_mixed :
    let calls : List Call := [.output " \n two\nlines > ", .log [], .warn ["a", "b\nc"]]
    let d : Display := ⟨[⟨.prompt, "run"⟩], 4, []⟩
    let texts := ["two\nlines > <br>", "<br>",
      "<span style=\"color: yellow;\">Warning: a b\nc</span><br>"]
    (∀ call ∈ calls, call.IsPlain) ∧ d.lines.length + calls.length ≤ d.cap ∧
      (d.pushOutput (finish (written calls))).lines = d.lines ++ texts.map (⟨.output, ·⟩) ∧
      texts.length = calls.length ∧
      "\n".intercalate (texts.map fun text => Ansi.renderLine ⟨.output, text⟩) =
        Ansi.ofMarkup (finish (written calls)) := by
  intro calls d texts
  have hplain : ∀ call ∈ calls, call.IsPlain := by decide +kernel
  have hroom : d.lines.length + calls.length ≤ d.cap := by decide
  have hlines : (d.pushOutput (finish (written calls))).lines =
      d.lines ++ texts.map (⟨.output, ·⟩) := by decide +kernel
  obtain ⟨lines, hadded, hlength, hshown⟩ := console_shown_by_lines hplain hroom
  rw [hlines] at hadded
  obtain rfl := List.append_cancel_left hadded
  rw [List.map_map] at hshown
  exact ⟨hplain, hroom, hlines, by rwa [List.length_map] at hlength, hshown⟩

end MemoryShell.Script.Console
