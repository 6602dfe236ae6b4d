/-
  MemoryShell/Proofs/Display/Viewer.lean
  ======================================
  **Whoever draws the display step by step sees the display.**

  A viewer keeps a screen of its own and changes it by the events that it takes, now and then.  The
  events that wait are at most one clearing, and behind it lines; they were cut at the front like the
  lines of the display themselves.  So what the screen would become if they were taken now is always
  what the display shows.
-/
import MemoryShell.Proofs.Display.Lines

namespace MemoryShell

namespace Display

/-! ### A viewer -/

/-- What can be done to a display that somebody looks at. -/
inductive Step where
  | prompt (input : String)
  | output (text : String)
  | clear
  /-- The viewer takes the events that have come and draws them. -/
  | take
deriving DecidableEq, Repr

/-- Draw one event on a screen. -/
def draw (screen : List DisplayLine) : DisplayEvent → List DisplayLine
  | .line line => screen ++ [line]
  | .clear => []

end Display

/-- A display, and the screen of a viewer. -/
structure Viewed where
  display : Display
  screen : List DisplayLine
deriving Repr

namespace Viewed

open Display

/-- A new display, and a viewer that has drawn nothing. -/
def new (cap : Nat) : Viewed := ⟨.new cap, []⟩

/-- The viewer draws the events in their order, and then keeps as many lines as the display. -/
def step (v : Viewed) : Step → Viewed
  | .prompt input => { v with display := v.display.pushPrompt input }
  | .output text => { v with display := v.display.pushOutput text }
  | .clear => { v with display := v.display.clear }
  | .take =>
    let (events, display) := v.display.takeEvents
    ⟨display, newest display.cap (events.foldl draw v.screen)⟩

def after (v : Viewed) (steps : List Step) : Viewed := steps.foldl step v

/-! ### The events that wait -/

/-- Events of one clearing, or none, and of some lines behind it. -/
def waiting (cleared : Bool) (lines : List DisplayLine) : List DisplayEvent :=
  (if cleared then [.clear] else []) ++ lines.map .line

theorem countP_waiting (cleared : Bool) (lines : List DisplayLine) :
    (waiting cleared lines).countP DisplayEvent.isLine = lines.length := by
  have hlines : (lines.map DisplayEvent.line).countP DisplayEvent.isLine = lines.length := by
    rw [List.countP_map]
    exact List.countP_eq_length.mpr fun _ _ => rfl
  cases cleared with
  | false => exact hlines
  | true => rw [waiting, if_pos rfl, List.countP_append, hlines]; exact Nat.zero_add _

theorem count_clear_waiting (cleared : Bool) (lines : List DisplayLine) :
    (waiting cleared lines).count .clear ≤ 1 := by
  have hlines : (lines.map DisplayEvent.line).count .clear = 0 := by
    rw [List.count_eq_zero, List.mem_map]
    rintro ⟨line, -, ⟨⟩⟩
  cases cleared with
  | false => rw [waiting, if_neg Bool.false_ne_true, List.nil_append, hlines]; exact Nat.zero_le 1
  | true => rw [waiting, if_pos rfl, List.count_append, hlines]; exact Nat.le_refl 1

theorem waiting_concat (cleared : Bool) (lines : List DisplayLine) (line : DisplayLine) :
    waiting cleared lines ++ [.line line] = waiting cleared (lines ++ [line]) := by
  rw [waiting, waiting, List.map_append, List.append_assoc]
  rfl

theorem dropFirstLine_waiting (cleared : Bool) (line : DisplayLine) (lines : List DisplayLine) :
    dropFirstLine (waiting cleared (line :: lines)) = waiting cleared lines := by
  cases cleared <;> rfl

theorem foldl_draw_lines (lines screen : List DisplayLine) :
    (lines.map DisplayEvent.line).foldl draw screen = screen ++ lines := by
  induction lines generalizing screen with
  | nil => exact (List.append_nil _).symm
  | cons line lines ih =>
    rw [List.map_cons, List.foldl_cons, ih, draw, List.append_assoc, List.singleton_append]

theorem foldl_draw_waiting (cleared : Bool) (lines screen : List DisplayLine) :
    (waiting cleared lines).foldl draw screen = (if cleared then [] else screen) ++ lines := by
  cases cleared with
  | false => exact foldl_draw_lines lines screen
  | true =>
    rw [waiting, if_pos rfl, List.foldl_append, foldl_draw_lines]
    rfl

/-! ### The screen and the display

`InStep` is the invariant: it names the events that wait, and says what the screen would become by
them.  The screen itself may be behind for as long as one likes. -/

/-- The events that wait would turn the screen into the lines of the display. -/
def InStep (v : Viewed) : Prop :=
  ∃ cleared lines, v.display.events = waiting cleared lines ∧ lines.length ≤ v.display.cap ∧
    v.display.lines = newest v.display.cap ((if cleared then [] else v.screen) ++ lines)

theorem InStep.push {d : Display} {screen : List DisplayLine} (h : InStep ⟨d, screen⟩)
    (line : DisplayLine) : InStep ⟨d.push line, screen⟩ := by
  obtain ⟨cleared, lines, hevents, hlength, hlines⟩ := h
  have hlines' : (d.push line).lines =
      newest d.cap ((if cleared then [] else screen) ++ (lines ++ [line])) := by
    rw [push_lines, hlines, newest_newest_append, List.append_assoc]
  have hevents' : (d.push line).events =
      if lines.length + 1 > d.cap then dropFirstLine (waiting cleared (lines ++ [line]))
      else waiting cleared (lines ++ [line]) := by
    have hcount := countP_waiting cleared (lines ++ [line])
    rw [List.length_append, List.length_singleton] at hcount
    rw [Display.push, hevents, waiting_concat, hcount]
  by_cases hfull : lines.length + 1 > d.cap
  · rw [if_pos hfull] at hevents'
    -- The oldest of the lines that wait is dropped; the display has dropped it as well.
    obtain ⟨first, rest, hrest⟩ := List.exists_cons_of_ne_nil (List.concat_ne_nil line lines)
    have hcap : rest.length = d.cap := by
      have hsum := congrArg List.length hrest
      simp only [List.length_append, List.length_cons, List.length_nil] at hsum
      dsimp only at hlength
      omega
    rw [hrest] at hevents' hlines'
    refine ⟨cleared, rest, ?_, Nat.le_of_eq hcap, ?_⟩
    · rw [hevents', dropFirstLine_waiting]
    · rw [hlines', push_cap, List.append_cons, newest_append_of_le_length (Nat.le_of_eq hcap.symm),
        newest_append_of_le_length (Nat.le_of_eq hcap.symm)]
  · rw [if_neg hfull] at hevents'
    refine ⟨cleared, lines ++ [line], hevents', ?_, hlines'⟩
    rw [List.length_append, push_cap]
    exact Nat.le_of_not_gt hfull

theorem InStep.pushAll {d : Display} {screen : List DisplayLine} (h : InStep ⟨d, screen⟩)
    (lines : List DisplayLine) : InStep ⟨lines.foldl Display.push d, screen⟩ := by
  induction lines generalizing d with
  | nil => exact h
  | cons line lines ih => exact ih (h.push line)

/-- What the viewer sees when it takes the events. -/
theorem InStep.screen_take {v : Viewed} (h : v.InStep) : (v.step .take).screen = v.display.lines := by
  obtain ⟨cleared, lines, hevents, -, hlines⟩ := h
  change newest v.display.cap (v.display.events.foldl draw v.screen) = v.display.lines
  rw [hevents, foldl_draw_waiting, hlines]

/-- Each step keeps screen and display in step. -/
theorem InStep.step {v : Viewed} (h : v.InStep) (hlength : v.display.lines.length ≤ v.display.cap)
    (s : Step) : (v.step s).InStep := by
  cases s with
  | prompt input => exact h.push _
  | output text =>
    change InStep ⟨v.display.pushOutput text, v.screen⟩
    rw [pushOutput_eq]
    exact h.pushAll _
  | clear => exact ⟨true, [], rfl, Nat.zero_le _, (newest_nil _).symm⟩
  | take =>
    refine ⟨false, [], rfl, Nat.zero_le _, ?_⟩
    rw [h.screen_take, if_neg Bool.false_ne_true, List.append_nil]
    exact (newest_of_length_le hlength).symm

/-! ### Any steps -/

theorem step_cap (v : Viewed) (s : Step) : (v.step s).display.cap = v.display.cap := by
  cases s with
  | prompt | clear | take => rfl
  | output text =>
    change (v.display.pushOutput text).cap = v.display.cap
    rw [pushOutput_eq, foldl_push_cap]

theorem step_length_le {v : Viewed} (h : v.display.lines.length ≤ v.display.cap) (s : Step) :
    (v.step s).display.lines.length ≤ (v.step s).display.cap := by
  rw [step_cap]
  cases s with
  | prompt => exact length_newest_le _ _
  | output text =>
    change (v.display.pushOutput text).lines.length ≤ _
    rw [pushOutput_eq, foldl_push_lines _ h]
    exact length_newest_le _ _
  | clear => exact Nat.zero_le _
  | take => exact h

theorem after_inStep {v : Viewed} (h : v.InStep) (hlength : v.display.lines.length ≤ v.display.cap)
    (steps : List Step) :
    (v.after steps).InStep ∧ (v.after steps).display.cap = v.display.cap := by
  induction steps generalizing v with
  | nil => exact ⟨h, rfl⟩
  | cons s steps ih =>
    obtain ⟨hstep, hcap⟩ := ih (h.step hlength s) (step_length_le hlength s)
    exact ⟨hstep, hcap.trans (v.step_cap s)⟩

/-- However a display is used and however rarely the viewer looks: whenever it takes the events, its
    screen shows the lines of the display, and at no time do more lines wait than the cap allows, or
    more than one clearing. -/
theorem screen_eq_lines_and_bounded (cap : Nat) (steps : List Step) :
    let v := (new cap).after steps
    (v.step .take).screen = (v.step .take).display.lines ∧
      v.display.events.countP DisplayEvent.isLine ≤ max cap 1 ∧
      v.display.events.count .clear ≤ 1 := by
  have hnew : (new cap).InStep := ⟨false, [], rfl, Nat.zero_le _, (newest_nil _).symm⟩
  obtain ⟨h, hcap⟩ := after_inStep hnew (Nat.zero_le _) steps
  have htake := h.screen_take
  obtain ⟨cleared, lines, hevents, hlength, -⟩ := h
  rw [hcap] at hlength
  refine ⟨htake, ?_, ?_⟩
  · rw [hevents, countP_waiting]
    exact hlength
  · rw [hevents]
    exact count_clear_waiting cleared lines

end Viewed

end MemoryShell
