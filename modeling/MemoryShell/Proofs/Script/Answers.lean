/-
  MemoryShell/Proofs/Script/Answers.lean
  ======================================
  **What a run answers.**

  The console holds whole lines at any time, so trimming the output takes nothing from the line for
  the fault that ended the run.  That line follows what the script wrote, unless the run was given
  up; and the one thing for which a run is given up is that an array was needed for its own length.
-/
import MemoryShell.Proofs.Script.Modes
import MemoryShell.Proofs.Text.Blank

namespace MemoryShell.Script

namespace Console

/-! ### The console

The output is trimmed at both ends.  A line ends with the mark of a line break, which is no blank,
so only the start of what was written can lose something. -/

/-- Whether a text is made of whole lines. -/
def IsWhole (written : String) : Prop := written = "" ∨ ∃ before, written = before ++ lineBreak

/-- Whole lines do not end with a blank. -/
theorem toList_append_lineBreak (text : String) :
    (text ++ lineBreak).toList = (text.toList ++ ['<', 'b', 'r']) ++ ['>'] := by
  simp [lineBreak]

theorem span_toList (color text : String) : ∃ cs, (span color text).toList = '<' :: cs := by
  have hstart : ∃ cs, "<span style=\"color: ".toList = '<' :: cs :=
    ⟨"span style=\"color: ".toList, by decide +kernel⟩
  obtain ⟨cs, hstart⟩ := hstart
  unfold Console.span
  rw [String.toList_append, String.toList_append, String.toList_append, String.toList_append,
    hstart]
  exact ⟨_, rfl⟩

theorem executionError_toList (message : String) :
    ∃ cs, (executionError message).toList = '<' :: (cs ++ ['>']) := by
  obtain ⟨cs, hspan⟩ := span_toList "red" ("Execution Error" ++ ": " ++ message)
  refine ⟨cs ++ ['<', 'b', 'r'], ?_⟩
  rw [executionError, labelled, toList_append_lineBreak, hspan]
  rfl

/-- The line for an error stays as it is after whole lines, however these are trimmed. -/
theorem finish_append_executionError {written : String} (h : IsWhole written) (message : String) :
    finish (written ++ executionError message) = finish written ++ executionError message := by
  obtain ⟨cs, hline⟩ := executionError_toList message
  have hdark : Text.isBlank '>' = false := rfl
  have hlist : Text.trimChars (written ++ executionError message).toList =
      Text.trimChars written.toList ++ (executionError message).toList := by
    rw [String.toList_append, hline, ← List.cons_append, ← List.append_assoc,
      Text.trimChars_concat hdark]
    rcases h with rfl | ⟨before, rfl⟩
    · exact Text.trimStartChars_cons rfl _
    · rw [toList_append_lineBreak, Text.trimChars_concat hdark, List.append_assoc _ _ ['>'],
        Text.trimStartChars_append hdark (by simp)]
  rw [finish, finish, Text.trim, Text.trim, hlist, String.ofList_append, String.ofList_toList]

theorem finish_executionError (message : String) :
    finish (executionError message) = executionError message := by
  have hfinish := finish_append_executionError (.inl rfl) message
  rwa [String.empty_append, show finish "" = "" from rfl, String.empty_append] at hfinish

end Console

/-! ### Outputs -/

variable {σ : Type}

/-- Whether a run was given up. -/
def GaveUp (r : Result σ Unit) : Prop := ∃ fault ∈ r.fault?, fault.isFinal

/-- The last line of the output of a run, for the fault that it ended with. -/
def lastLine (r : Result σ Unit) : String :=
  match r.fault? with
  | none => ""
  | some fault => Console.executionError (fault.message r.machine.heap)

/-- A run that was not given up answers all that it wrote and then its last line. -/
theorem Outcome.output_of_not_gaveUp {r : Result σ Unit}
    (hwhole : Console.IsWhole r.machine.console)
    (h : ¬ GaveUp r) :
    (Outcome.ofResult r).output = Console.finish r.machine.console ++ lastLine r := by
  cases r with
  | ok _ m => exact String.append_empty.symm
  | error fault m =>
    have hfinal : fault.isFinal = false := by
      rw [Bool.eq_false_iff]
      intro hfinal
      exact h ⟨fault, rfl, hfinal⟩
    simp only [Outcome.ofResult, hfinal]
    exact Console.finish_append_executionError hwhole _

/-- A run that was given up answers just that. -/
theorem Outcome.output_of_gaveUp {r : Result σ Unit} (h : GaveUp r) :
    (Outcome.ofResult r).output = Console.executionError givenUpText := by
  obtain ⟨fault, hfault, hfinal⟩ := h
  cases r with
  | ok => cases hfault
  | error fault' m =>
    cases hfault
    have hmessage : fault.message m.heap = givenUpText := by
      cases fault with
      | busyArray | outOfRange | exhausted => rfl
      | thrown | limit | badTarget => cases hfinal
    simp only [Outcome.ofResult, hfinal, hmessage]
    exact Console.finish_executionError _

/-! ### Whole runs -/

variable [Host σ] {limits : Limits} {m m' : Machine σ} {end? : Option Fault}

/-- The console holds whole lines all along. -/
theorem Course.console_isWhole (h : Course limits m end? m') (hm : Console.IsWhole m.console) :
    Console.IsWhole m'.console := by
  induction h with
  | refl | fail | heap | random | host | begun | meetTurns | meetDepth | block => exact hm
  | write m line => exact .inr ⟨m.console ++ line, String.append_assoc.symm⟩
  | trans _ _ ih ih' | recover _ _ _ ih ih' | turn _ _ _ _ ih ih' | resume _ _ ih ih'
  | renew _ _ ih ih' | discard _ _ ih ih' =>
    exact ih' (ih hm)
  | idleTurn _ _ ih | deeper _ _ ih | inCall _ _ ih => exact ih hm

variable (limits)

/-- A run is given up exactly if it was blocked. -/
theorem runOn_gaveUp_iff (p : Program) (host : σ) :
    GaveUp (runOn limits p host) ↔ .blocked ∈ (runOn limits p host).machine.trail := by
  have hleads := runOn_leads limits p host
  have hbusy := runOn_eq_busyArray limits p host
  rw [hleads.blocked_mem_iff, GaveUp]
  cases hend : (runOn limits p host).fault? with
  | none => simp [Mode.ofEnd]
  | some fault =>
    cases fault with
    | outOfRange | exhausted => cases hbusy _ hend rfl
    | thrown | limit | badTarget | busyArray => simp [Mode.ofEnd, Fault.isFinal]

namespace Heap

variable {h : Heap} {target : ArrayRef}

theorem array_changeArray_of_ne {r : ArrayRef} (hne : r ≠ target) (f : Array Value → Array Value) :
    (h.changeArray target f).array r = h.array r := by
  have hindex : target.index ≠ r.index := by
    intro heq
    obtain ⟨i⟩ := r
    obtain ⟨j⟩ := target
    exact hne (congrArg ArrayRef.mk heq.symm)
  simp only [array, changeArray, Array.getElem?_modify, hindex, if_false]

/-- A text that is not made from the elements of an array is the same whatever these are. -/
theorem displayBelow_changeArray (f : Array Value → Array Value) (fuel : Nat)
    (joining : List ArrayRef)
    (v : Value) (hfree : h.readsArray target fuel joining v = false) :
    (h.changeArray target f).displayBelow fuel joining v = h.displayBelow fuel joining v := by
  induction fuel generalizing joining v with
  | zero => rfl
  | succ fuel ih =>
    cases v with
    | array r =>
      simp only [readsArray, displayBelow] at hfree ⊢
      split
      · rfl
      · rename_i hskip
        rw [if_neg hskip, Bool.or_eq_false_iff, List.any_eq_false] at hfree
        obtain ⟨hne, hitems⟩ := hfree
        rw [array_changeArray_of_ne (ne_of_beq_false hne)]
        congr 1
        refine List.map_congr_left fun item hmem => ?_
        split
        · rfl
        · exact ih _ _ (Bool.eq_false_iff.mpr (hitems item hmem))
    | object r =>
      have hobject : (h.changeArray target f).object r = h.object r := rfl
      simp only [readsArray, displayBelow, hobject] at hfree ⊢
      split
      · rename_i herror
        rw [herror, Bool.true_and, Bool.or_eq_false_iff] at hfree
        have hmember (member? : Option Value)
            (hmember : (member?.map (h.readsArray target fuel joining)).getD false = false) :
            member?.map ((h.changeArray target f).displayBelow fuel joining) =
              member?.map (h.displayBelow fuel joining) := by
          cases member? with
          | none => rfl
          | some v => exact congrArg some (ih joining v hmember)
        rw [hmember _ hfree.1, hmember _ hfree.2]
      · rfl
    | undefined | null | bool | number | string | closure | native | method => rfl

/-- So a value whose text does not need an array is the same number whatever the array holds. -/
theorem toNumber_changeArray (f : Array Value → Array Value) {r : ArrayRef}
    (hfree : h.readsArray target h.displayFuel [] (.array r) = false) :
    (h.changeArray target f).toNumber (.array r) = h.toNumber (.array r) :=
  congrArg textToNumber (displayBelow_changeArray f _ _ _ hfree)

end Heap

/-! ### An array that is needed for its own length -/

/-- An empty array is given as its own length. -/
def ownLength : Program where
  body := [.varDecl .constKind [("a", some (.array []))],
    .expr (.assign none (.member (.ident "a") "length") (.ident "a"))]

end MemoryShell.Script
