/-
  MemoryShell/Proofs/Script/Methods.lean
  ======================================
  **Methods take a course.**

  Methods of strings, numbers and objects only look.  Methods of arrays also change the heap, and
  some of them call back into the script; each call and each comparison is work in a turn of its
  own, so it is enough that calls take a course within one turn less.
-/
import MemoryShell.Proofs.Script.Library
import MemoryShell.Script.Arrays
import MemoryShell.Script.Strings

namespace MemoryShell.Script

variable {σ : Type} [Host σ] {limits : Limits} {k : Nat}

namespace Act.Within

/-! ### Strings, numbers and objects -/

theorem argumentText (args : List Value) (i : Nat) :
    Within limits k (argumentText args i : Act σ (List Char)) := (display _).map _

theorem argumentNumber (args : List Value) (i : Nat) :
    Within limits k (argumentNumber args i : Act σ Float) := .number _

theorem repeatText (s : String) (args : List Value) :
    Within limits k (repeatText limits s args : Act σ Value) := by
  refine (argumentNumber _ _).bind fun x => ?_
  simp only
  split
  · exact .throwMistake _
  · split
    · exact .throwMistake _
    · split
      · exact .pure _
      · exact .pure _

theorem padText (before : Bool) (s : String) (args : List Value) :
    Within limits k (padText limits before s args : Act σ Value) := by
  refine (argumentNumber _ _).bind fun x => ?_
  simp only
  split
  · exact .throwMistake _
  · have hrest (fill : String) : Within limits k (do
        let length := (integerPart x).toUInt64.toNat
        if length ≤ s.length || fill.isEmpty then return .string s
        else
          let extra := filling (← Act.need (without? length s.length)) fill
          return .string (if before then extra ++ s else s ++ extra) : Act σ Value) := by
      by_cases hlength : (integerPart x).toUInt64.toNat ≤ s.length
      · simp only [hlength, decide_true, Bool.true_or, if_true]
        exact .pure _
      · dsimp only
        rw [without?_of_le (Nat.le_of_not_le hlength), need_some_bind]
        split
        · exact .pure _
        · exact .pure _
    split
    · exact (pure _).bind hrest
    · exact (display _).bind hrest

theorem splitText (s : String) (args : List Value) :
    Within limits k (splitText s args : Act σ Value) := by
  unfold Act.splitText
  split
  · exact .newArray _
  · exact (argumentText _ _).bind fun _ => .newArray _

theorem clampedOr (default : Nat) (v : Value) (length : Nat) :
    Within limits k (clampedOr default v length : Act σ Nat) := by
  unfold Act.clampedOr
  split
  · exact .pure _
  · exact (number _).map _

omit [Host σ] in
theorem clampedOr_gives {default length : Nat} (h : default ≤ length) (v : Value) :
    Gives (Act.clampedOr default v length : Act σ Nat) (· ≤ length) := by
  unfold Act.clampedOr
  split
  · intro m a m' heq
    cases heq
    exact h
  · exact .map fun x => clamped_le x length

theorem substringText (s : String) (args : List Value) :
    Within limits k (substringText s args : Act σ Value) := by
  refine (clampedOr _ _ _).bindOf (clampedOr_gives (Nat.zero_le _) _) fun a ha => ?_
  refine (clampedOr _ _ _).bindOf (clampedOr_gives (Nat.le_refl _) _) fun b hb => ?_
  have horder : min a b ≤ max a b := Nat.le_trans (Nat.min_le_left a b) (Nat.le_max_left a b)
  rw [between?_of_le horder (Nat.max_le.mpr ⟨ha, hb⟩), need_some_bind]
  exact .pure _

omit [Host σ] in
theorem part_gives (start stop : Value) (length : Nat) :
    Gives (Act.lookHeap fun h => h.part start stop length : Act σ (Nat × Nat))
      fun part => part.1 ≤ length ∧ part.2 ≤ length :=
  .lookHeap fun h => h.part_le start stop length

/-- A character is read only where there is one. -/
theorem characterAt (x : Float) (text : List Char) {missing : Value} {present : Char → Value} :
    Within limits k (match plainElementAt? x text.length with
      | some i => do return present (← Act.need text[i]?)
      | none => return missing : Act σ Value) := by
  split
  · rename_i i hi
    rw [List.getElem?_eq_getElem (plainElementAt?_lt hi), need_some_bind]
    exact .pure _
  · exact .pure _

theorem stringResult (method : Method) (s : String) (args : List Value) :
    Within limits k (stringResult limits method s args : Act σ Value) := by
  cases method with
  | at_ => exact (argumentNumber _ _).map _
  | charAt | charCodeAt => exact (argumentNumber _ _).bind fun _ => .characterAt _ _
  | indexOf | lastIndexOf | includes | startsWith | endsWith => exact (argumentText _ _).map _
  | slice =>
    refine (lookHeap _).bindOf (part_gives _ _ _) fun (start, stop) hpart => ?_
    dsimp only at hpart ⊢
    rw [between?_of_le (Nat.le_max_left _ _) (Nat.max_le.mpr hpart), need_some_bind]
    exact .pure _
  | substring => exact .substringText _ _
  | split => exact .splitText _ _
  | replace | replaceAll => exact (argumentText _ _).bind fun _ => (argumentText _ _).map _
  | repeat_ => exact .repeatText _ _
  | padStart | padEnd => exact .padText _ _ _
  | concat => exact (mapM (fun _ => .display _) _).bind fun _ => .pure _
  | _ => exact .pure _

theorem stringMethod (method : Method) (s : String) (args : List Value) :
    Within limits k (stringMethod limits method s args : Act σ Value) :=
  (stringResult _ _ _).bind fun _ => .checkText _

theorem numberMethod (method : Method) (x : Float) (args : List Value) :
    Within limits k (numberMethod method x args : Act σ Value) := by
  unfold Act.numberMethod
  split
  · exact (number _).map _
  · exact .pure _
  · exact (number _).map _

theorem objectMethod (method : Method) (r : ObjectRef) (args : List Value) :
    Within limits k (objectMethod method r args : Act σ Value) := by
  unfold Act.objectMethod
  split
  · split
    · exact (pure _).bind fun _ => .lookHeap _
    · exact (display _).bind fun _ => .lookHeap _
  · exact (display _).map _

/-! ### Sorting -/

theorem mergeOnto {comesAfter : Value → Value → Act σ Bool}
    (h : ∀ a b, Within limits k (comesAfter a b)) (merged : List Value) (n : Nat)
    (as bs : List Value) : Within limits k (mergeOnto comesAfter merged n as bs) := by
  fun_induction Script.mergeOnto comesAfter merged n as bs with
  | case1 merged n a as b bs ih ih' =>
    refine (h a b).bind fun after => ?_
    split
    · exact ih
    · exact ih'
  | case2 => exact .pure _

theorem mergePairs {comesAfter : Value → Value → Act σ Bool}
    (h : ∀ a b, Within limits k (comesAfter a b)) (merged runs : List (List Value)) :
    Within limits k (mergePairs comesAfter merged runs) := by
  fun_induction Script.mergePairs comesAfter merged runs with
  | case1 merged as bs rest ih => exact (mergeOnto h _ _ _ _).bind ih
  | case2 => exact .pure _

theorem mergeRuns {comesAfter : Value → Value → Act σ Bool}
    (h : ∀ a b, Within limits k (comesAfter a b)) (n : Nat) (runs : List (List Value)) :
    Within limits k (mergeRuns comesAfter n runs) := by
  fun_induction Script.mergeRuns comesAfter n runs with
  | case1 n as bs rest ih => exact (mergePairs h _ _).bind ih
  | case2 => exact .pure _

theorem sortBy {comesAfter : Value → Value → Act σ Bool}
    (h : ∀ a b, Within limits k (comesAfter a b)) (values : List Value) :
    Within limits k (sortBy comesAfter values) := .mergeRuns h _ _

/-! ### Arrays -/

theorem elements (r : ArrayRef) : Within limits k (elements r : Act σ (Array Value)) := .lookHeap _

theorem changeArray (r : ArrayRef) (f : Array Value → Array Value) :
    Within limits k (Act.changeHeap (fun heap => heap.changeArray r f) : Act σ Unit) :=
  .changeHeap fun heap => .changeArray heap r f

theorem setElements (r : ArrayRef) (items : Array Value) :
    Within limits k (setElements r items : Act σ Unit) := .changeArray r _

theorem numbered (r : ArrayRef) :
    Within limits k (numbered r : Act σ (List (Value × Nat))) := (elements _).map _

theorem checkGrowth (r : ArrayRef) (extra : Nat) :
    Within limits k (checkGrowth limits r extra : Act σ Unit) := by
  refine (elements _).bind fun items => ?_
  split
  · exact .throwMistake _
  · exact .pure _

theorem pushed (r : ArrayRef) (values : List Value) :
    Within limits k (pushed limits r values : Act σ Value) :=
  (checkGrowth _ _).bind fun _ => (changeArray r _).bind fun _ => .lookHeap _

theorem popped (r : ArrayRef) : Within limits k (popped r : Act σ Value) :=
  (lookHeap _).bind fun _ => (changeArray r _).bind fun _ => .pure _

theorem shifted (r : ArrayRef) : Within limits k (shifted r : Act σ Value) := by
  refine (elements _).bind fun items => ?_
  split
  · exact .pure _
  · rename_i hempty
    have hsize : 0 < items.size := by
      rw [Array.isEmpty_iff_size_eq_zero] at hempty
      exact Nat.pos_of_ne_zero hempty
    rw [Array.getElem?_eq_getElem hsize, need_some_bind]
    exact (setElements _ _).bind fun _ => .pure _

theorem unshifted (r : ArrayRef) (values : List Value) :
    Within limits k (unshifted limits r values : Act σ Value) :=
  (checkGrowth _ _).bind fun _ => (changeArray r _).bind fun _ => .lookHeap _

theorem countUpTo (most : Nat) (count : Option Value) :
    Within limits k (countUpTo most count : Act σ Nat) := by
  cases count with
  | none => exact .pure _
  | some v => exact (number _).map _

omit [Host σ] in
theorem countUpTo_gives (most : Nat) (count : Option Value) :
    Gives (Act.countUpTo most count : Act σ Nat) (· ≤ most) := by
  cases count with
  | none =>
    intro m a m' heq
    cases heq
    exact Nat.le_refl _
  | some v => exact .map fun x => clamped_le x most

theorem spliced (r : ArrayRef) (args : List Value) :
    Within limits k (spliced limits r args : Act σ Value) := by
  refine (checkGrowth _ _).bind fun _ => (elements _).bind fun items => (number _).bind fun x => ?_
  have hstart := clampedFromEnd_le x items.size
  dsimp only
  rw [without?_of_le hstart, need_some_bind]
  refine (countUpTo _ _).bindOf (countUpTo_gives _ _) fun count hcount => ?_
  have hstop := Nat.add_le_of_le_sub' hstart hcount
  rw [itemsBetween?_of_le (Nat.le_add_right _ _) hstop, need_some_bind]
  exact (setElements _ _).bind fun _ => .newArray _

theorem joinedElements (v : Value) :
    Within limits k (joinedElements v : Act σ (Array Value)) := by
  unfold Act.joinedElements
  split
  · exact .elements _
  · exact .pure _

theorem concatenated (r : ArrayRef) (values : List Value) :
    Within limits k (concatenated limits r values : Act σ Value) :=
  (mapM (fun _ => .joinedElements _) _).bind fun _ => (checkGrowth _ _).bind fun _ =>
    (elements _).bind fun _ => .newArray _

theorem joined (r : ArrayRef) (separator : Value) :
    Within limits k (joined limits r separator : Act σ Value) := by
  have hrest (text : String) : Within limits k (do
      let count := (← Act.elements r).size
      if text.utf8ByteSize * (count - 1) > limits.maxStringLength then
        Act.throwMistake .stringLength
      else
        Act.checkText limits (← Act.lookHeap fun h =>
          .string (h.joinText text (h.array r).toList)) : Act σ Value) := by
    refine (elements _).bind fun items => ?_
    simp only
    split
    · exact .throwMistake _
    · exact (lookHeap _).bind fun _ => .checkText _
  unfold Act.joined
  split
  · exact (pure _).bind hrest
  · exact (display _).bind hrest

/-! ### Calling back -/

variable {call : Value → List Value → Act σ Value}
  (hcall : ∀ j, j + 1 = k → ∀ f args, Within limits j (call f args))
include hcall

theorem callInTurn (f : Value) (args : List Value) :
    Within limits k (callInTurn limits call f args) :=
  turn .callback (pure ()) fun j hj _ => hcall j hj f args

theorem visit (f : Value) (r : ArrayRef) (item : Value × Nat) :
    Within limits k (visit limits call f r item) := callInTurn hcall _ _

theorem mapped (f : Value) (r : ArrayRef) : Within limits k (mapped limits call f r) :=
  (numbered _).bind fun _ => .foldlM (fun _ _ => (visit hcall _ _ _).map _) _ _

theorem filtered (f : Value) (r : ArrayRef) : Within limits k (filtered limits call f r) :=
  (numbered _).bind fun _ => .foldlM (fun _ _ => (visit hcall _ _ _).map _) _ _

theorem found (wanted : Bool) (f : Value) (r : ArrayRef) :
    Within limits k (found limits call wanted f r) :=
  (numbered _).bind fun _ => .findM? (fun _ => (visit hcall _ _ _).map _) _

theorem folded (f : Value) (r : ArrayRef) (start : Value) (items : List (Value × Nat)) :
    Within limits k (folded limits call f r start items) :=
  .foldlM (fun _ _ => callInTurn hcall _ _) _ _

theorem reduced (f : Value) (r : ArrayRef) (start : Option Value) :
    Within limits k (reduced limits call f r start) := by
  refine (numbered _).bind fun items => ?_
  split
  · exact folded hcall _ _ _ _
  · exact folded hcall _ _ _ _
  · exact .throwMistake _

theorem sortsAfter (comparison a b : Value) :
    Within limits k (sortsAfter limits call comparison a b) := by
  refine turn .comparison (pure ()) (fun j hj _ => ?_ : ∀ j, j + 1 = k → ∀ _ : Unit,
    Within limits j (Act.compared call comparison a b))
  unfold Act.compared
  split
  · exact (hcall j hj _ _).bind fun _ => (number _).map _
  · exact .lookHeap _

theorem arrayResult (method : Method) (r : ArrayRef) (args : List Value) :
    Within limits k (arrayResult limits call method r args) := by
  cases method with
  | push => exact .pushed _ _
  | pop => exact .popped _
  | shift => exact .shifted _
  | unshift => exact .unshifted _ _
  | splice => exact .spliced _ _
  | concat => exact .concatenated _ _
  | join => exact .joined _ _
  | toText =>
    simp only [Act.arrayResult]
    exact .lookHeap _
  | at_ => exact (number _).bind fun _ => .lookHeap _
  | indexOf | lastIndexOf | includes => exact (elements _).map _
  | slice =>
    refine (elements _).bind fun items => ?_
    refine (lookHeap _).bindOf (part_gives _ _ _) fun (start, stop) hpart => ?_
    dsimp only at hpart ⊢
    rw [itemsBetween?_of_le (Nat.le_max_left _ _) (Nat.max_le.mpr hpart), need_some_bind]
    exact .newArray _
  | reverse => exact (changeArray r _).bind fun _ => .pure _
  | sort =>
    exact (elements _).bind fun _ => (sortBy (sortsAfter hcall _) _).bind fun _ =>
      (setElements _ _).bind fun _ => .pure _
  | map => exact (mapped hcall _ _).bind fun _ => .newArray _
  | filter => exact (filtered hcall _ _).bind fun _ => .newArray _
  | forEach => exact (mapped hcall _ _).bind fun _ => .pure _
  | find | findIndex | some | every => exact (found hcall _ _ _).map _
  | reduce => exact reduced hcall _ _ _
  | _ => exact .pure _

theorem arrayMethod (method : Method) (r : ArrayRef) (args : List Value) :
    Within limits k (arrayMethod limits call method r args) := by
  unfold Act.arrayMethod
  split
  · exact (display _).bind fun _ => .throwMistake _
  · exact arrayResult hcall _ _ _

end Act.Within

end MemoryShell.Script
