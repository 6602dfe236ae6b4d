/-
  MemoryShell/Proofs/Script/ArrayRefusals.lean
  ============================================
  **When a method refuses to make an array longer.**

  Four methods add elements.  Each looks at the limit before it does anything, so a refusal leaves
  every array as it was.  To put in front, behind or together is refused exactly if the array that
  would come of it is too long.  To put in between is refused sooner: what is taken out is counted
  as if it stayed.
-/
import MemoryShell.Proofs.Script.ArrayLengths
import MemoryShell.Proofs.Script.ArraysStay
import MemoryShell.Proofs.Script.Questions

namespace MemoryShell.Script.Act

variable {σ : Type} {limits : Limits} {m : Machine σ}

/-! ### What is put in and what is taken out -/

/-- Whether a method of arrays adds elements. -/
def addsElements : Method → Bool
  | .push | .unshift | .splice | .concat => true
  | _ => false

/-- Where elements are put in between others. -/
def spliceStart (h : Heap) (r : ArrayRef) (args : List Value) : Nat :=
  clampedFromEnd (h.toNumber (argument args 0)) (h.array r).size

/-- How many elements are taken out where others are put in. -/
def spliceCount (h : Heap) (r : ArrayRef) (args : List Value) : Nat :=
  match args[1]? with
  | none => (h.array r).size - spliceStart h r args
  | some v => clamped (h.toNumber v) ((h.array r).size - spliceStart h r args)

theorem splice_le (h : Heap) (r : ArrayRef) (args : List Value) :
    spliceStart h r args + spliceCount h r args ≤ (h.array r).size := by
  have hstart : spliceStart h r args ≤ (h.array r).size := clampedFromEnd_le _ _
  have hcount : spliceCount h r args ≤ (h.array r).size - spliceStart h r args := by
    unfold spliceCount
    split
    · exact Nat.le_refl _
    · exact clamped_le _ _
  omega

/-- The array that a method leaves or, if it is to leave its array alone, gives. -/
def grown (method : Method) (h : Heap) (r : ArrayRef) (args : List Value) : Array Value :=
  let items := h.array r
  match method with
  | .push => items ++ args
  | .unshift => args.toArray ++ items
  | .splice =>
    items.extract 0 (spliceStart h r args) ++ args.drop 2 ++
      items.extract (spliceStart h r args + spliceCount h r args) items.size
  | .concat => (args.map (elementsIn h)).foldl (fun all part => all ++ part) items
  | _ => items

/-- How many elements a method takes out. -/
def takenOut (method : Method) (h : Heap) (r : ArrayRef) (args : List Value) : Nat :=
  match method with
  | .splice => spliceCount h r args
  | _ => 0

/-- How many elements a method puts in. -/
def putIn (method : Method) (h : Heap) (args : List Value) : Nat :=
  match method with
  | .push | .unshift => args.length
  | .splice => args.length - 2
  | .concat => (args.map (elementsIn h)).foldl (fun n part => n + part.size) 0
  | _ => 0

/-- What is there after a method, with what it took out, is what was there before it, with what it
    put in. -/
theorem size_grown (method : Method) (h : Heap) (r : ArrayRef) (args : List Value) :
    (grown method h r args).size + takenOut method h r args =
      (h.array r).size + putIn method h args := by
  cases method with
  | push => exact size_appendList _ _
  | unshift =>
    have hsize : (args.toArray ++ h.array r).size = args.toArray.size + (h.array r).size :=
      Array.size_append
    rw [List.size_toArray, Nat.add_comm] at hsize
    exact hsize
  | splice =>
    have hle := splice_le h r args
    simp only [grown, takenOut, putIn]
    rw [Array.size_append, size_appendList, Array.size_extract, Array.size_extract,
      List.length_drop]
    omega
  | concat => exact size_foldl_append _ _ _
  | _ => rfl

/-! ### The check -/

/-- Where the array is that a method has grown: a new one, if it gives one for that. -/
def grownAt (method : Method) (r : ArrayRef) (given : Value) : ArrayRef :=
  match method, given with
  | .concat, .array made => made
  | _, _ => r

variable {r : ArrayRef} {args : List Value} {method : Method}

/-- What is put in and then taken as an array of its own leaves the grown array as it is. -/
theorem array_newArray_changeArray (hr : r.index < m.heap.arrays.size) (items made : Array Value) :
    ((m.heap.changeArray r fun _ => items).newArray made).2.array r = items := by
  have hsize := m.heap.size_changeArray r fun _ => items
  rw [Heap.array, Heap.newArray, Array.getElem?_push_lt (hsize ▸ hr), ← Array.getElem?_eq_getElem]
  exact m.heap.array_changeArray_of_lt hr fun _ => items

theorem countUpTo_spliceCount : countUpTo ((m.heap.array r).size - spliceStart m.heap r args)
    args[1]? m = .ok (spliceCount m.heap r args) m := by
  unfold spliceCount
  cases args[1]? <;> rfl

/-- What a splice does once it has passed the check. -/
theorem spliced_eq : spliced limits r args m =
    if limits.maxArrayLength < (m.heap.array r).size + (args.length - 2) then
      throwMistake .arrayLength m
    else
      newArray ((m.heap.array r).extract (spliceStart m.heap r args)
          (spliceStart m.heap r args + spliceCount m.heap r args))
        { m with heap := m.heap.changeArray r fun _ => grown .splice m.heap r args } := by
  have hle := splice_le m.heap r args
  have hstart : spliceStart m.heap r args ≤ (m.heap.array r).size := by omega
  have hrest : need (without? (m.heap.array r).size (spliceStart m.heap r args)) m =
      .ok ((m.heap.array r).size - spliceStart m.heap r args) m := by
    rw [without?_of_le hstart]
    rfl
  have htaken : need (itemsBetween? (spliceStart m.heap r args)
      (spliceStart m.heap r args + spliceCount m.heap r args) (m.heap.array r)) m =
      .ok ((m.heap.array r).extract (spliceStart m.heap r args)
        (spliceStart m.heap r args + spliceCount m.heap r args)) m := by
    rw [itemsBetween?_of_le (Nat.le_add_right _ _) hle]
    rfl
  refine (checkGrowth_bind r limits.maxArrayLength _ _ m).trans ?_
  split
  · rfl
  · exact (bind_of_ok rfl).trans <| (bind_of_ok rfl).trans <| (bind_of_ok hrest).trans <|
      (bind_of_ok countUpTo_spliceCount).trans <| (bind_of_ok htaken).trans <| bind_of_ok rfl

theorem concatenated_eq : concatenated limits r args m =
    if limits.maxArrayLength < (m.heap.array r).size + putIn .concat m.heap args then
      throwMistake .arrayLength m
    else newArray (grown .concat m.heap r args) m := by
  rw [concatenated, bind_of_ok (mapM_joinedElements args m)]
  exact checkGrowth_bind r limits.maxArrayLength _ _ m

/-- A method that adds elements looks at the limit first, and otherwise does what it is to do. -/
theorem arrayResult_growing (limits : Limits) (call : Value → List Value → Act σ Value)
    (args : List Value) (hmethod : addsElements method = true)
    (hr : r.index < m.heap.arrays.size) :
    ∃ v m', m'.heap.array (grownAt method r v) = grown method m.heap r args ∧
      arrayResult limits call method r args m =
        if limits.maxArrayLength < (m.heap.array r).size + putIn method m.heap args then
          throwMistake .arrayLength m
        else .ok v m' := by
  cases method with
  | push =>
    exact ⟨_, _, m.heap.array_changeArray_of_lt hr fun items => items ++ args,
      checkGrowth_bind r limits.maxArrayLength args.length _ m⟩
  | unshift =>
    exact ⟨_, _, m.heap.array_changeArray_of_lt hr fun items => args.toArray ++ items,
      checkGrowth_bind r limits.maxArrayLength args.length _ m⟩
  | splice => exact ⟨_, _, array_newArray_changeArray hr _ _, spliced_eq⟩
  | concat => exact ⟨_, _, m.heap.array_newArray (grown .concat m.heap r args), concatenated_eq⟩
  | _ => cases hmethod

/-- **A method that adds elements refuses exactly if the array that it would leave or give is too
    long together with what it takes out.**  Only a splice takes anything out, so the others refuse
    exactly if that array is too long.  Nothing else goes wrong, a refusal leaves every array as it
    was, and otherwise the array is the one that was to be. -/
theorem growth_refused_iff (limits : Limits) (run : Runner σ) (args : List Value)
    (hmethod : addsElements method = true) (hr : r.index < m.heap.arrays.size) :
    (callMethod limits run method (.array r) args m = throwMistake .arrayLength m ↔
      limits.maxArrayLength <
        (grown method m.heap r args).size + takenOut method m.heap r args) ∧
    (∀ fault m', callMethod limits run method (.array r) args m = .error fault m' →
      callMethod limits run method (.array r) args m = throwMistake .arrayLength m ∧
        m'.heap.arrays = m.heap.arrays) ∧
    (∀ v m', callMethod limits run method (.array r) args m = .ok v m' →
      m'.heap.array (grownAt method r v) = grown method m.heap r args) := by
  have hcall : callMethod limits run method (.array r) args m =
      arrayResult limits run.callback method r args m := by
    cases method with
    | push | unshift | splice | concat => rfl
    | _ => cases hmethod
  obtain ⟨v, m', hgrown, heq⟩ :=
    arrayResult_growing limits run.callback args hmethod hr
  rw [hcall, heq, size_grown]
  by_cases hlong : limits.maxArrayLength < (m.heap.array r).size + putIn method m.heap args
  · rw [if_pos hlong]
    refine ⟨iff_of_true rfl hlong, ?_, ?_⟩
    · rintro fault m'' ⟨⟩
      exact ⟨rfl, rfl⟩
    · rintro v' m'' ⟨⟩
  · rw [if_neg hlong]
    refine ⟨iff_of_false nofun hlong, ?_, ?_⟩
    · rintro fault m'' ⟨⟩
    · rintro v' m'' ⟨⟩
      exact hgrown

/-- Three numbers in an array. -/
def threeNumbers : Machine Tree :=
  { Machine.start Tree.root with heap := { Heap.empty with
    arrays := #[#[.number 1, .number 2, .number 3]] } }

/-- A fourth number behind three is refused where three are the limit. -/
theorem growth_refused_fourth :
    (addsElements .push = true ∧ (0 : Nat) < threeNumbers.heap.arrays.size) ∧
      callMethod { maxArrayLength := 3 } (runner { maxArrayLength := 3 }) .push (.array ⟨0⟩)
        [.number 4] threeNumbers = throwMistake .arrayLength threeNumbers := by
  have hmethod : addsElements .push = true := rfl
  have hr : (0 : Nat) < threeNumbers.heap.arrays.size := Nat.one_pos
  refine ⟨⟨hmethod, hr⟩, ?_⟩
  exact (growth_refused_iff _ _ [.number 4] hmethod hr).1.mpr (Nat.lt_succ_self 3)

/-- To take all of them out is refused where two are the limit, though it would leave an array without
    elements. -/
theorem splice_refused_emptying :
    (grown .splice threeNumbers.heap ⟨0⟩ []).size = 0 ∧
      callMethod { maxArrayLength := 2 } (runner { maxArrayLength := 2 }) .splice (.array ⟨0⟩) []
        threeNumbers = throwMistake .arrayLength threeNumbers :=
  ⟨by decide +kernel, rfl⟩

end MemoryShell.Script.Act
