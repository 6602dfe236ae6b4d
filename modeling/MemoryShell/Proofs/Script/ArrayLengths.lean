/-
  MemoryShell/Proofs/Script/ArrayLengths.lean
  ===========================================
  **Where the length of an array is checked.**

  An array may grow where its elements or its length are written, and by the methods that add
  elements.  All of these look at the limit before they change anything, and refuse.  The other
  methods leave an array shorter than one that was there, or as long.
-/
import MemoryShell.Proofs.Script.ArraysKept
import MemoryShell.Proofs.Script.Comparisons
import MemoryShell.Proofs.Script.Methods
import MemoryShell.Proofs.Script.TextLengths

namespace MemoryShell.Script

variable {σ α β : Type} {limits : Limits} {m m' : Machine σ}

/-! ### Arrays that fit -/

/-- No array on a heap is longer than the limit. -/
def Heap.Fits (h : Heap) (limits : Limits) : Prop :=
  ∀ items ∈ h.arrays, items.size ≤ limits.maxArrayLength

instance (h : Heap) (limits : Limits) : Decidable (h.Fits limits) :=
  inferInstanceAs (Decidable (∀ items ∈ h.arrays, items.size ≤ limits.maxArrayLength))

/-- The limits with another one on the length of arrays. -/
def Limits.withArrays (limits : Limits) (n : Nat) : Limits := { limits with maxArrayLength := n }

namespace Heap

variable {h : Heap}

theorem fits_congr {h' : Heap} (heq : h'.arrays = h.arrays) : h'.Fits limits ↔ h.Fits limits := by
  unfold Fits
  rw [heq]

theorem fits_iff : h.Fits limits ↔ ∀ r, (h.array r).size ≤ limits.maxArrayLength := by
  constructor
  · intro hfits r
    unfold array
    cases hitems : h.arrays[r.index]? with
    | none => exact Nat.zero_le _
    | some items => exact hfits items (Array.mem_of_getElem? hitems)
  · intro hsizes items hitems
    obtain ⟨i, hi⟩ := Array.mem_iff_getElem?.mp hitems
    have hsize := hsizes ⟨i⟩
    rwa [array, hi] at hsize

theorem fits_newArray (limits : Limits) (h : Heap) (items : Array Value) :
    (h.newArray items).2.Fits limits ↔
      h.Fits limits ∧ items.size ≤ limits.maxArrayLength := by
  unfold Fits newArray
  simp only [Array.mem_push]
  constructor
  · intro hfits
    exact ⟨fun old hold => hfits old (.inl hold), hfits items (.inr rfl)⟩
  · rintro ⟨hfits, hsize⟩ new (hold | rfl)
    · exact hfits new hold
    · exact hsize

/-- A changed array is the changed one or, if there is none, still empty. -/
theorem array_changeArray (r : ArrayRef) (f : Array Value → Array Value) :
    (h.changeArray r f).array r = f (h.array r) ∨ (h.changeArray r f).array r = #[] := by
  rw [array, changeArray, Array.getElem?_modify, if_pos rfl, array]
  cases h.arrays[r.index]? with
  | none => exact .inr rfl
  | some items => exact .inl rfl

theorem Fits.changeArray (hfits : h.Fits limits) {r : ArrayRef} {f : Array Value → Array Value}
    (hsize : (f (h.array r)).size ≤ limits.maxArrayLength) : (h.changeArray r f).Fits limits := by
  intro items hitems
  obtain ⟨i, hi⟩ := Array.mem_iff_getElem?.mp hitems
  rw [Heap.changeArray, Array.getElem?_modify] at hi
  split at hi
  · rename_i heq
    obtain ⟨old, hold, rfl⟩ := Option.map_eq_some_iff.mp hi
    rwa [array, heq, hold] at hsize
  · exact hfits items (Array.mem_of_getElem? hi)

end Heap

theorem size_resized (n : Nat) (items : Array Value) : (Act.resized n items).size = n := by
  unfold Act.resized
  split
  · rw [Array.take_eq_extract, Array.size_extract]
    omega
  · rw [Array.size_append, Array.size_replicate]
    omega

theorem Act.KeepsArrays.fits {act : Act σ α} (h : act.KeepsArrays) (hm : m.heap.Fits limits) :
    (Result.machine (act m)).heap.Fits limits := (Heap.fits_congr (h m)).mpr hm

/-! ### Refusing -/

/-- An act leaves no array that is longer than the limit.  Where it would leave one under another
    limit, it refuses instead, before anything has changed. -/
structure ChecksLengths (limits : Limits) (act : Limits → Act σ α) : Prop where
  keeps : ∀ m, m.heap.Fits limits → (Result.machine (act limits m)).heap.Fits limits
  refuses : ∀ n m a m', m.heap.Fits limits → act (limits.withArrays n) m = .ok a m' →
    ¬ m'.heap.Fits limits → act limits m = Act.throwMistake .arrayLength m

namespace ChecksLengths

variable {act : Limits → Act σ α}

/-- An act that looks at the length that it needs before it does anything. -/
theorem of_checked {size : Machine σ → Nat} {rest : Act σ α}
    (hact : ∀ n m, act (limits.withArrays n) m =
      if n < size m then Act.throwMistake .arrayLength m else rest m)
    (hrest : ∀ m, m.heap.Fits limits → size m ≤ limits.maxArrayLength →
      (Result.machine (rest m)).heap.Fits limits) : ChecksLengths limits act := by
  have hlimits : ∀ m, act limits m =
      if limits.maxArrayLength < size m then Act.throwMistake .arrayLength m else rest m :=
    hact limits.maxArrayLength
  constructor
  · intro m hm
    rw [hlimits]
    split
    · exact hm
    · exact hrest m hm (Nat.le_of_not_lt ‹_›)
  · intro n m a m' hm hother hlong
    rw [hlimits]
    rw [hact] at hother
    split at hother
    · cases hother
    · by_cases hsize : limits.maxArrayLength < size m
      · rw [if_pos hsize]
      · have hfits := hrest m hm (Nat.le_of_not_lt hsize)
        rw [hother] at hfits
        exact absurd hfits hlong

/-- An act that makes no array longer. -/
theorem of_keeps {rest : Act σ α} (hact : ∀ n, act (limits.withArrays n) = rest)
    (hrest : ∀ m, m.heap.Fits limits → (Result.machine (rest m)).heap.Fits limits) :
    ChecksLengths limits act :=
  of_checked (fun n m => (congrFun (hact n) m).trans (if_neg (Nat.not_lt_zero n)).symm)
    fun m hm _ => hrest m hm

theorem kept (hact : ∀ n, act (limits.withArrays n) = act limits) (h : (act limits).KeepsArrays) :
    ChecksLengths limits act := .of_keeps hact fun _ hm => h.fits hm

end ChecksLengths

/-! ### Writing elements and lengths -/

namespace Act

variable (r : ArrayRef)

/-- How long an array has to be to have an element at an index. -/
def lengthFor (i : Nat) (m : Machine σ) : Nat := if i < (m.heap.array r).size then 0 else i + 1

/-- Write an element where the array may be as long as that takes. -/
def writeElement (i : Nat) (v : Value) : Act σ Unit := fun m =>
  if i < (m.heap.array r).size then
    changeHeap (fun h => h.changeArray r fun items => items.setIfInBounds i v) m
  else if i + 1 ≤ maxArrayIndex then
    changeHeap (fun h => h.changeArray r fun items => (resized (i + 1) items).setIfInBounds i v) m
  else throwMistake .arrayLength m

theorem setElement_eq (n i : Nat) (v : Value) (m : Machine σ) :
    setElement (limits.withArrays n) r i v m =
      if n < lengthFor r i m then throwMistake .arrayLength m else writeElement r i v m := by
  have hset : setElement (limits.withArrays n) r i v m =
      (if i < (m.heap.array r).size then
        changeHeap fun h => h.changeArray r fun items => items.setIfInBounds i v
      else checkLength (limits.withArrays n) (i + 1) >>= fun n =>
        if i < n then
          changeHeap fun h => h.changeArray r fun items => (resized n items).setIfInBounds i v
        else fail .outOfRange : Act σ Unit) m := rfl
  rw [hset, lengthFor, writeElement]
  by_cases hi : i < (m.heap.array r).size
  · rw [if_pos hi, if_pos hi, if_neg (Nat.not_lt_zero n), if_pos hi]
  · rw [if_neg hi, if_neg hi, if_neg hi, checkLength]
    by_cases hn : n < i + 1
    · rw [if_pos hn, if_neg fun hboth => Nat.not_le.mpr hn hboth.2]
      rfl
    · rw [if_neg hn]
      by_cases hindex : i + 1 ≤ maxArrayIndex
      · rw [if_pos ⟨hindex, Nat.le_of_not_lt hn⟩, if_pos hindex, pure_bind,
          if_pos (Nat.lt_succ_self i)]
      · rw [if_neg fun hboth => hindex hboth.1, if_neg hindex]
        rfl

theorem checksLengths_setElement (i : Nat) (v : Value) :
    ChecksLengths limits fun l => (setElement l r i v : Act σ Unit) := by
  refine .of_checked (fun n m => setElement_eq r n i v m) fun m hm hsize => ?_
  unfold writeElement
  split
  · refine hm.changeArray ?_
    rw [Array.size_setIfInBounds]
    exact Heap.fits_iff.mp hm r
  · rename_i hi
    rw [lengthFor, if_neg hi] at hsize
    split
    · refine hm.changeArray ?_
      rw [Array.size_setIfInBounds, size_resized]
      exact hsize
    · exact KeepsArrays.fits (.throwMistake _) hm

/-- Whether a value is read through an array, so that its length cannot be written. -/
def isBusy (v : Value) (h : Heap) : Bool :=
  match v with
  | .array _ => h.readsArray r h.displayFuel [] v
  | _ => false

/-- How long an array is to be by a value for its length. -/
def lengthWanted (v : Value) (m : Machine σ) : Nat :=
  let x := m.heap.toNumber v
  if isBusy r v m.heap then 0
  else if x ≥ 0 && Decimal.isInteger x then x.toUInt64.toNat
  else 0

/-- Write a length where the array may be that long. -/
def writeLength (v : Value) : Act σ Unit := fun m =>
  let x := m.heap.toNumber v
  let n := x.toUInt64.toNat
  if isBusy r v m.heap then (do note .blocked; fail .busyArray : Act σ Unit) m
  else if x ≥ 0 && Decimal.isInteger x then
    if n ≤ maxArrayIndex then changeHeap (fun h => h.changeArray r (resized n)) m
    else throwMistake .arrayLength m
  else throwMistake .arrayLength m

theorem setLength_busy (l : Limits) (v : Value) (m : Machine σ) :
    setLength l r v m =
      (if isBusy r v m.heap then do
        note .blocked
        fail .busyArray
      else do
        let n ← lengthOf l (← number v)
        changeHeap fun h => h.changeArray r (resized n) : Act σ Unit) m := by
  cases v <;> rfl

theorem setLength_eq (n : Nat) (v : Value) (m : Machine σ) :
    setLength (limits.withArrays n) r v m =
      if n < lengthWanted r v m then throwMistake .arrayLength m else writeLength r v m := by
  have hnumber (next : Float → Act σ Unit) :
      (number v >>= next) m = next (m.heap.toNumber v) m := rfl
  rw [setLength_busy, lengthWanted, writeLength]
  by_cases hbusy : isBusy r v m.heap
  · rw [if_pos hbusy, if_pos hbusy, if_pos hbusy, if_neg (Nat.not_lt_zero n)]
  rw [if_neg hbusy, if_neg hbusy, if_neg hbusy, hnumber, lengthOf]
  by_cases hwhole : m.heap.toNumber v ≥ 0 && Decimal.isInteger (m.heap.toNumber v)
  · rw [if_pos hwhole, if_pos hwhole, if_pos hwhole, checkLength]
    by_cases hn : n < (m.heap.toNumber v).toUInt64.toNat
    · rw [if_pos hn, if_neg fun hboth => Nat.not_le.mpr hn hboth.2]
      rfl
    · rw [if_neg hn]
      by_cases hindex : (m.heap.toNumber v).toUInt64.toNat ≤ maxArrayIndex
      · rw [if_pos ⟨hindex, Nat.le_of_not_lt hn⟩, if_pos hindex, pure_bind]
      · rw [if_neg fun hboth => hindex hboth.1, if_neg hindex]
        rfl
  · rw [if_neg hwhole, if_neg hwhole, if_neg hwhole, if_neg (Nat.not_lt_zero n)]
    rfl

theorem checksLengths_setLength (v : Value) :
    ChecksLengths limits fun l => (setLength l r v : Act σ Unit) := by
  refine .of_checked (fun n m => setLength_eq r n v m) fun m hm hsize => ?_
  unfold lengthWanted at hsize
  unfold writeLength
  dsimp only at hsize ⊢
  split
  · exact hm
  · rename_i hbusy
    rw [if_neg hbusy] at hsize
    split
    · rename_i hwhole
      rw [if_pos hwhole] at hsize
      split
      · refine hm.changeArray ?_
        rw [size_resized]
        exact hsize
      · exact KeepsArrays.fits (.throwMistake _) hm
    · exact KeepsArrays.fits (.throwMistake _) hm

end Act

/-- Whatever is written to, and whatever the key is, no array grows past the limit. -/
theorem checksLengths_setProperty (object : Value) (key : String) (v : Value) :
    ChecksLengths limits fun l => (Act.setProperty l object key v : Act σ Unit) := by
  cases object with
  | undefined | null =>
    exact .kept (fun _ => rfl) ((Act.KeepsArrays.display _).bind fun _ => .throwMistake _)
  | object r => exact .kept (fun _ => rfl) (.changeHeap fun _ => rfl)
  | array r =>
    simp only [Act.setProperty]
    split
    · exact Act.checksLengths_setElement r _ v
    · split
      · exact Act.checksLengths_setLength r v
      · exact .kept (fun _ => rfl) (.pure ())
  | bool | number | string | closure | native | method => exact .kept (fun _ => rfl) (.pure ())

/-! ### Methods that do not call back -/

/-- What follows an act may count on how that act ended. -/
theorem fits_bind {act : Act σ α} {next : α → Act σ β}
    (h : (Result.machine (act m)).heap.Fits limits)
    (hnext : ∀ a m', act m = .ok a m' → (Result.machine (next a m')).heap.Fits limits) :
    (Result.machine ((act >>= next) m)).heap.Fits limits := by
  cases heq : act m with
  | ok a m' =>
    rw [Act.bind_of_ok heq]
    exact hnext a m' heq
  | error fault m' =>
    rw [heq] at h
    rw [Act.bind_of_error heq]
    exact h

theorem size_appendList (items : Array Value) (values : List Value) :
    (items ++ values).size = items.size + values.length := by
  rw [← Array.length_toList, Array.toList_appendList, List.length_append, Array.length_toList]

theorem size_itemsBetween? {start stop : Nat} {items part : Array Value}
    (h : itemsBetween? start stop items = some part) : part.size ≤ items.size := by
  unfold itemsBetween? at h
  split at h
  · obtain rfl := Option.some.inj h
    rw [Array.size_extract]
    omega
  · cases h

namespace Act

variable (r : ArrayRef)

/-- After looking the machine is the same. -/
theorem fits_look {f : Machine σ → α} {next : α → Act σ β}
    (h : (Result.machine (next (f m) m)).heap.Fits limits) :
    (Result.machine ((look f >>= next) m)).heap.Fits limits := h

theorem fits_need {a? : Option α} {next : α → Act σ β} (hm : m.heap.Fits limits)
    (hnext : ∀ a, a? = some a → (Result.machine (next a m)).heap.Fits limits) :
    (Result.machine ((need a? >>= next) m)).heap.Fits limits := by
  cases a? with
  | none => exact hm
  | some a => exact hnext a rfl

theorem fits_newArray {items : Array Value} (hm : m.heap.Fits limits)
    (hsize : items.size ≤ limits.maxArrayLength) :
    (Result.machine (newArray items m)).heap.Fits limits :=
  (Heap.fits_newArray limits m.heap items).mpr ⟨hm, hsize⟩

theorem fits_setElements {items : Array Value} {next : Act σ α} (hm : m.heap.Fits limits)
    (hsize : items.size ≤ limits.maxArrayLength)
    (hnext : ∀ m, m.heap.Fits limits → (Result.machine (next m)).heap.Fits limits) :
    (Result.machine ((setElements r items >>= fun _ => next) m)).heap.Fits limits :=
  hnext _ (hm.changeArray hsize)

theorem fits_popped (hm : m.heap.Fits limits) :
    (Result.machine (popped r m)).heap.Fits limits := by
  refine hm.changeArray ?_
  rw [Array.size_pop]
  exact Nat.le_trans (Nat.sub_le _ _) (Heap.fits_iff.mp hm r)

theorem fits_shifted (hm : m.heap.Fits limits) :
    (Result.machine (shifted r m)).heap.Fits limits := by
  refine fits_look ?_
  split
  · exact hm
  · refine fits_need hm fun first _ => hm.changeArray ?_
    rw [Array.size_extract]
    have hr := Heap.fits_iff.mp hm r
    exact (Nat.sub_le _ _).trans ((Nat.min_le_right _ _).trans hr)

theorem fits_reversed (hm : m.heap.Fits limits) :
    (Result.machine ((changeHeap fun h => h.changeArray r Array.reverse : Act σ Unit) m)).heap.Fits
      limits := by
  refine hm.changeArray ?_
  rw [Array.size_reverse]
  exact Heap.fits_iff.mp hm r

theorem fits_sliced (first second : Value) (hm : m.heap.Fits limits) :
    (Result.machine ((do
      let items ← elements r
      let (start, stop) ← lookHeap fun h => h.part first second items.size
      newArray (← need (itemsBetween? start (max start stop) items)) : Act σ Value) m)).heap.Fits
      limits :=
  fits_look (fits_look (fits_need hm fun _ hpart =>
    fits_newArray hm (Nat.le_trans (size_itemsBetween? hpart) (Heap.fits_iff.mp hm r))))

/-! ### Methods that make an array longer -/

theorem checkGrowth_bind (n extra : Nat) (next : Act σ α) (m : Machine σ) :
    (checkGrowth (limits.withArrays n) r extra >>= fun _ => next) m =
      if n < (m.heap.array r).size + extra then throwMistake .arrayLength m else next m := by
  have hcheck : checkGrowth (limits.withArrays n) r extra m =
      (if n < (m.heap.array r).size + extra then throwMistake .arrayLength else pure () :
        Act σ Unit) m := rfl
  split
  · rename_i hlong
    rw [if_pos hlong] at hcheck
    exact bind_of_error hcheck
  · rename_i hshort
    rw [if_neg hshort] at hcheck
    exact bind_of_ok hcheck

/-- A method that looks at the length that its array will have before it does anything. -/
theorem checksLengths_growth {extra : Nat} {next : Act σ α}
    (hnext : ∀ m, m.heap.Fits limits → (m.heap.array r).size + extra ≤ limits.maxArrayLength →
      (Result.machine (next m)).heap.Fits limits) :
    ChecksLengths limits fun l => checkGrowth l r extra >>= fun _ => next :=
  .of_checked (fun n m => checkGrowth_bind r n extra next m) hnext

theorem checksLengths_pushed (values : List Value) :
    ChecksLengths limits fun l => (pushed l r values : Act σ Value) := by
  refine checksLengths_growth r fun m hm hsize => hm.changeArray ?_
  rw [size_appendList]
  exact hsize

theorem checksLengths_unshifted (values : List Value) :
    ChecksLengths limits fun l => (unshifted l r values : Act σ Value) := by
  refine checksLengths_growth r fun m hm hsize => hm.changeArray ?_
  rw [Array.size_append, List.size_toArray, Nat.add_comm]
  exact hsize

theorem countUpTo_eq_ok {most n : Nat} {count : Option Value}
    (h : countUpTo most count m = .ok n m') : m' = m := by
  cases count <;> cases h <;> rfl

/-- What is taken out and put in, together with what stays, is no longer than the old elements and
    the new ones. -/
theorem checksLengths_spliced (args : List Value) :
    ChecksLengths limits fun l => (spliced l r args : Act σ Value) := by
  refine checksLengths_growth r fun m hm hsize => ?_
  refine fits_look (fits_look (fits_need hm fun most _ => ?_))
  refine fits_bind (KeepsArrays.fits (.countUpTo _ _) hm) fun count m₁ hcount => ?_
  obtain rfl := countUpTo_eq_ok hcount
  refine fits_need hm fun taken htaken => ?_
  have hold := Heap.fits_iff.mp hm r
  have hstart := clampedFromEnd_le (m₁.heap.toNumber (argument args 0)) (m₁.heap.array r).size
  refine fits_setElements r hm ?_ fun m₂ hm₂ =>
    fits_newArray hm₂ (Nat.le_trans (size_itemsBetween? htaken) hold)
  rw [Array.size_append, size_appendList, Array.size_extract, Array.size_extract, List.length_drop]
  dsimp only
  omega

/-- The elements that a value adds, on a heap. -/
def elementsIn (h : Heap) : Value → Array Value
  | .array r => h.array r
  | v => #[v]

theorem mapM_joinedElements (values : List Value) (m : Machine σ) :
    values.mapM joinedElements m = .ok (values.map (elementsIn m.heap)) m := by
  induction values with
  | nil => rfl
  | cons v values ih =>
    have hv : joinedElements v m = .ok (elementsIn m.heap v) m := by cases v <;> rfl
    rw [List.mapM_cons, bind_of_ok hv, bind_of_ok ih]
    rfl

theorem size_foldl_append (parts : List (Array Value)) (all : Array Value) (n : Nat) :
    (parts.foldl (fun all part => all ++ part) all).size + n =
      all.size + parts.foldl (fun n part => n + part.size) n := by
  induction parts generalizing all n with
  | nil => rfl
  | cons part parts ih =>
    have hrest := ih (all ++ part) (n + part.size)
    rw [Array.size_append] at hrest
    rw [List.foldl_cons, List.foldl_cons]
    omega

theorem checksLengths_concatenated (values : List Value) :
    ChecksLengths limits fun l => (concatenated l r values : Act σ Value) := by
  have hact (n : Nat) (m : Machine σ) : concatenated (limits.withArrays n) r values m =
      if n < (m.heap.array r).size +
          (values.map (elementsIn m.heap)).foldl (fun n part => n + part.size) 0 then
        throwMistake .arrayLength m
      else
        newArray ((values.map (elementsIn m.heap)).foldl (fun all part => all ++ part)
          (m.heap.array r)) m := by
    rw [concatenated, bind_of_ok (mapM_joinedElements values m)]
    exact checkGrowth_bind r n _ _ m
  refine .of_checked hact fun m hm hsize => fits_newArray hm ?_
  rw [← size_foldl_append] at hsize
  exact hsize

/-- Whatever a method does that does not call back, no array grows past the limit. -/
theorem checksLengths_arrayResult {call : Value → List Value → Act σ Value} {method : Method}
    (hmethod : takesFunction method = false) (hsort : method ≠ .sort) (args : List Value) :
    ChecksLengths limits fun l => arrayResult l call method r args := by
  cases method with
  | map | filter | forEach | find | findIndex | some | every | reduce => cases hmethod
  | sort => exact absurd rfl hsort
  | push => exact checksLengths_pushed r args
  | unshift => exact checksLengths_unshifted r args
  | splice => exact checksLengths_spliced r args
  | concat => exact checksLengths_concatenated r args
  | pop => exact .of_keeps (fun _ => rfl) fun m hm => fits_popped r hm
  | shift => exact .of_keeps (fun _ => rfl) fun m hm => fits_shifted r hm
  | reverse => exact .of_keeps (fun _ => rfl) fun m hm => fits_reversed r hm
  | slice => exact .of_keeps (fun _ => rfl) fun m hm => fits_sliced r _ _ hm
  | join => exact .kept (fun _ => rfl) (.joined r _)
  | toText =>
    refine .kept (fun _ => rfl) ?_
    simp only [arrayResult]
    exact .lookHeap _
  | at_ => exact .kept (fun _ => rfl) ((KeepsArrays.number _).bind fun _ => .lookHeap _)
  | indexOf | lastIndexOf | includes => exact .kept (fun _ => rfl) ((KeepsArrays.lookHeap _).map _)
  | _ => exact .kept (fun _ => rfl) (.pure _)

theorem checksLengths_arrayMethod {call : Value → List Value → Act σ Value} {method : Method}
    (hmethod : takesFunction method = false) (hsort : method ≠ .sort) (args : List Value) :
    ChecksLengths limits fun l => arrayMethod l call method r args := by
  have hsame (l : Limits) :
      arrayMethod l call method r args = arrayResult l call method r args := by
    rw [arrayMethod, hmethod]
    rfl
  simp only [hsame]
  exact checksLengths_arrayResult r hmethod hsort args

/-! ### Methods that call back

Whatever the function does, and however often, what it gives are as many elements as there were when
the method was called, or fewer. -/

/-- What a fold gives, if every step leads from a value for which something is true of what is left
    to one for which it is true of what is left after it. -/
theorem gives_foldlM {f : β → α → Act σ β} {P : β → List α → Prop}
    (hstep : ∀ b a rest, P b (a :: rest) → Gives (f b a) fun b => P b rest) (as : List α) (b : β)
    (hstart : P b as) : Gives (as.foldlM f b) fun b => P b [] := by
  induction as generalizing b with
  | nil =>
    intro m b' m' heq
    cases heq
    exact hstart
  | cons a as ih =>
    intro m b' m' heq
    rw [List.foldlM_cons] at heq
    obtain ⟨b₁, m₁, hfirst, hrest⟩ := bind_eq_ok.mp heq
    exact ih b₁ (hstep b a as hstart m b₁ m₁ hfirst) m₁ b' m' hrest

variable {call : Value → List Value → Act σ Value}

theorem size_mapped {f : Value} {made : Array Value} (h : mapped limits call f r m = .ok made m') :
    made.size = (m.heap.array r).size := by
  have hgives := gives_foldlM (σ := σ)
    (P := fun made rest => made.size + rest.length = (m.heap.array r).size)
    (f := fun made item => do return made.push (← visit limits call f r item))
    (fun made item rest hsize => .map fun v => ?_) (m.heap.array r).toList.zipIdx #[] ?_
  · exact hgives m made m' h
  · rw [Array.size_push, ← hsize, List.length_cons]
    omega
  · rw [List.length_zipIdx, Array.length_toList]
    exact Nat.zero_add _

theorem size_filtered {f : Value} {kept : Array Value}
    (h : filtered limits call f r m = .ok kept m') : kept.size ≤ (m.heap.array r).size := by
  have hgives := gives_foldlM (σ := σ)
    (P := fun kept rest => kept.size + rest.length ≤ (m.heap.array r).size)
    (f := fun kept item => do
      return if (← visit limits call f r item).truthy then kept.push item.1 else kept)
    (fun kept item rest hsize => .map fun v => ?_) (m.heap.array r).toList.zipIdx #[] ?_
  · exact hgives m kept m' h
  · rw [List.length_cons] at hsize
    split
    · rw [Array.size_push]
      omega
    · omega
  · rw [List.length_zipIdx, Array.length_toList]
    exact Nat.le_of_eq (Nat.zero_add _)

variable {after : Value → Value → Act σ Bool}

/-- A sort gives the values in another order, whatever the comparisons say. -/
theorem length_sortBy (values : List Value) :
    Gives (sortBy after values) fun all => all.length = values.length := by
  intro m all m' heq
  obtain ⟨answers, hsorted⟩ := (sortBy_asks values).gives heq
  exact hsorted.perm.length_eq

/-- A method that wants a function does its work only if it is given one. -/
theorem arrayResult_of_ok {method : Method} {args : List Value} {v : Value}
    (h : arrayMethod limits call method r args m = .ok v m') :
    arrayResult limits call method r args m = .ok v m' := by
  unfold arrayMethod at h
  split at h
  · obtain ⟨text, m₁, -, hthrown⟩ := bind_eq_ok.mp h
    cases hthrown
  · exact h

theorem map_ok {args : List Value} {v : Value}
    (h : arrayMethod limits call .map r args m = .ok v m') :
    ∃ a, v = .array a ∧ (m'.heap.array a).size = (m.heap.array r).size := by
  obtain ⟨made, m₁, hmade, hnew⟩ := bind_eq_ok.mp (arrayResult_of_ok r h)
  obtain ⟨a, rfl, ha⟩ := newArray_eq_ok hnew
  exact ⟨a, rfl, ha ▸ size_mapped r hmade⟩

theorem filter_ok {args : List Value} {v : Value}
    (h : arrayMethod limits call .filter r args m = .ok v m') :
    ∃ a, v = .array a ∧ (m'.heap.array a).size ≤ (m.heap.array r).size := by
  obtain ⟨kept, m₁, hkept, hnew⟩ := bind_eq_ok.mp (arrayResult_of_ok r h)
  obtain ⟨a, rfl, ha⟩ := newArray_eq_ok hnew
  exact ⟨a, rfl, ha ▸ size_filtered r hkept⟩

theorem sort_ok {args : List Value} {v : Value}
    (h : arrayMethod limits call .sort r args m = .ok v m') :
    v = .array r ∧ (m'.heap.array r).size ≤ (m.heap.array r).size := by
  obtain ⟨items, m₁, hitems, hrest⟩ := bind_eq_ok.mp (arrayResult_of_ok r h)
  obtain ⟨sorted, m₂, hsorted, hset⟩ := bind_eq_ok.mp hrest
  cases hitems
  have hlength := length_sortBy _ _ sorted m₂ hsorted
  rw [Array.length_toList] at hlength
  cases hset
  refine ⟨rfl, ?_⟩
  rcases m₂.heap.array_changeArray r fun _ => sorted.toArray with hnew | hnone
  · exact Nat.le_of_eq ((congrArg Array.size hnew).trans hlength)
  · exact Nat.le_trans (Nat.le_of_eq (congrArg Array.size hnone)) (Nat.zero_le _)

end Act

end MemoryShell.Script
