/-
  MemoryShell/Proofs/Script/Properties.lean
  =========================================
  **What it comes to to read a property, and to write one.**

  Both are told apart by many cases: what kind of value it is, whether the key is an index, how long
  the array is.  But all of these are decided by the heap, and what is done in the end is one of a
  few simple acts: to read gives a value, makes a method or is refused; to write changes one array
  or one object, passes over what cannot be written, or fails.
-/
import MemoryShell.Script.Property

namespace MemoryShell.Script.Act

variable {σ α β : Type} {limits : Limits}

/-! ### Acts that are decided by the heap -/

/-- On every heap the act is one of some acts. -/
def Among (P : Act σ α → Prop) (act : Act σ α) : Prop :=
  ∀ h, ∃ chosen, P chosen ∧ ∀ m : Machine σ, m.heap = h → act m = chosen m

namespace Among

variable {P : Act σ α → Prop} {act : Act σ α}

theorem of (h : P act) : Among P act := fun _ => ⟨act, h, fun _ _ => rfl⟩

theorem lookHeap {f : Heap → β} {next : β → Act σ α} (h : ∀ b, Among P (next b)) :
    Among P (lookHeap f >>= next) := by
  intro heap
  obtain ⟨chosen, hchosen, hnext⟩ := h (f heap) heap
  refine ⟨chosen, hchosen, fun m hm => ?_⟩
  rw [← hnext m hm, ← hm]
  rfl

/-- To look at the heap is to give what is there. -/
theorem lookHeap_of_pure {f : Heap → α} (h : ∀ a, P (pure a)) : Among P (Act.lookHeap f) :=
  fun heap => ⟨pure (f heap), h _, fun m hm => by rw [← hm]; rfl⟩

/-- Which act it is on a machine. -/
theorem on (h : Among P act) (m : Machine σ) : ∃ chosen, P chosen ∧ act m = chosen m := by
  obtain ⟨chosen, hchosen, hact⟩ := h m.heap
  exact ⟨chosen, hchosen, hact m rfl⟩

end Among

/-! ### Reading -/

/-- What to read a property of a value can come to.  Only missing values refuse it. -/
inductive Read : Value → Act σ Value → Prop where
  | give (object v : Value) : Read object (pure v)
  | newMethod (object : Value) (method : Method) : Read object (newMethod method object)
  | refuse {object : Value} (h : object.isNullish = true) (e : Mistake) :
    Read object (throwMistake e)

theorem methodOrNothing_among (methods : List Method) (object : Value) (name : String) :
    Among (Read object) (methodOrNothing methods object name : Act σ Value) := by
  unfold methodOrNothing
  split
  · exact .of (.newMethod object _)
  · exact .of (.give object _)

theorem getProperty_among (object : Value) (key : String) :
    Among (Read object) (getProperty object key : Act σ Value) := by
  cases object with
  | undefined | null => exact .lookHeap fun _ => .of (.refuse rfl _)
  | bool | number => exact methodOrNothing_among _ _ _
  | string s =>
    simp only [getProperty]
    split
    · exact .of (.give _ _)
    · split
      · exact .of (.give _ _)
      · exact methodOrNothing_among _ _ _
  | array r =>
    simp only [getProperty]
    split
    · exact .lookHeap_of_pure (.give _)
    · split
      · exact .lookHeap_of_pure (.give _)
      · exact methodOrNothing_among _ _ _
  | object r =>
    refine .lookHeap fun o => ?_
    split
    · exact .of (.give _ _)
    · split
      · exact .lookHeap fun _ => .of (.give _ _)
      · exact methodOrNothing_among _ _ _
  | closure | native | method => exact .of (.give _ _)

/-! ### Writing -/

/-- What to write a property of a value can come to. -/
inductive Write : Value → Act σ Unit → Prop where
  | skip (object : Value) : Write object (pure ())
  | changeArray (r : ArrayRef) (f : Array Value → Array Value) :
    Write (.array r) (changeHeap fun h => h.changeArray r f)
  | setMember (r : ObjectRef) (name : String) (v : Value) :
    Write (.object r) (changeHeap fun h => h.setMember r name v)
  | refuse (object : Value) (e : Mistake) : Write object (throwMistake e)
  | block (object : Value) : Write object (do note .blocked; fail .busyArray)

/-- A length that no array may have is refused, and with any other it goes on. -/
theorem checkLength_among {object : Value} {n : Nat} {next : Nat → Act σ Unit}
    (h : Among (Write object) (next n)) :
    Among (Write object) (checkLength limits n >>= next) := by
  unfold checkLength
  split
  · exact h
  · exact .of (.refuse object _)

theorem setElement_among (r : ArrayRef) (i : Nat) (v : Value) :
    Among (Write (.array r)) (setElement limits r i v : Act σ Unit) := by
  refine .lookHeap fun size => ?_
  split
  · exact .of (.changeArray r _)
  · refine checkLength_among ?_
    -- An array that has grown up to the index has it.
    rw [if_pos (Nat.lt_succ_self i)]
    exact .of (.changeArray r _)

theorem setLength_among (r : ArrayRef) (v : Value) :
    Among (Write (.array r)) (setLength limits r v : Act σ Unit) := by
  refine .lookHeap fun isBusy => ?_
  split
  · exact .of (.block _)
  · refine .lookHeap fun x => ?_
    unfold lengthOf
    split
    · exact checkLength_among (.of (.changeArray r _))
    · exact .of (.refuse _ _)

/-- To write a property changes the value that it is written to or nothing; it may be refused. -/
theorem setProperty_among (object : Value) (key : String) (v : Value) :
    Among (Write object) (setProperty limits object key v : Act σ Unit) := by
  unfold setProperty
  split
  · exact .lookHeap fun _ => .of (.refuse _ _)
  · exact .lookHeap fun _ => .of (.refuse _ _)
  · exact .of (.setMember _ _ _)
  · split
    · exact setElement_among _ _ _
    · split
      · exact setLength_among _ _
      · exact .of (.skip _)
  · exact .of (.skip _)

end MemoryShell.Script.Act
