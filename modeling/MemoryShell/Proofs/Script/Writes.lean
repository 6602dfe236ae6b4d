/-
  MemoryShell/Proofs/Script/Writes.lean
  =====================================
  **What it does to write a property, and what it leaves alone.**

  None of the acts that it can come to changes more than one array or one object: all other values,
  the variables and everything outside the heap stay.  None of them begins anything, or goes by what
  was noted before.
-/
import MemoryShell.Proofs.Script.Answers
import MemoryShell.Proofs.Script.Properties

namespace MemoryShell.Script

variable {σ α : Type}

/-! ### Trails -/

/-- The machine with another trail. -/
def Machine.trailed (m : Machine σ) (trail : List Event) : Machine σ := { m with trail }

/-- How many expressions, statements and calls have begun. -/
def Machine.timesBegun (m : Machine σ) : Nat := m.trail.count .begun

/-- A result with another trail. -/
def Result.trailed (trail : List Event) : Result σ α → Result σ α
  | .ok a m => .ok a (m.trailed trail)
  | .error fault m => .error fault (m.trailed trail)

/-- A result without what was noted. -/
def Result.bare (r : Result σ α) : Result σ α := r.trailed []

@[simp] theorem Result.bare_trailed (r : Result σ α) (trail : List Event) :
    Result.bare (Result.trailed trail r) = Result.bare r := by
  cases r <;> rfl

theorem Result.heap_bare (r : Result σ α) :
    (Result.machine (Result.bare r)).heap = (Result.machine r).heap := by
  cases r <;> rfl

namespace Act

theorem Write.trailed {object : Value} {write : Act σ Unit} (h : Write object write)
    (m : Machine σ) : ∃ es : List Event, .begun ∉ es ∧
      ∀ trail, write (m.trailed trail) = Result.trailed (es ++ trail) (write m) := by
  cases h with
  | skip | changeArray | setMember | refuse => exact ⟨[], List.not_mem_nil, fun _ => rfl⟩
  | block => exact ⟨[.blocked], by decide, fun _ => rfl⟩

variable (limits : Limits) (object : Value) (key : String) (v : Value) {m m' : Machine σ}

/-- Whatever was noted before, to write a property does the same and begins nothing. -/
theorem setProperty_trailed (m : Machine σ) :
    ∃ es : List Event, .begun ∉ es ∧ ∀ trail, setProperty limits object key v (m.trailed trail) =
      Result.trailed (es ++ trail) (setProperty limits object key v m) := by
  have hamong : Among (Write object) (setProperty limits object key v : Act σ Unit) :=
    setProperty_among object key v
  obtain ⟨write, hwrite, hact⟩ := hamong m.heap
  obtain ⟨es, hes, htrailed⟩ := hwrite.trailed m
  refine ⟨es, hes, fun trail => ?_⟩
  rw [hact m rfl, hact (m.trailed trail) rfl, htrailed]

/-- Where two machines are the same but for what was noted, so is what a write comes to. -/
theorem bare_setProperty (hm : m.trailed [] = m'.trailed []) :
    Result.bare (setProperty limits object key v m) =
      Result.bare (setProperty limits object key v m') := by
  obtain ⟨_, -, hact⟩ := setProperty_trailed limits object key v m'
  have heq : m = m'.trailed m.trail := congrArg (fun bare => bare.trailed m.trail) hm
  rw [heq, hact, Result.bare_trailed]

theorem timesBegun_setProperty (m : Machine σ) :
    (Result.machine (setProperty limits object key v m)).timesBegun = m.timesBegun := by
  obtain ⟨es, hes, hact⟩ := setProperty_trailed limits object key v m
  have htrail : (Result.machine (setProperty limits object key v m)).trail = es ++ m.trail := by
    have hself : setProperty limits object key v m =
        Result.trailed (es ++ m.trail) (setProperty limits object key v m) := hact m.trail
    rw [hself]
    cases setProperty limits object key v m <;> rfl
  rw [Machine.timesBegun, htrail, List.count_append, List.count_eq_zero_of_not_mem hes,
    Nat.zero_add, Machine.timesBegun]

end Act

/-! ### All but one value -/

namespace Heap

variable (h : Heap)

theorem object_setMember_of_ne {r target : ObjectRef} (hne : r ≠ target) (name : String)
    (v : Value) : (h.setMember target name v).object r = h.object r := by
  have hindex : target.index ≠ r.index := by
    intro heq
    obtain ⟨i⟩ := r
    obtain ⟨j⟩ := target
    exact hne (congrArg ObjectRef.mk heq.symm)
  rw [object, setMember, Array.getElem?_modify, if_neg hindex, object]

theorem object_newObject_of_lt {r : ObjectRef} (hr : r.index < h.objects.size) (o : ScriptObject) :
    (h.newObject o).2.object r = h.object r := by
  rw [object, newObject]
  dsimp only
  rw [Array.getElem?_push_lt hr, object, Array.getElem?_eq_getElem hr]

/-- All variables are the same, and so are all arrays and objects that there were but for one. -/
structure SameBut (object : Value) (h h' : Heap) : Prop where
  frames : h'.frames = h.frames
  array (a : ArrayRef) : object ≠ .array a → h'.array a = h.array a
  object (o : ObjectRef) : o.index < h.objects.size → object ≠ .object o → h'.object o = h.object o

theorem SameBut.refl (object : Value) : h.SameBut object h :=
  ⟨rfl, fun _ _ => rfl, fun _ _ _ => rfl⟩

end Heap

/-- Nothing is different but what was noted and one value on the heap. -/
structure Machine.SameBut (object : Value) (m m' : Machine σ) : Prop where
  eq_with : m' = { m with heap := m'.heap, trail := m'.trail }
  heap : m.heap.SameBut object m'.heap

namespace Act

/-- However a write ends, nothing is different but the value that it is to. -/
theorem Write.sameBut {object : Value} {write : Act σ Unit} (h : Write object write)
    (m : Machine σ) : m.SameBut object (Result.machine (write m)) := by
  cases h with
  | skip | block => exact ⟨rfl, .refl _ _⟩
  | changeArray r f =>
    refine ⟨rfl, rfl, fun a hne => ?_, fun _ _ _ => rfl⟩
    exact Heap.array_changeArray_of_ne (fun heq => hne (congrArg Value.array heq.symm)) f
  | setMember r name v =>
    refine ⟨rfl, rfl, fun _ _ => rfl, fun o _ hne => ?_⟩
    exact m.heap.object_setMember_of_ne (fun heq => hne (congrArg Value.object heq.symm)) name v
  | refuse e =>
    exact ⟨rfl, rfl, fun _ _ => rfl, fun o ho _ => m.heap.object_newObject_of_lt ho _⟩

theorem sameBut_setProperty (limits : Limits) (object : Value) (key : String) (v : Value)
    (m : Machine σ) : m.SameBut object (Result.machine (setProperty limits object key v m)) := by
  obtain ⟨write, hwrite, heq⟩ := (setProperty_among object key v).on m
  rw [heq]
  exact hwrite.sameBut m

end Act

end MemoryShell.Script
