/-
  MemoryShell/Proofs/Script/Scopes.lean
  =====================================
  **The variable that a chain of scopes sees.**

  A frame can stand in many chains at once, since every function holds on to the chain it was made
  in.  An assignment through one chain changes the variable that this chain sees, and thereby what
  every chain sees that comes to the same frame, whatever stands before it there.  Nothing else
  changes, so a variable that may not be changed stays what its frame was last told to declare.
-/
import MemoryShell.Proofs.Script.Evolution

namespace MemoryShell.Script

namespace Heap

variable {h h' : Heap} {env : Env} {name : String} {r : FrameRef} {b : Binding}

/-! ### What a chain sees -/

/-- A chain sees the variable of a frame: no frame further in has one of that name. -/
def Sees (h : Heap) (env : Env) (name : String) (r : FrameRef) (b : Binding) : Prop :=
  ∃ inner outer, env = inner ++ r :: outer ∧ (∀ q ∈ inner, (h.frame q).find? name = none) ∧
    (h.frame r).find? name = some b

theorem resolve_eq_none_iff :
    h.resolve env name = none ↔ ∀ q ∈ env, (h.frame q).find? name = none := by
  induction env with
  | nil => simp [resolve]
  | cons q outer ih =>
    rw [resolve, List.forall_mem_cons]
    cases (h.frame q).find? name with
    | none => simpa using ih
    | some b => simp

theorem resolve_append {inner : Env} (hinner : ∀ q ∈ inner, (h.frame q).find? name = none)
    (outer : Env) : h.resolve (inner ++ outer) name = h.resolve outer name := by
  induction inner with
  | nil => rfl
  | cons q inner ih =>
    rw [List.forall_mem_cons] at hinner
    rw [List.cons_append, resolve, hinner.1]
    exact ih hinner.2

theorem resolve_eq_some_iff : h.resolve env name = some (r, b) ↔ h.Sees env name r b := by
  constructor
  · intro hfound
    induction env with
    | nil => cases hfound
    | cons q outer ih =>
      rw [resolve] at hfound
      cases hq : (h.frame q).find? name with
      | none =>
        rw [hq] at hfound
        obtain ⟨inner, rest, rfl, hinner, hr⟩ := ih hfound
        exact ⟨q :: inner, rest, rfl, List.forall_mem_cons.mpr ⟨hq, hinner⟩, hr⟩
      | some c =>
        rw [hq] at hfound
        cases hfound
        exact ⟨[], outer, rfl, nofun, hq⟩
  · rintro ⟨inner, outer, rfl, hinner, hr⟩
    rw [resolve_append hinner, resolve, hr]

theorem Sees.lookup (hsees : h.Sees env name r b) : h.lookup env name = some b.value := by
  rw [Heap.lookup, resolve_eq_some_iff.mpr hsees]
  rfl

theorem Sees.find?_eq_some (hsees : h.Sees env name r b) : (h.frame r).find? name = some b := by
  obtain ⟨inner, outer, -, -, hr⟩ := hsees
  exact hr

/-! ### Rebinding a variable -/

theorem index_lt_of_find?_eq_some (hb : (h.frame r).find? name = some b) :
    r.index < h.frames.size := by
  apply Nat.lt_of_not_le
  intro hout
  rw [frame, Array.getElem?_eq_none hout] at hb
  cases hb

/-- A frame has the new variable, and all others have what they had. -/
theorem find?_rebind (hr : r.index < h.frames.size) (q : FrameRef) (n : String) :
    ((h.rebind r name b).frame q).find? n =
      if q = r ∧ n = name then some b else (h.frame q).find? n := by
  rw [frame, rebind, Array.getElem?_modify]
  by_cases hq : r.index = q.index
  · obtain rfl : r = q := congrArg FrameRef.mk hq
    rw [if_pos rfl, Array.getElem?_eq_getElem hr, frame, Array.getElem?_eq_getElem hr]
    simp only [Option.map_some, Option.getD_some, Dict.find?_insert, true_and]
  · have hne : q ≠ r := fun heq => hq (congrArg FrameRef.index heq.symm)
    rw [if_neg hq, if_neg fun both => hne both.1]
    rfl

/-- Where a variable is bound anew, the same chains see it. -/
theorem sees_rebind_iff {b' : Binding} (hb : (h.frame r).find? name = some b) :
    (h.rebind r name b').Sees env name r b' ↔ h.Sees env name r b := by
  have hsize := index_lt_of_find?_eq_some hb
  have hnone (q : FrameRef) :
      ((h.rebind r name b').frame q).find? name = none ↔ (h.frame q).find? name = none := by
    rw [find?_rebind hsize]
    by_cases hq : q = r
    · rw [if_pos ⟨hq, rfl⟩, hq, hb]
      exact ⟨nofun, nofun⟩
    · rw [if_neg fun both => hq both.1]
  have hr : ((h.rebind r name b').frame r).find? name = some b' := by
    rw [find?_rebind hsize, if_pos ⟨rfl, rfl⟩]
  simp only [Sees, hnone, hb, hr]

/-! ### Assignment -/

/-- An assignment through a chain: when it ends how, and that it changes no more than what the chain
    sees. -/
structure AssignsVisible (h : Heap) (env : Env) (name : String) (v : Value) : Prop where
  undeclared_iff :
    (h.assign env name v).1 = .undeclared ↔ ∀ q ∈ env, (h.frame q).find? name = none
  constant_iff : (h.assign env name v).1 = .constant ↔ ∃ r w, h.Sees env name r ⟨w, false⟩
  assigned_iff : (h.assign env name v).1 = .assigned ↔ ∃ r w, h.Sees env name r ⟨w, true⟩
  /-- The chains that see the variable are those that saw it, and they see the new value. -/
  visible {r w} : h.Sees env name r ⟨w, true⟩ → ∀ env',
    ((h.assign env name v).2.Sees env' name r ⟨v, true⟩ ↔ h.Sees env' name r ⟨w, true⟩) ∧
    (h.Sees env' name r ⟨w, true⟩ → (h.assign env name v).2.lookup env' name = some v)
  others {r w} : h.Sees env name r ⟨w, true⟩ → ∀ q n, ¬ (q = r ∧ n = name) →
    ((h.assign env name v).2.frame q).find? n = (h.frame q).find? n
  /-- An assignment that fails changes nothing. -/
  unchanged : (h.assign env name v).1 ≠ .assigned → (h.assign env name v).2 = h

/-- The ways in which an assignment ends, and what it leaves. -/
theorem assign_cases (h : Heap) (env : Env) (name : String) (v : Value) :
    (h.resolve env name = none ∧ h.assign env name v = (.undeclared, h)) ∨
      (∃ r w, h.resolve env name = some (r, ⟨w, false⟩) ∧
        h.assign env name v = (.constant, h)) ∨
      ∃ r w, h.resolve env name = some (r, ⟨w, true⟩) ∧
        h.assign env name v = (.assigned, h.rebind r name ⟨v, true⟩) := by
  unfold assign
  rcases h.resolve env name with _ | ⟨r, w, _ | _⟩
  · exact .inl ⟨rfl, rfl⟩
  · exact .inr (.inl ⟨r, w, rfl, rfl⟩)
  · exact .inr (.inr ⟨r, w, rfl, rfl⟩)

theorem assign_of_sees {w : Value} (hsees : h.Sees env name r ⟨w, true⟩) (v : Value) :
    (h.assign env name v).2 = h.rebind r name ⟨v, true⟩ := by
  rw [assign, resolve_eq_some_iff.mpr hsees]
  rfl

theorem assign_eq_undeclared_iff {v : Value} :
    (h.assign env name v).1 = .undeclared ↔ h.resolve env name = none := by
  rcases h.assign_cases env name v with ⟨hfound, heq⟩ | ⟨r, w, hfound, heq⟩ | ⟨r, w, hfound, heq⟩
  all_goals simp [hfound, heq]

/-- If a variable is found, it decides how the assignment ends. -/
theorem assign_eq_iff (v : Value) (isMutable : Bool) :
    (h.assign env name v).1 = (if isMutable then .assigned else .constant) ↔
      ∃ r w, h.Sees env name r ⟨w, isMutable⟩ := by
  simp only [← resolve_eq_some_iff]
  rcases h.assign_cases env name v with ⟨hfound, heq⟩ | ⟨r, w, hfound, heq⟩ | ⟨r, w, hfound, heq⟩
  all_goals cases isMutable <;> simp [hfound, heq]

theorem assignsVisible (h : Heap) (env : Env) (name : String) (v : Value) :
    h.AssignsVisible env name v where
  undeclared_iff := assign_eq_undeclared_iff.trans resolve_eq_none_iff
  constant_iff := assign_eq_iff v false
  assigned_iff := assign_eq_iff v true
  visible hsees env' := by
    have hb := hsees.find?_eq_some
    rw [assign_of_sees hsees]
    exact ⟨sees_rebind_iff hb, fun hsees' => ((sees_rebind_iff hb).mpr hsees').lookup⟩
  others hsees q n hother := by
    rw [assign_of_sees hsees, find?_rebind (index_lt_of_find?_eq_some hsees.find?_eq_some),
      if_neg hother]
  unchanged hfailed := by
    rcases h.assign_cases env name v with ⟨_, heq⟩ | ⟨r, w, _, heq⟩ | ⟨r, w, _, heq⟩
    · rw [heq]
    · rw [heq]
    · exact absurd (congrArg Prod.fst heq) hfailed

/-- What is assigned through one chain is seen through another one, unless a nearer frame hides
    it. -/
example :
    let outer : Frame := .ofList [("x", ⟨.null, true⟩), ("y", ⟨.null, false⟩)]
    let inner : Frame := .ofList [("x", ⟨.undefined, true⟩)]
    let h := ((Heap.empty.newFrame outer).2.newFrame inner).2
    (h.assign [⟨0⟩] "x" (.bool true)).2.lookup [⟨2⟩, ⟨0⟩] "x" = some (.bool true) ∧
      (h.assign [⟨0⟩] "x" (.bool true)).2.lookup [⟨1⟩, ⟨0⟩] "x" = some .undefined ∧
      (h.assign [⟨1⟩, ⟨0⟩] "y" (.bool true)).1 = .constant := ⟨rfl, rfl, rfl⟩

/-! ### What was declared -/

/-- What a frame was last told to declare under a name. -/
def lastDeclared? (h : Heap) (r : FrameRef) (name : String) : Option Binding :=
  Dict.lookupEntry name (h.declared[r.index]?.getD [])

/-- Under a name there is a variable if and only if one was declared.  It is the one that was
    declared last, or that one allowed to be given other values. -/
inductive AsDeclared : Option Binding → Option Binding → Prop where
  | same (last : Option Binding) : AsDeclared last last
  | changed (v w : Value) : AsDeclared (some ⟨v, true⟩) (some ⟨w, true⟩)

theorem AsDeclared.constant_iff {declared found : Option Binding}
    (hsame : AsDeclared declared found) (v : Value) :
    found = some ⟨v, false⟩ ↔ declared = some ⟨v, false⟩ := by
  cases hsame with
  | same => rfl
  | changed v' w => exact ⟨nofun, nofun⟩

/-- A frame has the variables that were declared in it. -/
def FrameRecorded (declared : List (String × Binding)) (f : Frame) : Prop :=
  ∀ name, AsDeclared (Dict.lookupEntry name declared) (f.find? name)

namespace FrameRecorded

variable {declared : List (String × Binding)} {f : Frame}

theorem entries (f : Frame) : FrameRecorded f.entries f := fun _ => .same _

theorem declare (hf : FrameRecorded declared f) (name : String) (b : Binding) :
    FrameRecorded ((name, b) :: declared) (f.insert name b) := by
  intro n
  rw [Dict.find?_insert, Dict.lookupEntry]
  split
  · exact .same _
  · exact hf n

theorem rebind (hf : FrameRecorded declared f) {w : Value} (hw : f.find? name = some ⟨w, true⟩)
    (v : Value) : FrameRecorded declared (f.insert name ⟨v, true⟩) := by
  intro n
  rw [Dict.find?_insert]
  split
  · rename_i hname
    subst hname
    -- What was declared under this name may be changed, since what is there now may be.
    have hlast := hf n
    rw [hw] at hlast
    generalize Dict.lookupEntry n declared = last at hlast ⊢
    cases hlast <;> exact .changed _ _
  · exact hf n

end FrameRecorded

/-- Every frame has the variables that were declared in it. -/
structure Recorded (h : Heap) : Prop where
  size : h.declared.size = h.frames.size
  frames {i : Nat} {declared : List (String × Binding)} {f : Frame} :
    h.declared[i]? = some declared → h.frames[i]? = some f → FrameRecorded declared f

namespace Recorded

theorem asDeclared (hrec : h.Recorded) (r : FrameRef) (name : String) :
    AsDeclared (h.lastDeclared? r name) ((h.frame r).find? name) := by
  unfold lastDeclared? frame
  by_cases hr : r.index < h.frames.size
  · have hd : r.index < h.declared.size := hrec.size ▸ hr
    rw [Array.getElem?_eq_getElem hr, Array.getElem?_eq_getElem hd]
    exact hrec.frames (Array.getElem?_eq_getElem hd) (Array.getElem?_eq_getElem hr) name
  · have hd : ¬ r.index < h.declared.size := hrec.size ▸ hr
    rw [Array.getElem?_eq_none (Nat.le_of_not_lt hr), Array.getElem?_eq_none (Nat.le_of_not_lt hd)]
    exact .same none

theorem empty : Heap.empty.Recorded where
  size := rfl
  frames := by
    intro i declared f hd
    simp [Heap.empty] at hd

theorem newFrame (hrec : h.Recorded) (f : Frame) : (h.newFrame f).2.Recorded where
  size := by
    rw [Heap.newFrame, Array.size_push, Array.size_push, hrec.size]
  frames := by
    intro i declared f' hd hf
    rw [Heap.newFrame, Array.getElem?_push] at hd hf
    rw [hrec.size] at hd
    split at hd
    · rename_i hi
      rw [if_pos hi] at hf
      cases hd
      cases hf
      exact .entries f
    · rename_i hi
      rw [if_neg hi] at hf
      exact hrec.frames hd hf

theorem declare (hrec : h.Recorded) (r : FrameRef) (name : String) (v : Value)
    (isMutable : Bool) : (h.declare r name v isMutable).Recorded where
  size := by
    rw [Heap.declare, Array.size_modify, Array.size_modify, hrec.size]
  frames := by
    intro i declared f hd hf
    rw [Heap.declare, Array.getElem?_modify] at hd hf
    split at hd
    · rename_i hi
      rw [if_pos hi] at hf
      obtain ⟨declared, hdeclared, rfl⟩ := Option.map_eq_some_iff.mp hd
      obtain ⟨f, hframe, rfl⟩ := Option.map_eq_some_iff.mp hf
      exact (hrec.frames hdeclared hframe).declare name _
    · rename_i hi
      rw [if_neg hi] at hf
      exact hrec.frames hd hf

theorem rebind (hrec : h.Recorded) {w : Value} (hw : (h.frame r).find? name = some ⟨w, true⟩)
    (v : Value) : (h.rebind r name ⟨v, true⟩).Recorded where
  size := by
    rw [Heap.rebind, Array.size_modify, hrec.size]
  frames := by
    intro i declared f hd hf
    rw [Heap.rebind] at hd
    rw [Heap.rebind, Array.getElem?_modify] at hf
    split at hf
    · rename_i hi
      obtain ⟨f, hframe, rfl⟩ := Option.map_eq_some_iff.mp hf
      rw [frame, hi, hframe] at hw
      exact (hrec.frames hd hframe).rebind hw v
    · exact hrec.frames hd hf

theorem assign (hrec : h.Recorded) (env : Env) (name : String) (v : Value) :
    (h.assign env name v).2.Recorded := by
  rcases h.assign_cases env name v with ⟨_, heq⟩ | ⟨r, w, _, heq⟩ | ⟨r, w, hfound, heq⟩
  · rwa [heq]
  · rwa [heq]
  · rw [heq]
    exact hrec.rebind (resolve_eq_some_iff.mp hfound).find?_eq_some v

end Recorded

/-- Only a new frame, a declaration and an assignment touch frames, and what they declare is
    recorded. -/
theorem Step.recorded (hstep : h.Step h') (hrec : h.Recorded) : h'.Recorded := by
  cases hstep with
  | newFrame f => exact hrec.newFrame f
  | declare r name v isMutable => exact hrec.declare r name v isMutable
  | assign env name v => exact hrec.assign env name v
  | newArray | newObject | newFunction | changeArray | setMember => exact ⟨hrec.size, hrec.frames⟩

/-- The variables that may not be changed are those that were last declared so, with the values that
    they were declared with: one keeps its value until its frame declares the name anew. -/
def ConstantsKept (h : Heap) : Prop :=
  ∀ r name v, (h.frame r).find? name = some ⟨v, false⟩ ↔ h.lastDeclared? r name = some ⟨v, false⟩

end Heap

/-! ### Whole runs -/

end MemoryShell.Script
