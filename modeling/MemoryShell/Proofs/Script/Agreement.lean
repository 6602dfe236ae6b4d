/-
  MemoryShell/Proofs/Script/Agreement.lean
  ========================================
  **Runs on heaps whose arrays fit.**

  Two acts agree if, as long as every array fits, they do the same and leave every array fitting.
  If the jobs of two runners agree, so do expressions, statements and calls over them, but for those
  that make an array without a check: a literal, the arguments of a function and the pieces of a
  string have to be few enough.
-/
import MemoryShell.Proofs.Script.ArrayMakers
import MemoryShell.Proofs.Script.Congruence

namespace MemoryShell.Script

variable {σ α β : Type} {limits : Limits} {r r' : Runner σ}

/-- Where every array fits, the second act does what the first one does, and every array still fits
    afterwards. -/
def Act.Agree (limits : Limits) (act act' : Act σ α) : Prop :=
  ∀ m, m.heap.Fits limits → act' m = act m ∧ (Result.machine (act m)).heap.Fits limits

/-- An act in which nothing is nested leaves every array as it is. -/
theorem Act.Leaf.keepsArrays {act : Act σ α} (h : act.Leaf limits) : act.KeepsArrays := by
  cases h with
  | pure a => exact .pure a
  | fail fault => exact .fail fault
  | note e => exact .note e
  | look f => exact .look f
  | throwMistake e => exact .throwMistake e
  | beginTurn => exact .beginTurn
  | checkText v => exact .checkText v
  | newObject members => exact .newObject members
  | newScope env frame => exact .newScope env frame
  | newClosure d env => exact .newClosure d env
  | variableValue name env => exact .variableValue name env
  | declareVariable env name v isMutable => exact .declareVariable env name v isMutable
  | assignVariable name v env => exact .assignVariable name v env
  | getProperty object key => exact .getProperty object key
  | hoist body env => exact .hoist body env
  | itemScope kind name env item => exact .itemScope kind name env item
  | itemsOf v => exact .itemsOf v
  | numberMethod method x args => exact .numberMethod method x args
  | objectMethod method object args => exact .objectMethod method object args

namespace Act.Agree

variable {act act' : Act σ α}

/-! ### Sequences -/

/-- What follows may count on what is given where every array fits. -/
theorem bindOf {next next' : α → Act σ β} {P : α → Prop} (h : Agree limits act act')
    (hP : ∀ m a m', m.heap.Fits limits → act m = .ok a m' → P a)
    (hnext : ∀ a, P a → Agree limits (next a) (next' a)) :
    Agree limits (act >>= next) (act' >>= next') := by
  intro m hm
  obtain ⟨hsame, hfits⟩ := h m hm
  cases heq : act m with
  | ok a m' =>
    rw [heq] at hsame hfits
    rw [bind_of_ok heq, bind_of_ok hsame]
    exact hnext a (hP m a m' hm heq) m' hfits
  | error fault m' =>
    rw [heq] at hsame hfits
    rw [bind_of_error heq, bind_of_error hsame]
    exact ⟨rfl, hfits⟩

theorem bind {next next' : α → Act σ β} (h : Agree limits act act')
    (hnext : ∀ a, Agree limits (next a) (next' a)) : Agree limits (act >>= next) (act' >>= next') :=
  h.bindOf (P := fun _ => True) (fun _ _ _ _ _ => trivial) fun a _ => hnext a

/-- An act that leaves every array as it is agrees with itself. -/
theorem kept (h : act.KeepsArrays) : Agree limits act act := fun _ hm => ⟨rfl, h.fits hm⟩

theorem checked {act : Limits → Act σ α} (h : ChecksLengths limits act) :
    Agree limits (act limits) (act limits) := fun m hm => ⟨rfl, h.keeps m hm⟩

theorem pure (a : α) : Agree limits (Pure.pure a : Act σ α) (Pure.pure a) := .kept (.pure a)

theorem fail (fault : Fault) : Agree limits (Act.fail fault : Act σ α) (Act.fail fault) :=
  .kept (.fail fault)

theorem note (e : Event) : Agree limits (Act.note e : Act σ Unit) (Act.note e) := .kept (.note e)

theorem newArray {items : Array Value} (h : items.size ≤ limits.maxArrayLength) :
    Agree limits (Act.newArray items : Act σ Value) (Act.newArray items) :=
  fun _ hm => ⟨rfl, fits_newArray hm h⟩

/-! ### Depths, faults and finalizers -/

theorem deeper (h : Agree limits act act') :
    Agree limits (deeper limits act) (deeper limits act') := by
  intro m hm
  by_cases hdepth : m.evalDepth < limits.maxEvalDepth
  · obtain ⟨hsame, hfits⟩ := h { m with evalDepth := m.evalDepth + 1 } hm
    rw [heap_deeper hdepth]
    refine ⟨?_, hfits⟩
    rw [Act.deeper, Act.deeper, hsame]
  · rw [Act.deeper, Act.deeper, if_neg hdepth, if_neg hdepth]
    exact ⟨rfl, hm⟩

theorem inCall (h : Agree limits act act') :
    Agree limits (inCall limits act) (inCall limits act') := by
  intro m hm
  by_cases hdepth : m.callDepth < limits.maxCallDepth
  · obtain ⟨hsame, hfits⟩ := h { m with callDepth := m.callDepth + 1 } hm
    rw [heap_inCall hdepth]
    refine ⟨?_, hfits⟩
    rw [Act.inCall, Act.inCall, hsame]
  · rw [Act.inCall, Act.inCall, if_neg hdepth, if_neg hdepth]
    exact ⟨rfl, hm⟩

section Flows

variable {act act' finalizer finalizer' : Act σ Flow}

theorem catching (h : Agree limits act act') {handler handler' : Value → Act σ Flow}
    (hhandler : ∀ v, Agree limits (handler v) (handler' v)) :
    Agree limits (catching act (some handler)) (catching act' (some handler')) := by
  intro m hm
  obtain ⟨hsame, hfits⟩ := h m hm
  unfold Act.catching
  rw [hsame]
  cases heq : act m with
  | ok flow m₁ =>
    rw [heq] at hfits
    exact ⟨rfl, hfits⟩
  | error fault m₁ =>
    rw [heq] at hfits
    cases fault with
    | thrown v => exact hhandler v m₁ hfits
    | limit | badTarget | busyArray | outOfRange | exhausted => exact ⟨rfl, hfits⟩

theorem cleanUp (h : Agree limits finalizer finalizer') (fault : Fault) :
    Agree limits (cleanUp fault finalizer) (cleanUp fault finalizer') := by
  apply h.bind
  intro flow
  cases flow with
  | normal => exact fail fault
  | returned v => exact pure _
  | broken => exact pure _
  | continued => exact pure _

theorem cleanUpLimit (h : Agree limits finalizer finalizer') (cause : LimitCause) :
    Agree limits (cleanUpLimit cause finalizer) (cleanUpLimit cause finalizer') := by
  intro m hm
  obtain ⟨hsame, hfits⟩ := h (m.noted (.cleaning cause)) hm
  unfold Act.cleanUpLimit
  rw [hsame]
  cases heq : finalizer (m.noted (.cleaning cause)) with
  | ok flow m₁ =>
    rw [heq] at hfits
    cases flow <;> exact ⟨rfl, hfits⟩
  | error fault m₁ =>
    rw [heq] at hfits
    cases fault <;> exact ⟨rfl, hfits⟩

theorem finalizing (h : Agree limits act act') (hfinalizer : Agree limits finalizer finalizer') :
    Agree limits (finalizing act finalizer) (finalizing act' finalizer') := by
  intro m hm
  obtain ⟨hsame, hfits⟩ := h m hm
  unfold Act.finalizing
  rw [hsame]
  cases heq : act m with
  | ok flow m₁ =>
    rw [heq] at hfits
    obtain ⟨hlast, hend⟩ := hfinalizer m₁ hfits
    dsimp only
    rw [hlast]
    refine ⟨rfl, ?_⟩
    cases hfinal : finalizer m₁ with
    | ok last m₂ =>
      rw [hfinal] at hend
      cases last <;> exact hend
    | error fault m₂ =>
      rw [hfinal] at hend
      exact hend
  | error fault m₁ =>
    rw [heq] at hfits
    cases fault with
    | limit cause => exact hfinalizer.cleanUpLimit cause m₁ hfits
    | thrown v => exact hfinalizer.cleanUp (.thrown v) m₁ hfits
    | badTarget => exact hfinalizer.cleanUp .badTarget m₁ hfits
    | busyArray | outOfRange | exhausted => exact ⟨rfl, hfits⟩

end Flows

/-! ### What is nested -/

theorem ofLeaf (h : act.Leaf limits) : Agree limits act act := kept h.keepsArrays

/-- Agreement goes through how acts are put together. -/
def congruence (limits : Limits) : Congruence σ limits where
  Rel := Agree limits
  bind := bind
  catching h := catching h
  finalizing := finalizing
  leaf := ofLeaf
  setProperty object key v := checked (checksLengths_setProperty object key v)

/-- An expression over jobs that agree; a literal for an array has to be short enough. -/
theorem evaluate (h : (congruence limits).Jobs r r') (e : Expr) (env : Env)
    (hshort : ∀ items, e = .array items → items.length ≤ limits.maxArrayLength) :
    Agree limits (evaluate limits r e env) (evaluate limits r' e env) := by
  apply Congruence.Rel.evaluate h
  intro items heq
  have hitems := Congruence.Rel.evalAll h.toNested items env
  apply bindOf hitems fun m values m' _ hvalues => gives_mapM _ _ m values m' hvalues
  intro values hvalues
  refine newArray ?_
  rw [List.size_toArray, hvalues]
  exact hshort items heq

/-! ### Methods that call back -/

theorem setElements (a : ArrayRef) {items : Array Value}
    (h : items.size ≤ limits.maxArrayLength) :
    Agree limits (setElements a items : Act σ Unit) (setElements a items) :=
  fun _ hm => ⟨rfl, hm.changeArray h⟩

section Callbacks

variable {call call' : Value → List Value → Act σ Value}
  (h : ∀ f args, (congruence limits).Rel (call f args) (call' f args))
include h

/-- What is mapped, kept or sorted is no longer than what was there before. -/
theorem arrayResult (method : Method) (a : ArrayRef) (args : List Value) :
    Agree limits (arrayResult limits call method a args)
      (arrayResult limits call' method a args) := by
  by_cases hmethod : takesFunction method = false ∧ method ≠ .sort
  · -- A method that does not call back is the same over all calls.
    have hsame : Act.arrayResult limits call method a args =
        Act.arrayResult limits call' method a args := by
      cases method with
      | map | filter | forEach | find | findIndex | some | every | reduce => cases hmethod.1
      | sort => exact absurd rfl hmethod.2
      | _ => rfl
    rw [← hsame]
    exact checked (checksLengths_arrayResult a hmethod.1 hmethod.2 args)
  · cases method with
    | map =>
      apply bindOf (P := fun made => made.size ≤ limits.maxArrayLength)
        (Congruence.Rel.mapped h _ a)
      · intro m made m' hm heq
        rw [size_mapped a heq]
        exact Heap.fits_iff.mp hm a
      · exact fun _ => newArray
    | filter =>
      apply bindOf (P := fun kept => kept.size ≤ limits.maxArrayLength)
        (Congruence.Rel.filtered h _ a)
      · intro m kept m' hm heq
        exact Nat.le_trans (size_filtered a heq) (Heap.fits_iff.mp hm a)
      · exact fun _ => newArray
    | forEach | find | findIndex | some | every | reduce =>
      exact Congruence.Rel.visiting h a args rfl nofun nofun
    | sort =>
      apply bindOf (P := fun items => items.size ≤ limits.maxArrayLength) (kept (.lookHeap _))
      · rintro m items m' hm ⟨⟩
        exact Heap.fits_iff.mp hm a
      · intro items hitems
        apply bindOf (Congruence.Rel.sortBy (Congruence.Rel.sortsAfter h _) items.toList)
          fun m sorted m' _ heq => length_sortBy _ m sorted m' heq
        intro sorted hsorted
        apply bind (setElements a _) fun _ => pure _
        rw [List.size_toArray, hsorted]
        exact hitems
    | _ => exact absurd ⟨rfl, nofun⟩ hmethod

end Callbacks

/-! ### Calls -/

/-- A function over jobs that agree; unless it is an arrow, it has to be called with few enough
    arguments. -/
theorem runClosure (h : (congruence limits).Nested r r') (d : FunctionDef) (env : Env)
    (this : Value) (args : List Value)
    (hshort : d.isArrow ∨ args.length ≤ limits.maxArrayLength) :
    Agree limits (runClosure r d env this args) (runClosure r' d env this args) := by
  apply Congruence.Rel.runClosure h
  unfold Act.callFrame
  split
  · exact pure _
  · exact bind (newArray (hshort.resolve_left ‹_›)) fun _ => pure _

theorem callMethod (h : (congruence limits).Jobs r r') (method : Method) (receiver : Value)
    (args : List Value) (hsplit : ∀ s, receiver = .string s → method ≠ .split) :
    Agree limits (callMethod limits r method receiver args)
      (callMethod limits r' method receiver args) := by
  apply Congruence.Rel.callMethod (C := congruence limits)
  · intro s heq
    exact kept (.stringMethod (hsplit s heq) s args)
  · intro a _
    exact arrayResult (fun f args => h.call f .undefined args) method a args

end Act.Agree

end MemoryShell.Script
