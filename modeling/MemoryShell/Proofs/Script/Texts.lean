/-
  MemoryShell/Proofs/Script/Texts.lean
  ====================================
  **The text of a value, without a bound on the recursion.**

  The text of an array goes into its elements and that of an error into its name and its message.
  `Shows` has one rule for each of these ways and no bound, so a text that it gives is one at which
  the recursion ends.  It has to end: at most `maxJoinDepth` arrays are on the way, and between two
  of them no error is met twice, unless an error is reached from its own name or message through
  errors alone.  So many levels are what `displayFuel` allows, and with enough levels the bounded
  recursion gives the text.
-/
import Mathlib.Data.List.Nodup
import Mathlib.Data.List.Perm.Subperm
import Mathlib.Logic.Relation
import MemoryShell.Script.Coercion

namespace MemoryShell.Script

/-! ### Texts -/

/-- The values that the text of an error is made from. -/
def ScriptObject.told (o : ScriptObject) : List Value :=
  (o.members.find? "name").toList ++ (o.members.find? "message").toList

namespace Heap

variable (h : Heap)

/-- The text of a value below some arrays. -/
inductive Shows : List ArrayRef → Value → String → Prop where
  | undefined {joining} : Shows joining .undefined "undefined"
  | null {joining} : Shows joining .null "null"
  | bool {joining} (b) : Shows joining (.bool b) (if b then "true" else "false")
  | number {joining} (x) : Shows joining (.number x) (numberText x)
  | string {joining} (s) : Shows joining (.string s) s
  | skipped {joining r} : skipsArray joining r → Shows joining (.array r) ""
  | array {joining r} (texts : Value → String) :
    skipsArray joining r = false →
      (∀ v ∈ (h.array r).toList, v.isNullish = false → Shows (r :: joining) v (texts v)) →
        Shows joining (.array r)
          (",".intercalate ((h.array r).toList.map fun v => if v.isNullish then "" else texts v))
  | object {joining r} : (h.object r).isError = false → Shows joining (.object r) "[object Object]"
  | error {joining r} (texts : Value → String) :
    (h.object r).isError → (∀ v ∈ (h.object r).told, Shows joining v (texts v)) →
      Shows joining (.object r)
        (errorText ((((h.object r).members.find? "name").map texts).getD "Error")
          ((((h.object r).members.find? "message").map texts).getD ""))
  | closure {joining} (id d env) :
    Shows joining (.closure id d env) (functionText (d.name.getD "") d.params "[code]")
  | native {joining} (id f) :
    Shows joining (.native id f) (functionText f.name [] "[native code]")
  | method {joining} (id m receiver) :
    Shows joining (.method id m receiver) (functionText m.name [] "[native code]")

/-- Whether the text of a value below some arrays is made from the elements of an array. -/
inductive Reads (target : ArrayRef) : List ArrayRef → Value → Prop where
  | here {joining} : skipsArray joining target = false → Reads target joining (.array target)
  | element {joining r v} :
    skipsArray joining r = false → v ∈ (h.array r).toList → Reads target (r :: joining) v →
      Reads target joining (.array r)
  | told {joining r v} :
    (h.object r).isError → v ∈ (h.object r).told → Reads target joining v →
      Reads target joining (.object r)

/-! ### Levels -/

/-- The text of a value below some arrays has fewer levels than a bound. -/
def FitsIn : Nat → List ArrayRef → Value → Prop
  | 0, _, _ => False
  | levels + 1, joining, v =>
    match v with
    | .array r =>
      skipsArray joining r = false → ∀ v ∈ (h.array r).toList, FitsIn levels (r :: joining) v
    | .object r => (h.object r).isError → ∀ v ∈ (h.object r).told, FitsIn levels joining v
    | _ => True

/-- An error from whose name or message the text goes on to another error. -/
def LeadsTo (r r' : ObjectRef) : Prop :=
  (h.object r).isError ∧ .object r' ∈ (h.object r).told ∧ (h.object r').isError

/-- No error is reached from its own name or message but through arrays. -/
def IsGrounded : Prop := ∀ r, ¬ Relation.TransGen h.LeadsTo r r

variable {h}

theorem mem_told_of_name {o : ScriptObject} {v : Value} (hv : v ∈ o.members.find? "name") :
    v ∈ o.told :=
  List.mem_append_left _ (Option.mem_toList.mpr hv)

theorem mem_told_of_message {o : ScriptObject} {v : Value} (hv : v ∈ o.members.find? "message") :
    v ∈ o.told :=
  List.mem_append_right _ (Option.mem_toList.mpr hv)

/-! ### Bounded and unbounded recursion -/

/-- With enough levels the bounded recursion gives the text. -/
theorem FitsIn.shows {levels : Nat} {joining : List ArrayRef} {v : Value}
    (hfits : h.FitsIn levels joining v) : h.Shows joining v (h.displayBelow levels joining v) := by
  induction levels generalizing joining v with
  | zero => cases hfits
  | succ levels ih =>
    cases v with
    | array r =>
      rw [displayBelow]
      split
      · rename_i hskip
        exact .skipped hskip
      · rename_i hskip
        rw [Bool.not_eq_true] at hskip
        apply Shows.array (h.displayBelow levels (r :: joining)) hskip
        intro v hv _
        exact ih (hfits hskip v hv)
    | object r =>
      rw [displayBelow]
      split
      · rename_i herror
        apply Shows.error (h.displayBelow levels joining) herror
        intro v hv
        exact ih (hfits herror v hv)
      · rename_i herror
        rw [Bool.not_eq_true] at herror
        exact .object herror
    | undefined => exact .undefined
    | null => exact .null
    | bool b => exact .bool b
    | number x => exact .number x
    | string s => exact .string s
    | closure id d env => exact .closure id d env
    | native id f => exact .native id f
    | method id m receiver => exact .method id m receiver

/-- A value has one text. -/
theorem Shows.unique {joining : List ArrayRef} {v : Value} {text text' : String}
    (hshows : h.Shows joining v text) (hshows' : h.Shows joining v text') : text = text' := by
  induction hshows generalizing text' with
  | undefined | null | bool | number | string | closure | native | method =>
    cases hshows'
    rfl
  | skipped hskip =>
    cases hshows' with
    | skipped => rfl
    | array _ hskip' => rw [hskip] at hskip'; cases hskip'
  | @array joining r texts hskip _ ih =>
    cases hshows' with
    | skipped hskip' => rw [hskip] at hskip'; cases hskip'
    | array texts' _ htexts' =>
      congr 1
      apply List.map_congr_left
      intro v hv
      split
      · rfl
      · rename_i hnullish
        rw [Bool.not_eq_true] at hnullish
        exact ih v hv hnullish (htexts' v hv hnullish)
  | object herror =>
    cases hshows' with
    | object => rfl
    | error _ herror' => rw [herror] at herror'; cases herror'
  | @error joining r texts herror _ ih =>
    cases hshows' with
    | object herror' => rw [herror] at herror'; cases herror'
    | error texts' _ htexts' =>
      have hname : ((h.object r).members.find? "name").map texts =
          ((h.object r).members.find? "name").map texts' := by
        apply Option.map_congr
        intro v hv
        exact ih v (mem_told_of_name hv) (htexts' v (mem_told_of_name hv))
      have hmessage : ((h.object r).members.find? "message").map texts =
          ((h.object r).members.find? "message").map texts' := by
        apply Option.map_congr
        intro v hv
        exact ih v (mem_told_of_message hv) (htexts' v (mem_told_of_message hv))
      rw [hname, hmessage]

/-- An error that holds itself has no text. -/
theorem not_shows_of_leadsTo_self {r : ObjectRef} (hself : Relation.TransGen h.LeadsTo r r)
    {joining : List ArrayRef} {text : String} : ¬ h.Shows joining (.object r) text := by
  intro hshows
  generalize hv : Value.object r = v at hshows
  induction hshows generalizing r with
  | undefined | null | bool | number | string | skipped | array | closure | native | method =>
    cases hv
  | object herror =>
    cases hv
    obtain ⟨r', hstep, -⟩ := Relation.TransGen.head'_iff.mp hself
    rw [hstep.1] at herror
    cases herror
  | error texts herror _ ih =>
    cases hv
    obtain ⟨r', hstep, hback⟩ := Relation.TransGen.head'_iff.mp hself
    exact ih (.object r') hstep.2.1 (.tail' hback hstep) rfl

/-- With enough levels the bounded search finds what the text is made from. -/
theorem FitsIn.readsArray_iff {target : ArrayRef} {levels : Nat} {joining : List ArrayRef}
    {v : Value} (hfits : h.FitsIn levels joining v) :
    h.readsArray target levels joining v ↔ h.Reads target joining v := by
  induction levels generalizing joining v with
  | zero => cases hfits
  | succ levels ih =>
    cases v with
    | array r =>
      rw [readsArray]
      split
      · rename_i hskip
        refine ⟨nofun, ?_⟩
        rintro (hnot | ⟨hnot, _, _⟩) <;> rw [hskip] at hnot <;> cases hnot
      · rename_i hskip
        rw [Bool.not_eq_true] at hskip
        rw [Bool.or_eq_true, beq_iff_eq, List.any_eq_true]
        constructor
        · rintro (rfl | ⟨v, hv, hreads⟩)
          · exact .here hskip
          · exact .element hskip hv ((ih (hfits hskip v hv)).mp hreads)
        · rintro (_ | ⟨_, hv, hreads⟩)
          · exact .inl rfl
          · exact .inr ⟨_, hv, (ih (hfits hskip _ hv)).mpr hreads⟩
    | object r =>
      have hmember (member? : Option Value) (htold : ∀ v ∈ member?, v ∈ (h.object r).told)
          (herror : (h.object r).isError) :
          (member?.map (h.readsArray target levels joining)).getD false ↔
            ∃ v ∈ member?, h.Reads target joining v := by
        cases member? with
        | none => exact ⟨nofun, nofun⟩
        | some v =>
          simp only [Option.map_some, Option.getD_some, Option.mem_some_iff, exists_eq_left']
          exact ih (hfits herror v (htold v rfl))
      rw [readsArray, Bool.and_eq_true, Bool.or_eq_true]
      constructor
      · rintro ⟨herror, hreads⟩
        rw [hmember _ (fun _ => mem_told_of_name) herror,
          hmember _ (fun _ => mem_told_of_message) herror] at hreads
        rcases hreads with ⟨v, hv, hreads⟩ | ⟨v, hv, hreads⟩
        · exact .told herror (mem_told_of_name hv) hreads
        · exact .told herror (mem_told_of_message hv) hreads
      · rintro (_ | _ | ⟨herror, hv, hreads⟩)
        refine ⟨herror, ?_⟩
        rw [hmember _ (fun _ => mem_told_of_name) herror,
          hmember _ (fun _ => mem_told_of_message) herror]
        rcases List.mem_append.mp hv with hv | hv
        · exact .inl ⟨_, Option.mem_toList.mp hv, hreads⟩
        · exact .inr ⟨_, Option.mem_toList.mp hv, hreads⟩
    | undefined | null | bool | number | string | closure | native | method => exact ⟨nofun, nofun⟩

/-! ### Enough levels

What is on the way are the arrays and, since the innermost of them, the errors. -/

/-- The errors that a value is below, innermost first, since the innermost array. -/
structure ErrorPath (h : Heap) (path : List ObjectRef) (v : Value) : Prop where
  nodup : path.Nodup
  isError : ∀ r ∈ path, (h.object r).isError
  leads : ∀ r ∈ path, ∀ r', v = .object r' → (h.object r').isError →
    Relation.TransGen h.LeadsTo r r'

theorem ErrorPath.nil (v : Value) : h.ErrorPath [] v := ⟨List.nodup_nil, nofun, nofun⟩

theorem ErrorPath.cons (hgrounded : h.IsGrounded) {path : List ObjectRef} {r : ObjectRef}
    {v : Value} (hpath : h.ErrorPath path (.object r)) (herror : (h.object r).isError)
    (hv : v ∈ (h.object r).told) : h.ErrorPath (r :: path) v := by
  have hfresh : r ∉ path := by
    intro hmem
    exact hgrounded r (hpath.leads r hmem r rfl herror)
  refine ⟨List.nodup_cons.mpr ⟨hfresh, hpath.nodup⟩, ?_, ?_⟩
  · intro s hs
    rcases List.mem_cons.mp hs with rfl | hs
    · exact herror
    · exact hpath.isError s hs
  · rintro s hs r' rfl herror'
    have hstep : h.LeadsTo r r' := ⟨herror, hv, herror'⟩
    rcases List.mem_cons.mp hs with rfl | hs
    · exact .single hstep
    · exact (hpath.leads s hs r rfl herror).tail hstep

theorem index_lt_of_isError {r : ObjectRef} (herror : (h.object r).isError) :
    r.index < h.objects.size := by
  by_contra hlt
  rw [object, Array.getElem?_eq_none (Nat.le_of_not_lt hlt)] at herror
  cases herror

theorem ErrorPath.length_le {path : List ObjectRef} {v : Value} (hpath : h.ErrorPath path v) :
    path.length ≤ h.objects.size := by
  have hnodup : (path.map ObjectRef.index).Nodup := by
    apply hpath.nodup.map
    rintro ⟨i⟩ ⟨j⟩ hij
    exact congrArg ObjectRef.mk hij
  have hsubset : path.map ObjectRef.index ⊆ List.range h.objects.size := by
    intro i hi
    obtain ⟨r, hr, rfl⟩ := List.mem_map.mp hi
    exact List.mem_range.mpr (index_lt_of_isError (hpath.isError r hr))
  have hlength := (hnodup.subperm hsubset).length_le
  rwa [List.length_map, List.length_range] at hlength

theorem length_lt_of_not_skipsArray {joining : List ArrayRef} {r : ArrayRef}
    (hskip : skipsArray joining r = false) : joining.length < maxJoinDepth := by
  rw [skipsArray, Bool.or_eq_false_iff, decide_eq_false_iff_not] at hskip
  exact Nat.lt_of_not_le hskip.1

/-- Every array on the way can still have all errors below it. -/
theorem fitsIn_of_lt (hgrounded : h.IsGrounded) (levels : Nat) {joining : List ArrayRef}
    {path : List ObjectRef} {v : Value} (hpath : h.ErrorPath path v)
    (hlevels : (maxJoinDepth - joining.length) * (h.objects.size + 1) +
      (h.objects.size - path.length) < levels) : h.FitsIn levels joining v := by
  induction levels generalizing joining path v with
  | zero => exact absurd hlevels (Nat.not_lt_zero _)
  | succ levels ih =>
    cases v with
    | array r =>
      intro hskip v _
      apply ih (.nil v)
      have hdepth := length_lt_of_not_skipsArray hskip
      obtain ⟨left, hleft⟩ : ∃ left, maxJoinDepth - joining.length = left + 1 :=
        ⟨maxJoinDepth - joining.length - 1, by omega⟩
      have hbelow : maxJoinDepth - (r :: joining).length = left := by
        rw [List.length_cons]
        omega
      rw [hleft, Nat.succ_mul] at hlevels
      rw [hbelow, List.length_nil]
      omega
    | object r =>
      intro herror v hv
      have hcons := hpath.cons hgrounded herror hv
      apply ih hcons
      have hlength := hcons.length_le
      rw [List.length_cons] at hlength ⊢
      omega
    | undefined | null | bool | number | string | closure | native | method => trivial

theorem fitsIn_displayFuel (hgrounded : h.IsGrounded) (v : Value) :
    h.FitsIn h.displayFuel [] v := by
  apply fitsIn_of_lt hgrounded _ (.nil v)
  rw [List.length_nil, List.length_nil, displayFuel, Nat.sub_zero, Nat.sub_zero]
  have hmul : maxJoinDepth * (h.objects.size + 1) ≤ maxJoinDepth * (h.objects.size + 2) :=
    Nat.mul_le_mul_left _ (Nat.le_succ _)
  rw [Nat.add_mul]
  omega

end Heap

end MemoryShell.Script
