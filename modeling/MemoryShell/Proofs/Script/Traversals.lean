/-
  MemoryShell/Proofs/Script/Traversals.lean
  =========================================
  **Going over an array with a function of the script.**

  The function may do anything to the array that it is called for.  The methods that go over an array
  take its elements when they begin, so the function is called with these, in their order and each
  with its own position, until there are no more of them, a call fails or a method has seen enough.
  What the method gives is made of the elements and of what the calls gave.
-/
import Mathlib.Data.List.Basic
import MemoryShell.Proofs.Script.ArrayLengths
import MemoryShell.Proofs.Script.Questions

namespace MemoryShell.Script

variable {σ α β γ δ : Type}

/-! ### Questions that are known beforehand -/

/-- Questions were asked in their order, to the last one or to the first one that was answered in a
    way that decides. -/
inductive Traversal (decides : β → Bool) (questions : List α) : List (α × β) → Prop where
  | whole {answers} : answers.map Prod.fst = questions → (∀ q ∈ answers, decides q.2 = false) →
    Traversal decides questions answers
  | decided {answers last} : (answers ++ [last]).map Prod.fst <+: questions →
    (∀ q ∈ answers, decides q.2 = false) → decides last.2 = true →
    Traversal decides questions (answers ++ [last])

/-- Questions were asked in their order up to one that was not answered, and no answer decided. -/
structure Interrupted (decides : β → Bool) (questions : List α) (answers : List (α × β)) (q : α) :
    Prop where
  inOrder : answers.map Prod.fst ++ [q] <+: questions
  undecided : ∀ q ∈ answers, decides q.2 = false

section

variable {decides : β → Bool} {questions : List α} {answers : List (α × β)} {a : α} {b : β}

theorem Traversal.cons (hb : decides b = false) (h : Traversal decides questions answers) :
    Traversal decides (a :: questions) ((a, b) :: answers) := by
  cases h with
  | whole hall hundecided =>
    exact .whole (congrArg (a :: ·) hall) (List.forall_mem_cons.mpr ⟨hb, hundecided⟩)
  | @decided answers last hprefix hundecided hlast =>
    rw [← List.cons_append]
    exact .decided ((List.prefix_cons_inj a).mpr hprefix)
      (List.forall_mem_cons.mpr ⟨hb, hundecided⟩) hlast

/-- The first answer decides. -/
theorem Traversal.first (hb : decides b = true) : Traversal decides (a :: questions) [(a, b)] := by
  rw [← List.nil_append [(a, b)]]
  exact .decided ((List.prefix_cons_inj a).mpr List.nil_prefix) nofun hb

theorem Interrupted.first : Interrupted decides (a :: questions) [] a :=
  ⟨(List.prefix_cons_inj a).mpr (List.nil_prefix), nofun⟩

theorem Interrupted.cons {q : α} (hb : decides b = false)
    (h : Interrupted decides questions answers q) :
    Interrupted decides (a :: questions) ((a, b) :: answers) q :=
  ⟨(List.prefix_cons_inj a).mpr h.inOrder, List.forall_mem_cons.mpr ⟨hb, h.undecided⟩⟩

/-- However questions were gone over, they were asked in their order. -/
theorem Traversal.inOrder (h : Traversal decides questions answers) :
    answers.map Prod.fst <+: questions := by
  cases h with
  | whole hall _ => exact hall ▸ List.prefix_rfl
  | decided hprefix _ _ => exact hprefix

theorem Traversal.length_le {items : List γ} {question : γ → α}
    (h : Traversal decides (items.map question) answers) :
    (answers.map Prod.snd).length ≤ items.length := by
  have hlength := h.inOrder.length_le
  rw [List.length_map, List.length_map] at hlength
  rw [List.length_map]
  exact hlength

end

/-- From a machine on questions are gone over, each of which may depend on the answers before it, and
    the end goes by the answers; or one question fails, and that is the end. -/
def Traverses (ask : α → Act σ β) (decides : β → Bool) (questions : List β → List α)
    (ending : List β → Act σ δ) (m : Machine σ) (r : Result σ δ) : Prop :=
  Asked ask m
    (fun answers m' => Traversal decides (questions (answers.map Prod.snd)) answers ∧
      r = ending (answers.map Prod.snd) m')
    (fun answers q fault m' => Interrupted decides (questions (answers.map Prod.snd)) answers q ∧
      r = .error fault m')

theorem Traverses.imp {ask : α → Act σ β} {decides : β → Bool} {question : γ → α} {items : List γ}
    {ending ending' : List β → Act σ δ} {m : Machine σ} {r : Result σ δ}
    (h : Traverses ask decides (fun _ => items.map question) ending m r)
    (hending : ∀ given, given.length ≤ items.length → ending given = ending' given) :
    Traverses ask decides (fun _ => items.map question) ending' m r := by
  refine Asked.imp h ?_ fun _ _ _ _ hq => hq
  rintro answers m' - ⟨hall, hr⟩
  rw [hending _ hall.length_le] at hr
  exact ⟨hall, hr⟩

/-! ### Folds and searches -/

section Loops

variable {ask : α → Act σ β}

/-- A fold asks one question about each item. -/
theorem foldlM_asks (question : γ → α) (made : δ → γ → β → δ) (items : List γ) (start : δ) :
    (items.foldlM (fun d item => do return made d item (← ask (question item))) start).Asks ask
      (fun answers out => Traversal (fun _ => false) (items.map question) answers ∧
        out = (items.zip (answers.map Prod.snd)).foldl (fun d (p : γ × β) => made d p.1 p.2) start)
      (Interrupted (fun _ => false) (items.map question)) := by
  induction items generalizing start with
  | nil => exact .pure ⟨.whole rfl nofun, rfl⟩
  | cons item items ih =>
    rw [List.foldlM_cons, bind_assoc]
    refine Act.Asks.ask_bind .first fun b => ?_
    rw [pure_bind]
    refine (ih (made start item b)).imp ?_ ?_
    · rintro answers out ⟨hall, rfl⟩
      exact ⟨hall.cons rfl, rfl⟩
    · rintro answers q hq
      exact hq.cons rfl

/-- A search asks one question about each item until an answer decides. -/
theorem findM?_asks (question : γ → α) (decides : β → Bool) (items : List γ) :
    (items.findM? fun item => do return decides (← ask (question item))).Asks ask
      (fun answers out => Traversal decides (items.map question) answers ∧
        out = ((items.zip (answers.map Prod.snd)).find? fun (p : γ × β) => decides p.2).map Prod.fst)
      (Interrupted decides (items.map question)) := by
  induction items with
  | nil => exact .pure ⟨.whole rfl nofun, rfl⟩
  | cons item items ih =>
    rw [List.findM?, bind_assoc]
    refine Act.Asks.ask_bind .first fun b => ?_
    rw [pure_bind]
    cases hb : decides b with
    | true =>
      refine .pure ⟨.first hb, ?_⟩
      simp only [List.map_cons, List.zip_cons_cons, List.find?_cons, hb]
      rfl
    | false =>
      refine ih.imp ?_ ?_
      · rintro answers out ⟨hall, rfl⟩
        refine ⟨hall.cons hb, ?_⟩
        simp only [List.map_cons, List.zip_cons_cons, List.find?_cons, hb]
      · intro answers q hq
        exact hq.cons hb

end Loops

/-! ### What the methods ask and give -/

/-- What a method goes over, with the value that it begins with: all elements or, if the first one
    is the value to begin with, those behind it. -/
def traversed (method : Method) (start? : Option Value) (items : List Value) :
    Option (Value × List (Value × Nat)) :=
  match method with
  | .reduce =>
    match start?, items.zipIdx with
    | some v, items => some (v, items)
    | none, (first, _) :: items => some (first, items)
    | none, [] => none
  | _ => some (.undefined, items.zipIdx)

/-- An element, its position and the array. -/
def visitArguments (a : ArrayRef) (item : Value × Nat) : List Value :=
  [item.1, .number (Float.ofNat item.2), .array a]

/-- The arguments of the calls for items, if the calls give certain values: a fold passes on what
    the call before gave. -/
def callArguments (method : Method) (a : ArrayRef) (start : Value) (items : List (Value × Nat))
    (given : List Value) : List (List Value) :=
  match method with
  | .reduce => List.zipWith (fun acc item => acc :: visitArguments a item) (start :: given) items
  | _ => items.map (visitArguments a)

/-- Whether a method has seen enough. -/
def decides (method : Method) (v : Value) : Bool :=
  match method with
  | .find | .findIndex | .some => v.truthy
  | .every => !v.truthy
  | _ => false

/-- A search hits something if an answer decides. -/
theorem isSome_find?_zip {items : List γ} {given : List β} (h : given.length ≤ items.length)
    (p : β → Bool) : ((items.zip given).find? fun q => p q.2).isSome = given.any p := by
  rw [List.isSome_find?]
  calc (items.zip given).any (p ∘ Prod.snd) = ((items.zip given).map Prod.snd).any p :=
        List.any_map.symm
    _ = given.any p := by rw [List.map_snd_zip h]

/-- What a method makes of the items and of what was given for them. -/
def traversalResult (method : Method) (start : Value) (items : List (Value × Nat))
    (given : List Value) : Act σ Value :=
  let hit? := ((items.zip given).find? fun p => p.2.truthy).map Prod.fst
  match method with
  | .map => Act.newArray given.toArray
  | .filter =>
    Act.newArray (((items.zip given).filter fun p => p.2.truthy).map fun p => p.1.1).toArray
  | .find => return (hit?.map Prod.fst).getD .undefined
  | .findIndex => return positionValue (hit?.map Prod.snd)
  | .some => return .bool (given.any Value.truthy)
  | .every => return .bool (given.all Value.truthy)
  | .reduce => return given.getLastD start
  | _ => return .undefined

/-! ### Going over an array -/

namespace Act

variable {limits : Limits} {call : Value → List Value → Act σ Value}

/-- Every call of a fold is given what the call before gave. -/
theorem folded_asks (f : Value) (a : ArrayRef) (start : Value) (items : List (Value × Nat)) :
    (folded limits call f a start items).Asks (callInTurn limits call f)
      (fun answers out =>
        Traversal (fun _ => false)
          (callArguments .reduce a start items (answers.map Prod.snd)) answers ∧
        out = (answers.map Prod.snd).getLastD start)
      (fun answers => Interrupted (fun _ => false)
        (callArguments .reduce a start items (answers.map Prod.snd)) answers) := by
  induction items generalizing start with
  | nil => exact .pure ⟨.whole rfl nofun, rfl⟩
  | cons item items ih =>
    rw [folded, List.foldlM_cons]
    refine Asks.ask_bind (a := start :: visitArguments a item) .first fun v => ?_
    refine (ih v).imp ?_ ?_
    · rintro answers out ⟨hall, rfl⟩
      exact ⟨hall.cons rfl, List.getLastD_cons.symm⟩
    · rintro answers q hq
      exact hq.cons rfl

section Snapshots

variable (f : Value) (a : ArrayRef) (m : Machine σ)

/-- What is mapped is what the calls gave, for the elements that the array had at first. -/
theorem mapped_traverses (next : Array Value → Act σ Value) :
    Traverses (callInTurn limits call f) (fun _ => false)
      (fun _ => (m.heap.array a).toList.zipIdx.map (visitArguments a))
      (fun given => next given.toArray) m ((mapped limits call f a >>= next) m) := by
  have hmapped : (mapped limits call f a >>= next) m =
      ((m.heap.array a).toList.zipIdx.foldlM (fun made item => do
        return made.push (← callInTurn limits call f (visitArguments a item))) #[] >>= next) m :=
    rfl
  refine ((foldlM_asks _ (fun (made : Array Value) _ v => made.push v) _ _).followed hmapped).imp
    ?_ fun _ _ _ _ h => h
  rintro answers m' - ⟨made, ⟨hall, rfl⟩, heq⟩
  refine ⟨hall, heq.trans ?_⟩
  rw [List.foldl_push_eq_append, List.map_snd_zip hall.length_le, Array.empty_append]

/-- What is kept are the elements for which a call gave something true. -/
theorem filtered_traverses (next : Array Value → Act σ Value) :
    Traverses (callInTurn limits call f) (fun _ => false)
      (fun _ => (m.heap.array a).toList.zipIdx.map (visitArguments a))
      (fun given => next ((((m.heap.array a).toList.zipIdx.zip given).filter
        fun p => p.2.truthy).map fun p => p.1.1).toArray)
      m ((filtered limits call f a >>= next) m) := by
  have hfiltered : (filtered limits call f a >>= next) m =
      ((m.heap.array a).toList.zipIdx.foldlM (fun kept item => do
        return if (← callInTurn limits call f (visitArguments a item)).truthy
          then kept.push item.1 else kept) #[] >>= next) m := rfl
  refine ((foldlM_asks _ (fun (kept : Array Value) item v =>
    if v.truthy then kept.push item.1 else kept) _ _).followed hfiltered).imp ?_ fun _ _ _ _ h => h
  rintro answers m' - ⟨kept, ⟨hall, rfl⟩, heq⟩
  refine ⟨hall, heq.trans ?_⟩
  rw [← List.foldl_filter, List.foldl_push_eq_append, Array.empty_append]

/-- What is found is the first element for which a call gave what is wanted. -/
theorem found_traverses (wanted : Bool) (next : Option (Value × Nat) → Act σ Value) :
    Traverses (callInTurn limits call f) (fun v => v.truthy == wanted)
      (fun _ => (m.heap.array a).toList.zipIdx.map (visitArguments a))
      (fun given => next ((((m.heap.array a).toList.zipIdx.zip given).find?
        fun p => p.2.truthy == wanted).map Prod.fst))
      m ((found limits call wanted f a >>= next) m) := by
  have hfound : (found limits call wanted f a >>= next) m =
      (((m.heap.array a).toList.zipIdx.findM? fun item => do
        return (← callInTurn limits call f (visitArguments a item)).truthy == wanted) >>= next) m :=
    rfl
  refine ((findM?_asks _ (fun v => v.truthy == wanted) _).followed hfound).imp ?_
    fun _ _ _ _ h => h
  rintro answers m' - ⟨hit?, ⟨hall, rfl⟩, heq⟩
  exact ⟨hall, heq⟩

/-- What is folded is what the last call gave. -/
theorem folded_traverses (start : Value) (items : List (Value × Nat)) :
    Traverses (callInTurn limits call f) (decides .reduce) (callArguments .reduce a start items)
      (traversalResult .reduce start items) m (folded limits call f a start items m) := by
  refine (folded_asks f a start items m).imp ?_ ?_
  · rintro answers m' - ⟨v, heq, hall, rfl⟩
    exact ⟨hall, heq⟩
  · rintro answers q fault m' ⟨heq, hq⟩
    exact ⟨hq, heq⟩

end Snapshots

variable {method : Method} {a : ArrayRef} {args : List Value} {start : Value}
  {items : List (Value × Nat)} {m : Machine σ}

theorem reduce_eq : arrayResult limits call .reduce a args m =
    (match args[1]?, (m.heap.array a).toList.zipIdx with
      | .some v, items => folded limits call (argument args 0) a v items
      | none, (first, _) :: items => folded limits call (argument args 0) a first items
      | none, [] => throwMistake .emptyFold) m := rfl

theorem arrayResult_traverses (hmethod : takesFunction method = true)
    (hitems : traversed method args[1]? (m.heap.array a).toList = some (start, items)) :
    Traverses (callInTurn limits call (argument args 0)) (decides method)
      (callArguments method a start items) (traversalResult method start items) m
      (arrayResult limits call method a args m) := by
  cases method with
  | map =>
    cases hitems
    exact mapped_traverses _ a m newArray
  | filter =>
    cases hitems
    exact filtered_traverses _ a m newArray
  | forEach =>
    cases hitems
    exact mapped_traverses _ a m fun _ => return .undefined
  | find =>
    cases hitems
    have hfound : Traverses (callInTurn limits call (argument args 0)) _ _ _ m _ :=
      found_traverses _ a m true fun hit? => return (hit?.map Prod.fst).getD .undefined
    simp only [beq_true] at hfound
    exact hfound
  | findIndex =>
    cases hitems
    have hfound : Traverses (callInTurn limits call (argument args 0)) _ _ _ m _ :=
      found_traverses _ a m true fun hit? => return positionValue (hit?.map Prod.snd)
    simp only [beq_true] at hfound
    exact hfound
  | some =>
    cases hitems
    have hfound : Traverses (callInTurn limits call (argument args 0)) _ _ _ m _ :=
      found_traverses _ a m true fun hit? => return .bool hit?.isSome
    simp only [beq_true] at hfound
    refine Traverses.imp hfound fun given hlength => ?_
    rw [Option.isSome_map, isSome_find?_zip hlength Value.truthy]
    rfl
  | every =>
    cases hitems
    have hfound : Traverses (callInTurn limits call (argument args 0)) _ _ _ m _ :=
      found_traverses _ a m false fun hit? => return .bool hit?.isNone
    simp only [beq_false] at hfound
    refine Traverses.imp hfound fun given hlength => ?_
    rw [Option.isNone_map, ← Option.not_isSome,
      isSome_find?_zip hlength (fun v => !Value.truthy v), ← List.all_eq_not_any_not]
    rfl
  | reduce =>
    rw [reduce_eq]
    simp only [traversed] at hitems
    split at hitems
    · rename_i v items heq
      cases hitems
      rw [heq]
      exact folded_traverses _ a m _ _
    · rename_i first _ items hnone hzip
      cases hitems
      rw [hnone, hzip]
      exact folded_traverses _ a m _ _
    · cases hitems
  | _ => cases hmethod

/-- Only a fold can have nothing to go over: the value that it begins with is missing and there is
    no element to take for it. -/
theorem reduce_of_traversed_eq_none
    (hitems : traversed method args[1]? (m.heap.array a).toList = none) :
    arrayResult limits call method a args m = throwMistake .emptyFold m := by
  cases method with
  | reduce =>
    rw [reduce_eq]
    simp only [traversed] at hitems
    split at hitems
    · cases hitems
    · cases hitems
    · rename_i hnone hzip
      rw [hnone, hzip]
  | _ => cases hitems

/-- **Methods go over the elements that an array had when they were called.**  Whatever the function
    does to the array, it is called with the element, its position and the array, a fold with what
    the call before gave in front of them, for one element after the other, until all are done, one
    decides or a call fails.  What the method gives depends on nothing else: what is mapped are as
    many elements as there were, and what is kept are those for which something true was given. -/
theorem callMethod_traverses (limits : Limits) (r : Runner σ) {method : Method} (a : ArrayRef)
    {args : List Value} (m : Machine σ) (hmethod : takesFunction method = true)
    (hfunction : (argument args 0).isFunction = true) :
    (∀ start items, traversed method args[1]? (m.heap.array a).toList = some (start, items) →
      Traverses (callInTurn limits r.callback (argument args 0)) (decides method)
        (callArguments method a start items) (traversalResult method start items) m
        (callMethod limits r method (.array a) args m)) ∧
    (traversed method args[1]? (m.heap.array a).toList = none →
      callMethod limits r method (.array a) args m = throwMistake .emptyFold m) ∧
    (∀ v m', method = .map → callMethod limits r method (.array a) args m = .ok v m' →
      ∃ made, v = .array made ∧ (m'.heap.array made).size = (m.heap.array a).size) := by
  have hcall : callMethod limits r method (.array a) args m =
      arrayResult limits r.callback method a args m := by
    have htakes : (takesFunction method && !(argument args 0).isFunction) = false := by
      rw [hmethod, hfunction]
      rfl
    rw [callMethod, arrayMethod, htakes]
    rfl
  refine ⟨fun start items hitems => ?_, fun hitems => ?_, ?_⟩
  · rw [hcall]
    exact arrayResult_traverses hmethod hitems
  · rw [hcall]
    exact reduce_of_traversed_eq_none hitems
  · rintro v m' rfl h
    exact map_ok a h

/-- An array of two elements. -/
def twoElements : Machine Tree :=
  { Machine.start Tree.root with heap := { Heap.empty with arrays := #[#[.null, .undefined]] } }

/-- A function that puts its arguments behind the elements of that array is called twice, for the
    elements that the array had: then the array has eight elements, and two are mapped. -/
theorem callMethod_traverses_pushing :
    (takesFunction .map = true ∧ (Value.method 0 .push (.array ⟨0⟩)).isFunction = true) ∧
      Traverses (callInTurn {} (runner {}).callback (.method 0 .push (.array ⟨0⟩))) (decides .map)
        (callArguments .map ⟨0⟩ .undefined [(.null, 0), (.undefined, 1)])
        (traversalResult .map .undefined [(.null, 0), (.undefined, 1)]) twoElements
        (callMethod {} (runner {}) .map (.array ⟨0⟩) [.method 0 .push (.array ⟨0⟩)] twoElements) ∧
      (Result.machine (callMethod {} (runner {}) .map (.array ⟨0⟩)
        [.method 0 .push (.array ⟨0⟩)] twoElements)).heap.arrays.map Array.size = #[8, 2] := by
  have hfunction : (argument [.method 0 .push (.array ⟨0⟩)] 0).isFunction = true := rfl
  have hmap : takesFunction .map = true := rfl
  refine ⟨⟨rfl, rfl⟩, ?_, by decide +kernel⟩
  exact (callMethod_traverses {} (runner {}) ⟨0⟩ twoElements hmap hfunction).1 .undefined _ rfl

end Act

end MemoryShell.Script
