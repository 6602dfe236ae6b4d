/-
  MemoryShell/Proofs/Script/ArraysKept.lean
  =========================================
  **What leaves all arrays as they are.**

  Arrays change only where one is made, where an element or the length of one is written, and in
  the methods that change the array that they are called on.  Everything else on the heap is kept
  apart from them, so most of what a script can do, from declaring a variable to calling the method
  of a string, leaves every array as it was.
-/
import MemoryShell.Proofs.Script.Heaps
import MemoryShell.Proofs.Script.Properties
import MemoryShell.Script.Evaluation

namespace MemoryShell.Script

variable {σ α β : Type} {limits : Limits}

namespace Act

/-- However the act ends, every array is as it was. -/
def KeepsArrays (act : Act σ α) : Prop :=
  ∀ m, (Result.machine (act m)).heap.arrays = m.heap.arrays

namespace KeepsArrays

variable {act : Act σ α}

/-! ### Sequences -/

theorem bind {next : α → Act σ β} (h : KeepsArrays act) (hnext : ∀ a, KeepsArrays (next a)) :
    KeepsArrays (act >>= next) := by
  intro m
  have hact := h m
  cases heq : act m with
  | ok a m' =>
    rw [heq] at hact
    rw [bind_of_ok heq]
    exact (hnext a m').trans hact
  | error fault m' =>
    rw [heq] at hact
    rw [bind_of_error heq]
    exact hact

theorem pure (a : α) : KeepsArrays (pure a : Act σ α) := fun _ => rfl

theorem map (f : α → β) (h : KeepsArrays act) : KeepsArrays (do return f (← act)) :=
  h.bind fun _ => .pure _

theorem mapM {f : α → Act σ β} (h : ∀ a, KeepsArrays (f a)) (as : List α) :
    KeepsArrays (as.mapM f) := by
  induction as with
  | nil => exact .pure _
  | cons a as ih =>
    rw [List.mapM_cons]
    exact (h a).bind fun _ => ih.bind fun _ => .pure _

theorem forM {f : α → Act σ PUnit} (h : ∀ a, KeepsArrays (f a)) (as : List α) :
    KeepsArrays (as.forM f) := by
  induction as with
  | nil => exact .pure _
  | cons a as ih => exact (h a).bind fun _ => ih

/-! ### Looking and changing -/

theorem fail (fault : Fault) : KeepsArrays (fail fault : Act σ α) := fun _ => rfl

theorem look (f : Machine σ → α) : KeepsArrays (look f) := fun _ => rfl

theorem lookHeap (f : Heap → α) : KeepsArrays (lookHeap f : Act σ α) := .look _

theorem display (v : Value) : KeepsArrays (display v : Act σ String) := .look _

theorem number (v : Value) : KeepsArrays (number v : Act σ Float) := .look _

theorem note (e : Event) : KeepsArrays (note e : Act σ Unit) := fun _ => rfl

theorem write (text : String) : KeepsArrays (write text : Act σ Unit) := fun _ => rfl

theorem changeHeap {f : Heap → Heap} (h : ∀ heap, (f heap).arrays = heap.arrays) :
    KeepsArrays (changeHeap f : Act σ Unit) := fun m => h m.heap

theorem withHeap {f : Heap → α × Heap} (h : ∀ heap, (f heap).2.arrays = heap.arrays) :
    KeepsArrays (withHeap f : Act σ α) := fun m => h m.heap

theorem need (a? : Option α) : KeepsArrays (need a? : Act σ α) := by
  cases a? with
  | none => exact .fail _
  | some a => exact .pure a

theorem throwMistake (e : Mistake) : KeepsArrays (throwMistake e : Act σ α) :=
  bind (.withHeap fun _ => rfl) fun _ => .fail _

theorem newObject (members : Dict Value) : KeepsArrays (newObject members : Act σ Value) :=
  .withHeap fun _ => rfl

theorem newScope (env : Env) (frame : Frame) : KeepsArrays (newScope env frame : Act σ Env) :=
  .withHeap fun _ => rfl

theorem newClosure (d : FunctionDef) (env : Env) : KeepsArrays (newClosure d env : Act σ Value) :=
  .withHeap fun _ => rfl

theorem newNative (f : Native) : KeepsArrays (newNative f : Act σ Value) := .withHeap fun _ => rfl

theorem changeHost (f : σ → Except Tree.Error Unit × σ) : KeepsArrays (changeHost f) := by
  intro m
  unfold Act.changeHost
  split
  · rfl
  · exact throwMistake _ _

theorem beginTurn : KeepsArrays (beginTurn limits : Act σ Unit) := by
  intro m
  unfold Act.beginTurn
  split <;> rfl

theorem checkText (v : Value) : KeepsArrays (checkText limits v : Act σ Value) := by
  unfold Act.checkText
  split
  · split
    · exact .throwMistake _
    · exact .pure _
  · exact .pure _

/-! ### Variables -/

theorem variableValue (name : String) (env : Env) :
    KeepsArrays (variableValue name env : Act σ Value) := by
  refine (lookHeap _).bind fun found => ?_
  split
  · exact .pure _
  · split
    · exact .pure _
    · exact .throwMistake _

theorem declareVariable (env : Env) (name : String) (v : Value) (isMutable : Bool) :
    KeepsArrays (declareVariable env name v isMutable : Act σ Unit) := by
  cases env with
  | nil => exact .pure ()
  | cons frame outer => exact .changeHeap fun _ => rfl

theorem declareGlobal (name : String) (v : Value) :
    KeepsArrays (declareGlobal name v : Act σ Unit) := .changeHeap fun _ => rfl

theorem assignVariable (name : String) (v : Value) (env : Env) :
    KeepsArrays (assignVariable name v env : Act σ Unit) := by
  refine (withHeap fun h => h.arrays_assign env name v).bind fun outcome => ?_
  split
  · exact .pure _
  · exact .throwMistake _
  · exact .declareGlobal _ _

theorem hoist (body : List Stmt) (env : Env) : KeepsArrays (hoist body env : Act σ Unit) := by
  refine .forM (fun s => ?_) body
  split
  · exact (newClosure _ _).bind fun _ => .declareVariable _ _ _ _
  · exact .pure _

theorem itemScope (kind : Option DeclKind) (name : String) (env : Env) (item : Value) :
    KeepsArrays (itemScope kind name env item : Act σ Env) := by
  refine (newScope _ _).bind fun scope => ?_
  cases kind with
  | none => exact (assignVariable _ _ _).bind fun _ => .pure _
  | some kind => exact (declareVariable _ _ _ _).bind fun _ => .pure _

theorem itemsOf (v : Value) : KeepsArrays (itemsOf v : Act σ (List Value)) := by
  unfold Act.itemsOf
  split
  · exact (lookHeap _).map _
  · exact .pure _
  · exact (display _).bind fun _ => .throwMistake _

/-! ### Properties -/

theorem getProperty (object : Value) (key : String) :
    KeepsArrays (getProperty object key : Act σ Value) := by
  intro m
  obtain ⟨read, hread, heq⟩ := (getProperty_among object key).on m
  rw [heq]
  cases hread with
  | give | newMethod => rfl
  | refuse h e => exact KeepsArrays.throwMistake e m

theorem ownEntries (v : Value) : KeepsArrays (ownEntries v : Act σ (List (String × Value))) :=
  (lookHeap _).bind fun _ => .mapM (fun _ => (getProperty _ _).map _) _

/-! ### Methods of strings, numbers and objects

Of these only the one that splits a string makes an array. -/

theorem argumentText (args : List Value) (i : Nat) :
    KeepsArrays (argumentText args i : Act σ (List Char)) := (display _).map _

theorem argumentNumber (args : List Value) (i : Nat) :
    KeepsArrays (argumentNumber args i : Act σ Float) := .number _

theorem repeatText (s : String) (args : List Value) :
    KeepsArrays (repeatText limits s args : Act σ Value) := by
  refine (argumentNumber _ _).bind fun x => ?_
  dsimp only
  split
  · exact .throwMistake _
  · split
    · exact .throwMistake _
    · split
      · exact .pure _
      · exact .pure _

theorem padText (before : Bool) (s : String) (args : List Value) :
    KeepsArrays (padText limits before s args : Act σ Value) := by
  refine (argumentNumber _ _).bind fun x => ?_
  dsimp only
  split
  · exact .throwMistake _
  · have hrest (fill : String) : KeepsArrays (do
        let length := (integerPart x).toUInt64.toNat
        if length ≤ s.length || fill.isEmpty then return .string s
        else
          let extra := filling (← Act.need (without? length s.length)) fill
          return .string (if before then extra ++ s else s ++ extra) : Act σ Value) := by
      dsimp only
      split
      · exact .pure _
      · exact (need _).map _
    split
    · exact (pure _).bind hrest
    · exact (display _).bind hrest

theorem clampedOr (default : Nat) (v : Value) (length : Nat) :
    KeepsArrays (clampedOr default v length : Act σ Nat) := by
  unfold Act.clampedOr
  split
  · exact .pure _
  · exact (number _).map _

theorem stringResult {method : Method} (hmethod : method ≠ .split) (s : String)
    (args : List Value) : KeepsArrays (stringResult limits method s args : Act σ Value) := by
  cases method with
  | split => exact absurd rfl hmethod
  | at_ => exact (argumentNumber _ _).map _
  | charAt | charCodeAt =>
    refine (argumentNumber _ _).bind fun x => ?_
    split
    · exact (need _).map _
    · exact .pure _
  | indexOf | lastIndexOf | includes | startsWith | endsWith => exact (argumentText _ _).map _
  | slice => exact (lookHeap _).bind fun _ => (need _).map _
  | substring =>
    exact (clampedOr _ _ _).bind fun _ => (clampedOr _ _ _).bind fun _ => (need _).map _
  | replace | replaceAll => exact (argumentText _ _).bind fun _ => (argumentText _ _).map _
  | repeat_ => exact .repeatText _ _
  | padStart | padEnd => exact .padText _ _ _
  | concat => exact (mapM (fun _ => .display _) _).map _
  | _ => exact .pure _

theorem stringMethod {method : Method} (hmethod : method ≠ .split) (s : String)
    (args : List Value) : KeepsArrays (stringMethod limits method s args : Act σ Value) :=
  (stringResult hmethod _ _).bind fun _ => .checkText _

theorem numberMethod (method : Method) (x : Float) (args : List Value) :
    KeepsArrays (numberMethod method x args : Act σ Value) := by
  unfold Act.numberMethod
  split
  · exact (number _).map _
  · exact .pure _
  · exact (number _).map _

theorem objectMethod (method : Method) (r : ObjectRef) (args : List Value) :
    KeepsArrays (objectMethod method r args : Act σ Value) := by
  unfold Act.objectMethod
  split
  · split
    · exact (pure _).bind fun _ => .lookHeap _
    · exact (display _).bind fun _ => .lookHeap _
  · exact (display _).map _

theorem countUpTo (most : Nat) (count : Option Value) :
    KeepsArrays (countUpTo most count : Act σ Nat) := by
  cases count with
  | none => exact .pure _
  | some v => exact (number _).map _

theorem joined (r : ArrayRef) (separator : Value) :
    KeepsArrays (joined limits r separator : Act σ Value) := by
  have hrest (text : String) : KeepsArrays (do
      let count := (← Act.elements r).size
      if text.utf8ByteSize * (count - 1) > limits.maxStringLength then
        Act.throwMistake .stringLength
      else
        Act.checkText limits (← Act.lookHeap fun h =>
          .string (h.joinText text (h.array r).toList)) : Act σ Value) := by
    refine (lookHeap _).bind fun items => ?_
    dsimp only
    split
    · exact .throwMistake _
    · exact (lookHeap _).bind fun _ => .checkText _
  unfold Act.joined
  split
  · exact (pure _).bind hrest
  · exact (display _).bind hrest

/-! ### Ready-made functions -/

theorem stringify (v layout : Value) : KeepsArrays (stringify v layout : Act σ Value) := by
  refine (lookHeap _).bind fun document => ?_
  split
  · exact .pure _
  · exact .pure _
  · exact .throwMistake _

theorem newNamespace (functions : List Native) :
    KeepsArrays (newNamespace functions : Act σ Value) :=
  (mapM (fun _ => (newNative _).map _) _).bind fun _ => .newObject _

theorem assignFrom (r : ObjectRef) (source : Value) :
    KeepsArrays (assignFrom r source : Act σ Unit) := by
  refine (ownEntries source).bind fun entries => forM (fun entry => ?_) entries
  exact .changeHeap fun _ => rfl

theorem changeRandom (v : Machine σ → Value) (f : Nat → Nat) :
    KeepsArrays (fun m => .ok (v m) { m with random := f m.random } : Act σ Value) := fun _ => rfl

theorem radixOf (v : Value) : KeepsArrays (radixOf v : Act σ Nat) := by
  unfold Act.radixOf
  split
  · exact .pure _
  · exact (number _).map _

theorem writeLine (line : List String → String) (args : List Value) :
    KeepsArrays (writeLine line args : Act σ Value) :=
  (mapM (fun _ => .display _) _).bind fun _ => (write _).bind fun _ => .pure _

end KeepsArrays

/-! ### The functions that make arrays -/

/-- Whether a ready-made function makes arrays. -/
def makesArrays : Native → Bool
  | .keys | .values | .entries | .readDirectory | .parseJson => true
  | _ => false

namespace KeepsArrays

theorem callNative [Host σ] {f : Native} (hf : makesArrays f = false) (args : List Value) :
    KeepsArrays (callNative f args : Act σ Value) := by
  cases f with
  | keys | values | entries | readDirectory | parseJson => cases hf
  | consoleLog | consoleWarn | consoleError => exact .writeLine _ _
  | output => exact (display _).bind fun _ => (write _).map _
  | require =>
    refine (display _).bind fun name => ?_
    split
    · exact .newNamespace _
    · exact .throwMistake _
  | env | readFile | fileExists => exact (display _).bind fun _ => .look _
  | cwd => exact .look _
  | exit => exact (display _).bind fun _ => .throwMistake _
  | writeFile => exact (display _).bind fun _ => (display _).bind fun _ => (changeHost _).map _
  | unlink | makeDirectory => exact (display _).bind fun _ => (changeHost _).map _
  | floor | ceil | round | trunc | abs | sign | sqrt => exact (number _).map _
  | pow => exact (number _).bind fun _ => (number _).map _
  | min | max => exact (mapM (fun _ => .number _) _).map _
  | random => exact .changeRandom (fun m => .number (randomNumber m.random)) nextRandom
  | stringify => exact .stringify _ _
  | assign =>
    simp only [Act.callNative]
    split
    · exact (forM (fun _ => .assignFrom _ _) _).map _
    · exact .pure _
  | isArray | toBool => exact .pure _
  | toNumber =>
    simp only [Act.callNative]
    split
    · exact .pure _
    · exact (number _).map _
  | toText =>
    simp only [Act.callNative]
    split
    · exact .pure _
    · exact (display _).map _
  | parseInt => exact (display _).bind fun _ => (radixOf _).map _
  | parseFloat => exact (display _).map _
  | isNaN | isFinite => exact (number _).map _
  | makeError kind =>
    simp only [Act.callNative]
    split
    · exact (pure _).bind fun _ => .withHeap fun _ => rfl
    · exact (display _).bind fun _ => .withHeap fun _ => rfl

/-! ### The outermost scope -/

theorem newMath : KeepsArrays (newMath : Act σ Value) :=
  (mapM (fun _ => (newNative _).map _) _).bind fun _ => .newObject _

theorem newProcess [Host σ] : KeepsArrays (newProcess : Act σ Value) :=
  (look _).bind fun _ => (newObject _).bind fun _ => (newNative _).bind fun _ =>
    (newNative _).bind fun _ => .newObject _

theorem installGlobals [Host σ] : KeepsArrays (installGlobals : Act σ Unit) :=
  (newNamespace _).bind fun _ => newProcess.bind fun _ => (newNative _).bind fun _ =>
    (newNative _).bind fun _ => (newObject _).bind fun _ => (declareGlobal _ _).bind fun _ =>
    (declareGlobal _ _).bind fun _ => (declareGlobal _ _).bind fun _ =>
    (declareGlobal _ _).bind fun _ => newMath.bind fun _ => (declareGlobal _ _).bind fun _ =>
    (newNamespace _).bind fun _ => (declareGlobal _ _).bind fun _ =>
    (newNamespace _).bind fun _ => (declareGlobal _ _).bind fun _ =>
    (newNamespace _).bind fun _ => (declareGlobal _ _).bind fun _ =>
    (forM (fun _ => (newNative _).bind fun _ => .declareGlobal _ _) _).bind fun _ =>
    (declareGlobal _ _).bind fun _ => .declareGlobal _ _

end KeepsArrays

end Act

end MemoryShell.Script
