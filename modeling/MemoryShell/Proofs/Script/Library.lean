/-
  MemoryShell/Proofs/Script/Library.lean
  ======================================
  **What is ready-made for scripts takes a course.**

  Ready-made functions and methods look at the machine, change the heap, write lines and ask the
  host.  Only the methods of arrays call back into the script; each such call and each comparison is
  work in a turn of its own, so the calls need to take a course only within a smaller budget.
-/
import MemoryShell.Proofs.Script.Properties
import MemoryShell.Proofs.Script.Within

namespace MemoryShell.Script

variable {σ : Type} [Host σ] {limits : Limits} {k : Nat}

namespace Act.Within

/-! ### Properties -/

theorem getProperty (object : Value) (key : String) :
    Within limits k (getProperty object key : Act σ Value) := by
  intro m hm
  obtain ⟨read, hread, heq⟩ := (getProperty_among object key).on m
  rw [heq]
  cases hread with
  | give v => exact Within.pure v m hm
  | newMethod method => exact Within.newMethod method object m hm
  | refuse h e => exact Within.throwMistake e m hm

theorem setProperty (object : Value) (key : String) (v : Value) :
    Within limits k (setProperty limits object key v : Act σ Unit) := by
  intro m hm
  obtain ⟨write, hwrite, heq⟩ := (setProperty_among object key v).on m
  rw [heq]
  cases hwrite with
  | skip => exact Within.pure () m hm
  | changeArray a f => exact Within.changeHeap (fun heap => .changeArray heap a f) m hm
  | setMember o key v => exact Within.changeHeap (fun heap => .setMember heap o key v) m hm
  | refuse _ e => exact Within.throwMistake e m hm
  | block => exact .block m

/-! ### Documents -/

theorem stringify (v layout : Value) : Within limits k (stringify v layout : Act σ Value) := by
  refine (lookHeap _).bind fun document => ?_
  split
  · exact .pure _
  · exact .pure _
  · exact .throwMistake _

theorem parseText (source : String) : Within limits k (parseText source : Act σ Value) := by
  unfold Act.parseText
  split
  · exact .withHeap fun heap => heap.steps_ofDocument _
  · exact .throwMistake _

/-! ### Ready-made functions -/

theorem newNamespace (functions : List Native) :
    Within limits k (newNamespace functions : Act σ Value) :=
  (mapM (fun _ => (newNative _).map _) _).bind fun _ => .newObject _

theorem ownEntries (v : Value) :
    Within limits k (ownEntries v : Act σ (List (String × Value))) :=
  (lookHeap _).bind fun _ => .mapM (fun _ => (getProperty _ _).map _) _

theorem assignFrom (r : ObjectRef) (source : Value) :
    Within limits k (assignFrom r source : Act σ Unit) :=
  (ownEntries _).bind fun _ => .forM (fun _ => .changeHeap fun heap => .setMember heap r _ _) _

theorem firstText (args : List Value) : Within limits k (firstText args : Act σ String) :=
  .display _

theorem onNumber (f : Float → Float) (args : List Value) :
    Within limits k (onNumber f args : Act σ Value) := (number _).map _

theorem radixOf (v : Value) : Within limits k (radixOf v : Act σ Nat) := by
  unfold Act.radixOf
  split
  · exact .pure _
  · exact (number _).map _

/-- A written line ends with a line break, whatever it says. -/
theorem writeLine (line : List String → String) (args : List Value) :
    Within limits k (writeLine (fun texts => line texts ++ Console.lineBreak) args : Act σ Value) :=
  (mapM (fun _ => .display _) _).bind fun _ => (write _).bind fun _ => .pure _

theorem newError (kind : ErrorKind) (message : String) :
    Within limits k
      (Act.withHeap fun heap =>
        (Value.object (heap.newError kind message).1, (heap.newError kind message).2) :
        Act σ Value) :=
  withHeap fun heap => (Heap.Step.newObject heap _).steps

theorem callNative (f : Native) (args : List Value) :
    Within limits k (callNative f args : Act σ Value) := by
  cases f with
  | consoleLog => exact .writeLine _ _
  | consoleWarn => exact .writeLine _ _
  | consoleError => exact .writeLine _ _
  | output => exact (firstText _).bind fun _ => (write _).bind fun _ => .pure _
  | require =>
    refine (firstText _).bind fun name => ?_
    split
    · exact .newNamespace _
    · exact .throwMistake _
  | env => exact (firstText _).bind fun _ => .look _
  | cwd => exact .look _
  | exit => exact (firstText _).bind fun _ => .throwMistake _
  | readFile => exact (firstText _).bind fun _ => .look _
  | writeFile =>
    exact (firstText _).bind fun _ => (display _).bind fun _ =>
      (changeHost (.write _ _)).bind fun _ => .pure _
  | unlink => exact (firstText _).bind fun _ => (changeHost (.unlink _)).bind fun _ => .pure _
  | makeDirectory =>
    exact (firstText _).bind fun _ => (changeHost (.makeDirectory _)).bind fun _ => .pure _
  | fileExists => exact (firstText _).bind fun _ => .look _
  | readDirectory => exact (firstText _).bind fun _ => (askHost _).bind fun _ => .newArray _
  | floor | ceil | round | trunc | abs | sign | sqrt => exact .onNumber _ _
  | pow => exact (number _).bind fun _ => (number _).map _
  | min | max => exact (mapM (fun _ => .number _) _).map _
  | random => exact fun m _ => .random m _
  | stringify => exact .stringify _ _
  | parseJson => exact (firstText _).bind fun _ => .parseText _
  | keys => exact (lookHeap _).bind fun _ => .newArray _
  | values => exact (ownEntries _).bind fun _ => .newArray _
  | entries =>
    exact (ownEntries _).bind fun _ => (mapM (fun _ => .newArray _) _).bind fun _ => .newArray _
  | assign =>
    simp only [Act.callNative]
    split
    · exact (forM (fun _ => .assignFrom _ _) _).bind fun _ => .pure _
    · exact .pure _
  | isArray => exact .pure _
  | toNumber =>
    simp only [Act.callNative]
    split
    · exact .pure _
    · exact .onNumber _ _
  | toText =>
    simp only [Act.callNative]
    split
    · exact .pure _
    · exact (display _).map _
  | toBool => exact .pure _
  | parseInt => exact (firstText _).bind fun _ => (radixOf _).map _
  | parseFloat => exact (firstText _).map _
  | isNaN => exact (number _).map _
  | isFinite => exact (number _).map _
  | makeError kind =>
    simp only [Act.callNative]
    split
    · exact (pure _).bind fun _ => .newError kind _
    · exact (display _).bind fun _ => .newError kind _

/-! ### The outermost scope -/

theorem declareGlobal (name : String) (v : Value) :
    Within limits k (declareGlobal name v : Act σ Unit) :=
  .changeHeap fun heap => .declare heap globalFrame name v true

theorem newMath : Within limits k (newMath : Act σ Value) :=
  (mapM (fun _ => (newNative _).map _) _).bind fun _ => .newObject _

theorem newProcess : Within limits k (newProcess : Act σ Value) :=
  (look _).bind fun _ => (newObject _).bind fun _ => (newNative _).bind fun _ =>
    (newNative _).bind fun _ => .newObject _

theorem installGlobals : Within limits k (installGlobals : Act σ Unit) :=
  (newNamespace _).bind fun _ => newProcess.bind fun _ => (newNative _).bind fun _ =>
    (newNative _).bind fun _ => (newObject _).bind fun _ => (declareGlobal _ _).bind fun _ =>
    (declareGlobal _ _).bind fun _ => (declareGlobal _ _).bind fun _ =>
    (declareGlobal _ _).bind fun _ => newMath.bind fun _ => (declareGlobal _ _).bind fun _ =>
    (newNamespace _).bind fun _ => (declareGlobal _ _).bind fun _ =>
    (newNamespace _).bind fun _ => (declareGlobal _ _).bind fun _ =>
    (newNamespace _).bind fun _ => (declareGlobal _ _).bind fun _ =>
    (forM (fun _ => (newNative _).bind fun _ => .declareGlobal _ _) _).bind fun _ =>
    (declareGlobal _ _).bind fun _ => .declareGlobal _ _

end Act.Within

end MemoryShell.Script
