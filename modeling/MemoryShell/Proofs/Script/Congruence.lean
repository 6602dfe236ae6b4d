/-
  MemoryShell/Proofs/Script/Congruence.lean
  =========================================
  **Expressions, statements and calls are determined by what is nested in them.**

  Each is described in terms of a runner for what is nested, and does nothing with the runner but
  run jobs on it.  So a relation between acts that goes through sequences, handlers and finalizers,
  and that holds of every act in which nothing is nested, holds of an expression, a statement or a
  call over two runners as soon as it holds of the jobs.
-/
import MemoryShell.Script.Run

namespace MemoryShell.Script

variable {σ α β : Type} {limits : Limits}

namespace Act

/-! ### Acts in which nothing is nested -/

/-- The acts besides jobs that expressions, statements and calls are made of, but for those that
    make an array or write to a property. -/
inductive Leaf (limits : Limits) : {α : Type} → Act σ α → Prop where
  | pure {α : Type} (a : α) : Leaf limits (pure a)
  | fail {α : Type} (fault : Fault) : Leaf limits (fail fault : Act σ α)
  | note (e : Event) : Leaf limits (note e)
  | look {α : Type} (f : Machine σ → α) : Leaf limits (look f)
  | throwMistake {α : Type} (e : Mistake) : Leaf limits (throwMistake e : Act σ α)
  | beginTurn : Leaf limits (beginTurn limits)
  | checkText (v : Value) : Leaf limits (checkText limits v)
  | newObject (members : Dict Value) : Leaf limits (newObject members)
  | newScope (env : Env) (frame : Frame) : Leaf limits (newScope env frame)
  | newClosure (d : FunctionDef) (env : Env) : Leaf limits (newClosure d env)
  | variableValue (name : String) (env : Env) : Leaf limits (variableValue name env)
  | declareVariable (env : Env) (name : String) (v : Value) (isMutable : Bool) :
    Leaf limits (declareVariable env name v isMutable)
  | assignVariable (name : String) (v : Value) (env : Env) :
    Leaf limits (assignVariable name v env)
  | getProperty (object : Value) (key : String) : Leaf limits (getProperty object key)
  | hoist (body : List Stmt) (env : Env) : Leaf limits (hoist body env)
  | itemScope (kind : Option DeclKind) (name : String) (env : Env) (item : Value) :
    Leaf limits (itemScope kind name env item)
  | itemsOf (v : Value) : Leaf limits (itemsOf v)
  | numberMethod (method : Method) (x : Float) (args : List Value) :
    Leaf limits (numberMethod method x args)
  | objectMethod (method : Method) (object : ObjectRef) (args : List Value) :
    Leaf limits (objectMethod method object args)

namespace Leaf

theorem lookHeap (f : Heap → α) : Leaf limits (lookHeap f : Act σ α) := .look _

theorem display (v : Value) : Leaf limits (display v : Act σ String) := .look _

theorem number (v : Value) : Leaf limits (number v : Act σ Float) := .look _

theorem elements (a : ArrayRef) : Leaf limits (elements a : Act σ (Array Value)) := .look _

end Leaf

theorem catching_none {act : Act σ Flow} : catching act none = act := by
  funext m
  unfold catching
  rcases act m with _ | ⟨_ | _, _⟩ <;> rfl

/-! ### Relations between acts -/

/-- A relation between acts that goes through how acts are put together. -/
structure Congruence (σ : Type) (limits : Limits) where
  /-- What is related. -/
  Rel : {α : Type} → Act σ α → Act σ α → Prop
  bind {α β : Type} {act act' : Act σ α} {next next' : α → Act σ β} :
    Rel act act' → (∀ a, Rel (next a) (next' a)) → Rel (act >>= next) (act' >>= next')
  catching {act act' : Act σ Flow} {handler handler' : Value → Act σ Flow} : Rel act act' →
    (∀ v, Rel (handler v) (handler' v)) →
      Rel (catching act (some handler)) (catching act' (some handler'))
  finalizing {act act' finalizer finalizer' : Act σ Flow} : Rel act act' →
    Rel finalizer finalizer' → Rel (finalizing act finalizer) (finalizing act' finalizer')
  leaf {α : Type} {act : Act σ α} : act.Leaf limits → Rel act act
  setProperty (object : Value) (key : String) (v : Value) :
    Rel (setProperty limits object key v) (setProperty limits object key v)

namespace Congruence

variable (C : Congruence σ limits)

/-- Two runners on which expressions and statements are related. -/
structure Nested (r r' : Runner σ) : Prop where
  eval (e : Expr) (env : Env) : C.Rel (r.eval e env) (r'.eval e env)
  exec (s : Stmt) (env : Env) : C.Rel (r.exec s env) (r'.exec s env)

/-- Two runners on which calls are related as well. -/
structure Jobs (r r' : Runner σ) : Prop extends C.Nested r r' where
  call (f this : Value) (args : List Value) : C.Rel (r.call f this args) (r'.call f this args)

variable {C} {act act' : Act σ α} {r r' : Runner σ}

theorem Jobs.of_run (h : ∀ {α : Type} (job : Job α), C.Rel (r.run job) (r'.run job)) :
    C.Jobs r r' :=
  ⟨⟨fun e env => h (.eval e env), fun s env => h (.exec s env)⟩,
    fun f this args => h (.call f this args)⟩

namespace Rel

/-! ### Sequences -/

theorem bind {next next' : α → Act σ β} (h : C.Rel act act')
    (hnext : ∀ a, C.Rel (next a) (next' a)) : C.Rel (act >>= next) (act' >>= next') :=
  C.bind h hnext

theorem leaf (h : act.Leaf limits) : C.Rel act act := C.leaf h

theorem pure (a : α) : C.Rel (Pure.pure a) (Pure.pure a) := leaf (.pure a)

theorem fail (fault : Fault) : C.Rel (Act.fail fault : Act σ α) (Act.fail fault) :=
  leaf (.fail fault)

theorem note (e : Event) : C.Rel (Act.note e) (Act.note e) := leaf (.note e)

theorem beginTurn : C.Rel (Act.beginTurn limits) (Act.beginTurn limits) := leaf .beginTurn

theorem map (f : α → β) (h : C.Rel act act') :
    C.Rel (do return f (← act)) (do return f (← act')) := by
  apply h.bind
  intro a
  exact pure (f a)

theorem mapM {f f' : α → Act σ β} (h : ∀ a, C.Rel (f a) (f' a)) (as : List α) :
    C.Rel (as.mapM f) (as.mapM f') := by
  induction as with
  | nil => exact pure []
  | cons a as ih =>
    rw [List.mapM_cons, List.mapM_cons]
    apply (h a).bind
    intro b
    exact ih.map _

theorem forM {f f' : α → Act σ PUnit} (h : ∀ a, C.Rel (f a) (f' a)) (as : List α) :
    C.Rel (as.forM f) (as.forM f') := by
  induction as with
  | nil => exact pure _
  | cons a as ih =>
    apply (h a).bind
    intro _
    exact ih

theorem foldlM {f f' : β → α → Act σ β} (h : ∀ b a, C.Rel (f b a) (f' b a)) (as : List α)
    (b : β) : C.Rel (as.foldlM f b) (as.foldlM f' b) := by
  induction as generalizing b with
  | nil => exact pure b
  | cons a as ih =>
    rw [List.foldlM_cons, List.foldlM_cons]
    exact (h b a).bind ih

theorem findM? {p p' : α → Act σ Bool} (h : ∀ a, C.Rel (p a) (p' a)) (as : List α) :
    C.Rel (as.findM? p) (as.findM? p') := by
  induction as with
  | nil => exact pure none
  | cons a as ih =>
    apply (h a).bind
    intro found
    cases found with
    | true => exact pure (some a)
    | false => exact ih

/-! ### Rounds -/

theorem repeatFrom {round round' : Act σ (Option Flow)} (h : C.Rel round round')
    (rounds : Nat) :
    C.Rel (repeatFrom round rounds) (repeatFrom round' rounds) := by
  induction rounds with
  | zero => exact fail .exhausted
  | succ rounds ih =>
    apply h.bind
    intro end?
    cases end? with
    | none => exact ih
    | some flow => exact pure flow

theorem eachItem {round round' : Value → Act σ (Option Flow)}
    (h : ∀ item, C.Rel (round item) (round' item)) (items : List Value) :
    C.Rel (eachItem round items) (eachItem round' items) := by
  induction items with
  | nil => exact pure _
  | cons item rest ih =>
    apply (h item).bind
    intro end?
    cases end? with
    | some flow => exact pure flow
    | none => exact ih

/-! ### Sorting -/

section Sorting

variable {after after' : Value → Value → Act σ Bool}
  (h : ∀ a b, C.Rel (after a b) (after' a b))
include h

theorem mergeOnto (merged : List Value) (n : Nat) (as bs : List Value) :
    C.Rel (mergeOnto after merged n as bs) (mergeOnto after' merged n as bs) := by
  induction n generalizing merged as bs with
  | zero => exact pure _
  | succ n ih =>
    cases as with
    | nil => exact pure _
    | cons a as =>
      cases bs with
      | nil => exact pure _
      | cons b bs =>
        apply (h a b).bind
        intro isAfter
        cases isAfter with
        | true => exact ih (b :: merged) (a :: as) bs
        | false => exact ih (a :: merged) as (b :: bs)

theorem mergePairs (merged runs : List (List Value)) :
    C.Rel (mergePairs after merged runs) (mergePairs after' merged runs) := by
  induction merged, runs using Script.mergePairs.induct with
  | case1 merged as bs rest ih =>
    apply (mergeOnto h [] _ as bs).bind
    intro run
    exact ih run
  | case2 merged runs hshort =>
    cases runs with
    | nil => exact pure _
    | cons as runs =>
      cases runs with
      | nil => exact pure _
      | cons bs rest => exact absurd rfl (hshort as bs rest)

theorem mergeRuns (n : Nat) (runs : List (List Value)) :
    C.Rel (mergeRuns after n runs) (mergeRuns after' n runs) := by
  induction n generalizing runs with
  | zero => exact pure _
  | succ n ih =>
    cases runs with
    | nil => exact pure _
    | cons as runs =>
      cases runs with
      | nil => exact pure _
      | cons bs rest =>
        apply (mergePairs h [] (as :: bs :: rest)).bind
        intro runs
        exact ih runs

theorem sortBy (values : List Value) : C.Rel (sortBy after values) (sortBy after' values) :=
  mergeRuns h values.length _

end Sorting

/-! ### Jobs in a row and in rounds -/

theorem evalAll (h : C.Nested r r') (es : List Expr) (env : Env) :
    C.Rel (evalAll r es env) (evalAll r' es env) := by
  apply mapM
  intro e
  exact h.eval e env

theorem execAll (h : C.Nested r r') (env : Env) (body : List Stmt) :
    C.Rel (execAll r env body) (execAll r' env body) := by
  induction body with
  | nil => exact pure _
  | cons s rest ih =>
    apply (h.exec s env).bind
    intro flow
    cases flow with
    | normal => exact ih
    | returned v => exact pure _
    | broken => exact pure _
    | continued => exact pure _

theorem execLoopBody (h : C.Nested r r') (body : Stmt) (env : Env) :
    C.Rel (execLoopBody r body env) (execLoopBody r' body env) := by
  apply (note (.worked .body)).bind
  intro _
  exact (h.exec body env).map _

theorem bodyTurn (h : C.Nested r r') (body : Stmt) (env : Env) :
    C.Rel (bodyTurn limits r body env) (bodyTurn limits r' body env) := by
  apply beginTurn.bind
  intro _
  exact execLoopBody h body env

theorem testHolds (h : C.Nested r r') (test : Option Expr) (env : Env) :
    C.Rel (testHolds r test env) (testHolds r' test env) := by
  cases test with
  | none => exact pure true
  | some e => exact (h.eval e env).map _

theorem advance (h : C.Nested r r') (update : Option Expr) (env : Env) :
    C.Rel (advance r update env) (advance r' update env) := by
  cases update with
  | none => exact pure ()
  | some e => exact (h.eval e env).map _

theorem testedRound (h : C.Nested r r') (test update : Option Expr) (body : Stmt)
    (env : Env) :
    C.Rel (testedRound limits r test update body env)
      (testedRound limits r' test update body env) := by
  apply (testHolds h test env).bind
  intro holds
  cases holds with
  | false => exact pure _
  | true =>
    apply (bodyTurn h body env).bind
    intro end?
    cases end? with
    | some flow => exact pure _
    | none => exact (advance h update env).map _

theorem testingRound (h : C.Nested r r') (body : Stmt) (test : Expr) (env : Env) :
    C.Rel (testingRound limits r body test env) (testingRound limits r' body test env) := by
  apply (bodyTurn h body env).bind
  intro end?
  cases end? with
  | some flow => exact pure _
  | none =>
    apply (h.eval test env).bind
    intro v
    split
    · exact pure _
    · exact pure _

/-! ### Calls in turns of their own -/

section Callbacks

variable {call call' : Value → List Value → Act σ Value}
  (h : ∀ f args, C.Rel (call f args) (call' f args))
include h

theorem callInTurn (f : Value) (args : List Value) :
    C.Rel (callInTurn limits call f args) (callInTurn limits call' f args) := by
  apply beginTurn.bind
  intro _
  apply (note (.worked .callback)).bind
  intro _
  exact h f args

theorem visit (f : Value) (a : ArrayRef) (item : Value × Nat) :
    C.Rel (visit limits call f a item) (visit limits call' f a item) := callInTurn h f _

theorem folded (f : Value) (a : ArrayRef) (start : Value) (items : List (Value × Nat)) :
    C.Rel (folded limits call f a start items) (folded limits call' f a start items) := by
  apply foldlM
  intro acc item
  exact callInTurn h f _

end Callbacks

/-! ### Variables and assignment -/

theorem evalKey (h : C.Nested r r') (e : Expr) (env : Env) :
    C.Rel (evalKey r e env) (evalKey r' e env) := by
  apply (h.eval e env).bind
  intro v
  exact leaf (.display v)

theorem setProperty (object : Value) (key : String) (v : Value) :
    C.Rel (Act.setProperty limits object key v) (Act.setProperty limits object key v) :=
  C.setProperty object key v

theorem getProperty (object : Value) (key : String) :
    C.Rel (getProperty object key) (getProperty object key) :=
  leaf (.getProperty object key)

theorem checkText (v : Value) : C.Rel (checkText limits v) (checkText limits v) :=
  leaf (.checkText v)

theorem assignTo (h : C.Nested r r') (target : Expr) (v : Value) (env : Env) :
    C.Rel (assignTo limits r target v env) (assignTo limits r' target v env) := by
  cases target with
  | ident name => exact leaf (.assignVariable name v env)
  | member object name =>
    apply (h.eval object env).bind
    intro object
    exact setProperty object name v
  | index object key =>
    apply (h.eval object env).bind
    intro object
    apply (evalKey h key env).bind
    intro key
    exact setProperty object key v
  | _ => exact fail .badTarget

theorem assignedValue (h : C.Nested r r') (op : Option BinaryOp) (target value : Expr)
    (env : Env) :
    C.Rel (assignedValue limits r op target value env)
      (assignedValue limits r' op target value env) := by
  cases op with
  | none => exact h.eval value env
  | some op =>
    apply (h.eval target env).bind
    intro current
    apply (h.eval value env).bind
    intro operand
    apply (leaf (.lookHeap _)).bind
    exact checkText

theorem updated (h : C.Nested r r') (increment : Bool) (target : Expr) (env : Env) :
    C.Rel (updated limits r increment target env) (updated limits r' increment target env) := by
  apply (h.eval target env).bind
  intro v
  apply (leaf (.number v)).bind
  intro old
  exact (assignTo h _ _ _).map _

/-! ### Calls -/

theorem calleeOf (h : C.Nested r r') (callee : Expr) (env : Env) :
    C.Rel (calleeOf r callee env) (calleeOf r' callee env) := by
  cases callee with
  | member object name =>
    apply (h.eval object env).bind
    intro object
    exact (getProperty object name).map _
  | index object key =>
    apply (h.eval object env).bind
    intro object
    apply (evalKey h key env).bind
    intro key
    exact (getProperty object key).map _
  | _ => exact (h.eval _ env).map _

theorem evalCall (h : C.Jobs r r') (callee : Expr) (args : List Expr) (env : Env) :
    C.Rel (evalCall r callee args env) (evalCall r' callee args env) := by
  apply (calleeOf h.toNested callee env).bind
  rintro ⟨receiver, f⟩
  dsimp only
  split
  · apply (evalAll h.toNested args env).bind
    intro args
    exact h.call f receiver args
  · exact leaf (.throwMistake _)

theorem construct (h : C.Jobs r r') (f : Value) (args : List Value) (callee : Expr) :
    C.Rel (construct r f args callee) (construct r' f args callee) := by
  unfold Act.construct
  split
  · split
    · exact leaf (.throwMistake _)
    · apply (leaf (.newObject .empty)).bind
      intro made
      exact (h.call _ made args).map _
  · exact h.call _ .undefined args
  · exact leaf (.throwMistake _)

/-! ### Expressions -/

theorem partText (h : C.Nested r r') (env : Env) (part : TemplatePart) :
    C.Rel (partText r env part) (partText r' env part) := by
  cases part with
  | literal s => exact pure s
  | expr e => exact evalKey h e env

/-- An expression is related if its array is, should it be a literal for one. -/
theorem evaluate (h : C.Jobs r r') (e : Expr) (env : Env)
    (harray : ∀ items, e = .array items →
      C.Rel (Act.evalAll r items env >>= fun values => newArray values.toArray)
        (Act.evalAll r' items env >>= fun values => newArray values.toArray)) :
    C.Rel (evaluate limits r e env) (evaluate limits r' e env) := by
  unfold Act.evaluate
  split
  · exact pure _
  · exact pure _
  · exact pure _
  · exact pure _
  · exact pure _
  · apply (mapM (partText h.toNested env) _).bind
    intro texts
    exact checkText _
  · exact leaf (.variableValue _ env)
  · exact harray _ rfl
  · have hmember (d : Dict Value) (member : String × Expr) :
        C.Rel (do return d.insert member.1 (← r.eval member.2 env))
          (do return d.insert member.1 (← r'.eval member.2 env)) :=
      (h.eval member.2 env).map _
    apply (foldlM hmember _ _).bind
    intro members
    exact leaf (.newObject members)
  · exact leaf (.newClosure _ env)
  · exact leaf (.lookHeap _)
  · apply (h.eval _ env).bind
    intro v
    exact leaf (.lookHeap _)
  · apply (h.eval _ env).bind
    intro a
    apply (h.eval _ env).bind
    intro b
    apply (leaf (.lookHeap _)).bind
    exact checkText
  · apply (h.eval _ env).bind
    intro v
    split
    · exact pure v
    · exact h.eval _ env
  · apply (h.eval _ env).bind
    intro v
    split
    · exact h.eval _ env
    · exact h.eval _ env
  · apply (assignedValue h.toNested _ _ _ env).bind
    intro v
    exact (assignTo h.toNested _ v env).map _
  · apply (updated h.toNested _ _ env).bind
    intro numbers
    exact pure _
  · apply (h.eval _ env).bind
    intro object
    exact getProperty object _
  · apply (h.eval _ env).bind
    intro object
    apply (evalKey h.toNested _ env).bind
    intro key
    exact getProperty object key
  · exact evalCall h _ _ env
  · apply (h.eval _ env).bind
    intro f
    apply (evalAll h.toNested _ env).bind
    intro args
    exact construct h f args _

/-! ### Blocks -/

theorem execBody (h : C.Nested r r') (body : List Stmt) (env : Env) :
    C.Rel (execBody r body env) (execBody r' body env) := by
  apply (leaf (.hoist body env)).bind
  intro _
  exact execAll h env body

theorem execBlock (h : C.Nested r r') (body : List Stmt) (env : Env) :
    C.Rel (execBlock r body env) (execBlock r' body env) := by
  apply (leaf (.newScope env .empty)).bind
  intro scope
  exact execBody h body scope

theorem declareAll (h : C.Nested r r') (kind : DeclKind) (env : Env)
    (declarations : List (String × Option Expr)) :
    C.Rel (declareAll r kind env declarations) (declareAll r' kind env declarations) := by
  apply forM
  rintro ⟨name, value⟩
  cases value with
  | none =>
    apply (pure Value.undefined).bind
    intro v
    exact leaf (.declareVariable env name v _)
  | some e =>
    apply (h.eval e env).bind
    intro v
    exact leaf (.declareVariable env name v _)

/-! ### Loops -/

theorem repeatRound {round round' : Act σ (Option Flow)} (h : C.Rel round round') :
    C.Rel (repeatRound limits round) (repeatRound limits round') := by
  apply (leaf (.look _)).bind
  intro left
  exact repeatFrom h _

theorem itemRound (h : C.Nested r r') (kind : Option DeclKind) (name : String) (body : Stmt)
    (env : Env) (item : Value) :
    C.Rel (itemRound limits r kind name body env item)
      (itemRound limits r' kind name body env item) := by
  apply beginTurn.bind
  intro _
  apply (leaf (.itemScope kind name env item)).bind
  intro scope
  exact execLoopBody h body scope

/-! ### Statements -/

theorem handle (h : C.Nested r r') (param : Option String) (handler : List Stmt) (env : Env)
    (thrown : Value) :
    C.Rel (handle r param handler env thrown) (handle r' param handler env thrown) := by
  apply (leaf (.newScope env .empty)).bind
  intro scope
  cases param with
  | none => exact execBody h handler scope
  | some name =>
    apply (leaf (.declareVariable scope name thrown true)).bind
    intro _
    exact execBody h handler scope

theorem guarded (h : C.Nested r r') (block : List Stmt) (param : Option String)
    (handler : Option (List Stmt)) (env : Env) :
    C.Rel
      (Act.catching (Act.execBlock r block env)
        (handler.map fun body => Act.handle r param body env))
      (Act.catching (Act.execBlock r' block env)
        (handler.map fun body => Act.handle r' param body env)) := by
  have hblock := execBlock h block env
  cases handler with
  | none => rwa [Option.map_none, Option.map_none, catching_none, catching_none]
  | some body => exact C.catching hblock (handle h param body env)

theorem execute (h : C.Nested r r') (s : Stmt) (env : Env) :
    C.Rel (execute limits r s env) (execute limits r' s env) := by
  unfold Act.execute
  split
  · exact (h.eval _ env).map _
  · exact (declareAll h _ env _).map _
  · exact pure _
  · exact pure _
  · apply (h.eval _ env).bind
    intro v
    split
    · exact h.exec _ env
    · split
      · exact h.exec _ env
      · exact pure _
  · exact repeatRound (testedRound h _ _ _ env)
  · exact repeatRound (testingRound h _ _ env)
  · apply (leaf (.newScope env .empty)).bind
    intro scope
    split
    · apply (h.exec _ scope).bind
      intro _
      exact repeatRound (testedRound h _ _ _ scope)
    · exact repeatRound (testedRound h _ _ _ scope)
  · apply (h.eval _ env).bind
    intro v
    apply (leaf (.itemsOf v)).bind
    exact eachItem (itemRound h _ _ _ env)
  · apply (h.eval _ env).bind
    intro v
    apply (leaf (.lookHeap _)).bind
    intro keys
    exact eachItem (itemRound h _ _ _ env) _
  · exact execBlock h _ env
  · split
    · exact (h.eval _ env).map _
    · exact pure _
  · exact pure _
  · exact pure _
  · apply (h.eval _ env).bind
    intro v
    exact fail (.thrown v)
  · rename_i block param handler finalizer
    have hguarded := guarded h block param handler env
    cases finalizer with
    | none => exact hguarded
    | some f => exact C.finalizing hguarded (execBlock h f env)

/-! ### Methods that call back -/

theorem numbered (a : ArrayRef) : C.Rel (numbered a) (numbered a) := (leaf (.elements a)).map _

section Callbacks

variable {call call' : Value → List Value → Act σ Value}
  (h : ∀ f args, C.Rel (call f args) (call' f args))
include h

theorem mapped (f : Value) (a : ArrayRef) :
    C.Rel (mapped limits call f a) (mapped limits call' f a) := by
  apply (numbered a).bind
  intro items
  apply foldlM
  intro made item
  exact (visit h f a item).map _

theorem filtered (f : Value) (a : ArrayRef) :
    C.Rel (filtered limits call f a) (filtered limits call' f a) := by
  apply (numbered a).bind
  intro items
  apply foldlM
  intro kept item
  exact (visit h f a item).map _

theorem found (wanted : Bool) (f : Value) (a : ArrayRef) :
    C.Rel (found limits call wanted f a) (found limits call' wanted f a) := by
  apply (numbered a).bind
  intro items
  apply findM?
  intro item
  exact (visit h f a item).map _

theorem reduced (f : Value) (a : ArrayRef) (start : Option Value) :
    C.Rel (reduced limits call f a start) (reduced limits call' f a start) := by
  apply (numbered a).bind
  intro items
  split
  · exact folded h f a _ _
  · exact folded h f a _ _
  · exact leaf (.throwMistake _)

theorem sortsAfter (comparison a b : Value) :
    C.Rel (sortsAfter limits call comparison a b) (sortsAfter limits call' comparison a b) := by
  apply beginTurn.bind
  intro _
  apply (note (.worked .comparison)).bind
  intro _
  unfold Act.compared
  split
  · apply (h comparison [a, b]).bind
    intro v
    exact (leaf (.number v)).map _
  · exact leaf (.lookHeap _)

/-- A method that calls a function for each element is related, unless it makes an array. -/
theorem visiting {method : Method} (a : ArrayRef) (args : List Value)
    (hmethod : takesFunction method = true) (hmap : method ≠ .map) (hfilter : method ≠ .filter) :
    C.Rel (arrayResult limits call method a args) (arrayResult limits call' method a args) := by
  cases method with
  | map => exact absurd rfl hmap
  | filter => exact absurd rfl hfilter
  | forEach => exact (mapped h _ a).map _
  | find => exact (found h true _ a).map _
  | findIndex => exact (found h true _ a).map _
  | some => exact (found h true _ a).map _
  | every => exact (found h false _ a).map _
  | reduce => exact reduced h _ a _
  | _ => cases hmethod

end Callbacks

/-- A method of arrays is related if making an array and writing one back are; should it not call
    back, it is the same over calls that all fail. -/
theorem arrayResult {call call' : Value → List Value → Act σ Value}
    (h : ∀ f args, C.Rel (call f args) (call' f args)) (method : Method) (a : ArrayRef)
    (args : List Value) (hnew : ∀ items, C.Rel (newArray items) (newArray items))
    (hset : ∀ items, C.Rel (setElements a items) (setElements a items))
    (hother : C.Rel (Act.arrayResult limits (fun _ _ => Act.fail .badTarget) method a args)
      (Act.arrayResult limits (fun _ _ => Act.fail .badTarget) method a args)) :
    C.Rel (arrayResult limits call method a args) (arrayResult limits call' method a args) := by
  cases method with
  | map => exact (mapped h _ a).bind hnew
  | filter => exact (filtered h _ a).bind hnew
  | forEach | find | findIndex | some | every | reduce => exact visiting h a args rfl nofun nofun
  | sort =>
    apply (leaf (.elements a)).bind
    intro items
    apply (sortBy (sortsAfter h _) items.toList).bind
    intro sorted
    exact (hset sorted.toArray).map _
  | _ => exact hother

theorem arrayMethod {call call' : Value → List Value → Act σ Value} {method : Method}
    {a : ArrayRef} {args : List Value}
    (h : C.Rel (Act.arrayResult limits call method a args)
      (Act.arrayResult limits call' method a args)) :
    C.Rel (arrayMethod limits call method a args) (arrayMethod limits call' method a args) := by
  unfold Act.arrayMethod
  split
  · apply (leaf (.display _)).bind
    intro text
    exact leaf (.throwMistake _)
  · exact h

/-! ### Functions -/

theorem runClosure (h : C.Nested r r') (d : FunctionDef) (env : Env) (this : Value)
    (args : List Value)
    (hframe : C.Rel (callFrame d.isArrow this args) (callFrame d.isArrow this args)) :
    C.Rel (runClosure r d env this args) (runClosure r' d env this args) := by
  apply hframe.bind
  intro frame
  apply (leaf (.newScope env _)).bind
  intro scope
  split
  · exact h.eval _ scope
  · apply (execBody h _ scope).bind
    intro flow
    split
    · exact pure _
    · exact pure _

theorem callMethod {method : Method} {receiver : Value} {args : List Value}
    (hstring : ∀ s, receiver = .string s →
      C.Rel (stringMethod limits method s args) (stringMethod limits method s args))
    (harray : ∀ a, receiver = .array a →
      C.Rel (Act.arrayResult limits (fun f args => r.call f .undefined args) method a args)
        (Act.arrayResult limits (fun f args => r'.call f .undefined args) method a args)) :
    C.Rel (callMethod limits r method receiver args)
      (callMethod limits r' method receiver args) := by
  unfold Act.callMethod
  split
  · exact hstring _ rfl
  · exact arrayMethod (harray _ rfl)
  · exact leaf (.numberMethod method _ args)
  · exact leaf (.objectMethod method _ args)
  · exact (leaf (.display _)).map _

theorem refused (v : Value) :
    C.Rel (do throwMistake (.notAFunction (← display v)) : Act σ Value)
      (do throwMistake (.notAFunction (← display v))) := by
  apply (leaf (.display v)).bind
  intro text
  exact leaf (.throwMistake _)

/-! ### Programs -/

theorem execTop (h : ∀ s, C.Rel (r.exec s globalEnv) (r'.exec s globalEnv))
    (body : List Stmt) : C.Rel (execTop r body) (execTop r' body) := by
  induction body with
  | nil => exact pure ()
  | cons s rest ih =>
    apply (h s).bind
    intro flow
    cases flow with
    | returned v => exact pure ()
    | normal => exact ih
    | broken => exact ih
    | continued => exact ih

/-- What a program does once it has its globals. -/
theorem program {globals globals' : Act σ Unit} (hglobals : C.Rel globals globals')
    (h : ∀ s, C.Rel (r.exec s globalEnv) (r'.exec s globalEnv)) (body : List Stmt) :
    C.Rel (do globals; Act.hoist body globalEnv; Act.execTop r body)
      (do globals'; Act.hoist body globalEnv; Act.execTop r' body) := by
  apply hglobals.bind
  intro _
  apply (leaf (.hoist body globalEnv)).bind
  intro _
  exact execTop h body

end Rel

end Congruence

end Act

end MemoryShell.Script
