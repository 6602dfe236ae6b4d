/-
  MemoryShell/Proofs/Script/Literals.lean
  =======================================
  **Evaluating what was written as JSON text.**

  The literal of a document makes its arrays and objects on the heap, from the inside out, and calls
  nothing.  So it ends with a value unless it nests too deep, and that value holds the document.
  A value that is written to a text on one line comes back in this way: the text in parentheses is a
  program, and what it evaluates to holds what the value held.
-/
import MemoryShell.Proofs.Script.Documents
import MemoryShell.Proofs.Syntax.Literals
import MemoryShell.Script.Run

namespace MemoryShell.Script

open Document (itemsHeight membersHeight ItemsPlain MembersPlain itemLiterals memberLiterals)

variable {σ α β : Type} {limits : Limits} {n : Machine σ}

/-! ### Acts that make something -/

/-- Where it runs, an act gives something on a heap that has grown, and takes no depth away. -/
def Makes (act : Act σ α) (n : Machine σ) (holds : Heap → α → Prop) : Prop :=
  ∃ a n', act n = .ok a n' ∧ n'.evalDepth = n.evalDepth ∧ n.heap.Within n'.heap ∧ holds n'.heap a

namespace Makes

variable {act : Act σ α} {next : α → Act σ β} {holds : Heap → α → Prop}
  {holds' : Heap → β → Prop}

theorem pure {a : α} (h : holds n.heap a) : Makes (Pure.pure a) n holds :=
  ⟨a, n, rfl, rfl, .refl _, h⟩

/-- What follows runs at the same depth, on a heap that has grown. -/
theorem bind (h : Makes act n holds)
    (hnext : ∀ a n', n'.evalDepth = n.evalDepth → n.heap.Within n'.heap → holds n'.heap a →
      Makes (next a) n' holds') : Makes (act >>= next) n holds' := by
  obtain ⟨a, n', hact, hdepth, hwithin, hholds⟩ := h
  obtain ⟨b, n'', hb, hdepth', hwithin', hholds'⟩ := hnext a n' hdepth hwithin hholds
  exact ⟨b, n'', (Act.bind_of_ok hact).trans hb, hdepth'.trans hdepth, hwithin.trans hwithin',
    hholds'⟩

theorem newArray {ds : List Document} {vs : List Value} (h : n.heap.HoldItems ds vs) :
    Makes (Act.newArray vs.toArray) n (·.Holds (.array ds)) :=
  ⟨_, _, rfl, rfl, Heap.within_newArray _ _, Heap.holds_newArray h⟩

theorem newObject {ds : List (String × Document)} {members : Dict Value}
    (hkeys : members.keys.Nodup) (h : n.heap.HoldMembers ds members.entries) :
    Makes (Act.newObject members) n (·.Holds (.object ds)) :=
  ⟨_, _, rfl, rfl, Heap.within_newObject _ _, Heap.holds_newObject hkeys h⟩

end Makes

/-- An act that runs one level deeper ends with the depth it began with. -/
theorem Act.deeper_of_ok {act : Act σ α} {a : α} {n' : Machine σ}
    (hdepth : n.evalDepth < limits.maxEvalDepth)
    (h : act { n with evalDepth := n.evalDepth + 1 } = .ok a n')
    (hdepth' : n'.evalDepth = n.evalDepth + 1) :
    deeper limits act n = .ok a { n' with evalDepth := n.evalDepth } := by
  refine deeper_eq_ok_iff.mpr ⟨hdepth, n', h, hdepth' ▸ Nat.succ_pos _, ?_⟩
  rw [hdepth']
  rfl

section Evaluation

variable [Host σ] {levels : Nat} {env : Env}

omit [Host σ] in
/-- A job takes a level of the runner and one of the nesting. -/
theorem makes_deeper {act : Act σ α} {holds : Heap → α → Prop}
    (hdepth : n.evalDepth < limits.maxEvalDepth)
    (h : ∀ n' : Machine σ, n'.evalDepth = n.evalDepth + 1 → Makes act n' holds) :
    Makes (do Act.note .begun; Act.deeper limits act) n holds := by
  obtain ⟨a, n', ha, hdepth', hwithin, hholds⟩ :=
    h { n.noted .begun with evalDepth := n.evalDepth + 1 } rfl
  have hbegun : Act.note .begun n = .ok () (n.noted .begun) := rfl
  exact ⟨a, { n' with evalDepth := n.evalDepth },
    (Act.bind_of_ok hbegun).trans (Act.deeper_of_ok hdepth ha hdepth'), rfl, hwithin, hholds⟩

theorem makes_eval {e : Expr} {holds : Heap → Value → Prop}
    (hdepth : n.evalDepth < limits.maxEvalDepth)
    (h : ∀ n' : Machine σ, n'.evalDepth = n.evalDepth + 1 →
      Makes (Act.evaluate limits ⟨run limits levels⟩ e env) n' holds) :
    Makes (run limits (levels + 1) (.eval e env)) n holds := makes_deeper hdepth h

mutual

/-- The literal of a document evaluates to a value that holds it, unless it nests too deep. -/
theorem makes_literal : (d : Document) → d.Plain → (levels : Nat) → d.levels ≤ levels →
    (n : Machine σ) → n.evalDepth + d.levels ≤ limits.maxEvalDepth →
    Makes (run limits levels (.eval d.literal env)) n (·.Holds d)
  | .null, _, levels, hlevels, n, hdepth => by
    obtain ⟨levels, rfl⟩ := Nat.exists_eq_add_of_le' hlevels
    exact makes_eval hdepth fun n' _ => .pure rfl
  | .bool b, _, levels, hlevels, n, hdepth => by
    obtain ⟨levels, rfl⟩ := Nat.exists_eq_add_of_le' hlevels
    exact makes_eval hdepth fun n' _ => .pure rfl
  | .string s, _, levels, hlevels, n, hdepth => by
    obtain ⟨levels, rfl⟩ := Nat.exists_eq_add_of_le' hlevels
    exact makes_eval hdepth fun n' _ => .pure rfl
  | .array items, h, levels, hlevels, n, hdepth => by
    have hheight : (Document.array items).levels = itemsHeight 1 items + 1 := rfl
    rw [hheight] at hlevels hdepth
    obtain ⟨levels, rfl⟩ : ∃ l, levels = l + 1 := ⟨levels - 1, by omega⟩
    refine makes_eval (by omega) fun n' hn' => ?_
    have hitems := makes_itemLiterals items h levels (by omega) n' (by omega)
    exact hitems.bind fun vs n'' _ _ hvs => .newArray hvs
  | .object members, h, levels, hlevels, n, hdepth => by
    have hheight : (Document.object members).levels = membersHeight 1 members + 1 := rfl
    rw [hheight] at hlevels hdepth
    obtain ⟨levels, rfl⟩ : ∃ l, levels = l + 1 := ⟨levels - 1, by omega⟩
    refine makes_eval (by omega) fun n' hn' => ?_
    have hmembers := makes_memberLiterals members h.2 levels (by omega) n' (by omega) .empty
    refine hmembers.bind fun made n'' _ _ hmade => ?_
    obtain ⟨vs, rfl, hvs⟩ := hmade
    have hnames : (vs.map Prod.fst).Nodup := by
      rw [hvs.names]
      exact h.1
    have hlist : vs.foldl (fun d e => d.insert e.1 e.2) Dict.empty = ⟨vs⟩ :=
      Dict.ofList_of_nodup hnames
    rw [hlist]
    exact .newObject hnames hvs

theorem makes_itemLiterals : (ds : List Document) → ItemsPlain ds → (levels : Nat) →
    itemsHeight 1 ds ≤ levels → (n : Machine σ) →
    n.evalDepth + itemsHeight 1 ds ≤ limits.maxEvalDepth →
    Makes (Act.evalAll ⟨run limits levels⟩ (itemLiterals ds) env) n (·.HoldItems ds)
  | [], _, _, _, _, _ => .pure rfl
  | d :: ds, h, levels, hlevels, n, hdepth => by
    rw [itemsHeight] at hlevels hdepth
    have hd : d.levels ≤ max (d.height 1) (itemsHeight 1 ds) := Nat.le_max_left _ _
    have hds : itemsHeight 1 ds ≤ max (d.height 1) (itemsHeight 1 ds) := Nat.le_max_right _ _
    unfold Act.evalAll
    rw [itemLiterals, List.mapM_cons]
    refine (makes_literal d h.1 levels (by omega) n (by omega)).bind fun v n' hn' _ hv => ?_
    refine (makes_itemLiterals ds h.2 levels (by omega) n' (by omega)).bind
      fun vs n'' _ hwithin hvs => ?_
    exact .pure ⟨v, vs, rfl, Heap.Holds.mono hwithin d v hv, hvs⟩

/-- The members of a literal are put into the object one by one. -/
theorem makes_memberLiterals : (ds : List (String × Document)) → MembersPlain ds →
    (levels : Nat) → membersHeight 1 ds ≤ levels → (n : Machine σ) →
    n.evalDepth + membersHeight 1 ds ≤ limits.maxEvalDepth → (members : Dict Value) →
    Makes ((memberLiterals ds).foldlM (fun d m => do
        return d.insert m.1 (← Runner.eval ⟨run limits levels⟩ m.2 env)) members) n
      fun h made =>
        ∃ vs, made = vs.foldl (fun d e => d.insert e.1 e.2) members ∧ h.HoldMembers ds vs
  | [], _, _, _, _, _, members => .pure ⟨[], rfl, rfl⟩
  | (name, d) :: ds, h, levels, hlevels, n, hdepth, members => by
    rw [membersHeight] at hlevels hdepth
    have hd : d.levels ≤ max (d.height 1) (membersHeight 1 ds) := Nat.le_max_left _ _
    have hds : membersHeight 1 ds ≤ max (d.height 1) (membersHeight 1 ds) := Nat.le_max_right _ _
    rw [memberLiterals, List.foldlM_cons, bind_assoc]
    refine (makes_literal d h.1 levels (by omega) n (by omega)).bind fun v n' hn' _ hv => ?_
    rw [pure_bind]
    obtain ⟨made, n'', hmade, hn'', hwithin, vs, rfl, hvs⟩ :=
      makes_memberLiterals ds h.2 levels (by omega) n' (by omega) (members.insert name v)
    exact ⟨_, n'', hmade, hn'', hwithin, (name, v) :: vs, rfl, v, vs, rfl,
      Heap.Holds.mono hwithin d v hv, hvs⟩

end

/-- The expression of a statement is evaluated one level deeper than the statement. -/
theorem makes_exec {e : Expr} {holds : Heap → Value → Prop}
    (hdepth : n.evalDepth < limits.maxEvalDepth)
    (h : ∀ n' : Machine σ, n'.evalDepth = n.evalDepth + 1 →
      Makes (run limits levels (.eval e env)) n' holds) :
    Makes (run limits (levels + 1) (.exec (.expr e) env)) n
      fun heap flow => flow = .normal ∧ ∃ v, holds heap v := by
  refine makes_deeper hdepth fun n' hn' => ?_
  exact (h n' hn').bind fun v _ _ _ hv => .pure ⟨rfl, v, hv⟩

end Evaluation

/-! ### Whole runs -/

/-- An act that ends with a value and changes nothing but the heap. -/
def OnHeap (act : Act σ α) : Prop := ∀ m, ∃ a h, act m = .ok a { m with heap := h }

namespace OnHeap

theorem bind {act : Act σ α} {next : α → Act σ β} (h : OnHeap act)
    (hnext : ∀ a, OnHeap (next a)) : OnHeap (act >>= next) := by
  intro m
  obtain ⟨a, heap, hact⟩ := h m
  obtain ⟨b, heap', hb⟩ := hnext a { m with heap }
  exact ⟨b, heap', (Act.bind_of_ok hact).trans hb⟩

theorem pure (a : α) : OnHeap (Pure.pure a : Act σ α) := fun m => ⟨a, m.heap, rfl⟩

theorem look (f : Machine σ → α) : OnHeap (Act.look f) := fun m => ⟨f m, m.heap, rfl⟩

theorem withHeap (f : Heap → α × Heap) : OnHeap (Act.withHeap f : Act σ α) :=
  fun m => ⟨(f m.heap).1, (f m.heap).2, rfl⟩

theorem newNative (f : Native) : OnHeap (Act.newNative f : Act σ Value) := withHeap _

theorem newObject (members : Dict Value) : OnHeap (Act.newObject members : Act σ Value) :=
  withHeap _

theorem declareGlobal (name : String) (v : Value) :
    OnHeap (Act.declareGlobal name v : Act σ Unit) :=
  fun m => ⟨(), m.heap.declare globalFrame name v true, rfl⟩

/-- The functions of an object are made one by one. -/
theorem natives (functions : List Native) :
    OnHeap (functions.mapM fun f => do return (f.name, ← Act.newNative f) :
      Act σ (List (String × Value))) := by
  induction functions with
  | nil => exact .pure _
  | cons f functions ih =>
    rw [List.mapM_cons]
    exact ((newNative f).bind fun _ => .pure _).bind fun _ => ih.bind fun _ => .pure _

theorem newNamespace (functions : List Native) :
    OnHeap (Act.newNamespace functions : Act σ Value) :=
  (natives functions).bind fun _ => .newObject _

theorem newMath : OnHeap (Act.newMath : Act σ Value) :=
  (natives mathFunctions).bind fun _ => .newObject _

theorem newProcess [Host σ] : OnHeap (Act.newProcess : Act σ Value) :=
  (look _).bind fun _ => (newObject _).bind fun _ => (newNative _).bind fun _ =>
    (newNative _).bind fun _ => .newObject _

theorem declareNatives (functions : List Native) :
    OnHeap (functions.forM fun f => do Act.declareGlobal f.name (← Act.newNative f) :
      Act σ Unit) := by
  induction functions with
  | nil => exact .pure _
  | cons f functions ih =>
    exact ((newNative f).bind fun _ => .declareGlobal _ _).bind fun _ => ih

/-- The outermost scope can be furnished on every machine. -/
theorem installGlobals [Host σ] : OnHeap (Act.installGlobals : Act σ Unit) :=
  (newNamespace _).bind fun _ => newProcess.bind fun _ => (newNative _).bind fun _ =>
    (newNative _).bind fun _ => (newObject _).bind fun _ => (declareGlobal _ _).bind fun _ =>
    (declareGlobal _ _).bind fun _ => (declareGlobal _ _).bind fun _ =>
    (declareGlobal _ _).bind fun _ => newMath.bind fun _ => (declareGlobal _ _).bind fun _ =>
    (newNamespace _).bind fun _ => (declareGlobal _ _).bind fun _ =>
    (newNamespace _).bind fun _ => (declareGlobal _ _).bind fun _ =>
    (newNamespace _).bind fun _ => (declareGlobal _ _).bind fun _ =>
    (declareNatives _).bind fun _ => (declareGlobal _ _).bind fun _ => .declareGlobal _ _

end OnHeap

section Runs

variable [Host σ] {d : Document}

/-- A program that is the literal of a document runs to its end, and leaves a value that holds the
    document. -/
theorem runOn_literal (h : d.Plain) (hdepth : d.levels + 1 ≤ limits.maxEvalDepth) (host : σ) :
    ∃ n, runOn limits ⟨[.expr d.literal]⟩ host = .ok () n ∧ ∃ v, n.heap.Holds d v := by
  obtain ⟨⟨⟩, heap, hglobals⟩ := OnHeap.installGlobals (Machine.start host)
  have hlevels : limits.levels = 2 * limits.maxEvalDepth + limits.maxTurns + 1 + 1 := rfl
  have hexec : Makes ((runner limits).run (.exec (.expr d.literal) globalEnv))
      { Machine.start host with heap } fun heap flow => flow = .normal ∧ ∃ v, heap.Holds d v := by
    have hstart : ({ Machine.start host with heap } : Machine σ).evalDepth = 0 := rfl
    refine makes_exec (by rw [hstart]; omega) fun n hn => ?_
    exact makes_literal d h _ (by omega) n (by omega)
  obtain ⟨flow, n, hflow, -, -, rfl, hholds⟩ := hexec
  have htop : Act.execTop (runner limits) [.expr d.literal] { Machine.start host with heap } =
      .ok () n := (Act.bind_of_ok hflow).trans rfl
  exact ⟨n, (Act.bind_of_ok hglobals).trans htop, hholds⟩

/-- **A value that is written on one line is written as a program.**  The text in parentheses is the
    literal of what the value holds. -/
theorem eval_stringify {m m' : Machine σ} {args : List Value} {text : String}
    (hd : m.heap.Holds d (argument args 0)) (hcompact : layoutOf (argument args 2) = .compact)
    (hwritten : Act.callNative .stringify args m = .ok (.string text) m') :
    (∀ s, d = .string s → ∃ t p, tokenize text = .ok ⟨[t], ⟨.stop, "", p, false⟩⟩ ∧
        t.kind = .string ∧ t.text = s) ∧
      parse ("(" ++ text ++ ")") = .ok ⟨[.expr d.literal]⟩ ∧
      (∀ (n : Machine σ) (env : Env), n.evalDepth + 129 ≤ ({} : Limits).maxEvalDepth →
        ∃ v n', (runner {}).eval d.literal env n = .ok v n' ∧ n.heap.Within n'.heap ∧
          n'.heap.Holds d v) ∧
      ∀ host : σ, ∃ n, runOn {} ⟨[.expr d.literal]⟩ host = .ok () n ∧ ∃ v, n.heap.Holds d v := by
  obtain ⟨hwrites, hrefuses⟩ := Act.callNative_stringify hd
  have hlevels : d.levels ≤ maxDocumentLevels := by
    by_contra hnot
    rw [hrefuses hnot] at hwritten
    cases hwritten
  rw [hwrites hlevels, hcompact] at hwritten
  cases hwritten
  have hplain := Heap.Holds.plain d _ hd
  unfold maxDocumentLevels at hlevels
  refine ⟨?_, ?_, fun n env hdepth => ?_, runOn_literal hplain ?_⟩
  · rintro s rfl
    exact Document.tokenize_render_string .compact s
  · exact Document.parse_render hplain (by unfold Parse.maxDepth; omega)
  · have hlimits : d.levels ≤ ({} : Limits).levels := Nat.le_trans hlevels (by decide)
    have hmakes : Makes ((runner {}).run (.eval d.literal env)) n (·.Holds d) :=
      makes_literal d hplain _ hlimits n (by omega)
    obtain ⟨v, n', hv, -, hwithin, hholds⟩ := hmakes
    exact ⟨v, n', hv, hwithin, hholds⟩
  · exact Nat.le_trans (Nat.succ_le_succ hlevels) (by decide)

/-- A list with an object in it is written as a literal. -/
theorem eval_stringify_mixedDocument :
    ∃ text, Act.callNative .stringify [documentValue mixedDocument]
        (documentMachine mixedDocument) =
          .ok (.string text) (documentMachine mixedDocument) ∧
      parse ("(" ++ text ++ ")") = .ok ⟨[.expr mixedDocument.literal]⟩ ∧
      ∃ v n, (runner {}).eval mixedDocument.literal globalEnv (documentMachine mixedDocument) =
          .ok v n ∧ n.heap.Holds mixedDocument v := by
  have hplain : mixedDocument.Plain := ⟨trivial, ⟨by decide, trivial, trivial, trivial⟩, trivial⟩
  have hholds := holds_documentMachine hplain
  have hwritten := (Act.callNative_stringify hholds).1 (by decide)
  obtain ⟨-, hparse, heval, -⟩ := eval_stringify hholds rfl hwritten
  obtain ⟨v, n, hv, -, hn⟩ := heval (documentMachine mixedDocument) globalEnv (by decide)
  exact ⟨_, hwritten, hparse, v, n, hv, hn⟩

end Runs

end MemoryShell.Script
