/-
  MemoryShell/Proofs/Script/Recursion.lean
  ========================================
  **How many calls can be open at once.**

  A call of a script function counts toward the depth of calls.  Any other call is made by an
  expression, which counts toward the other depth and makes one call at a time, or it is made by a
  method of an array.  So both limits together bound the calls that are open, but for the methods
  that were called by a method: these take a turn and no depth.

  An array can hold its own `map`.  That method can then call itself back for as long as there are
  turns, with one call open for each.
-/
import MemoryShell.Proofs.Script.Depth

namespace MemoryShell.Script

/-! ### Counting open calls -/

namespace Activity

def isCall : Activity → Bool
  | .calling _ _ => true
  | .evaluating _ | .executing _ => false

def isMethodCall : Activity → Bool
  | .calling (.method _ _ _) _ => true
  | _ => false

/-- What the depths leave over for what an activity can open. -/
def headroom : Phase → Activity → Nat
  | .granted, .evaluating _ => 2
  | .granted, _ => 1
  | .opening, .evaluating _ => 1
  | .opening, a => a.isMethodCall.toNat

end Activity

/-- How many calls are open. -/
def openCalls (stack : List Activity) : Nat := stack.countP Activity.isCall

/-- How many of the open calls are calls of methods that a call has made itself. -/
def methodCallbacks : List Activity → Nat
  | a :: b :: stack => methodCallbacks (b :: stack) + (a.isMethodCall && b.isCall).toNat
  | _ => 0

theorem openCalls_cons (a : Activity) (stack : List Activity) :
    openCalls (a :: stack) = openCalls stack + a.isCall.toNat := by
  rw [openCalls, List.countP_cons]
  cases a.isCall <;> rfl

/-- An activity makes room for what it opens, unless that is a method which a call opens. -/
theorem Activity.headroom_opening {a b : Activity} (hopen : b.mayOpen a) :
    a.isCall.toNat + a.headroom .opening ≤
      b.headroom .granted + (a.isMethodCall && b.isCall).toNat := by
  cases a with
  | evaluating e => cases b <;> simp [isCall, isMethodCall, headroom]
  | executing s => cases b <;> simp [isCall, isMethodCall, headroom]
  | calling f args =>
    cases b with
    | evaluating e =>
      have hmethod : (isMethodCall (.calling f args)).toNat ≤ 1 := Bool.toNat_le _
      simp only [isCall, headroom, Bool.and_false, Bool.toNat_true, Bool.toNat_false]
      omega
    | executing s => cases hopen
    | calling g args' =>
      simp only [isCall, headroom, Bool.and_true, Bool.toNat_true]
      omega

/-! ### Calls and depths -/

/-- The calls that are open lie within the depths, but for the methods that calls have opened. -/
theorem Standing.openCalls_add_headroom_le {limits : Limits} {phase : Phase}
    {stack : List Activity} {d : Depths} (h : Standing limits phase stack d) :
    ∀ a ∈ stack.head?, openCalls stack + a.headroom phase ≤
      d.eval + d.call + methodCallbacks stack := by
  induction h with
  | first s =>
    rintro _ ⟨⟩
    exact Nat.zero_le _
  | expression _ _ ih =>
    rintro _ ⟨⟩
    have hopening := ih _ rfl
    simp only [Activity.headroom] at hopening ⊢
    omega
  | statement _ _ ih | closure _ _ ih =>
    rintro _ ⟨⟩
    have hopening := ih _ rfl
    simp only [Activity.headroom, Activity.isMethodCall, Bool.toNat_false] at hopening ⊢
    omega
  | method _ ih =>
    rintro _ ⟨⟩
    have hopening := ih _ rfl
    simp only [Activity.headroom, Activity.isMethodCall, Bool.toNat_true] at hopening ⊢
    omega
  | @opening a b stack d _ hopen ih =>
    rintro _ ⟨⟩
    have hgranted := ih _ rfl
    have hroom := Activity.headroom_opening hopen
    rw [openCalls_cons, methodCallbacks]
    omega

theorem Standing.openCalls_le {limits : Limits} {phase : Phase} {stack : List Activity} {d : Depths}
    (h : Standing limits phase stack d) :
    openCalls stack ≤ limits.maxEvalDepth + limits.maxCallDepth + methodCallbacks stack := by
  obtain ⟨heval, hcall⟩ := h.depths_le
  cases stack with
  | nil => exact Nat.zero_le _
  | cons a stack =>
    have hcalls := h.openCalls_add_headroom_le a rfl
    omega

/-! ### Whole runs -/

/-- The moments at which more calls are open than both limits on depths allow, some of them not
    counted. -/
def manyCalls {σ : Type} (limits : Limits) (uncounted : List Activity → Nat) : Watch σ :=
  fun stack _ =>
    decide (limits.maxEvalDepth + limits.maxCallDepth + uncounted stack < openCalls stack)

/-- The `map` of an array. -/
def mapOf (id : Nat) (a : ArrayRef) : Value := .method id .map (.array a)

section SelfMapping

variable {σ : Type} {limits : Limits} {a : ArrayRef} {m : Machine σ}

/-- An array with one element is mapped by one call, and a fault of that call is all that comes of
    it. -/
theorem callMethod_map_single {r : Runner σ} {f v : Value} {rest : List Value} {m' : Machine σ}
    {fault : Fault} (hf : f.isFunction) (ha : m.heap.array a = #[v])
    (hturns : m.turns < limits.maxTurns)
    (hcall : r.call f .undefined [v, .number (Float.ofNat 0), .array a]
      (Machine.noted { m with turns := m.turns + 1 } (.worked .callback)) = .error fault m') :
    Act.callMethod limits r .map (.array a) (f :: rest) m = .error fault m' := by
  have hitems : Act.numbered a m = .ok [(v, 0)] m := by
    change EStateM.Result.ok (m.heap.array a).toList.zipIdx m = _
    rw [ha]
    rfl
  have hvisit : Act.visit limits (fun f args => r.call f .undefined args) f a (v, 0) m =
      .error fault m' := by
    unfold Act.visit Act.callInTurn
    rw [Act.bind_of_ok (Act.beginTurn_of_lt hturns)]
    exact hcall
  have hmapped : Act.mapped limits (fun f args => r.call f .undefined args) f a m =
      .error fault m' := by
    unfold Act.mapped
    rw [Act.bind_of_ok hitems, List.foldlM_cons]
    apply Act.bind_of_error
    exact Act.bind_of_error hvisit
  have hwanted : ¬ (Act.takesFunction .map && !(argument (f :: rest) 0).isFunction) := by
    change ¬ (true && !f.isFunction)
    simp [hf]
  change Act.arrayMethod limits (fun f args => r.call f .undefined args) .map a (f :: rest) m = _
  unfold Act.arrayMethod
  rw [if_neg hwanted]
  exact Act.bind_of_error hmapped

/-- A `map` that an array holds itself, called with itself, opens one call in another for as long as
    there are turns, whatever the depths are. -/
theorem runUntil_mapOf_self [Host σ] {id turns levels calls : Nat} {stack : List Activity}
    (hlevels : turns < levels) (hcalls : calls ≤ openCalls stack + turns) (this : Value)
    (rest : List Value) (ha : m.heap.array a = #[mapOf id a])
    (hturns : m.turns + turns ≤ limits.maxTurns) :
    ∃ m', runUntil limits (fun stack _ => decide (calls < openCalls stack)) levels stack
      (.call (mapOf id a) this (mapOf id a :: rest)) m = .error .exhausted m' := by
  obtain ⟨levels, rfl⟩ : ∃ n, levels = n + 1 := ⟨levels - 1, by omega⟩
  have hopen : openCalls (.calling (mapOf id a) (mapOf id a :: rest) :: stack) =
      openCalls stack + 1 := openCalls_cons _ stack
  induction turns generalizing levels stack this rest m with
  | zero =>
    refine ⟨m.noted .begun, if_pos (decide_eq_true ?_)⟩
    rw [Job.activity, hopen]
    omega
  | succ turns ih =>
    by_cases hmany : calls < openCalls stack + 1
    · refine ⟨m.noted .begun, if_pos (decide_eq_true ?_)⟩
      rwa [Job.activity, hopen]
    · have hagain : ∃ m', runUntil limits (fun stack _ => decide (calls < openCalls stack)) levels
          (.calling (mapOf id a) (mapOf id a :: rest) :: stack)
          (.call (mapOf id a) .undefined [mapOf id a, .number (Float.ofNat 0), .array a])
          (Machine.noted { m.noted .begun with turns := m.turns + 1 } (.worked .callback)) =
            .error .exhausted m' := by
        obtain ⟨levels, rfl⟩ : ∃ n, levels = n + 1 := ⟨levels - 1, by omega⟩
        apply ih
        · rw [hopen]
          omega
        · exact ha
        · simp only [Machine.noted_turns]
          omega
        · omega
        · exact openCalls_cons _ _
      obtain ⟨m', hagain⟩ := hagain
      refine ⟨m', (if_neg ?_).trans (callMethod_map_single rfl ha ?_ hagain)⟩
      · rwa [decide_eq_true_iff, Job.activity, hopen]
      · simp only [Machine.noted_turns]
        omega

end SelfMapping

/-- An array that holds its own `map` is mapped with it. -/
def selfMapped : Program where
  body := [.varDecl .constKind [("x", some (.array []))],
    .expr (.call (.member (.ident "x") "push") [.member (.ident "x") "map"]),
    .expr (.call (.member (.ident "x") "map") [.member (.ident "x") "map"])]

end MemoryShell.Script
