/-
  MemoryShell/Proofs/Script/Targets.lean
  ======================================
  **Targets of assignments, and the places that they name.**

  A target names an object and a key; these are expressions, so each time that the target is
  evaluated they can come to another place and do anything on the way.  Where they are variables or
  constants, the place is where these stand, and nothing is done on the way.
-/
import MemoryShell.Proofs.Script.Termination
import MemoryShell.Proofs.Script.Writes

namespace MemoryShell.Script

variable {σ α β : Type}

/-! ### Targets and places -/

/-- What a property is named by. -/
inductive Target where
  | member (object : Expr) (name : String)
  | index (object key : Expr)

/-- An object and a key. -/
structure Place where
  object : Value
  key : String

namespace Place

def read (place : Place) : Act σ Value := Act.getProperty place.object place.key

def write (limits : Limits) (place : Place) (v : Value) : Act σ Unit :=
  Act.setProperty limits place.object place.key v

end Place

namespace Target

def expr : Target → Expr
  | .member object name => .member object name
  | .index object key => .index object key

/-- Evaluate the object and the key of a target. -/
def locate (r : Runner σ) (env : Env) : Target → Act σ Place
  | .member object name => do return ⟨← r.eval object env, name⟩
  | .index object key => do
    let object ← r.eval object env
    return ⟨object, ← Act.evalKey r key env⟩

/-- Evaluate a target, and keep the place that it was read from. -/
def visit (limits : Limits) (r : Runner σ) (target : Target) (env : Env) :
    Act σ (Place × Value) := do
  Act.note .begun
  Act.deeper limits do
    let place ← target.locate r env
    return (place, ← place.read)

end Target

/-! ### Depths -/

namespace Act

variable {limits : Limits}

/-- What is made of a value does not depend on where it is made. -/
theorem deeper_map (act : Act σ α) (f : α → β) :
    deeper limits (do return f (← act)) = (do return f (← deeper limits act)) := by
  funext m
  by_cases hdepth : m.evalDepth < limits.maxEvalDepth
  · simp only [Bind.bind, EStateM.bind, deeper, if_pos hdepth]
    cases act { m with evalDepth := m.evalDepth + 1 } <;>
      · dsimp only [Pure.pure, EStateM.pure, rise]
        split <;> rfl
  · simp only [Bind.bind, EStateM.bind, deeper, if_neg hdepth]
    rfl

end Act

/-! ### What evaluation does -/

section Evaluation

variable [Host σ] (limits : Limits)

theorem eval_eq (e : Expr) (env : Env) :
    (runner (σ := σ) limits).eval e env = (do
      Act.note .begun
      Act.deeper limits (Act.evaluate limits (runner limits) e env)) :=
  runner_eq_step limits (.eval e env)

/-- A target is evaluated by a visit to its place. -/
theorem eval_target (target : Target) (env : Env) :
    (runner (σ := σ) limits).eval target.expr env =
      (do return (← target.visit limits (runner limits) env).2) := by
  have hevaluate : Act.evaluate limits (runner (σ := σ) limits) target.expr env = (do
      let place ← target.locate (runner limits) env
      place.read) := by
    cases target with
    | member | index =>
      simp only [Target.locate, bind_assoc, pure_bind]
      rfl
  simp only [eval_eq, hevaluate, Target.visit, bind_assoc, pure_bind, ← Act.deeper_map]
  simp

omit [Host σ] in
/-- To assign to a target is to write to the place that it names. -/
theorem assignTo_target (r : Runner σ) (target : Target) (v : Value) (env : Env) :
    Act.assignTo limits r target.expr v env = (do
      let place ← target.locate r env
      place.write limits v) := by
  cases target with
  | member | index =>
    simp only [Target.locate, bind_assoc, pure_bind]
    rfl

end Evaluation

/-! ### Targets of variables and constants -/

/-- The value of a variable or a constant, as it stands on a heap. -/
def Expr.valueIn (env : Env) (h : Heap) : Expr → Option Value
  | .ident name =>
    match h.lookup env name with
    | some v => some v
    | none => if name = "this" then some .undefined else none
  | .number x => some (.number x)
  | .string s => some (.string s)
  | .bool b => some (.bool b)
  | .null => some .null
  | .undefined => some .undefined
  | _ => none

/-- The place that a target of variables and constants names, as these stand on a heap. -/
def Target.placeIn (env : Env) (h : Heap) : Target → Option Place
  | .member object name => (object.valueIn env h).map fun object => ⟨object, name⟩
  | .index object key => do
    let object ← object.valueIn env h
    let key ← key.valueIn env h
    return ⟨object, h.display key⟩

namespace Heap

variable (h : Heap) (n : Nat)

theorem displayBelow_functions (fuel : Nat) (joining : List ArrayRef) (v : Value) :
    displayBelow { h with functions := n } fuel joining v = h.displayBelow fuel joining v := by
  induction fuel generalizing joining v with
  | zero => rfl
  | succ fuel ih =>
    have hbelow : displayBelow { h with functions := n } fuel = h.displayBelow fuel := by
      funext joining v
      exact ih joining v
    unfold displayBelow
    rw [hbelow]
    rfl

theorem resolve_functions (env : Env) (name : String) :
    resolve { h with functions := n } env name = h.resolve env name := by
  induction env with
  | nil => rfl
  | cons r env ih =>
    unfold resolve
    rw [ih]
    rfl

theorem valueIn_functions (env : Env) (e : Expr) :
    e.valueIn env { h with functions := n } = e.valueIn env h := by
  cases e with
  | ident name =>
    simp only [Expr.valueIn, lookup, resolve_functions]
  | _ => rfl

/-- How many functions were made does not matter to what is named. -/
theorem placeIn_functions (env : Env) (target : Target) :
    target.placeIn env { h with functions := n } = target.placeIn env h := by
  cases target with
  | member object name => simp only [Target.placeIn, valueIn_functions]
  | index object key =>
    simp only [Target.placeIn, valueIn_functions, display, displayBelow_functions]
    rfl

end Heap

namespace Act

/-- To read a property makes a function at most. -/
theorem eq_with_of_getProperty_eq_ok {object v : Value} {key : String} {m m' : Machine σ}
    (h : getProperty object key m = .ok v m') :
    ∃ n, m' = { m with heap := { m.heap with functions := n } } := by
  obtain ⟨read, hread, heq⟩ := (getProperty_among object key).on m
  rw [heq] at h
  cases hread with
  | give | newMethod =>
    cases h
    exact ⟨_, rfl⟩
  | refuse => cases h

end Act

section Naming

variable [Host σ] {limits : Limits} {env : Env} {m : Machine σ}

omit [Host σ] in
theorem variableValue_of_valueIn {name : String} {v : Value}
    (h : (Expr.ident name).valueIn env m.heap = some v) :
    Act.variableValue name env m = .ok v m := by
  have hlook : Act.lookHeap (fun h => h.lookup env name) m = .ok (m.heap.lookup env name) m := rfl
  unfold Act.variableValue
  rw [Act.bind_of_ok hlook]
  simp only [Expr.valueIn] at h
  cases hfound : m.heap.lookup env name with
  | some found =>
    rw [hfound] at h
    cases h
    rfl
  | none =>
    rw [hfound] at h
    dsimp only at h ⊢
    by_cases hthis : name = "this"
    · rw [if_pos hthis] at h ⊢
      cases h
      rfl
    · rw [if_neg hthis] at h
      cases h

theorem eval_of_valueIn {e : Expr} {v : Value} (h : e.valueIn env m.heap = some v)
    (hdepth : m.evalDepth < limits.maxEvalDepth) :
    (runner limits).eval e env m = .ok v (m.noted .begun) := by
  have hevaluate : Act.evaluate limits (runner limits) e env
      { m.noted .begun with evalDepth := m.evalDepth + 1 } =
        .ok v { m.noted .begun with evalDepth := m.evalDepth + 1 } := by
    cases e with
    | ident name => exact variableValue_of_valueIn h
    | number | string | bool | null | undefined =>
      cases h
      rfl
    | _ => cases h
  rw [eval_eq]
  exact Act.deeper_eq_ok_iff.mpr ⟨hdepth, _, hevaluate, Nat.succ_pos _, rfl⟩

/-- A target of variables and constants is located where these stand, and nothing is different after
    that but what was noted. -/
theorem locate_of_placeIn {target : Target} {place : Place}
    (h : target.placeIn env m.heap = some place) (hdepth : m.evalDepth < limits.maxEvalDepth) :
    ∃ trail, target.locate (runner limits) env m = .ok place (m.trailed trail) := by
  cases target with
  | member object name =>
    obtain ⟨v, hv, rfl⟩ := Option.map_eq_some_iff.mp h
    refine ⟨.begun :: m.trail, ?_⟩
    simp only [Target.locate]
    rw [Act.bind_of_ok (eval_of_valueIn hv hdepth)]
    rfl
  | index object key =>
    obtain ⟨v, hv, hplace⟩ := Option.bind_eq_some_iff.mp h
    obtain ⟨k, hk, hplace⟩ := Option.bind_eq_some_iff.mp hplace
    cases hplace
    refine ⟨.begun :: .begun :: m.trail, ?_⟩
    have hkey : Act.evalKey (runner limits) key env (m.noted .begun) =
        .ok (m.heap.display k) ((m.noted .begun).noted .begun) := by
      unfold Act.evalKey
      rw [Act.bind_of_ok (eval_of_valueIn (m := m.noted .begun) hk hdepth)]
      rfl
    simp only [Target.locate]
    rw [Act.bind_of_ok (eval_of_valueIn hv hdepth), Act.bind_of_ok hkey]
    rfl

/-- What is evaluated is within the limit on depths. -/
theorem lt_of_eval_eq_ok {e : Expr} {v : Value} {m' : Machine σ}
    (h : (runner limits).eval e env m = .ok v m') : m.evalDepth < limits.maxEvalDepth := by
  rw [eval_eq] at h
  exact (Act.deeper_eq_ok_iff.mp h).1

theorem lt_of_locate_eq_ok {target : Target} {place : Place} {m' : Machine σ}
    (h : target.locate (runner limits) env m = .ok place m') :
    m.evalDepth < limits.maxEvalDepth := by
  cases target with
  | member | index =>
    obtain ⟨v, n, heval, -⟩ := Act.bind_eq_ok.mp h
    exact lt_of_eval_eq_ok heval

/-- A visit reads where variables and constants stand, and leaves them there. -/
theorem visit_of_placeIn {target : Target} {place place' : Place} {current : Value}
    {m' : Machine σ} (hplace : target.placeIn env m.heap = some place)
    (h : target.visit limits (runner limits) env m = .ok (place', current) m') :
    place' = place ∧ target.placeIn env m'.heap = some place := by
  obtain ⟨-, n, hinner, -, rfl⟩ := Act.deeper_eq_ok_iff.mp h
  obtain ⟨p, n', hlocate, hrest⟩ := Act.bind_eq_ok.mp hinner
  obtain ⟨v, n'', hread, hpair⟩ := Act.bind_eq_ok.mp hrest
  cases hpair
  obtain ⟨trail, hplaced⟩ := locate_of_placeIn (m := { m.noted .begun with
    evalDepth := m.evalDepth + 1 }) hplace (lt_of_locate_eq_ok hlocate)
  cases hlocate.symm.trans hplaced
  obtain ⟨functions, rfl⟩ := Act.eq_with_of_getProperty_eq_ok hread
  refine ⟨rfl, ?_⟩
  rw [← hplace]
  exact m.heap.placeIn_functions functions env target

end Naming

/-! ### What begins -/

section Beginning

variable [Host σ] {limits : Limits} {target : Target} {env : Env}

theorem runner_nests (k : Nat) : (runner (σ := σ) limits).Nests limits k :=
  ⟨fun e env m _ => runner_course limits (.eval e env) m,
    fun s env m _ => runner_course limits (.exec s env) m⟩

theorem runner_calls (k : Nat) : (runner (σ := σ) limits).Calls limits k :=
  fun f this args m _ => runner_course limits (.call f this args) m

namespace Act.Within

theorem locate (k : Nat) (target : Target) (env : Env) :
    Within limits k (target.locate (runner (σ := σ) limits) env) := by
  cases target with
  | member object name => exact ((runner_nests k).eval _ _).map _
  | index object key =>
    exact ((runner_nests k).eval _ _).bind fun _ => (evalKey (runner_nests k) _ _).map _

end Act.Within

/-- To locate a target something begins. -/
theorem timesBegun_lt_locate {next : Place → Act σ β}
    (hnext : ∀ k place, Act.Within limits k (next place)) (m : Machine σ) :
    m.timesBegun <
      (Result.machine ((target.locate (runner limits) env >>= next) m)).timesBegun := by
  have hbegins (e : Expr) {next : Value → Act σ β} (hnext : ∀ k v, Act.Within limits k (next v)) :
      m.timesBegun < (Result.machine (((runner limits).eval e env >>= next) m)).timesBegun := by
    have hstep : ((runner (σ := σ) limits).eval e env >>= next) m = (do
        let v ← Act.deeper limits (Act.evaluate limits (runner limits) e env)
        next v) (m.noted .begun) := by
      rw [eval_eq, bind_assoc]
      rfl
    have hcourse : Act.Within limits (limits.budget (m.noted .begun)) (do
        let v ← Act.deeper limits (Act.evaluate limits (runner limits) e env)
        next v) :=
      (Act.Within.deeper fun j _ => .evaluate (runner_nests j) (runner_calls j) e env).bind
        fun v => hnext _ v
    rw [hstep]
    have hsuffix := (hcourse (m.noted .begun) (Nat.le_refl _)).trail_suffix
    have hcount := hsuffix.sublist.count_le .begun
    rw [Machine.noted_trail, List.count_cons_self] at hcount
    exact hcount
  cases target with
  | member object name =>
    simp only [Target.locate, bind_assoc, pure_bind]
    exact hbegins object fun k v => hnext k _
  | index object key =>
    simp only [Target.locate, bind_assoc, pure_bind]
    exact hbegins object fun k v => (Act.Within.evalKey (runner_nests k) _ _).bind
      fun key => hnext k _

end Beginning

end MemoryShell.Script
