/-
  MemoryShell/Proofs/Script/Questions.lean
  ========================================
  **Acts that ask questions and go by the answers.**

  A sort asks which of two values comes after the other; a method that goes over an array asks a
  function about each element.  Such a question can do anything to the machine, and it can fail.
  What is said about the act is said in terms of the questions and their answers: each is asked
  where the one before it ended, and the act does nothing to the machine in between.
-/
import MemoryShell.Script.Evaluation

namespace MemoryShell.Script

variable {σ α β γ δ : Type} {ask : α → Act σ β}

/-! ### Series of questions -/

/-- Questions asked one after the other, each where the one before it ended, and the answers. -/
inductive Answered (ask : α → Act σ β) : Machine σ → List (α × β) → Machine σ → Prop where
  | nil (m) : Answered ask m [] m
  | cons {a b answers m m' m''} : ask a m = .ok b m' → Answered ask m' answers m'' →
    Answered ask m ((a, b) :: answers) m''

theorem Answered.append {answers answers' : List (α × β)} {m m' m'' : Machine σ}
    (h : Answered ask m answers m') (h' : Answered ask m' answers' m'') :
    Answered ask m (answers ++ answers') m'' := by
  induction h with
  | nil => exact h'
  | cons hask _ ih => exact .cons hask (ih h')

/-- From a machine on questions are asked until there are no more of them or one fails: what is true
    of the answers and of the machine after them, or of the answers, of the question that failed, of
    its fault and of the machine that it left. -/
inductive Asked (ask : α → Act σ β) (m : Machine σ) (P : List (α × β) → Machine σ → Prop)
    (Q : List (α × β) → α → Fault → Machine σ → Prop) : Prop where
  | answered {answers m'} : Answered ask m answers m' → P answers m' → Asked ask m P Q
  | failed {answers a fault m' m''} : Answered ask m answers m' → ask a m' = .error fault m'' →
    Q answers a fault m'' → Asked ask m P Q

theorem Asked.imp {P P' : List (α × β) → Machine σ → Prop}
    {Q Q' : List (α × β) → α → Fault → Machine σ → Prop} {m : Machine σ} (h : Asked ask m P Q)
    (hP : ∀ answers m', Answered ask m answers m' → P answers m' → P' answers m')
    (hQ : ∀ answers a fault m', Q answers a fault m' → Q' answers a fault m') :
    Asked ask m P' Q' := by
  cases h with
  | answered hanswers h => exact .answered hanswers (hP _ _ hanswers h)
  | failed hanswers hask h => exact .failed hanswers hask (hQ _ _ _ _ h)

/-- Call a function for a method, as a function of its own. -/
def Runner.callback (r : Runner σ) (f : Value) (args : List Value) : Act σ Value :=
  r.call f .undefined args

/-! ### Acts that ask -/

namespace Act

/-- Wherever it begins, the act does nothing but ask.  If all questions are answered, what it gives
    goes by the answers; if one fails, the act fails with it. -/
def Asks (ask : α → Act σ β) (P : List (α × β) → γ → Prop) (Q : List (α × β) → α → Prop)
    (act : Act σ γ) : Prop :=
  ∀ m, Asked ask m (fun answers m' => ∃ c, act m = .ok c m' ∧ P answers c)
    fun answers a fault m' => act m = .error fault m' ∧ Q answers a

namespace Asks

variable {P : List (α × β) → γ → Prop} {Q : List (α × β) → α → Prop} {act : Act σ γ}

theorem pure {c : γ} (h : P [] c) : Asks ask P Q (pure c) :=
  fun m => .answered (.nil m) ⟨c, rfl, h⟩

theorem imp {P' : List (α × β) → γ → Prop} {Q' : List (α × β) → α → Prop} (h : Asks ask P Q act)
    (hP : ∀ answers c, P answers c → P' answers c) (hQ : ∀ answers a, Q answers a → Q' answers a) :
    Asks ask P' Q' act := by
  intro m
  refine (h m).imp ?_ ?_
  · rintro answers m' - ⟨c, hact, hc⟩
    exact ⟨c, hact, hP answers c hc⟩
  · rintro answers a fault m' ⟨hact, ha⟩
    exact ⟨hact, hQ answers a ha⟩

/-- What follows goes by the answers before it and by its own. -/
theorem bind {P' : List (α × β) → δ → Prop} {Q' : List (α × β) → α → Prop} {next : γ → Act σ δ}
    (h : Asks ask P Q act) (hfailed : ∀ answers a, Q answers a → Q' answers a)
    (hnext : ∀ answers c, P answers c → Asks ask (fun answers' => P' (answers ++ answers'))
      (fun answers' => Q' (answers ++ answers')) (next c)) :
    Asks ask P' Q' (act >>= next) := by
  intro m
  cases h m with
  | @answered answers m' hanswers h =>
    obtain ⟨c, hact, hc⟩ := h
    rw [bind_of_ok hact]
    cases hnext answers c hc m' with
    | answered hanswers' h' => exact .answered (hanswers.append hanswers') h'
    | failed hanswers' hask h' => exact .failed (hanswers.append hanswers') hask h'
  | failed hanswers hask h =>
    exact .failed hanswers hask ⟨bind_of_error h.1, hfailed _ _ h.2⟩

/-- A question that is asked first. -/
theorem ask_bind {a : α} {next : β → Act σ γ} (hfailed : Q [] a)
    (hnext : ∀ b, Asks ask (fun answers => P ((a, b) :: answers))
      (fun answers => Q ((a, b) :: answers)) (next b)) : Asks ask P Q (ask a >>= next) := by
  intro m
  cases hask : ask a m with
  | ok b m' =>
    rw [bind_of_ok hask]
    cases hnext b m' with
    | answered hanswers h => exact .answered (.cons hask hanswers) h
    | failed hanswers hask' h => exact .failed (.cons hask hanswers) hask' h
  | error fault m' => exact .failed (.nil m) hask ⟨bind_of_error hask, hfailed⟩

/-- What the act gives goes by some answers. -/
theorem gives (h : Asks ask P Q act) {c : γ} {m m' : Machine σ} (hact : act m = .ok c m') :
    ∃ answers, P answers c := by
  cases h m with
  | answered _ h =>
    obtain ⟨c', hact', hc⟩ := h
    cases hact.symm.trans hact'
    exact ⟨_, hc⟩
  | failed _ _ h => cases hact.symm.trans h.1

/-- How an act ends that goes on after one that asks. -/
theorem followed (h : Asks ask P Q act) {next : γ → Act σ δ} {r : Result σ δ} {m : Machine σ}
    (hr : r = (act >>= next) m) :
    Asked ask m (fun answers m' => ∃ c, P answers c ∧ r = next c m')
      fun answers a fault m' => Q answers a ∧ r = .error fault m' := by
  refine (h m).imp ?_ ?_
  · rintro answers m' - ⟨c, hact, hc⟩
    exact ⟨c, hc, hr.trans (bind_of_ok hact)⟩
  · rintro answers a fault m' ⟨hact, ha⟩
    exact ⟨ha, hr.trans (bind_of_error hact)⟩

end Asks

end Act

end MemoryShell.Script
