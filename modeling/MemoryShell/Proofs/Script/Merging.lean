/-
  MemoryShell/Proofs/Script/Merging.lean
  ======================================
  **What a merge sort makes of any answers.**

  The comparisons of a merge sort may be answered in any way.  `Merges`, `Passes` and `Sorts` say
  what two runs, neighbouring runs and a list of runs become if the answers are given; they know
  nothing of who answers.  Whatever the answers are, nothing is lost and nothing doubled, and the
  number of comparisons is bounded.  If the answers are those of a strict weak order, the result is
  ordered by it, and values that are alike stay in order: of two that are alike the one of the first
  run goes first, and this is so at every width.
-/
import Mathlib.Data.Nat.Log
import Mathlib.Data.List.Basic

namespace MemoryShell.Script

variable {α : Type}

/-- The comparisons that were made, of a first value with a second one, and whether the first one
    was said to come after the second one. -/
abbrev Comparisons (α : Type) := List ((α × α) × Bool)

/-! ### Orders -/

/-- Neither of two values comes after the other. -/
def alike (after : α → α → Bool) (a b : α) : Bool := !after a b && !after b a

/-- A strict weak order of some values: what comes after what. -/
structure IsWeakOrderOn (after : α → α → Bool) (values : List α) : Prop where
  irrefl : ∀ a ∈ values, after a a = false
  trans : ∀ a ∈ values, ∀ b ∈ values, ∀ c ∈ values,
    after a b = true → after b c = true → after a c = true
  alike_trans : ∀ a ∈ values, ∀ b ∈ values, ∀ c ∈ values,
    alike after a b = true → alike after b c = true → alike after a c = true

/-- No value comes after one that stands behind it. -/
def Ordered (after : α → α → Bool) (values : List α) : Prop :=
  values.Pairwise fun a b => after a b = false

/-- Comparisons were answered as an order says. -/
def AnsweredBy (after : α → α → Bool) (answers : Comparisons α) : Prop :=
  ∀ q ∈ answers, q.2 = after q.1.1 q.1.2

theorem answeredBy_append {after : α → α → Bool} {answers answers' : Comparisons α} :
    AnsweredBy after (answers ++ answers') ↔ AnsweredBy after answers ∧ AnsweredBy after answers' :=
  List.forall_mem_append

theorem answeredBy_cons {after : α → α → Bool} {a b : α} {answer : Bool}
    {answers : Comparisons α} :
    AnsweredBy after (((a, b), answer) :: answers) ↔
      answer = after a b ∧ AnsweredBy after answers :=
  List.forall_mem_cons

theorem alike_iff {after : α → α → Bool} {a b : α} :
    alike after a b = true ↔ after a b = false ∧ after b a = false := by
  rw [alike, Bool.and_eq_true, Bool.not_eq_true', Bool.not_eq_true']

namespace IsWeakOrderOn

variable {after : α → α → Bool} {values : List α} {a b c : α}

/-- What does not come after something else may be in any total order in which different values can
    have the same place. -/
theorem of_total {le : α → α → Prop} (hafter : ∀ a b, after a b = false ↔ le a b)
    (htotal : ∀ a b, le a b ∨ le b a) (htrans : ∀ a b c, le a b → le b c → le a c)
    (values : List α) : IsWeakOrderOn after values where
  irrefl a _ := (hafter a a).mpr ((htotal a a).elim id id)
  trans a _ b _ c _ hab hbc := by
    rw [← Bool.not_eq_false, hafter] at hab hbc ⊢
    intro hac
    exact hbc (htrans b a c ((htotal a b).resolve_left hab) hac)
  alike_trans a _ b _ c _ hab hbc := by
    rw [alike_iff, hafter, hafter] at hab hbc ⊢
    exact ⟨htrans a b c hab.1 hbc.1, htrans c b a hbc.2 hab.2⟩

theorem asymm (h : IsWeakOrderOn after values) (ha : a ∈ values) (hb : b ∈ values)
    (hab : after a b = true) : after b a = false := by
  rw [← Bool.not_eq_true]
  intro hba
  have haa := h.trans a ha b hb a ha hab hba
  rw [h.irrefl a ha] at haa
  cases haa

/-- What does not come after a value does not come after what that value does not come after. -/
theorem not_after_trans (h : IsWeakOrderOn after values) (ha : a ∈ values) (hb : b ∈ values)
    (hc : c ∈ values) (hab : after a b = false) (hbc : after b c = false) :
    after a c = false := by
  rw [← Bool.not_eq_true]
  intro hac
  have hba : after b a = false := by
    rw [← Bool.not_eq_true]
    intro hba
    have hbc' := h.trans b hb a ha c hc hba hac
    rw [hbc] at hbc'
    cases hbc'
  have hcb : after c b = false := by
    rw [← Bool.not_eq_true]
    intro hcb
    have hab' := h.trans a ha c hc b hb hac hcb
    rw [hab] at hab'
    cases hab'
  have hsame := h.alike_trans a ha b hb c hc (alike_iff.mpr ⟨hab, hba⟩) (alike_iff.mpr ⟨hbc, hcb⟩)
  rw [(alike_iff.mp hsame).1] at hac
  cases hac

end IsWeakOrderOn

/-! ### Two runs -/

/-- What two runs become by the answers to the comparisons of their first values. -/
inductive Merges : Comparisons α → List α → List α → List α → Prop where
  /-- Where one run is at its end, the rest of the other one is taken as it is. -/
  | rest {as bs : List α} : as = [] ∨ bs = [] → Merges [] as bs (as ++ bs)
  | second {answers a as b bs out} : Merges answers (a :: as) bs out →
    Merges (((a, b), true) :: answers) (a :: as) (b :: bs) (b :: out)
  | first {answers a as b bs out} : Merges answers as (b :: bs) out →
    Merges (((a, b), false) :: answers) (a :: as) (b :: bs) (a :: out)

namespace Merges

variable {answers : Comparisons α} {as bs out : List α}

theorem perm (h : Merges answers as bs out) : out.Perm (as ++ bs) := by
  induction h with
  | rest => exact .refl _
  | second _ ih => exact (ih.cons _).trans List.perm_middle.symm
  | first _ ih => exact ih.cons _

/-- Every comparison places a value. -/
theorem length_le (h : Merges answers as bs out) : answers.length ≤ as.length + bs.length := by
  induction h with
  | rest => exact Nat.zero_le _
  | second _ ih | first _ ih =>
    simp only [List.length_cons] at ih ⊢
    omega

theorem among (h : Merges answers as bs out) : ∀ q ∈ answers, q.1.1 ∈ as ∧ q.1.2 ∈ bs := by
  induction h with
  | rest => exact nofun
  | second _ ih =>
    refine List.forall_mem_cons.mpr ⟨⟨List.mem_cons_self, List.mem_cons_self⟩, fun q hq => ?_⟩
    exact ⟨(ih q hq).1, List.mem_cons_of_mem _ (ih q hq).2⟩
  | first _ ih =>
    refine List.forall_mem_cons.mpr ⟨⟨List.mem_cons_self, List.mem_cons_self⟩, fun q hq => ?_⟩
    exact ⟨List.mem_cons_of_mem _ (ih q hq).1, (ih q hq).2⟩

section Order

variable {after : α → α → Bool} {values : List α} (horder : IsWeakOrderOn after values)
include horder

theorem ordered (h : Merges answers as bs out) (hanswers : AnsweredBy after answers)
    (hmem : as ++ bs ⊆ values) (has : Ordered after as) (hbs : Ordered after bs) :
    Ordered after out := by
  induction h with
  | rest hempty =>
    obtain rfl | rfl := hempty
    · exact hbs
    · rwa [List.append_nil]
  | @second answers a as b bs out hmerges ih =>
    obtain ⟨hafter, hanswers⟩ := answeredBy_cons.mp hanswers
    obtain ⟨hmemas, hmembs⟩ := List.append_subset.mp hmem
    obtain ⟨hb, hbs⟩ := List.pairwise_cons.mp hbs
    obtain ⟨hbvalues, hmembs⟩ := List.cons_subset.mp hmembs
    have havalues : a ∈ values := hmemas List.mem_cons_self
    have hba : after b a = false := horder.asymm havalues hbvalues hafter.symm
    refine List.pairwise_cons.mpr ⟨fun c hc => ?_,
      ih hanswers (List.append_subset.mpr ⟨hmemas, hmembs⟩) has hbs⟩
    rcases List.mem_append.mp (hmerges.perm.mem_iff.mp hc) with hc | hc
    · rcases List.mem_cons.mp hc with rfl | hrest
      · exact hba
      · have hac := (List.pairwise_cons.mp has).1 c hrest
        exact horder.not_after_trans hbvalues havalues (hmemas hc) hba hac
    · exact hb c hc
  | @first answers a as b bs out hmerges ih =>
    obtain ⟨hafter, hanswers⟩ := answeredBy_cons.mp hanswers
    obtain ⟨hmemas, hmembs⟩ := List.append_subset.mp hmem
    obtain ⟨ha, has⟩ := List.pairwise_cons.mp has
    obtain ⟨havalues, hmemas⟩ := List.cons_subset.mp hmemas
    have hbvalues : b ∈ values := hmembs List.mem_cons_self
    refine List.pairwise_cons.mpr ⟨fun c hc => ?_,
      ih hanswers (List.append_subset.mpr ⟨hmemas, hmembs⟩) has hbs⟩
    rcases List.mem_append.mp (hmerges.perm.mem_iff.mp hc) with hc | hc
    · exact ha c hc
    · rcases List.mem_cons.mp hc with rfl | hrest
      · exact hafter.symm
      · have hbc := (List.pairwise_cons.mp hbs).1 c hrest
        exact horder.not_after_trans havalues hbvalues (hmembs hc) hafter.symm hbc

/-- Nothing in an ordered run is alike to what its first value comes after. -/
theorem not_alike_of_after {a b v : α} (has : Ordered after (a :: as)) (hmem : a :: as ⊆ values)
    (hb : b ∈ values) (hv : v ∈ values) (hafter : after a b = true)
    (halike : alike after v b = true) : (a :: as).filter (alike after v) = [] := by
  refine List.filter_eq_nil_iff.mpr fun c hc hvc => ?_
  have ha : a ∈ values := hmem List.mem_cons_self
  have hac : after a c = false := by
    rcases List.mem_cons.mp hc with rfl | hrest
    · exact horder.irrefl c ha
    · exact (List.pairwise_cons.mp has).1 c hrest
  have hcb : after c b = false :=
    horder.not_after_trans (hmem hc) hv hb (alike_iff.mp hvc).2 (alike_iff.mp halike).1
  have hab := horder.not_after_trans ha (hmem hc) hb hac hcb
  rw [hafter] at hab
  cases hab

/-- Among the values that are alike to one, those of the first run stand before those of the
    second one, in their order. -/
theorem filter_alike (h : Merges answers as bs out) (hanswers : AnsweredBy after answers)
    (hmem : as ++ bs ⊆ values) (has : Ordered after as) {v : α} (hv : v ∈ values) :
    out.filter (alike after v) = as.filter (alike after v) ++ bs.filter (alike after v) := by
  induction h with
  | rest => exact List.filter_append _ _
  | @second answers a as b bs out _ ih =>
    obtain ⟨hafter, hanswers⟩ := answeredBy_cons.mp hanswers
    obtain ⟨hmemas, hmembs⟩ := List.append_subset.mp hmem
    obtain ⟨hbvalues, hmembs⟩ := List.cons_subset.mp hmembs
    have hout := ih hanswers (List.append_subset.mpr ⟨hmemas, hmembs⟩) has
    cases halike : alike after v b with
    | false =>
      have hskip : alike after v b ≠ true := Bool.eq_false_iff.mp halike
      rw [List.filter_cons_of_neg hskip, List.filter_cons_of_neg hskip, hout]
    | true =>
      rw [not_alike_of_after horder has hmemas hbvalues hv hafter.symm halike] at hout ⊢
      rw [List.filter_cons_of_pos halike, List.filter_cons_of_pos halike, hout]
      rfl
  | @first answers a as b bs out _ ih =>
    obtain ⟨-, hanswers⟩ := answeredBy_cons.mp hanswers
    have hout := ih hanswers (List.cons_subset.mp hmem).2 (List.pairwise_cons.mp has).2
    rw [List.filter_cons, List.filter_cons, hout]
    split <;> rfl

end Order

end Merges

/-! ### Neighbouring runs -/

/-- What runs become if neighbours are merged; a last run that has no neighbour stays. -/
inductive Passes : Comparisons α → List (List α) → List (List α) → Prop where
  | rest {runs : List (List α)} : runs.length ≤ 1 → Passes [] runs runs
  | pair {answers answers' as bs out rest rest'} : Merges answers as bs out →
    Passes answers' rest rest' →
    Passes (answers ++ answers') (as :: bs :: rest) (out :: rest')

namespace Passes

variable {answers : Comparisons α} {runs runs' : List (List α)}

theorem flatten_perm (h : Passes answers runs runs') : runs'.flatten.Perm runs.flatten := by
  induction h with
  | rest => exact .refl _
  | pair hmerges _ ih =>
    rw [List.flatten_cons, List.flatten_cons, List.flatten_cons, ← List.append_assoc]
    exact hmerges.perm.append ih

/-- A pass leaves half of the runs, rounded up. -/
theorem length_runs (h : Passes answers runs runs') : runs'.length = (runs.length + 1) / 2 := by
  induction h with
  | rest => omega
  | pair _ _ ih =>
    simp only [List.length_cons, ih]
    omega

theorem length_le (h : Passes answers runs runs') : answers.length ≤ runs.flatten.length := by
  induction h with
  | rest => exact Nat.zero_le _
  | pair hmerges _ ih =>
    have hlength := hmerges.length_le
    simp only [List.flatten_cons, List.length_append]
    omega

theorem among (h : Passes answers runs runs') :
    ∀ q ∈ answers, q.1.1 ∈ runs.flatten ∧ q.1.2 ∈ runs.flatten := by
  induction h with
  | rest => exact nofun
  | pair hmerges _ ih =>
    intro q hq
    simp only [List.flatten_cons, List.mem_append]
    rcases List.mem_append.mp hq with hq | hq
    · have hmem := hmerges.among q hq
      exact ⟨.inl hmem.1, .inr (.inl hmem.2)⟩
    · have hmem := ih q hq
      exact ⟨.inr (.inr hmem.1), .inr (.inr hmem.2)⟩

section Order

variable {after : α → α → Bool} {values : List α} (horder : IsWeakOrderOn after values)
include horder

theorem ordered (h : Passes answers runs runs') (hanswers : AnsweredBy after answers)
    (hmem : runs.flatten ⊆ values) (hruns : ∀ run ∈ runs, Ordered after run) :
    ∀ run ∈ runs', Ordered after run := by
  induction h with
  | rest => exact hruns
  | @pair _ _ as bs _ rest _ hmerges _ ih =>
    obtain ⟨hfirst, hothers⟩ := answeredBy_append.mp hanswers
    rw [List.flatten_cons, List.flatten_cons, ← List.append_assoc, List.append_subset] at hmem
    obtain ⟨has, hruns⟩ := List.forall_mem_cons.mp hruns
    obtain ⟨hbs, hrest⟩ := List.forall_mem_cons.mp hruns
    exact List.forall_mem_cons.mpr
      ⟨hmerges.ordered horder hfirst hmem.1 has hbs, ih hothers hmem.2 hrest⟩

theorem filter_alike (h : Passes answers runs runs') (hanswers : AnsweredBy after answers)
    (hmem : runs.flatten ⊆ values) (hruns : ∀ run ∈ runs, Ordered after run) {v : α}
    (hv : v ∈ values) :
    runs'.flatten.filter (alike after v) = runs.flatten.filter (alike after v) := by
  induction h with
  | rest => rfl
  | @pair _ _ as bs _ rest _ hmerges _ ih =>
    obtain ⟨hfirst, hothers⟩ := answeredBy_append.mp hanswers
    rw [List.flatten_cons, List.flatten_cons, ← List.append_assoc, List.append_subset] at hmem
    obtain ⟨has, hruns⟩ := List.forall_mem_cons.mp hruns
    obtain ⟨hbs, hrest⟩ := List.forall_mem_cons.mp hruns
    simp only [List.flatten_cons, List.filter_append]
    rw [hmerges.filter_alike horder hfirst hmem.1 has hv, ih hothers hmem.2 hrest,
      List.append_assoc]

end Order

end Passes

/-! ### All runs -/

/-- What runs become if neighbours are merged until no more than one run is left. -/
inductive Sorts : Comparisons α → List (List α) → List α → Prop where
  | done {runs : List (List α)} : runs.length ≤ 1 → Sorts [] runs runs.flatten
  | pass {answers answers' runs runs' out} : 2 ≤ runs.length → Passes answers runs runs' →
    Sorts answers' runs' out → Sorts (answers ++ answers') runs out

namespace Sorts

variable {answers : Comparisons α} {runs : List (List α)} {out : List α}

theorem perm (h : Sorts answers runs out) : out.Perm runs.flatten := by
  induction h with
  | done => exact .refl _
  | pass _ hpasses _ ih => exact ih.trans hpasses.flatten_perm

/-- Every pass has as many comparisons as there are values, or fewer, and there are as many passes
    as the number of runs can be halved. -/
theorem length_le (h : Sorts answers runs out) :
    answers.length ≤ runs.flatten.length * Nat.clog 2 runs.length := by
  induction h with
  | done => exact Nat.zero_le _
  | @pass answers answers' runs runs' _ htwo hpasses _ ih =>
    have hclog : Nat.clog 2 runs.length = Nat.clog 2 runs'.length + 1 := by
      rw [hpasses.length_runs]
      exact Nat.clog_of_two_le Nat.one_lt_two htwo
    have hpass := hpasses.length_le
    rw [hpasses.flatten_perm.length_eq] at ih
    rw [List.length_append, hclog, Nat.mul_succ]
    omega

theorem among (h : Sorts answers runs out) :
    ∀ q ∈ answers, q.1.1 ∈ runs.flatten ∧ q.1.2 ∈ runs.flatten := by
  induction h with
  | done => exact nofun
  | pass _ hpasses _ ih =>
    intro q hq
    rcases List.mem_append.mp hq with hq | hq
    · exact hpasses.among q hq
    · have hmem := ih q hq
      exact ⟨hpasses.flatten_perm.mem_iff.mp hmem.1, hpasses.flatten_perm.mem_iff.mp hmem.2⟩

section Order

variable {after : α → α → Bool} {values : List α} (horder : IsWeakOrderOn after values)
include horder

theorem ordered (h : Sorts answers runs out) (hanswers : AnsweredBy after answers)
    (hmem : runs.flatten ⊆ values) (hruns : ∀ run ∈ runs, Ordered after run) :
    Ordered after out := by
  induction h with
  | @done runs hshort =>
    match runs with
    | [] => exact .nil
    | [run] =>
      rw [List.flatten_singleton]
      exact hruns run List.mem_cons_self
  | pass _ hpasses _ ih =>
    obtain ⟨hfirst, hothers⟩ := answeredBy_append.mp hanswers
    exact ih hothers (fun a ha => hmem (hpasses.flatten_perm.mem_iff.mp ha))
      (hpasses.ordered horder hfirst hmem hruns)

theorem filter_alike (h : Sorts answers runs out) (hanswers : AnsweredBy after answers)
    (hmem : runs.flatten ⊆ values) (hruns : ∀ run ∈ runs, Ordered after run) {v : α}
    (hv : v ∈ values) :
    out.filter (alike after v) = runs.flatten.filter (alike after v) := by
  induction h with
  | done => rfl
  | pass _ hpasses _ ih =>
    obtain ⟨hfirst, hothers⟩ := answeredBy_append.mp hanswers
    rw [ih hothers (fun a ha => hmem (hpasses.flatten_perm.mem_iff.mp ha))
      (hpasses.ordered horder hfirst hmem hruns)]
    exact hpasses.filter_alike horder hfirst hmem hruns hv

end Order

end Sorts

end MemoryShell.Script
