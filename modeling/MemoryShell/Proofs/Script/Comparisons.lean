/-
  MemoryShell/Proofs/Script/Comparisons.lean
  ==========================================
  **The comparisons of a sort.**

  A sort does nothing but ask which of two values comes after the other, and what it gives is what a
  merge sort makes of the answers.  So whatever the answers are, it gives the values in some order
  after at most n⌈log₂ n⌉ comparisons, and if an order gave them, in this order.
-/
import MemoryShell.Proofs.Script.Merging
import MemoryShell.Proofs.Script.Methods
import MemoryShell.Proofs.Script.Questions

namespace MemoryShell.Script

variable {σ : Type}

/-! ### What is asked -/

/-- The question whether the first of two values comes after the second one. -/
def comparing (comesAfter : Value → Value → Act σ Bool) (q : Value × Value) : Act σ Bool :=
  comesAfter q.1 q.2

/-- A comparison of two of some values that is not the last one there can be. -/
def MayCompare (most : Nat) (values : List Value) (answers : Comparisons Value)
    (q : Value × Value) : Prop :=
  answers.length < most ∧ q.1 ∈ values ∧ q.2 ∈ values

/-! ### Merging -/

variable {comesAfter : Value → Value → Act σ Bool}

/-- The runs that are left are merged onto what is there. -/
theorem mergeOnto_asks (merged : List Value) (turns : Nat) (as bs : List Value)
    (hturns : as.length + bs.length ≤ turns) :
    (mergeOnto comesAfter merged turns as bs).Asks (comparing comesAfter)
      (fun answers out => ∃ tail, out = merged.reverse ++ tail ∧ Merges answers as bs tail)
      (MayCompare (as.length + bs.length) (as ++ bs)) := by
  fun_induction mergeOnto comesAfter merged turns as bs with
  | case1 merged turns a as b bs ihsecond ihfirst =>
    simp only [List.length_cons] at hturns ihsecond ihfirst
    have hfew : MayCompare ((a :: as).length + (b :: bs).length) (a :: as ++ b :: bs) [] (a, b) :=
      ⟨Nat.succ_pos _, List.mem_cons_self, List.mem_append_right _ List.mem_cons_self⟩
    refine Act.Asks.ask_bind (a := (a, b)) hfew fun isAfter => ?_
    cases isAfter with
    | true =>
      refine (ihsecond (by omega)).imp ?_ ?_
      · rintro answers out ⟨tail, rfl, htail⟩
        exact ⟨b :: tail, by rw [List.reverse_cons, List.append_assoc]; rfl, .second htail⟩
      · rintro answers q ⟨hmost, hq⟩
        refine ⟨?_, List.perm_middle.mem_iff.mpr (List.mem_cons_of_mem _ hq.1),
          List.perm_middle.mem_iff.mpr (List.mem_cons_of_mem _ hq.2)⟩
        simp only [List.length_cons] at hmost ⊢
        omega
    | false =>
      refine (ihfirst (by omega)).imp ?_ ?_
      · rintro answers out ⟨tail, rfl, htail⟩
        exact ⟨a :: tail, by rw [List.reverse_cons, List.append_assoc]; rfl, .first htail⟩
      · rintro answers q ⟨hmost, hq⟩
        refine ⟨?_, List.mem_cons_of_mem _ hq.1, List.mem_cons_of_mem _ hq.2⟩
        simp only [List.length_cons] at hmost ⊢
        omega
  | case2 turns merged as bs hend =>
    refine .pure ⟨as ++ bs, List.append_assoc _ _ _, .rest ?_⟩
    -- With turns left, one of the runs is at its end.
    obtain _ | ⟨a, as⟩ := as
    · exact .inl rfl
    obtain _ | ⟨b, bs⟩ := bs
    · exact .inr rfl
    obtain _ | turns := turns
    · cases hturns
    exact absurd rfl (hend turns a as b bs rfl rfl)

theorem merge_asks (as bs : List Value) :
    (merge comesAfter as bs).Asks (comparing comesAfter)
      (fun answers out => Merges answers as bs out)
      (MayCompare (as.length + bs.length) (as ++ bs)) := by
  refine (mergeOnto_asks [] _ as bs (Nat.le_refl _)).imp ?_ fun _ _ hq => hq
  rintro answers out ⟨tail, rfl, htail⟩
  exact htail

theorem mergePairs_asks (merged runs : List (List Value)) :
    (mergePairs comesAfter merged runs).Asks (comparing comesAfter)
      (fun answers out => ∃ tail, out = merged.reverse ++ tail ∧ Passes answers runs tail)
      (MayCompare runs.flatten.length runs.flatten) := by
  fun_induction mergePairs comesAfter merged runs with
  | case1 merged as bs rest ih =>
    have hflatten : (as :: bs :: rest).flatten = as ++ bs ++ rest.flatten := by
      rw [List.flatten_cons, List.flatten_cons, List.append_assoc]
    refine (merge_asks as bs).bind ?_ fun answers run hrun => (ih run).imp ?_ ?_
    · rintro answers q ⟨hmost, hq⟩
      rw [hflatten]
      refine ⟨?_, List.mem_append_left _ hq.1, List.mem_append_left _ hq.2⟩
      rw [List.length_append, List.length_append]
      omega
    · rintro answers' out ⟨tail, rfl, htail⟩
      exact ⟨run :: tail, by rw [List.reverse_cons, List.append_assoc]; rfl, .pair hrun htail⟩
    · rintro answers' q ⟨hmost, hq⟩
      have hlength := hrun.length_le
      rw [hflatten]
      refine ⟨?_, List.mem_append_right _ hq.1, List.mem_append_right _ hq.2⟩
      rw [List.length_append, List.length_append, List.length_append]
      omega
  | case2 merged runs hend =>
    refine .pure ⟨runs, rfl, .rest ?_⟩
    obtain _ | ⟨as, _ | ⟨bs, rest⟩⟩ := runs
    · exact Nat.zero_le _
    · exact Nat.le_refl _
    · exact absurd rfl (hend as bs rest)

/-- Every pass leaves fewer runs, so the turns are enough. -/
theorem mergeRuns_asks (comesAfter : Value → Value → Act σ Bool) (turns : Nat)
    (runs : List (List Value)) (hturns : runs.length ≤ turns + 1) :
    (mergeRuns comesAfter turns runs).Asks (comparing comesAfter)
      (fun answers out => Sorts answers runs out)
      (MayCompare (runs.flatten.length * Nat.clog 2 runs.length) runs.flatten) := by
  fun_induction mergeRuns comesAfter turns runs with
  | case1 turns as bs rest ih =>
    have htwo : 2 ≤ (as :: bs :: rest).length := Nat.le_add_left _ _
    generalize as :: bs :: rest = runs at htwo hturns ⊢
    have hclog : Nat.clog 2 runs.length = Nat.clog 2 ((runs.length + 1) / 2) + 1 :=
      Nat.clog_of_two_le Nat.one_lt_two htwo
    refine (mergePairs_asks [] runs).bind ?_ ?_
    · rintro answers q ⟨hmost, hq⟩
      refine ⟨?_, hq⟩
      rw [hclog, Nat.mul_succ]
      omega
    · rintro answers runs' ⟨_, rfl, hpass⟩
      have hruns := hpass.length_runs
      refine (ih runs' (by omega)).imp ?_ ?_
      · intro answers' out hout
        exact .pass htwo hpass hout
      · rintro answers' q ⟨hmost, hq⟩
        rw [hpass.flatten_perm.mem_iff, hpass.flatten_perm.mem_iff] at hq
        rw [hpass.flatten_perm.length_eq, hruns] at hmost
        refine ⟨?_, hq⟩
        have hlength := hpass.length_le
        rw [hclog, Nat.mul_succ, List.length_append]
        omega
  | case2 turns runs hend =>
    refine .pure (.done ?_)
    obtain _ | ⟨as, _ | ⟨bs, rest⟩⟩ := runs
    · exact Nat.zero_le _
    · exact Nat.le_refl _
    obtain _ | turns := turns
    · exact hturns
    exact absurd rfl (hend turns as bs rest rfl)

/-! ### What a sort makes of its answers -/

/-- What a sort makes of some values by the answers to its comparisons, whatever they are.  If they
    are those of a strict weak order, it is in order, and what is alike has kept its order. -/
structure SortedBy (values : List Value) (answers : Comparisons Value) (sorted : List Value) :
    Prop where
  perm : sorted.Perm values
  length_le : answers.length ≤ values.length * Nat.clog 2 values.length
  among : ∀ q ∈ answers, q.1.1 ∈ values ∧ q.1.2 ∈ values
  ordered : ∀ after, IsWeakOrderOn after values → AnsweredBy after answers → Ordered after sorted
  stable : ∀ after, IsWeakOrderOn after values → AnsweredBy after answers →
    ∀ v ∈ values, sorted.filter (alike after v) = values.filter (alike after v)

theorem SortedBy.of_sorts {values sorted : List Value} {answers : Comparisons Value}
    (h : Sorts answers (values.map fun v => [v]) sorted) : SortedBy values answers sorted := by
  have hflatten : (values.map fun v => [v]).flatten = values := List.flatMap_singleton' values
  have hmem : (values.map fun v => [v]).flatten ⊆ values := by
    rw [hflatten]
    exact List.Subset.refl _
  have hruns (after : Value → Value → Bool) :
      ∀ run ∈ values.map fun v => [v], Ordered after run := by
    intro run hrun
    obtain ⟨v, -, rfl⟩ := List.mem_map.mp hrun
    exact List.pairwise_singleton _ v
  have hperm := h.perm
  have hlength := h.length_le
  have hamong := h.among
  rw [hflatten] at hperm hlength hamong
  rw [List.length_map] at hlength
  refine ⟨hperm, hlength, hamong, fun after horder hanswers => ?_,
    fun after horder hanswers v hv => ?_⟩
  · exact h.ordered horder hanswers hmem (hruns after)
  · have hfilter := h.filter_alike horder hanswers hmem (hruns after) hv
    rwa [hflatten] at hfilter

theorem sortBy_asks (values : List Value) :
    (sortBy comesAfter values).Asks (comparing comesAfter) (SortedBy values)
      (MayCompare (values.length * Nat.clog 2 values.length) values) := by
  have hflatten : (values.map fun v => [v]).flatten = values := List.flatMap_singleton' values
  have hruns := mergeRuns_asks comesAfter values.length (values.map fun v => [v])
  rw [hflatten, List.length_map] at hruns
  exact (hruns (Nat.le_succ _)).imp (fun _ _ => .of_sorts) fun _ _ hq => hq

end MemoryShell.Script
