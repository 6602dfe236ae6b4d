/-
  MemoryShell/Proofs/Script/TextLengths.lean
  ==========================================
  **Where the length of a text is checked.**

  Operators, templates, the methods of strings and the method that joins an array refuse to give a
  text that is longer than the limit.  Some look at the limit twice, before a text is made that
  would be far too long and again when it is there.  Whatever the nested parts of an expression do,
  the check does not depend on them.
-/
import MemoryShell.Script.Evaluation
import Mathlib.Data.String.Basic

namespace MemoryShell

/-! ### Pieces of a text -/

/-- A piece of a text is one of those that are done, or a part of what is left. -/
theorem Text.splitFrom_sublist {separator piece text p : List Char} {skip : Nat}
    {done : List (List Char)} (h : p ∈ splitFrom separator skip piece done text) :
    p ∈ done ∨ p.Sublist (piece.reverse ++ text) := by
  induction text generalizing skip piece done with
  | nil =>
    have hmem : p ∈ (piece.reverse :: done).reverse := by cases skip <;> exact h
    rw [List.append_nil]
    rcases List.mem_cons.mp (List.mem_reverse.mp hmem) with rfl | hdone
    · exact .inr (List.Sublist.refl _)
    · exact .inl hdone
  | cons c cs ih =>
    have hskipped : cs.Sublist (c :: cs) := List.sublist_cons_self c cs
    cases skip with
    | succ skip => exact (ih h).imp id fun hp => hp.trans (hskipped.append_left _)
    | zero =>
      rw [splitFrom] at h
      split at h
      · rcases ih h with hdone | hp
        · rcases List.mem_cons.mp hdone with rfl | hdone
          · exact .inr (List.sublist_append_left _ _)
          · exact .inl hdone
        · exact .inr ((hp.trans hskipped).trans (List.sublist_append_right _ _))
      · rcases ih h with hdone | hp
        · exact .inl hdone
        · rw [List.reverse_cons, List.append_assoc] at hp
          exact .inr hp

namespace Script

theorem pieces_sublist {separator text p : List Char} (h : p ∈ pieces separator text) :
    p.Sublist text := by
  unfold pieces at h
  split at h
  · obtain ⟨c, hc, rfl⟩ := List.mem_map.mp h
    exact List.singleton_sublist.mpr hc
  · exact (Text.splitFrom_sublist h).resolve_left (List.not_mem_nil)

/-! ### Limits on texts -/

/-- Whether a value is a text that is longer than the limit. -/
def Limits.exceededBy (limits : Limits) : Value → Bool
  | .string s => decide (limits.maxStringLength < s.utf8ByteSize)
  | _ => false

/-- The limits with another one on the length of texts. -/
def Limits.withTexts (limits : Limits) (n : Nat) : Limits := { limits with maxStringLength := n }

variable {σ α : Type} {limits : Limits}

/-! ### Refusing -/

/-- An act gives no text that is longer than the limit; one that it would give under another limit
    it refuses. -/
structure ChecksTexts (limits : Limits) (act : Limits → Act σ Value) : Prop where
  keeps : ∀ m v m', act limits m = .ok v m' → limits.exceededBy v = false
  refuses : ∀ n m v m', act (limits.withTexts n) m = .ok v m' → limits.exceededBy v = true →
    ∃ m₁, act limits m = Act.throwMistake .stringLength m₁

/-- An act may look at the limit to refuse, and for nothing else. -/
def RefusesOnly (limits : Limits) (act : Limits → Act σ Value) : Prop :=
  ∀ n m v m', act (limits.withTexts n) m = .ok v m' →
    act limits m = .ok v m' ∨ ∃ m₁, act limits m = Act.throwMistake .stringLength m₁

namespace RefusesOnly

theorem const (act : Act σ Value) : RefusesOnly limits fun _ => act := fun _ _ _ _ h => .inl h

theorem bind {act : Act σ α} {next : Limits → α → Act σ Value}
    (h : ∀ a, RefusesOnly limits fun l => next l a) :
    RefusesOnly limits fun l => act >>= next l := by
  intro n m v m' heq
  obtain ⟨a, m₁, hact, hnext⟩ := Act.bind_eq_ok.mp heq
  have hbind : (act >>= next limits) m = next limits a m₁ := Act.bind_of_ok hact
  rcases h a n m₁ v m' hnext with hsame | ⟨m₂, hrefused⟩
  · exact .inl (hbind.trans hsame)
  · exact .inr ⟨m₂, hbind.trans hrefused⟩

theorem refuseIf {p : Limits → Prop} [∀ l, Decidable (p l)] {act : Limits → Act σ Value}
    (h : RefusesOnly limits act) :
    RefusesOnly limits fun l => if p l then Act.throwMistake .stringLength else act l := by
  intro n m v m' heq
  dsimp only at heq ⊢
  by_cases hother : p (limits.withTexts n)
  · rw [if_pos hother] at heq
    cases heq
  rw [if_neg hother] at heq
  by_cases hp : p limits
  · rw [if_pos hp]
    exact .inr ⟨m, rfl⟩
  · rw [if_neg hp]
    exact h n m v m' heq

end RefusesOnly

theorem Act.checkText_eq (v : Value) :
    (Act.checkText limits v : Act σ Value) =
      if limits.exceededBy v then Act.throwMistake .stringLength else pure v := by
  cases v with
  | string s =>
    change (if limits.maxStringLength < s.utf8ByteSize then _ else _) =
      if decide (limits.maxStringLength < s.utf8ByteSize) = true then _ else _
    simp only [decide_eq_true_eq]
  | _ => rfl

namespace ChecksTexts

/-- An act that looks at the limit to refuse, and whose value is checked. -/
theorem checked {act : Limits → Act σ Value} (h : RefusesOnly limits act) :
    ChecksTexts limits fun l => act l >>= Act.checkText l := by
  constructor
  · intro m v m' heq
    obtain ⟨w, m₁, -, hcheck⟩ := Act.bind_eq_ok.mp heq
    rw [Act.checkText_eq] at hcheck
    split at hcheck
    · cases hcheck
    · cases hcheck
      exact Bool.eq_false_iff.mpr ‹_›
  · intro n m v m' heq hlong
    obtain ⟨w, m₁, hact, hcheck⟩ := Act.bind_eq_ok.mp heq
    rw [Act.checkText_eq] at hcheck
    split at hcheck
    · cases hcheck
    cases hcheck
    rcases h n m v m' hact with hsame | ⟨m₁, hrefused⟩
    · refine ⟨m', (Act.bind_of_ok hsame).trans ?_⟩
      rw [Act.checkText_eq, if_pos hlong]
    · exact ⟨m₁, Act.bind_of_error hrefused⟩

theorem bind {act : Act σ α} {next : Limits → α → Act σ Value}
    (h : ∀ a, ChecksTexts limits fun l => next l a) :
    ChecksTexts limits fun l => act >>= next l := by
  constructor
  · intro m v m' heq
    obtain ⟨a, m₁, -, hnext⟩ := Act.bind_eq_ok.mp heq
    exact (h a).keeps m₁ v m' hnext
  · intro n m v m' heq hlong
    obtain ⟨a, m₁, hact, hnext⟩ := Act.bind_eq_ok.mp heq
    obtain ⟨m₂, hrefused⟩ := (h a).refuses n m₁ v m' hnext hlong
    exact ⟨m₂, (Act.bind_of_ok hact).trans hrefused⟩

theorem checkText (v : Value) :
    ChecksTexts limits fun l => (Act.checkText l v : Act σ Value) := by
  have hpure : RefusesOnly limits fun _ => (pure v : Act σ Value) := .const _
  exact checked hpure

theorem refuseIf {p : Limits → Prop} [∀ l, Decidable (p l)] {act : Limits → Act σ Value}
    (h : ChecksTexts limits act) :
    ChecksTexts limits fun l => if p l then Act.throwMistake .stringLength else act l := by
  constructor
  · intro m v m' heq
    split at heq
    · cases heq
    · exact h.keeps m v m' heq
  · intro n m v m' heq hlong
    split at heq
    · cases heq
    by_cases hp : p limits
    · rw [if_pos hp]
      exact ⟨m, rfl⟩
    · rw [if_neg hp]
      exact h.refuses n m v m' heq hlong

/-- What is done with a value leaves the check of it as it is. -/
theorem followed {act : Limits → Act σ Value} {next : Limits → Value → Act σ Value}
    (h : ChecksTexts limits act) (hnext : ∀ l v m w m', next l v m = .ok w m' → w = v) :
    ChecksTexts limits fun l => act l >>= next l := by
  constructor
  · intro m v m' heq
    obtain ⟨w, m₁, hact, hw⟩ := Act.bind_eq_ok.mp heq
    rw [hnext limits w m₁ v m' hw]
    exact h.keeps m w m₁ hact
  · intro n m v m' heq hlong
    obtain ⟨w, m₁, hact, hw⟩ := Act.bind_eq_ok.mp heq
    rw [hnext _ w m₁ v m' hw] at hlong
    obtain ⟨m₂, hrefused⟩ := h.refuses n m w m₁ hact hlong
    exact ⟨m₂, Act.bind_of_error hrefused⟩

end ChecksTexts

/-! ### Operators and templates -/

section Sites

variable (r : Runner σ)

theorem checksTexts_binary (op : BinaryOp) (left right : Expr) (env : Env) :
    ChecksTexts limits fun l => Act.evaluate l r (.binary op left right) env :=
  .bind fun _ => .bind fun _ => .bind fun v => .checkText v

theorem checksTexts_template (parts : List TemplatePart) (env : Env) :
    ChecksTexts limits fun l => Act.evaluate l r (.template parts) env :=
  .bind fun _ => .checkText _

theorem checksTexts_assign (op : BinaryOp) (target value : Expr) (env : Env) :
    ChecksTexts limits fun l => Act.evaluate l r (.assign (some op) target value) env := by
  have hvalue : ChecksTexts limits fun l => Act.assignedValue l r (some op) target value env :=
    .bind fun _ => .bind fun _ => .bind fun v => .checkText v
  refine hvalue.followed fun l v m w m' hnext => ?_
  obtain ⟨⟨⟩, m₁, -, hpure⟩ := Act.bind_eq_ok.mp hnext
  cases hpure
  rfl

/-! ### Methods -/

theorem refusesOnly_repeatText (s : String) (args : List Value) :
    RefusesOnly limits fun l => (Act.repeatText l s args : Act σ Value) := by
  refine .bind fun x => ?_
  dsimp only
  split
  · exact .const _
  · exact .refuseIf (.const _)

theorem refusesOnly_padText (before : Bool) (s : String) (args : List Value) :
    RefusesOnly limits fun l => (Act.padText l before s args : Act σ Value) :=
  .bind fun _ => .refuseIf (.const _)

theorem refusesOnly_stringResult (method : Method) (s : String) (args : List Value) :
    RefusesOnly limits fun l => (Act.stringResult l method s args : Act σ Value) := by
  cases method with
  | repeat_ => exact refusesOnly_repeatText s args
  | padStart => exact refusesOnly_padText true s args
  | padEnd => exact refusesOnly_padText false s args
  | _ => exact .const _

theorem checksTexts_stringMethod (method : Method) (s : String) (args : List Value) :
    ChecksTexts limits fun l => Act.callMethod l r method (.string s) args :=
  .checked (refusesOnly_stringResult method s args)

theorem checksTexts_joined (a : ArrayRef) (separator : Value) :
    ChecksTexts limits fun l => (Act.joined l a separator : Act σ Value) := by
  have hfrom : ∀ separator : String, ChecksTexts limits fun l => (do
      let count := (← Act.elements a).size
      if separator.utf8ByteSize * (count - 1) > l.maxStringLength then
        Act.throwMistake .stringLength
      else
        Act.checkText l (← Act.lookHeap fun h =>
          .string (h.joinText separator (h.array a).toList)) : Act σ Value) :=
    fun separator => .bind fun _ => .refuseIf (.bind fun v => .checkText v)
  cases separator <;> exact .bind fun separator => hfrom separator

theorem checksTexts_join (a : ArrayRef) (args : List Value) :
    ChecksTexts limits fun l => Act.callMethod l r .join (.array a) args :=
  checksTexts_joined a (argument args 0)

theorem Act.newArray_eq_ok {items : Array Value} {m m' : Machine σ} {v : Value}
    (h : Act.newArray items m = .ok v m') : ∃ a, v = .array a ∧ m'.heap.array a = items := by
  cases h
  have hlast : (m.heap.arrays.push items)[m.heap.arrays.size]? = some items :=
    Array.getElem?_push_size
  exact ⟨_, rfl, congrArg (fun o => o.getD #[]) hlast⟩

theorem Act.splitText_eq_ok {s : String} {args : List Value} {m m' : Machine σ} {v : Value}
    (h : Act.splitText s args m = .ok v m') :
    ∃ a, ∃ texts : List (List Char), v = .array a ∧
      m'.heap.array a = (texts.map textValue).toArray ∧ ∀ p ∈ texts, p.Sublist s.toList := by
  have hpieces : ∀ separator, Act.newArray ((pieces separator s.toList).map textValue).toArray m =
      .ok v m' → ∃ a, ∃ texts : List (List Char), v = .array a ∧
        m'.heap.array a = (texts.map textValue).toArray ∧ ∀ p ∈ texts, p.Sublist s.toList := by
    intro separator hmade
    obtain ⟨a, hv, hitems⟩ := Act.newArray_eq_ok hmade
    exact ⟨a, _, hv, hitems, fun p hp => pieces_sublist hp⟩
  unfold Act.splitText at h
  generalize argument args 0 = first at h
  cases first with
  | undefined =>
    obtain ⟨a, hv, hitems⟩ := Act.newArray_eq_ok h
    have hwhole : #[Value.string s] = ([s.toList].map textValue).toArray := by
      rw [List.map_singleton, textValue, String.ofList_toList]
    refine ⟨a, [s.toList], hv, hitems.trans hwhole, fun p hp => ?_⟩
    rw [List.mem_singleton.mp hp]
  | _ =>
    obtain ⟨separator, m₁, hseparator, hmade⟩ := Act.bind_eq_ok.mp h
    cases hseparator
    exact hpieces _ hmade

/-- The pieces of a string are no longer than the string. -/
theorem split_le {s : String} {args : List Value} {m m' : Machine σ} {a : ArrayRef}
    (h : Act.callMethod limits r .split (.string s) args m = .ok (.array a) m') :
    ∀ v ∈ m'.heap.array a, ∃ t, v = .string t ∧ t.utf8ByteSize ≤ s.utf8ByteSize := by
  obtain ⟨w, m₁, hsplit, hcheck⟩ := Act.bind_eq_ok.mp h
  obtain ⟨b, texts, rfl, hitems, htexts⟩ := Act.splitText_eq_ok hsplit
  cases hcheck
  rw [hitems]
  intro v hv
  obtain ⟨p, hp, rfl⟩ := List.mem_map.mp (List.mem_toArray.mp hv)
  refine ⟨_, rfl, ?_⟩
  have hle := String.utf8Len_le_of_sublist (htexts p hp)
  rw [← String.utf8ByteSize_ofList, ← String.utf8ByteSize_ofList, String.ofList_toList] at hle
  exact hle

end Sites

end Script

end MemoryShell
