/-
  MemoryShell/Proofs/Script/Splitting.lean
  ========================================
  **Cutting a string, putting it together again, and replacing in it.**

  The three methods go by the same occurrences of the separator, so the pieces of a string with the
  separator between them are the string, and with something else between them they are the string in
  which the separator is replaced.  The separator may overlap itself: which occurrences count is what
  the cut of a text says.  Without a separator the pieces are the single characters.
-/
import MemoryShell.Proofs.Script.ArrayMakers
import MemoryShell.Proofs.Script.ArraysStay
import MemoryShell.Proofs.Script.TextLengths
import MemoryShell.Proofs.Text.Search

namespace MemoryShell.Script

/-! ### Pieces -/

section Pieces

variable {separator text : List Char}

theorem pieces_of_ne_nil (hne : separator ≠ []) (text : List Char) :
    pieces separator text = Text.splitOn separator text := by
  rw [pieces, if_neg (by simpa using hne)]

/-- The pieces with the separator between them are the text. -/
theorem intercalate_pieces (separator text : List Char) :
    separator.intercalate (pieces separator text) = text := by
  by_cases hne : separator = []
  · subst hne
    rw [pieces, List.isEmpty_nil, if_pos rfl]
    induction text with
    | nil => rfl
    | cons c cs ih =>
      cases cs with
      | nil => rfl
      | cons d cs => exact congrArg (c :: ·) ih
  · rw [pieces_of_ne_nil hne]
    exact (Text.cut_splitOn hne text).intercalate

theorem infix_free_of_mem_pieces (hne : separator ≠ []) {piece : List Char}
    (h : piece ∈ pieces separator text) : ¬ separator <:+: piece := by
  rw [pieces_of_ne_nil hne] at h
  exact (Text.cut_splitOn hne text).infix_free hne h

/-- To replace the separator is to put something else between the pieces. -/
theorem replaceAll_eq_intercalate (hne : separator ≠ []) (new text : List Char) :
    Text.replaceAll separator new text = new.intercalate (pieces separator text) := by
  rw [pieces_of_ne_nil hne]
  exact (Text.cut_splitOn hne text).replaceAll_eq hne new

end Pieces

/-- The pieces of a string, as strings. -/
def stringPieces (separator s : String) : List String :=
  (pieces separator.toList s.toList).map String.ofList

theorem intercalate_stringPieces (new separator s : String) :
    new.intercalate (stringPieces separator s) =
      String.ofList (new.toList.intercalate (pieces separator.toList s.toList)) := by
  rw [← String.toList_inj, String.toList_intercalate, String.toList_ofList, stringPieces,
    Text.map_toList_ofList]

/-! ### Lengths -/

/-- Of texts with a separator between them the separators are a part. -/
theorem mul_le_utf8ByteSize_intercalate (separator : String) (texts : List String) :
    separator.utf8ByteSize * (texts.length - 1) ≤ (separator.intercalate texts).utf8ByteSize := by
  induction texts with
  | nil => exact Nat.zero_le _
  | cons text texts ih =>
    cases texts with
    | nil => exact Nat.zero_le _
    | cons text' texts =>
      rw [String.intercalate_cons_cons, String.utf8ByteSize_append, String.utf8ByteSize_append]
      simp only [List.length_cons, Nat.add_sub_cancel, Nat.mul_succ] at ih ⊢
      omega

/-! ### The methods -/

variable {σ : Type} {limits : Limits} {r : Runner σ} {m : Machine σ}

theorem Heap.joinText_strings (h : Heap) (separator : String) (texts : List String) :
    h.joinText separator (texts.map Value.string) = separator.intercalate texts := by
  rw [joinText, List.map_map]
  exact congrArg _ ((List.map_congr_left fun _ _ => rfl).trans (List.map_id _))

namespace Act

theorem callMethod_split_string (separator s : String) :
    callMethod limits r .split (.string s) [.string separator] m =
      newArray ((stringPieces separator s).map Value.string).toArray m := by
  rw [stringPieces, List.map_map]
  exact stringMethod_split s [.string separator] m

/-- To put strings together gives the text that is made of them, unless it is too long. -/
theorem callMethod_join_strings {a : ArrayRef} {texts : List String}
    (h : (m.heap.array a).toList = texts.map Value.string) (separator : String) :
    callMethod limits r .join (.array a) [.string separator] m =
      checkText limits (.string (separator.intercalate texts)) m := by
  have hsize : (m.heap.array a).size = texts.length := by
    rw [← Array.length_toList, h, List.length_map]
  have htext : m.heap.joinText separator (m.heap.array a).toList = separator.intercalate texts := by
    rw [h, Heap.joinText_strings]
  change (if limits.maxStringLength < separator.utf8ByteSize * ((m.heap.array a).size - 1) then
    throwMistake .stringLength else _ : Act σ Value) m = _
  split
  · rename_i hlong
    have hle := mul_le_utf8ByteSize_intercalate separator texts
    rw [hsize] at hlong
    rw [checkText, if_pos (Nat.lt_of_lt_of_le hlong hle)]
  · rw [← htext]
    rfl

theorem callMethod_replaceAll_strings (separator new s : String) :
    callMethod limits r .replaceAll (.string s) [.string separator, .string new] m =
      checkText limits (.string (String.ofList
        (Text.replaceAll separator.toList new.toList s.toList))) m := rfl

/-- **To cut a string and to put its pieces together undo each other.**  The pieces of a string with
    the separator between them are the string, also where one of the two is empty.  A separator that
    is not empty stands in no piece, and to replace it by another text is to put that text between the
    pieces: both give the same, or both are refused because it is too long. -/
theorem callMethod_split_join (limits : Limits) (r : Runner σ) (s separator : String)
    (m : Machine σ) (hs : s.utf8ByteSize ≤ limits.maxStringLength) :
    ∃ a m', callMethod limits r .split (.string s) [.string separator] m = .ok (.array a) m' ∧
      (m'.heap.array a).toList = (stringPieces separator s).map Value.string ∧
      callMethod limits r .join (.array a) [.string separator] m' = .ok (.string s) m' ∧
      (separator ≠ "" →
        (∀ piece ∈ stringPieces separator s, ¬ separator.toList <:+: piece.toList) ∧
        ∀ new,
          callMethod limits r .replaceAll (.string s) [.string separator, .string new] m =
            checkText limits (.string (new.intercalate (stringPieces separator s))) m ∧
          callMethod limits r .join (.array a) [.string new] m' =
            checkText limits (.string (new.intercalate (stringPieces separator s))) m') := by
  have hsplit : callMethod limits r .split (.string s) [.string separator] m = _ :=
    callMethod_split_string separator s
  obtain ⟨a, m', hmade, hpieces⟩ : ∃ a m',
      newArray ((stringPieces separator s).map Value.string).toArray m = .ok (.array a) m' ∧
        (m'.heap.array a).toList = (stringPieces separator s).map Value.string :=
    ⟨_, _, rfl, congrArg Array.toList (m.heap.array_newArray _)⟩
  rw [hmade] at hsplit
  have hjoin (new : String) : callMethod limits r .join (.array a) [.string new] m' = _ :=
    callMethod_join_strings hpieces new
  refine ⟨a, m', hsplit, hpieces, ?_, fun hne => ⟨?_, fun new => ⟨?_, hjoin new⟩⟩⟩
  · rw [hjoin, intercalate_stringPieces, intercalate_pieces, String.ofList_toList, checkText,
      if_neg (Nat.not_lt.mpr hs)]
    rfl
  · intro piece hpiece
    obtain ⟨cs, hcs, rfl⟩ := List.mem_map.mp hpiece
    rw [String.toList_ofList]
    exact infix_free_of_mem_pieces (mt String.toList_eq_nil_iff.mp hne) hcs
  · rw [callMethod_replaceAll_strings, intercalate_stringPieces,
      replaceAll_eq_intercalate (mt String.toList_eq_nil_iff.mp hne)]

/-- A separator that overlaps itself and stands at both ends. -/
theorem split_join_overlapping :
    ("aaaéaa".utf8ByteSize ≤ Limits.maxStringLength {} ∧ "aa" ≠ "") ∧
      ∃ a m', callMethod {} (runner {}) .split (.string "aaaéaa") [.string "aa"]
          (Machine.start Tree.root) = .ok (.array a) m' ∧
        (m'.heap.array a).toList = ["", "aé", ""].map Value.string ∧
        callMethod {} (runner {}) .join (.array a) [.string "aa"] m' = .ok (.string "aaaéaa") m' ∧
        callMethod {} (runner {}) .replaceAll (.string "aaaéaa") [.string "aa", .string "-"]
          (Machine.start Tree.root) = .ok (.string "-aé-") (Machine.start Tree.root) := by
  have hlength : "aaaéaa".utf8ByteSize ≤ Limits.maxStringLength {} := by decide +kernel
  have hpieces : stringPieces "aa" "aaaéaa" = ["", "aé", ""] := by decide +kernel
  obtain ⟨a, m', hsplit, helements, hjoin, hrest⟩ :=
    callMethod_split_join {} (runner {}) "aaaéaa" "aa" (Machine.start Tree.root) hlength
  obtain ⟨-, hreplace⟩ := hrest (by decide)
  refine ⟨⟨hlength, by decide⟩, a, m', hsplit, by rw [helements, hpieces], hjoin, ?_⟩
  rw [(hreplace "-").1, hpieces]
  rfl

end Act

end MemoryShell.Script
