/-
  MemoryShell/Proofs/Script/ArrayMakers.lean
  ==========================================
  **Where the length of an array is not checked.**

  An array that is made from something else is as long as that is: the list of the members of a
  value or of the names in a directory, the pieces of a string, the arrays in a JSON text, and the
  arguments of a function that is not an arrow.  None of these looks at the limit.
-/
import MemoryShell.Proofs.Script.ArrayLengths

namespace MemoryShell

/-! ### The widest array of a document -/

namespace Document

mutual

/-- The length of the longest array in a document. -/
def widest : Document → Nat
  | .null | .bool _ | .number _ | .string _ => 0
  | .array items => max items.length (widestItem items)
  | .object members => widestMember members

def widestItem : List Document → Nat
  | [] => 0
  | d :: rest => max (widest d) (widestItem rest)

def widestMember : List (String × Document) → Nat
  | [] => 0
  | (_, d) :: rest => max (widest d) (widestMember rest)

end

end Document

namespace Script

variable {σ α β : Type} {limits : Limits} {m m' : Machine σ}

namespace Heap

open Document (widestItem widestMember)

theorem length_ofItems (h : Heap) (ds : List Document) : (h.ofItems ds).1.length = ds.length := by
  induction ds generalizing h with
  | nil => rfl
  | cons d ds ih =>
    rw [ofItems]
    exact congrArg Nat.succ (ih _)

mutual

/-- The value of a document makes its arrays and no others. -/
theorem fits_ofDocument : (d : Document) → (h : Heap) →
    ((h.ofDocument d).2.Fits limits ↔ h.Fits limits ∧ d.widest ≤ limits.maxArrayLength)
  | .null, h | .bool _, h | .number _, h | .string _, h =>
    (and_iff_left (Nat.zero_le _)).symm
  | .array items, h => by
    rw [ofDocument, fits_newArray, fits_ofItems items h, List.size_toArray, length_ofItems,
      Document.widest, Nat.max_le, and_assoc]
    exact and_congr_right fun _ => and_comm
  | .object members, h => fits_ofMembers members h

theorem fits_ofItems : (ds : List Document) → (h : Heap) →
    ((h.ofItems ds).2.Fits limits ↔ h.Fits limits ∧ widestItem ds ≤ limits.maxArrayLength)
  | [], h => (and_iff_left (Nat.zero_le _)).symm
  | d :: ds, h => by
    rw [ofItems, fits_ofItems ds, fits_ofDocument d h, widestItem, Nat.max_le, and_assoc]

theorem fits_ofMembers : (ds : List (String × Document)) → (h : Heap) →
    ((h.ofMembers ds).2.Fits limits ↔ h.Fits limits ∧ widestMember ds ≤ limits.maxArrayLength)
  | [], h => (and_iff_left (Nat.zero_le _)).symm
  | (_, d) :: ds, h => by
    rw [ofMembers, fits_ofMembers ds, fits_ofDocument d h, widestMember, Nat.max_le, and_assoc]

end

end Heap

/-! ### Listing what a value has -/

namespace Act

/-- The act ends with a value on every machine. -/
def Succeeds (act : Act σ α) : Prop := ∀ m, ∃ a m', act m = .ok a m'

namespace Succeeds

theorem look (f : Machine σ → α) : Succeeds (look f) := fun m => ⟨f m, m, rfl⟩

theorem pure (a : α) : Succeeds (pure a : Act σ α) := fun m => ⟨a, m, rfl⟩

theorem bind {act : Act σ α} {next : α → Act σ β} (h : Succeeds act)
    (hnext : ∀ a, Succeeds (next a)) : Succeeds (act >>= next) := by
  intro m
  obtain ⟨a, m₁, heq⟩ := h m
  obtain ⟨b, m₂, hb⟩ := hnext a m₁
  exact ⟨b, m₂, (bind_of_ok heq).trans hb⟩

theorem mapM {f : α → Act σ β} (h : ∀ a, Succeeds (f a)) (as : List α) :
    Succeeds (as.mapM f) := by
  induction as with
  | nil => exact .pure []
  | cons a as ih =>
    rw [List.mapM_cons]
    exact (h a).bind fun _ => ih.bind fun _ => .pure _

/-- A value that is not missing has a property of any name. -/
theorem getProperty {object : Value} (hobject : object.isNullish = false) (key : String) :
    Succeeds (getProperty object key : Act σ Value) := by
  intro m
  obtain ⟨read, hread, heq⟩ := (getProperty_among object key).on m
  rw [heq]
  cases hread with
  | give | newMethod => exact ⟨_, _, rfl⟩
  | refuse hmissing => exact absurd (hmissing.symm.trans hobject) nofun

theorem ownEntries (v : Value) : Succeeds (ownEntries v : Act σ (List (String × Value))) := by
  cases hmissing : v.isNullish with
  | false =>
    exact (look _).bind fun _ => .mapM (fun _ => (getProperty hmissing _).bind fun _ => .pure _) _
  | true =>
    -- A missing value has no keys, so none of its properties is read.
    cases v with
    | undefined | null => exact fun m => ⟨[], m, rfl⟩
    | bool | number | string | array | object | closure | native | method => cases hmissing

end Succeeds

theorem gives_mapM (f : α → Act σ β) (as : List α) :
    Gives (as.mapM f) fun bs => bs.length = as.length := by
  induction as with
  | nil =>
    intro m bs m' heq
    cases heq
    rfl
  | cons a as ih =>
    intro m bs m' heq
    rw [List.mapM_cons] at heq
    obtain ⟨b, m₁, -, hrest⟩ := bind_eq_ok.mp heq
    obtain ⟨bs', m₂, hbs, hpure⟩ := bind_eq_ok.mp hrest
    cases hpure
    exact congrArg Nat.succ (ih m₁ bs' _ hbs)

/-- What is made of the entries of a value is made of as many entries as it has keys. -/
theorem fits_ownEntries_bind {next : List (String × Value) → Act σ β} (size : Nat → Nat) (v : Value)
    (hnext : ∀ entries m, (Result.machine (next entries m)).heap.Fits limits ↔
      m.heap.Fits limits ∧ size entries.length ≤ limits.maxArrayLength) :
    (Result.machine ((ownEntries v >>= next) m)).heap.Fits limits ↔
      m.heap.Fits limits ∧ size (m.heap.ownKeys v).length ≤ limits.maxArrayLength := by
  obtain ⟨entries, m₁, heq⟩ := Succeeds.ownEntries v m
  have hkept := KeepsArrays.ownEntries v m
  have hlength : entries.length = (m.heap.ownKeys v).length := gives_mapM _ _ m entries m₁ heq
  rw [heq] at hkept
  rw [bind_of_ok heq, hnext, ← hlength]
  exact and_congr_left fun _ => Heap.fits_congr hkept

/-- How long the longest array is that a list of so many pairs takes. -/
def pairedLength (n : Nat) : Nat := if n = 0 then 0 else max 2 n

theorem pairedLength_le {n k : Nat} : pairedLength n ≤ k ↔ (n = 0 ∨ 2 ≤ k) ∧ n ≤ k := by
  unfold pairedLength
  split <;> omega

theorem mapM_newPair (limits : Limits) (entries : List (String × Value)) (m : Machine σ) :
    ∃ pairs m', entries.mapM (fun e => newArray #[.string e.1, e.2]) m = .ok pairs m' ∧
      (m'.heap.Fits limits ↔
        m.heap.Fits limits ∧ (entries.length = 0 ∨ 2 ≤ limits.maxArrayLength)) := by
  induction entries generalizing m with
  | nil => exact ⟨[], m, rfl, (and_iff_left (.inl rfl)).symm⟩
  | cons e rest ih =>
    have hpair := Heap.fits_newArray limits m.heap #[.string e.1, e.2]
    obtain ⟨pairs, m', hpairs, hfits⟩ :=
      ih { m with heap := (m.heap.newArray #[.string e.1, e.2]).2 }
    refine ⟨.array (m.heap.newArray #[.string e.1, e.2]).1 :: pairs, m', ?_, ?_⟩
    · rw [List.mapM_cons]
      exact (bind_of_ok rfl).trans (bind_of_ok hpairs)
    · have hcons : (e :: rest).length ≠ 0 := Nat.succ_ne_zero _
      rw [hfits, hpair, or_iff_right hcons, and_assoc]
      exact and_congr_right fun _ => and_iff_left_of_imp .inr

theorem fits_pairs (entries : List (String × Value)) (m : Machine σ) :
    (Result.machine ((do
      let pairs ← entries.mapM fun e => newArray #[.string e.1, e.2]
      newArray pairs.toArray : Act σ Value) m)).heap.Fits limits ↔
      m.heap.Fits limits ∧ pairedLength entries.length ≤ limits.maxArrayLength := by
  obtain ⟨pairs, m', hpairs, hfits⟩ := mapM_newPair limits entries m
  have hlength : pairs.length = entries.length := gives_mapM _ _ m pairs m' hpairs
  have hlist := Heap.fits_newArray limits m'.heap pairs.toArray
  rw [List.size_toArray, hlength, hfits, and_assoc, ← pairedLength_le] at hlist
  rw [bind_of_ok hpairs]
  exact hlist

/-! ### Functions and pieces -/

/-- An act that leaves all arrays as they are makes none. -/
theorem KeepsArrays.fits_iff {act : Act σ α} (h : act.KeepsArrays) :
    (Result.machine (act m)).heap.Fits limits ↔
      m.heap.Fits limits ∧ 0 ≤ limits.maxArrayLength := by
  rw [Heap.fits_congr (h m), and_iff_left (Nat.zero_le _)]

theorem fits_list_iff (f : α → Value) (as : List α) :
    (Result.machine (newArray (as.map f).toArray m)).heap.Fits limits ↔
      m.heap.Fits limits ∧ as.length ≤ limits.maxArrayLength := by
  have hlist := Heap.fits_newArray limits m.heap (as.map f).toArray
  rwa [List.size_toArray, List.length_map] at hlist

section Makers

variable [Host σ]

/-- How long the longest array is that a ready-made function makes. -/
def nativeLength (f : Native) (args : List Value) (m : Machine σ) : Nat :=
  match f with
  | .keys | .values => (m.heap.ownKeys (argument args 0)).length
  | .entries => pairedLength (m.heap.ownKeys (argument args 0)).length
  | .readDirectory =>
    match Host.list (m.heap.display (argument args 0)) m.host with
    | .ok names => names.length
    | .error _ => 0
  | .parseJson =>
    match Document.ofText (m.heap.display (argument args 0)) with
    | .ok d => d.widest
    | .error _ => 0
  | _ => 0

/-- A ready-made function makes that array, whatever the limit is, and no longer one. -/
theorem fits_callNative (f : Native) (args : List Value) (m : Machine σ) :
    (Result.machine (callNative f args m)).heap.Fits limits ↔
      m.heap.Fits limits ∧ nativeLength f args m ≤ limits.maxArrayLength := by
  cases hmakes : makesArrays f with
  | false =>
    have hlength : nativeLength f args m = 0 := by
      cases f <;> first | rfl | cases hmakes
    rw [hlength]
    exact KeepsArrays.fits_iff (.callNative hmakes args)
  | true =>
    cases f with
    | keys => exact fits_list_iff _ _
    | values => exact fits_ownEntries_bind id _ fun entries m => fits_list_iff _ _
    | entries => exact fits_ownEntries_bind pairedLength _ fits_pairs
    | readDirectory =>
      rw [nativeLength]
      cases hnames : Host.list (m.heap.display (argument args 0)) m.host with
      | ok names =>
        have hasked : askHost (Host.list (m.heap.display (argument args 0))) m = .ok names m := by
          rw [askHost, hnames]
        have hlisted : callNative .readDirectory args m =
            newArray (names.map Value.string).toArray m :=
          (bind_of_ok rfl).trans (bind_of_ok hasked)
        rw [hlisted]
        exact fits_list_iff _ _
      | error e =>
        have hasked : askHost (Host.list (m.heap.display (argument args 0))) m =
            throwMistake (.tree e) m := by
          rw [askHost, hnames]
        have hrefused : callNative .readDirectory args m = throwMistake (.tree e) m :=
          (bind_of_ok rfl).trans (bind_of_error hasked)
        rw [hrefused]
        exact KeepsArrays.fits_iff (.throwMistake _)
    | parseJson =>
      have hparsed : callNative .parseJson args m =
          parseText (m.heap.display (argument args 0)) m := rfl
      rw [hparsed, parseText, nativeLength]
      cases Document.ofText (m.heap.display (argument args 0)) with
      | ok d => exact Heap.fits_ofDocument d m.heap
      | error message => exact KeepsArrays.fits_iff (.throwMistake _)
    | _ => cases hmakes

end Makers

/-- The pieces that a method of a string makes of it. -/
def piecesOf (s : String) (args : List Value) (h : Heap) : List Value :=
  match argument args 0 with
  | .undefined => [.string s]
  | _ => (pieces (h.display (argument args 0)).toList s.toList).map textValue

theorem stringMethod_split (s : String) (args : List Value) (m : Machine σ) :
    stringMethod limits .split s args m = newArray (piecesOf s args m.heap).toArray m := by
  have hsplit (separator : Value) :
      (match separator with
        | .undefined => newArray #[.string s]
        | _ => do
          let text ← argumentText args 0
          newArray ((pieces text s.toList).map textValue).toArray : Act σ Value) m =
        newArray (match separator with
          | .undefined => [Value.string s]
          | _ => (pieces (m.heap.display (argument args 0)).toList s.toList).map textValue).toArray
          m := by
    cases separator <;> rfl
  exact bind_of_ok (hsplit (argument args 0))

theorem fits_split (s : String) (args : List Value) (m : Machine σ) :
    (Result.machine (stringMethod limits .split s args m)).heap.Fits limits ↔
      m.heap.Fits limits ∧ (piecesOf s args m.heap).length ≤ limits.maxArrayLength := by
  rw [stringMethod_split]
  exact Heap.fits_newArray _ _ _

/-- How long the array is that a method makes without a check of its length, if it makes one. -/
def methodLength (method : Method) (receiver : Value) (args : List Value) (h : Heap) : Nat :=
  match method, receiver with
  | .split, .string s => (piecesOf s args h).length
  | _, _ => 0

end Act

end Script

end MemoryShell
