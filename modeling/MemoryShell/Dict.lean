/-
  MemoryShell/Dict.lean
  =====================
  **Dictionaries that remember the order of insertion.**

  Directories, script objects and scopes are all keyed by text, and some of them show the order in
  which their keys came.  A dictionary is a list of pairs: a new key goes to the end, a known key
  keeps its place and changes its value, a removed key leaves the others where they were.
-/

namespace MemoryShell

/-- A dictionary keyed by text, in order of insertion. -/
structure Dict (β : Type u) where
  entries : List (String × β) := []
deriving Repr

namespace Dict

variable {β : Type u}

/-! ### Operations -/

def empty : Dict β := ⟨[]⟩

/-- The value of a key in a list of pairs: that of the first pair with the key. -/
def lookupEntry (key : String) : List (String × β) → Option β
  | [] => none
  | (k, v) :: rest => if key = k then some v else lookupEntry key rest

def find? (d : Dict β) (key : String) : Option β := lookupEntry key d.entries

def contains (d : Dict β) (key : String) : Bool := (d.find? key).isSome

/-- Give a key a value in a list of pairs: in its place if it is there, else at the end. -/
def insertEntry (key : String) (value : β) : List (String × β) → List (String × β)
  | [] => [(key, value)]
  | (k, v) :: rest =>
    if key = k then (k, value) :: rest else (k, v) :: insertEntry key value rest

def insert (d : Dict β) (key : String) (value : β) : Dict β := ⟨insertEntry key value d.entries⟩

def erase (d : Dict β) (key : String) : Dict β := ⟨d.entries.filter fun e => e.1 ≠ key⟩

def keys (d : Dict β) : List String := d.entries.map (·.1)

/-- The dictionary of some pairs; of two with one key the later gives the value and the earlier the
    place. -/
def ofList (pairs : List (String × β)) : Dict β :=
  pairs.foldl (fun d e => d.insert e.1 e.2) empty

/-! ### Looking up after a change -/

@[simp] theorem find?_empty (key : String) : (empty : Dict β).find? key = none := rfl

theorem lookupEntry_insertEntry (key k : String) (value : β) (entries : List (String × β)) :
    lookupEntry k (insertEntry key value entries) =
      if k = key then some value else lookupEntry k entries := by
  induction entries with
  | nil => simp [insertEntry, lookupEntry]
  | cons e rest ih => obtain ⟨k', v⟩ := e; grind [insertEntry, lookupEntry]

/-- After an insertion the key has the new value and every other key its old one. -/
theorem find?_insert (d : Dict β) (key k : String) (value : β) :
    (d.insert key value).find? k = if k = key then some value else d.find? k :=
  lookupEntry_insertEntry key k value d.entries

theorem lookupEntry_filter (key k : String) (entries : List (String × β)) :
    lookupEntry k (entries.filter fun e => e.1 ≠ key) =
      if k = key then none else lookupEntry k entries := by
  induction entries with
  | nil => simp [lookupEntry]
  | cons e rest ih => obtain ⟨k', v⟩ := e; grind [lookupEntry]

/-- After a removal the key has no value and every other key its old one. -/
theorem find?_erase (d : Dict β) (key k : String) :
    (d.erase key).find? k = if k = key then none else d.find? k :=
  lookupEntry_filter key k d.entries

theorem lookupEntry_isSome (key : String) (entries : List (String × β)) :
    (lookupEntry key entries).isSome ↔ key ∈ entries.map (·.1) := by
  induction entries with
  | nil => simp [lookupEntry]
  | cons e rest ih => obtain ⟨k, v⟩ := e; grind [lookupEntry]

/-- The keys are what has a value. -/
theorem mem_keys_iff (d : Dict β) (key : String) : key ∈ d.keys ↔ d.contains key :=
  (lookupEntry_isSome key d.entries).symm

/-! ### Distinct keys -/

theorem insertEntry_of_not_mem {key : String} {entries : List (String × β)} (value : β)
    (h : key ∉ entries.map (·.1)) : insertEntry key value entries = entries ++ [(key, value)] := by
  induction entries with
  | nil => rfl
  | cons e rest ih =>
    rw [List.map_cons, List.mem_cons, not_or] at h
    rw [insertEntry, if_neg h.1, ih h.2, List.cons_append]

/-- Pairs with new keys, no two of them the same, are added as they are. -/
theorem foldl_insert (d : Dict β) (pairs : List (String × β))
    (h : (d.keys ++ pairs.map (·.1)).Nodup) :
    pairs.foldl (fun d e => d.insert e.1 e.2) d = ⟨d.entries ++ pairs⟩ := by
  induction pairs generalizing d with
  | nil => rw [List.foldl_nil, List.append_nil]
  | cons e pairs ih =>
    rw [List.map_cons, List.append_cons] at h
    have hnew : e.1 ∉ d.entries.map (·.1) := by
      have hfirst := (List.nodup_append.mp h).1
      exact fun hmem => (List.nodup_append.mp hfirst).2.2 _ hmem _ (List.mem_singleton_self _) rfl
    have hkeys : (d.insert e.1 e.2).keys = d.keys ++ [e.1] := by
      rw [keys, insert, insertEntry_of_not_mem e.2 hnew, List.map_append]
      rfl
    rw [List.foldl_cons, ih (d.insert e.1 e.2) (by rw [hkeys]; exact h), insert,
      insertEntry_of_not_mem e.2 hnew, List.append_assoc]
    rfl

theorem ofList_of_nodup {pairs : List (String × β)} (h : (pairs.map (·.1)).Nodup) :
    ofList pairs = ⟨pairs⟩ := foldl_insert empty pairs h

/-- Where keys are distinct a key has the value of its one pair. -/
theorem lookupEntry_eq_some_iff {key : String} {value : β} {entries : List (String × β)}
    (h : (entries.map (·.1)).Nodup) :
    lookupEntry key entries = some value ↔ (key, value) ∈ entries := by
  induction entries with
  | nil => simp [lookupEntry]
  | cons e rest ih =>
    obtain ⟨k, v⟩ := e
    rw [List.map_cons, List.nodup_cons] at h
    rw [lookupEntry, List.mem_cons, Prod.mk.injEq]
    by_cases hkey : key = k
    · have hrest : (key, value) ∉ rest := fun hmem => h.1 (List.mem_map.mpr ⟨_, hmem, hkey⟩)
      simp [hkey, hkey ▸ hrest, eq_comm]
    · simp [hkey, ih h.2]

/-- What distinct keys are looked up as does not depend on their order. -/
theorem find?_eq_of_perm {d d' : Dict β} (h : d.keys.Nodup) (hperm : d'.entries.Perm d.entries)
    (key : String) : d'.find? key = d.find? key := by
  have h' : d'.keys.Nodup := (hperm.map _).nodup_iff.mpr h
  refine Option.ext fun value => ?_
  rw [find?, find?, lookupEntry_eq_some_iff h', lookupEntry_eq_some_iff h, hperm.mem_iff]

end Dict

end MemoryShell
