/-
  MemoryShell/Proofs/Tree/Consistent.lean
  =======================================
  **The invariant of trees.**

  The entries of a tree and the lists of children tell the same story: what exists has a directory
  around it that lists it, and what is listed exists.  Two changes make up all the others: a leaf
  comes to a directory, and a leaf goes.
-/
import MemoryShell.Proofs.Path
import MemoryShell.Tree.Basic

namespace MemoryShell

/-! ### Children of entries -/

/-- Names with one more, at the end, unless it is there. -/
def addName (name : String) (names : List String) : List String :=
  if name ∈ names then names else names ++ [name]

theorem mem_addName {name other : String} {names : List String} :
    other ∈ addName name names ↔ other ∈ names ∨ other = name := by
  unfold addName
  split
  · rename_i hmem
    constructor
    · exact .inl
    · rintro (h | rfl)
      · exact h
      · exact hmem
  · simp

theorem nodup_addName {name : String} {names : List String} (h : names.Nodup) :
    (addName name names).Nodup := by
  unfold addName
  split
  · exact h
  · rename_i hmem
    rw [List.nodup_append]
    refine ⟨h, by simp, ?_⟩
    intro other hother last hlast
    rw [List.mem_singleton] at hlast
    rintro rfl
    exact hmem (hlast ▸ hother)

/-- A directory with one more child. -/
def Entry.withChild (name : String) : Entry → Entry
  | .directory children => .directory (addName name children)
  | e => e

/-- A directory without a child. -/
def Entry.withoutChild (name : String) : Entry → Entry
  | .directory children => .directory (children.filter fun n => n ≠ name)
  | e => e

namespace Tree

open MemoryShell.Path (Canonical)

variable {t : Tree} {path dir name q : String}

/-! ### Entries -/

theorem exists?_iff : t.exists? path ↔ ∃ e, t.entry? path = some e := Option.isSome_iff_exists

theorem isDirectory_iff :
    t.isDirectory path ↔ ∃ children, t.entry? path = some (.directory children) := by
  unfold isDirectory kind?
  cases t.entry? path with
  | none => simp
  | some e => cases e <;> simp [Entry.kind]

theorem exists?_of_isDirectory (h : t.isDirectory path) : t.exists? path := by
  obtain ⟨children, hentry⟩ := isDirectory_iff.mp h
  exact exists?_iff.mpr ⟨_, hentry⟩

theorem read_eq_ok {content : String} :
    t.read path = .ok content ↔ t.entry? path = some (.file content) := by
  unfold read
  cases t.entry? path with
  | none => simp
  | some e => cases e <;> simp

theorem list_eq_ok {names : List String} :
    t.list dir = .ok names ↔ t.entry? dir = some (.directory names) := by
  unfold list
  cases t.entry? dir with
  | none => simp
  | some e => cases e <;> simp

/-! ### Entries after a change -/

@[simp] theorem entry_put (t : Tree) (path : String) (e : Entry) (q : String) :
    entry? (t.put path e) q = if q = path then some e else t.entry? q := Dict.find?_insert _ _ _ _

theorem entry_register (t : Tree) (dir name q : String) :
    entry? (t.register dir name) q =
      if q = dir then (t.entry? dir).map (Entry.withChild name) else t.entry? q := by
  unfold register
  split
  · rename_i children hentry
    split
    · rename_i hmem
      by_cases hq : q = dir <;> simp [hq, hentry, Entry.withChild, addName, hmem]
    · rename_i hmem
      simp [hentry, Entry.withChild, addName, hmem]
  · rename_i hentry
    by_cases hq : q = dir
    · subst hq
      cases heq : t.entry? q with
      | none => simp
      | some e =>
        cases e with
        | file => simp [Entry.withChild]
        | directory children => exact absurd heq (hentry children)
    · rw [if_neg hq]

theorem entry_unregister (t : Tree) (hdir : Path.parent path = some dir) (q : String) :
    entry? (t.unregister path) q =
      if q = dir then (t.entry? dir).map (Entry.withoutChild (Path.basename path))
      else t.entry? q := by
  unfold unregister
  rw [hdir]
  simp only
  split
  · rename_i children hentry
    simp [hentry, Entry.withoutChild]
  · rename_i hentry
    by_cases hq : q = dir
    · subst hq
      cases heq : t.entry? q with
      | none => simp
      | some e =>
        cases e with
        | file => simp [Entry.withoutChild]
        | directory children => exact absurd heq (hentry children)
    · rw [if_neg hq]

theorem entry_remove (t : Tree) (hdir : Path.parent path = some dir) (hne : dir ≠ path)
    (q : String) :
    entry? (t.remove path) q =
      if q = path then none
      else if q = dir then (t.entry? dir).map (Entry.withoutChild (Path.basename path))
      else t.entry? q := by
  have herase (r : String) : entry? { t with entries := t.entries.erase path } r =
      if r = path then none else t.entry? r := Dict.find?_erase _ _ _
  rw [remove, entry_unregister _ hdir, herase, herase, if_neg hne]
  by_cases hq : q = path
  · subst hq
    simp [Ne.symm hne]
  · simp [hq]

@[simp] theorem put_currentDir (t : Tree) (path : String) (e : Entry) :
    (t.put path e).currentDir = t.currentDir := rfl

@[simp] theorem register_currentDir (t : Tree) (dir name : String) :
    (t.register dir name).currentDir = t.currentDir := by
  unfold register
  split
  · split <;> rfl
  · rfl

@[simp] theorem remove_currentDir (t : Tree) (path : String) :
    (t.remove path).currentDir = t.currentDir := by
  unfold remove unregister
  split
  · rfl
  · split <;> rfl

/-! ### The invariant -/

/-- The entries of a tree fit together. -/
structure WellFormed (t : Tree) : Prop where
  root : t.isDirectory "/"
  canonical {path : String} : t.exists? path → Canonical path
  parent {path : String} : t.exists? path → path ≠ "/" →
    ∃ dir, Path.parent path = some dir ∧ t.isDirectory dir
  nodup {dir : String} {children : List String} :
    t.entry? dir = some (.directory children) → children.Nodup
  /-- The children of a directory are the base names of what exists in it. -/
  mem_children {dir : String} {children : List String} :
    t.entry? dir = some (.directory children) → ∀ name, name ∈ children ↔
      ∃ path, t.exists? path ∧ Path.parent path = some dir ∧ Path.basename path = name

/-- The entries of a tree fit together, and the current directory is one of them. -/
structure Consistent (t : Tree) : Prop extends WellFormed t where
  currentDir : t.isDirectory t.currentDir

/-- Nothing lies in a path. -/
def IsLeaf (t : Tree) (path : String) : Prop := ∀ q, t.exists? q → Path.parent q ≠ some path

namespace WellFormed

theorem setCurrentDir (h : t.WellFormed) (dir : String) : { t with currentDir := dir }.WellFormed :=
  ⟨h.root, h.canonical, h.parent, h.nodup, h.mem_children⟩

/-- In a directory there is nothing but its children, and these exist. -/
theorem exists?_join (h : t.WellFormed) {children : List String}
    (hdir : t.entry? dir = some (.directory children))
    (hname : name ∈ children) :
    t.exists? (Path.join dir name) ∧ Path.parent (Path.join dir name) = some dir ∧
      Path.basename (Path.join dir name) = name := by
  obtain ⟨path, hpath, hparent, rfl⟩ := (h.mem_children hdir name).mp hname
  rw [(h.canonical hpath).join_basename hparent]
  exact ⟨hpath, hparent, rfl⟩

theorem isLeaf_of_not_isDirectory (h : t.WellFormed) (hpath : t.isDirectory path = false) :
    t.IsLeaf path := by
  intro q hq hparent
  obtain ⟨dir, hdir, hisdir⟩ := h.parent hq (Path.ne_root_of_parent hparent)
  rw [hparent, Option.some.injEq] at hdir
  subst hdir
  rw [hpath] at hisdir
  cases hisdir

theorem isLeaf_of_empty (h : t.WellFormed) (hpath : t.entry? path = some (.directory [])) :
    t.IsLeaf path := by
  intro q hq hparent
  have hmem := (h.mem_children hpath _).mpr ⟨q, hq, hparent, rfl⟩
  cases hmem

/-! ### A leaf comes

A file or an empty directory is put at a path, and its base name is listed in the directory around
it.  The path may hold a file already, which is replaced. -/

section Put

variable (h : t.WellFormed) {e : Entry} (hpath : Canonical path)
  (hdir : Path.parent path = some dir)
  (hisdir : t.isDirectory dir) (hnew : t.isDirectory path = false)

include hisdir hnew

theorem dir_ne_path : dir ≠ path := by
  rintro rfl
  rw [hnew] at hisdir
  cases hisdir

theorem entry_added (q : String) :
    entry? ((t.put path e).register dir (Path.basename path)) q =
      if q = path then some e
      else if q = dir then (t.entry? dir).map (Entry.withChild (Path.basename path))
      else t.entry? q := by
  have hne := dir_ne_path hisdir hnew
  rw [entry_register, entry_put, entry_put, if_neg hne]
  by_cases hq : q = path
  · subst hq
    simp [Ne.symm hne]
  · simp [hq]

theorem exists?_added (q : String) :
    ((t.put path e).register dir (Path.basename path)).exists? q ↔ q = path ∨ t.exists? q := by
  obtain ⟨children, hentry⟩ := isDirectory_iff.mp hisdir
  rw [exists?_iff, entry_added hisdir hnew, exists?_iff]
  by_cases hq : q = path
  · simp [hq]
  · by_cases hqdir : q = dir
    · simp [hqdir, hentry, dir_ne_path hisdir hnew]
    · simp [hq, hqdir]

theorem isDirectory_added (hq : t.isDirectory q) :
    ((t.put path e).register dir (Path.basename path)).isDirectory q := by
  have hne : q ≠ path := by
    rintro rfl
    rw [hnew] at hq
    cases hq
  obtain ⟨children, hentry⟩ := isDirectory_iff.mp hq
  rw [isDirectory_iff, entry_added hisdir hnew, if_neg hne]
  by_cases hqdir : q = dir
  · subst hqdir
    exact ⟨_, by rw [if_pos rfl, hentry]; rfl⟩
  · exact ⟨children, by rw [if_neg hqdir, hentry]⟩

include h hpath hdir

/-- A leaf can be put into a directory. -/
theorem added (hleaf : ∀ children, e = .directory children → children = []) :
    ((t.put path e).register dir (Path.basename path)).WellFormed where
  root := isDirectory_added hisdir hnew h.root
  canonical hq := by
    rcases (exists?_added hisdir hnew _).mp hq with rfl | hq
    · exact hpath
    · exact h.canonical hq
  parent hq hroot := by
    rcases (exists?_added hisdir hnew _).mp hq with rfl | hq
    · exact ⟨dir, hdir, isDirectory_added hisdir hnew hisdir⟩
    · obtain ⟨dir', hdir', hisdir'⟩ := h.parent hq hroot
      exact ⟨dir', hdir', isDirectory_added hisdir hnew hisdir'⟩
  nodup hentry := by
    rw [entry_added hisdir hnew] at hentry
    split at hentry
    · rw [hleaf _ (Option.some.inj hentry)]
      exact List.nodup_nil
    · split at hentry
      · obtain ⟨names, hnames⟩ := isDirectory_iff.mp hisdir
        rw [hnames] at hentry
        cases hentry
        exact nodup_addName (h.nodup hnames)
      · exact h.nodup hentry
  mem_children {d children} hentry name := by
    have hisleaf := h.isLeaf_of_not_isDirectory hnew
    have hne := dir_ne_path hisdir hnew
    simp only [exists?_added hisdir hnew]
    rw [entry_added hisdir hnew] at hentry
    split at hentry
    · rename_i hd
      subst hd
      rw [hleaf _ (Option.some.inj hentry)]
      refine iff_of_false List.not_mem_nil ?_
      rintro ⟨q, rfl | hq, hparent, -⟩
      · rw [hdir, Option.some.injEq] at hparent
        exact hne hparent
      · exact hisleaf q hq hparent
    · split at hentry
      · rename_i hd
        subst hd
        obtain ⟨names, hnames⟩ := isDirectory_iff.mp hisdir
        rw [hnames] at hentry
        cases hentry
        rw [mem_addName, h.mem_children hnames]
        constructor
        · rintro (⟨q, hq, hparent, hname⟩ | rfl)
          · exact ⟨q, .inr hq, hparent, hname⟩
          · exact ⟨path, .inl rfl, hdir, rfl⟩
        · rintro ⟨q, rfl | hq, hparent, hname⟩
          · exact .inr hname.symm
          · exact .inl ⟨q, hq, hparent, hname⟩
      · rename_i hd
        rw [h.mem_children hentry]
        constructor
        · rintro ⟨q, hq, hparent, hname⟩
          exact ⟨q, .inr hq, hparent, hname⟩
        · rintro ⟨q, rfl | hq, hparent, hname⟩
          · rw [hdir, Option.some.injEq] at hparent
            exact absurd hparent.symm hd
          · exact ⟨q, hq, hparent, hname⟩

end Put

/-! ### A leaf goes

A path in which nothing lies is taken out of the entries and out of the list of its directory. -/

section Remove

variable (h : t.WellFormed) (hpath : t.exists? path) (hdir : Path.parent path = some dir)
  (hleaf : t.IsLeaf path)
include hpath hdir

include h in
theorem isDirectory_parent : t.isDirectory dir := by
  obtain ⟨dir', hdir', hisdir⟩ := h.parent hpath (Path.ne_root_of_parent hdir)
  rw [hdir, Option.some.injEq] at hdir'
  rwa [hdir']

include hleaf

theorem entry_removed (q : String) :
    entry? (t.remove path) q =
      if q = path then none
      else if q = dir then (t.entry? dir).map (Entry.withoutChild (Path.basename path))
      else t.entry? q :=
  entry_remove t hdir (fun heq => hleaf path hpath (heq ▸ hdir)) q

theorem isDirectory_removed (hq : t.isDirectory q) (hne : q ≠ path) :
    (t.remove path).isDirectory q := by
  obtain ⟨children, hentry⟩ := isDirectory_iff.mp hq
  rw [isDirectory_iff, entry_removed hpath hdir hleaf, if_neg hne]
  by_cases hqdir : q = dir
  · subst hqdir
    exact ⟨_, by rw [if_pos rfl, hentry]; rfl⟩
  · exact ⟨children, by rw [if_neg hqdir, hentry]⟩

include h

theorem exists?_removed (q : String) : (t.remove path).exists? q ↔ q ≠ path ∧ t.exists? q := by
  obtain ⟨children, hentry⟩ := isDirectory_iff.mp (isDirectory_parent h hpath hdir)
  rw [exists?_iff, entry_removed hpath hdir hleaf, exists?_iff]
  by_cases hq : q = path
  · simp [hq]
  · by_cases hqdir : q = dir
    · subst hqdir
      simp [hq, hentry]
    · simp [hq, hqdir]

/-- A leaf can be taken out of its directory. -/
theorem removed : (t.remove path).WellFormed where
  root := isDirectory_removed hpath hdir hleaf h.root (Ne.symm (Path.ne_root_of_parent hdir))
  canonical hq := h.canonical ((exists?_removed h hpath hdir hleaf _).mp hq).2
  parent hq hroot := by
    obtain ⟨-, hexists⟩ := (exists?_removed h hpath hdir hleaf _).mp hq
    obtain ⟨dir', hdir', hisdir'⟩ := h.parent hexists hroot
    refine ⟨dir', hdir', isDirectory_removed hpath hdir hleaf hisdir' ?_⟩
    rintro rfl
    exact hleaf _ hexists hdir'
  nodup hentry := by
    rw [entry_removed hpath hdir hleaf] at hentry
    split at hentry
    · cases hentry
    · split at hentry
      · obtain ⟨names, hnames⟩ := isDirectory_iff.mp (isDirectory_parent h hpath hdir)
        rw [hnames] at hentry
        cases hentry
        exact (h.nodup hnames).filter _
      · exact h.nodup hentry
  mem_children {d children} hentry name := by
    simp only [exists?_removed h hpath hdir hleaf]
    rw [entry_removed hpath hdir hleaf] at hentry
    split at hentry
    · cases hentry
    · split at hentry
      · rename_i hd
        subst hd
        obtain ⟨names, hnames⟩ := isDirectory_iff.mp (isDirectory_parent h hpath hdir)
        rw [hnames] at hentry
        cases hentry
        rw [List.mem_filter, h.mem_children hnames, decide_eq_true_eq]
        constructor
        · rintro ⟨⟨q, hq, hparent, hname⟩, hne⟩
          refine ⟨q, ⟨?_, hq⟩, hparent, hname⟩
          rintro rfl
          exact hne hname.symm
        · rintro ⟨q, ⟨hne, hq⟩, hparent, hname⟩
          refine ⟨⟨q, hq, hparent, hname⟩, ?_⟩
          -- Two paths in one directory with one base name are the same.
          intro heq
          rw [← (h.canonical hq).join_basename hparent, hname, heq,
            (h.canonical hpath).join_basename hdir] at hne
          exact hne rfl
      · rename_i hd
        rw [h.mem_children hentry]
        constructor
        · rintro ⟨q, hq, hparent, hname⟩
          refine ⟨q, ⟨?_, hq⟩, hparent, hname⟩
          rintro rfl
          rw [hdir, Option.some.injEq] at hparent
          exact hd hparent.symm
        · rintro ⟨q, ⟨-, hq⟩, hparent, hname⟩
          exact ⟨q, hq, hparent, hname⟩

end Remove

end WellFormed

end Tree

end MemoryShell
