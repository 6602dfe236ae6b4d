/-
  MemoryShell/Proofs/Tree/Removal.lean
  ====================================
  **Removing a directory removes what lies beneath it.**

  The children go one after the other, and the tree is consistent after each of them; at the end the
  directory is an empty leaf and goes as well.  No path lies deeper than there are entries, so the
  fuel is enough.
-/
import MemoryShell.Proofs.Tree.Operations

namespace MemoryShell.Tree

open MemoryShell.Path (Canonical IsBelow depth)

variable {t t' : Tree} {path dir name q : String}

/-! ### Depths

The entries around a path are different keys, one for each level above it; so the number of
entries bounds the depth of the tree, and the removal is given that much fuel. -/

namespace WellFormed

/-- A path and the ones around it are different keys. -/
theorem exists_ancestors (h : t.WellFormed) {n : Nat} :
    ∀ {path}, t.exists? path → depth path = n →
      ∃ paths : List String, paths.length = n + 1 ∧ paths.Nodup ∧
        ∀ q ∈ paths, t.exists? q ∧ depth q ≤ n := by
  induction n with
  | zero =>
    intro path hpath hdepth
    exact ⟨[path], rfl, by simp, by simp [hpath, hdepth]⟩
  | succ n ih =>
    intro path hpath hdepth
    have hroot : path ≠ "/" := by
      rintro rfl
      cases hdepth
    obtain ⟨dir, hdir, -, -, -, hsucc⟩ := (h.canonical hpath).exists_parent hroot
    obtain ⟨dir', hdir', hisdir⟩ := h.parent hpath hroot
    rw [hdir, Option.some.injEq] at hdir'
    subst hdir'
    obtain ⟨paths, hlength, hnodup, hpaths⟩ := ih (exists?_of_isDirectory hisdir) (by omega)
    refine ⟨path :: paths, by rw [List.length_cons, hlength], ?_, ?_⟩
    · rw [List.nodup_cons]
      refine ⟨fun hmem => ?_, hnodup⟩
      have hle := (hpaths path hmem).2
      omega
    · intro q hq
      rcases List.mem_cons.mp hq with rfl | hq
      · exact ⟨hpath, by omega⟩
      · obtain ⟨hexists, hle⟩ := hpaths q hq
        exact ⟨hexists, by omega⟩

/-- No path lies deeper than there are entries. -/
theorem depth_lt (h : t.WellFormed) (hpath : t.exists? path) :
    depth path < t.entries.entries.length := by
  obtain ⟨paths, hlength, hnodup, hpaths⟩ := h.exists_ancestors hpath rfl
  have hsubset : paths ⊆ t.entries.keys := fun q hq => (Dict.mem_keys_iff _ _).mpr (hpaths q hq).1
  have hle := hnodup.length_le_of_subset hsubset
  rw [hlength, Dict.keys, List.length_map] at hle
  omega

/-- Nothing lies beneath a leaf. -/
theorem not_exists_of_isBelow (h : t.WellFormed) (hpath : Canonical path) (hroot : path ≠ "/")
    (hleaf : t.IsLeaf path) (hbelow : IsBelow path q) : ¬ t.exists? q := by
  induction hdepth : depth q using Nat.strongRecOn generalizing q with
  | ind n ih =>
    intro hq
    have hqroot : q ≠ "/" := by
      rintro rfl
      exact hpath.not_isBelow_root hbelow
    obtain ⟨dir, hdir, hisdir⟩ := h.parent hq hqroot
    obtain ⟨dir', hdir', -, -, -, hsucc⟩ := (h.canonical hq).exists_parent hqroot
    rw [hdir, Option.some.injEq] at hdir'
    subst hdir'
    rcases (hpath.isBelow_iff (h.canonical hq) hdir hroot).mp hbelow with rfl | hbelow
    · exact hleaf q hq hdir
    · exact ih (depth dir) (by omega) hbelow rfl (exists?_of_isDirectory hisdir)

end WellFormed

/-! ### What a removal leaves

Both descriptions give every entry and the current directory after the change, so a recursive
removal can be composed from them: emptying a directory is removing its children in turn, and
removing a directory is emptying it and removing the leaf that is left. -/

theorem entry_eq_none (h : ¬ t.exists? q) : t.entry? q = none := by
  rwa [exists?, Bool.not_eq_true, Option.isSome_eq_false_iff, Option.isNone_iff_eq_none] at h

/-- What is left of a tree after a path went from a directory, with all that lies beneath it. -/
structure IsPruned (t : Tree) (path dir : String) (t' : Tree) : Prop where
  entry (q : String) : t'.entry? q =
    if q = path ∨ IsBelow path q then none
    else if q = dir then (t.entry? q).map (Entry.withoutChild (Path.basename path)) else t.entry? q
  currentDir : t'.currentDir =
    if t.currentDir = path ∨ IsBelow path t.currentDir then dir else t.currentDir

/-- What is left of a tree after all went that lies beneath a directory. -/
structure IsEmptied (t : Tree) (path : String) (t' : Tree) : Prop where
  entry (q : String) : t'.entry? q =
    if IsBelow path q then none else if q = path then some (.directory []) else t.entry? q
  currentDir : t'.currentDir = if IsBelow path t.currentDir then path else t.currentDir

theorem IsPruned.exists? (h : IsPruned t path dir t') (hq : t'.exists? q) : t.exists? q := by
  obtain ⟨e, hentry⟩ := exists?_iff.mp hq
  rw [h.entry] at hentry
  split at hentry
  · cases hentry
  · split at hentry
    · obtain ⟨e', hentry', -⟩ := Option.map_eq_some_iff.mp hentry
      exact exists?_iff.mpr ⟨e', hentry'⟩
    · exact exists?_iff.mpr ⟨e, hentry⟩

/-- A directory from which nothing is left to remove is empty. -/
theorem Consistent.isEmptied_self (h : t.Consistent) (hentry : t.entry? path = some (.directory []))
    (hroot : path ≠ "/") : IsEmptied t path t := by
  have hcanonical := h.canonical (exists?_iff.mpr ⟨_, hentry⟩)
  have hbelow (q : String) (hq : IsBelow path q) : ¬ t.exists? q :=
    h.toWellFormed.not_exists_of_isBelow hcanonical hroot (h.toWellFormed.isLeaf_of_empty hentry) hq
  constructor
  · intro q
    split
    · rename_i hq
      exact entry_eq_none (hbelow q hq)
    · split
      · rename_i hq
        rw [hq, hentry]
      · rfl
  · rw [if_neg fun hcurrent => hbelow _ hcurrent (exists?_of_isDirectory h.currentDir)]

theorem IsEmptied.entry_self (h : IsEmptied t path t') : t'.entry? path = some (.directory []) := by
  rw [h.entry, if_neg (Path.not_isBelow_self path), if_pos rfl]

/-- When an emptied directory goes as well, all went that a removal takes away. -/
theorem IsEmptied.entry_remove (h : IsEmptied t path t') (h' : t'.Consistent)
    (hdir : Path.parent path = some dir) (hcanonical : Canonical path) (q : String) :
    entry? (t'.remove path) q =
      if q = path ∨ IsBelow path q then none
      else if q = dir then (t.entry? q).map (Entry.withoutChild (Path.basename path))
      else t.entry? q := by
  have hexists := exists?_iff.mpr ⟨_, h.entry_self⟩
  have hleaf := h'.toWellFormed.isLeaf_of_empty h.entry_self
  have hne : dir ≠ path := fun heq => hleaf path hexists (heq ▸ hdir)
  rw [WellFormed.entry_removed hexists hdir hleaf, h.entry, h.entry,
    if_neg (hcanonical.not_isBelow_parent hdir), if_neg hne]
  by_cases hq : q = path
  · simp [hq]
  · by_cases hqdir : q = dir
    · subst hqdir
      simp [hq, hcanonical.not_isBelow_parent hdir]
    · by_cases hbelow : IsBelow path q <;> simp [hq, hqdir, hbelow]

/-- To empty a directory is to remove a child and then to empty it. -/
theorem IsPruned.isEmptied {t₁ : Tree} {child : String} (h : IsPruned t child path t₁)
    (hrest : IsEmptied t₁ path t') (hbelow : IsBelow path child) : IsEmptied t path t' := by
  constructor
  · intro q
    rw [hrest.entry]
    by_cases hq : IsBelow path q
    · rw [if_pos hq, if_pos hq]
    · have hne : ¬ (q = child ∨ IsBelow child q) := by
        rintro (rfl | hchild)
        · exact hq hbelow
        · exact hq (hbelow.trans hchild)
      by_cases hqpath : q = path
      · simp [hqpath, Path.not_isBelow_self]
      · rw [if_neg hq, if_neg hq, if_neg hqpath, if_neg hqpath, h.entry, if_neg hne, if_neg hqpath]
  · rw [hrest.currentDir, h.currentDir]
    by_cases hcurrent : t.currentDir = child ∨ IsBelow child t.currentDir
    · have hpath : IsBelow path t.currentDir := by
        rcases hcurrent with heq | hchild
        · rwa [heq]
        · exact hbelow.trans hchild
      rw [if_pos hcurrent, if_pos hpath, ite_self]
    · rw [if_neg hcurrent]

/-! ### The current directory -/

theorem repairCurrentDir_of_isDirectory (h : t.isDirectory t.currentDir) :
    t.repairCurrentDir = t := by
  rw [repairCurrentDir, nearestDirectory, if_pos h]

theorem repairCurrentDir_of_parent (h : t.isDirectory t.currentDir = false)
    (hdir : Path.parent t.currentDir = some dir) (hisdir : t.isDirectory dir) :
    t.repairCurrentDir = { t with currentDir := dir } := by
  rw [repairCurrentDir, nearestDirectory, if_neg (Bool.eq_false_iff.mp h), hdir]
  simp only
  rw [nearestDirectory, if_pos hisdir]

/-! ### Removing one child -/

namespace Consistent

/-- A file leaves what a removal leaves. -/
theorem isPruned_remove (h : t.Consistent) (hpath : t.exists? path)
    (hfile : t.isDirectory path = false)
    (hdir : Path.parent path = some dir) : IsPruned t path dir (t.remove path) := by
  have hroot := Path.ne_root_of_parent hdir
  have hleaf := h.toWellFormed.isLeaf_of_not_isDirectory hfile
  have hbelow (q : String) (hq : IsBelow path q) : ¬ t.exists? q :=
    h.toWellFormed.not_exists_of_isBelow (h.canonical hpath) hroot hleaf hq
  have hcurrent : ¬ (t.currentDir = path ∨ IsBelow path t.currentDir) := by
    rintro (heq | hcurrent)
    · rw [← heq, h.currentDir] at hfile
      cases hfile
    · exact hbelow _ hcurrent (exists?_of_isDirectory h.currentDir)
  constructor
  · intro q
    rw [WellFormed.entry_removed hpath hdir hleaf]
    by_cases hqbelow : IsBelow path q
    · have hnone := entry_eq_none (hbelow q hqbelow)
      by_cases hq : q = dir
      · subst hq
        simp [hqbelow, hnone]
      · simp [hqbelow, hnone, hq]
    · by_cases hq : q = dir
      · subst hq
        simp [hqbelow]
      · simp [hqbelow, hq]
  · rw [remove_currentDir, if_neg hcurrent]

/-- An empty directory can go, and the current directory moves up if it was that one. -/
theorem isPruned_of_isEmptied {emptied : Tree} (hemptied : emptied.Consistent)
    (hempty : IsEmptied t path emptied) (hdir : Path.parent path = some dir)
    (hcanonical : Canonical path) :
    (emptied.remove path).repairCurrentDir.Consistent ∧
      IsPruned t path dir (emptied.remove path).repairCurrentDir := by
  have hexists := exists?_iff.mpr ⟨_, hempty.entry_self⟩
  have hleaf := hemptied.toWellFormed.isLeaf_of_empty hempty.entry_self
  have hremoved := hemptied.toWellFormed.removed hexists hdir hleaf
  have hentries := hempty.entry_remove hemptied hdir hcanonical
  have hisdir : (emptied.remove path).isDirectory dir :=
    WellFormed.isDirectory_removed hexists hdir hleaf
      (hemptied.toWellFormed.isDirectory_parent hexists hdir)
      (fun heq => hleaf path hexists (heq ▸ hdir))
  by_cases hcurrent : emptied.currentDir = path
  · have hgone : (emptied.remove path).isDirectory path = false := by
      rw [isDirectory, kind?, hentries, if_pos (.inl rfl)]
      rfl
    have hrepair : (emptied.remove path).repairCurrentDir =
        { emptied.remove path with currentDir := dir } := by
      apply repairCurrentDir_of_parent
      · rwa [remove_currentDir, hcurrent]
      · rwa [remove_currentDir, hcurrent]
      · exact hisdir
    rw [hrepair]
    refine ⟨⟨hremoved.setCurrentDir dir, hisdir⟩, hentries, ?_⟩
    rw [if_pos]
    rw [hempty.currentDir] at hcurrent
    by_cases hbelow : IsBelow path t.currentDir
    · exact .inr hbelow
    · rw [if_neg hbelow] at hcurrent
      exact .inl hcurrent
  · have hkept : (emptied.remove path).isDirectory (emptied.remove path).currentDir := by
      rw [remove_currentDir]
      exact WellFormed.isDirectory_removed hexists hdir hleaf hemptied.currentDir hcurrent
    rw [repairCurrentDir_of_isDirectory hkept]
    refine ⟨⟨hremoved, hkept⟩, hentries, ?_⟩
    rw [remove_currentDir]
    rw [hempty.currentDir] at hcurrent ⊢
    by_cases hbelow : IsBelow path t.currentDir
    · rw [if_pos hbelow] at hcurrent
      exact absurd rfl hcurrent
    · rw [if_neg hbelow] at hcurrent ⊢
      rw [if_neg (not_or.mpr ⟨hcurrent, hbelow⟩)]

end Consistent

/-! ### Removing all children

`RemovesBelow` is the statement for one amount of fuel.  Its step goes through the children of a
directory, each with one level of fuel less, and the list of children shrinks with them. -/

/-- Remove a child of a directory. -/
def removeChild (force : Bool) (fuel : Nat) (path : String) (t : Tree) (name : String) :
    Except Error Tree :=
  let child := Path.join path name
  if t.isDirectory child then removeBelow force fuel t child else t.removeFile child force

/-- With this fuel a removal of a directory succeeds and leaves what it should, if no path is too
    deep. -/
def RemovesBelow (force : Bool) (fuel : Nat) : Prop :=
  ∀ {t : Tree} {path dir : String},
    t.Consistent → t.isDirectory path → Path.parent path = some dir →
    (∀ q, t.exists? q → depth q < depth path + fuel) →
      ∃ t', removeBelow force fuel t path = .ok t' ∧ t'.Consistent ∧ IsPruned t path dir t'

variable {force : Bool} {fuel : Nat}

theorem removeFile_of_not_isDirectory (hpath : t.exists? path) (hfile : t.isDirectory path = false)
    (force : Bool) :
    t.removeFile path force = .ok (t.remove path) := by
  have hkind : t.kind? path = some .file := by
    obtain ⟨e, hentry⟩ := exists?_iff.mp hpath
    cases e with
    | file => rw [kind?, hentry]; rfl
    | directory children => rw [isDirectory_iff.mpr ⟨children, hentry⟩] at hfile; cases hfile
  rw [removeFile, hkind]

theorem removeChild_spec (hbelow : RemovesBelow force fuel) (h : t.Consistent)
    {children : List String}
    (hentry : t.entry? path = some (.directory children)) (hname : name ∈ children)
    (hdepth : ∀ q, t.exists? q → depth q < depth path + (fuel + 1)) :
    ∃ t', removeChild force fuel path t name = .ok t' ∧ t'.Consistent ∧
      IsPruned t (Path.join path name) path t' := by
  obtain ⟨hexists, hparent, -⟩ := h.toWellFormed.exists?_join hentry hname
  unfold removeChild
  simp only
  split
  · rename_i hisdir
    have hne := Path.ne_root_of_parent hparent
    obtain ⟨dir, hdir, -, -, -, hsucc⟩ := (h.canonical hexists).exists_parent hne
    rw [hparent, Option.some.injEq] at hdir
    subst hdir
    refine hbelow h hisdir hparent fun q hq => ?_
    have hlt := hdepth q hq
    omega
  · rename_i hfile
    rw [Bool.not_eq_true] at hfile
    have hok := removeFile_of_not_isDirectory hexists hfile force
    exact ⟨_, hok, h.removeFile hok, h.isPruned_remove hexists hfile hparent⟩

/-- When its first child went, the others are left in a directory. -/
theorem IsPruned.entry_rest (hpruned : IsPruned t (Path.join path name) path t') (h : t.Consistent)
    {rest : List String} (hentry : t.entry? path = some (.directory (name :: rest))) :
    t'.entry? path = some (.directory rest) := by
  obtain ⟨hexists, hparent, hbase⟩ := h.toWellFormed.exists?_join hentry List.mem_cons_self
  have hcanonical := h.canonical hexists
  obtain ⟨hname, hnodup⟩ := List.nodup_cons.mp (h.nodup hentry)
  have hfilter : (name :: rest).filter (fun n => n ≠ name) = rest := by
    rw [List.filter_cons_of_neg (by simp), List.filter_eq_self]
    intro n hn
    rw [decide_eq_true_eq]
    rintro rfl
    exact hname hn
  have hne : ¬ (path = Path.join path name ∨ IsBelow (Path.join path name) path) := by
    rintro (heq | hself)
    · exact hcanonical.parent_ne hparent heq
    · exact hcanonical.not_isBelow_parent hparent hself
  rw [hpruned.entry, if_neg hne, if_pos rfl, hentry, hbase, Option.map_some, Entry.withoutChild,
    hfilter]

theorem foldlM_removeChild (hbelow : RemovesBelow force fuel) (hroot : path ≠ "/")
    {children : List String} :
    ∀ {t : Tree}, t.Consistent → t.entry? path = some (.directory children) →
      (∀ q, t.exists? q → depth q < depth path + (fuel + 1)) →
        ∃ t', children.foldlM (removeChild force fuel path) t = .ok t' ∧ t'.Consistent ∧
          IsEmptied t path t' := by
  induction children with
  | nil =>
    intro t h hentry _
    exact ⟨t, rfl, h, h.isEmptied_self hentry hroot⟩
  | cons name rest ih =>
    intro t h hentry hdepth
    obtain ⟨t₁, hok, h₁, hpruned⟩ := removeChild_spec hbelow h hentry List.mem_cons_self hdepth
    obtain ⟨hexists, hparent, -⟩ := h.toWellFormed.exists?_join hentry List.mem_cons_self
    have hcanonical := h.canonical hexists
    have hentry₁ := hpruned.entry_rest h hentry
    obtain ⟨t', hrest, h', hempty⟩ := ih h₁ hentry₁ fun q hq => hdepth q (hpruned.exists? hq)
    refine ⟨t', ?_, h', hpruned.isEmptied hempty (hcanonical.isBelow_parent hparent hroot)⟩
    rw [List.foldlM_cons, hok]
    exact hrest

/-- Removing a directory with enough fuel removes it and all beneath it. -/
theorem removesBelow (force : Bool) (fuel : Nat) : RemovesBelow force fuel := by
  induction fuel with
  | zero =>
    intro t path dir _ hisdir _ hdepth
    exact absurd (hdepth path (exists?_of_isDirectory hisdir)) (Nat.lt_irrefl _)
  | succ fuel ih =>
    intro t path dir h hisdir hdir hdepth
    have hroot := Path.ne_root_of_parent hdir
    obtain ⟨children, hentry⟩ := isDirectory_iff.mp hisdir
    obtain ⟨emptied, hok, hemptied, hempty⟩ := foldlM_removeChild ih hroot h hentry hdepth
    have hcanonical := h.canonical (exists?_of_isDirectory hisdir)
    obtain ⟨hconsistent, hpruned⟩ :=
      Consistent.isPruned_of_isEmptied hemptied hempty hdir hcanonical
    refine ⟨_, ?_, hconsistent, hpruned⟩
    rw [removeBelow, if_neg hroot, hentry]
    simp only
    change (children.foldlM (removeChild force fuel path) t >>= _) = _
    rw [hok]
    rfl

namespace Consistent

/-- The operation on a directory other than the root succeeds and removes it and all beneath it. -/
theorem removeDirectory_spec (h : t.Consistent) (hisdir : t.isDirectory path)
    (hdir : Path.parent path = some dir) (force : Bool) :
    ∃ t', t.removeDirectory path force = .ok t' ∧ t'.Consistent ∧ IsPruned t path dir t' := by
  refine removesBelow force _ h hisdir hdir fun q hq => ?_
  have hlt := h.toWellFormed.depth_lt hq
  omega

theorem removeDirectory (h : t.Consistent) (hok : t.removeDirectory path force = .ok t') :
    t'.Consistent := by
  by_cases hroot : path = "/"
  · rw [Tree.removeDirectory, removeBelow, if_pos hroot] at hok
    cases hok
  · cases hentry : t.entry? path with
    | none =>
      rw [Tree.removeDirectory, removeBelow, if_neg hroot, hentry] at hok
      cases hok
    | some e =>
      cases e with
      | file =>
        rw [Tree.removeDirectory, removeBelow, if_neg hroot, hentry] at hok
        cases hok
      | directory children =>
        obtain ⟨dir, hdir, -⟩ := h.parent (exists?_iff.mpr ⟨_, hentry⟩) hroot
        have hisdir := isDirectory_iff.mpr ⟨_, hentry⟩
        obtain ⟨t'', hok', h', -⟩ := h.removeDirectory_spec hisdir hdir force
        rw [hok] at hok'
        cases hok'
        exact h'

end Consistent

end MemoryShell.Tree
