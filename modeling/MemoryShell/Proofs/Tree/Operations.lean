/-
  MemoryShell/Proofs/Tree/Operations.lean
  =======================================
  **The operations keep trees consistent.**

  Each operation that succeeds at a canonical path leaves a consistent tree, and one that fails
  leaves none.
-/
import MemoryShell.Proofs.Tree.Consistent

namespace MemoryShell.Tree

open MemoryShell.Path (Canonical)

variable {t t' : Tree} {path : String}

theorem exists?_of_kind? {kind : EntryKind} (h : t.kind? path = some kind) : t.exists? path := by
  obtain ⟨e, hentry, -⟩ := Option.map_eq_some_iff.mp h
  exact exists?_iff.mpr ⟨e, hentry⟩

namespace Consistent

/-! ### Putting -/

theorem place (h : t.Consistent) (hpath : Canonical path) (hnew : t.isDirectory path = false)
    {e : Entry}
    (hleaf : ∀ children, e = .directory children → children = []) {operation : Operation}
    (hok : t.place path e operation = .ok t') : t'.Consistent := by
  unfold Tree.place existingParent at hok
  split at hok
  · rename_i dir hdir
    split at hok
    · rename_i hisdir
      cases hok
      refine ⟨h.toWellFormed.added hpath hdir hisdir hnew hleaf, ?_⟩
      rw [register_currentDir, put_currentDir]
      exact WellFormed.isDirectory_added hisdir hnew h.currentDir
    · cases hok
  · cases hok

theorem write (h : t.Consistent) (hpath : Canonical path) {content : String}
    (hok : t.write path content = .ok t') : t'.Consistent := by
  unfold Tree.write at hok
  split at hok
  · cases hok
  · rename_i hnew
    refine h.place hpath (Bool.eq_false_iff.mpr hnew) ?_ hok
    rintro children ⟨⟩

theorem makeDirectory (h : t.Consistent) (hpath : Canonical path)
    (hok : t.makeDirectory path = .ok t') : t'.Consistent := by
  unfold Tree.makeDirectory at hok
  split at hok
  · cases hok
  · rename_i hnew
    refine h.place hpath (Bool.eq_false_iff.mpr (mt exists?_of_isDirectory hnew)) ?_ hok
    rintro children ⟨⟩
    rfl

theorem touch (h : t.Consistent) (hpath : Canonical path) (hok : t.touch path = .ok t') :
    t'.Consistent := by
  unfold Tree.touch at hok
  split at hok
  · cases hok
    exact h
  · exact h.write hpath hok

theorem changeDirectory (h : t.Consistent) (hok : t.changeDirectory path = .ok t') :
    t'.Consistent := by
  unfold Tree.changeDirectory at hok
  split at hok
  · rename_i hkind
    cases hok
    exact ⟨h.toWellFormed.setCurrentDir path, beq_iff_eq.mpr hkind⟩
  · cases hok
  · cases hok

/-! ### Removing a leaf -/

/-- A file can go, and so can an empty directory that is not the current one. -/
theorem remove (h : t.Consistent) (hpath : t.exists? path) (hroot : path ≠ "/")
    (hleaf : t.IsLeaf path)
    (hcurrent : t.currentDir ≠ path) : (t.remove path).Consistent := by
  obtain ⟨dir, hdir, -⟩ := h.parent hpath hroot
  refine ⟨h.toWellFormed.removed hpath hdir hleaf, ?_⟩
  rw [remove_currentDir]
  exact WellFormed.isDirectory_removed hpath hdir hleaf h.currentDir hcurrent

theorem remove_of_not_isDirectory (h : t.Consistent) (hpath : t.exists? path)
    (hfile : t.isDirectory path = false) :
    (t.remove path).Consistent := by
  have hne {q : String} (hq : t.isDirectory q) : q ≠ path := by
    rintro rfl
    rw [hfile] at hq
    cases hq
  have hleaf := h.toWellFormed.isLeaf_of_not_isDirectory hfile
  exact h.remove hpath (Ne.symm (hne h.root)) hleaf (hne h.currentDir)

theorem removeFile (h : t.Consistent) {force : Bool} (hok : t.removeFile path force = .ok t') :
    t'.Consistent := by
  unfold Tree.removeFile at hok
  split at hok
  · rename_i hkind
    cases hok
    refine h.remove_of_not_isDirectory (exists?_of_kind? hkind) ?_
    rw [isDirectory, hkind]
    rfl
  · cases hok
  · split at hok
    · cases hok
      exact h
    · cases hok

end Consistent

/-! ### The trees that sessions start from -/

theorem root_entry (q : String) : root.entry? q = if q = "/" then some (.directory []) else none :=
  Dict.find?_insert _ _ _ _

theorem root_consistent : root.Consistent where
  root := rfl
  canonical hpath := by
    obtain ⟨e, hentry⟩ := exists?_iff.mp hpath
    rw [root_entry] at hentry
    split at hentry
    · rename_i hroot
      exact hroot ▸ Path.canonical_root
    · cases hentry
  parent hpath hroot := by
    obtain ⟨e, hentry⟩ := exists?_iff.mp hpath
    rw [root_entry, if_neg hroot] at hentry
    cases hentry
  nodup hentry := by
    rw [root_entry] at hentry
    split at hentry
    · cases hentry
      exact List.nodup_nil
    · cases hentry
  mem_children hentry name := by
    rw [root_entry] at hentry
    split at hentry
    · cases hentry
      refine iff_of_false List.not_mem_nil ?_
      rintro ⟨q, hq, hparent, -⟩
      obtain ⟨e, hentry⟩ := exists?_iff.mp hq
      rw [root_entry, if_neg (Path.ne_root_of_parent hparent)] at hentry
      cases hentry
    · cases hentry
  currentDir := rfl

/-- The seeded tree is what two writes make of the root. -/
theorem seeded_eq : (do
    let t ← root.write "/hello_world.txt" greeting
    t.write "/script.js" greetingScript) = .ok seeded := rfl

theorem seeded_consistent : seeded.Consistent := by
  have heq := seeded_eq
  cases hwrite : root.write "/hello_world.txt" greeting with
  | error e =>
    rw [hwrite] at heq
    cases heq
  | ok t =>
    rw [hwrite] at heq
    have hgreeting : Canonical "/hello_world.txt" := by decide +kernel
    have hscript : Canonical "/script.js" := by decide +kernel
    exact (root_consistent.write hgreeting hwrite).write hscript heq

end MemoryShell.Tree
