/-
  MemoryShell/Proofs/Path/Ancestors.lean
  ======================================
  **Up and down a canonical path.**

  A canonical path is its names, and its parent is all of them but the last.  So going up undoes
  going down, and whoever keeps going up passes all the ancestors, each one name shorter than the
  one before, and comes to the root when no name is left.
-/
import MemoryShell.Proofs.Path.Resolution

namespace MemoryShell.Path

/-! ### Names, ancestors, climbing -/

/-- The names in a path: its segments that are not empty. -/
def names (path : String) : List (List Char) := (segments path).filter (· ≠ [])

/-- Whether a path is above another one: the root is above all others, and any path is above what
    lies beneath it. -/
def IsAbove (dir path : String) : Prop := dir = "/" ∧ path ≠ "/" ∨ IsBelow dir path

/-- Where one comes to by going to the parent some number of times. -/
def climb : Nat → String → Option String
  | 0, path => some path
  | steps + 1, path => (parent path).bind (climb steps)

theorem IsAbove.ne {dir path : String} (h : IsAbove dir path) : dir ≠ path := by
  rcases h with ⟨rfl, hpath⟩ | hbelow
  · exact hpath.symm
  · rintro rfl
    exact not_isBelow_self dir hbelow

/-! ### On what is written with names -/

section Render

variable {ns rest : List (List Char)}

theorem names_render (h : ∀ name ∈ ns, IsName name) : names (render ns) = ns := by
  by_cases hne : ns = []
  · subst hne
    rfl
  · rw [names, segments_render hne h, List.filter_cons_of_neg (by simp), List.filter_eq_self]
    intro name hmem
    simpa using (h name hmem).ne_nil

theorem render_eq_root_iff (h : ∀ name ∈ ns, IsName name) : render ns = "/" ↔ ns = [] := by
  constructor
  · intro hroot
    rw [← names_render h, hroot]
    rfl
  · rintro rfl
    rfl

/-- What is written with the first of some names is above what is written with all of them. -/
theorem isAbove_render (h : ∀ name ∈ ns ++ rest, IsName name) (hrest : rest ≠ []) :
    IsAbove (render ns) (render (ns ++ rest)) := by
  have hroot : ns ++ rest ≠ [] := List.append_ne_nil_of_right_ne_nil ns hrest
  by_cases hne : ns = []
  · subst hne
    exact .inl ⟨render_nil, mt (render_eq_root_iff h).mp hroot⟩
  · right
    obtain ⟨name, rest, rfl⟩ := List.exists_cons_of_ne_nil hrest
    rw [IsBelow, render_toList hne, render_toList hroot, written_append, written_cons]
    exact ⟨name ++ written rest, by simp⟩

/-- To climb is to leave out the last names. -/
theorem climb_render (h : ∀ name ∈ ns, IsName name) {steps : Nat} (hsteps : steps ≤ ns.length) :
    climb steps (render ns) = some (render (ns.take (ns.length - steps))) := by
  induction steps generalizing ns with
  | zero => rw [climb, Nat.sub_zero, List.take_length]
  | succ steps ih =>
    rcases List.eq_nil_or_concat ns with rfl | ⟨init, last, rfl⟩
    · cases hsteps
    · rw [List.concat_eq_append] at h hsteps ⊢
      rw [List.forall_mem_append, List.forall_mem_singleton] at h
      rw [List.length_append, List.length_singleton] at hsteps ⊢
      rw [climb, parent_render h.2, Option.bind_some, ih h.1 (Nat.le_of_succ_le_succ hsteps),
        Nat.add_sub_add_right, List.take_append_of_le_length (Nat.sub_le _ _)]

end Render

/-! ### On canonical paths -/

/-- One comes to the root when all names are left out. -/
theorem Canonical.climb_names {path : String} (h : Canonical path) :
    climb (names path).length path = some "/" := by
  obtain ⟨ns, hns, rfl⟩ := canonical_iff.mp h
  rw [names_render hns, climb_render hns (Nat.le_refl _), Nat.sub_self, List.take_zero, render_nil]

/-- On the way there one passes canonical paths that are above the first one. -/
theorem Canonical.climb_eq_some {path : String} (h : Canonical path) {steps : Nat}
    (hpos : 0 < steps) (hsteps : steps ≤ (names path).length) :
    ∃ dir, climb steps path = some dir ∧ Canonical dir ∧ IsAbove dir path ∧
      (names dir).length + steps = (names path).length := by
  obtain ⟨ns, hns, rfl⟩ := canonical_iff.mp h
  rw [names_render hns] at hsteps ⊢
  have htake : ∀ name ∈ ns.take (ns.length - steps), IsName name := fun name hmem =>
    hns name (List.mem_of_mem_take hmem)
  have hdrop : ns.drop (ns.length - steps) ≠ [] := by
    rw [← List.length_pos_iff, List.length_drop]
    omega
  refine ⟨_, climb_render hns hsteps, canonical_render htake, ?_, ?_⟩
  · have habove := isAbove_render (by rwa [List.take_append_drop]) hdrop
    rwa [List.take_append_drop] at habove
  · rw [names_render htake, List.length_take]
    omega

theorem Canonical.eq_root_iff {path : String} (h : Canonical path) :
    path = "/" ↔ (names path).length = 0 := by
  obtain ⟨ns, hns, rfl⟩ := canonical_iff.mp h
  rw [render_eq_root_iff hns, names_render hns, List.length_eq_zero_iff]

theorem Canonical.normalize_name {dir name : String} (h : Canonical dir)
    (hname : IsName name.toList) : normalize name dir = Path.join dir name := by
  have hne (text : String) : name.toList ≠ text.toList → name ≠ text :=
    mt (congrArg String.toList)
  have hkept : ¬ (name = "" ∨ name = ".") :=
    not_or.mpr ⟨hne "" hname.ne_nil, hne "." hname.ne_dot⟩
  rw [normalize_segment h hname.slash_not_mem, if_neg hkept, if_neg (hne ".." hname.ne_dots)]

/-- **Going up undoes going down.**  A canonical path other than the root is the child with its base
    name of its parent, which is canonical.  The child of a canonical path with a name is canonical,
    is what the name resolves to there, and has the path as its parent and the name as its base
    name.  Whoever goes up from a canonical path passes canonical paths above it and is at the root
    after as many steps as there are names, not before. -/
theorem parent_join_basename :
    (∀ path, Canonical path → path ≠ "/" →
      ∃ dir, parent path = some dir ∧ Canonical dir ∧ join dir (basename path) = path) ∧
    (∀ dir name, Canonical dir → IsName name.toList →
      Canonical (join dir name) ∧ parent (join dir name) = some dir ∧
        basename (join dir name) = name ∧ normalize name dir = join dir name) ∧
    ∀ path, Canonical path → climb (names path).length path = some "/" ∧
      ∀ steps, 0 < steps → steps ≤ (names path).length →
        ∃ dir, climb steps path = some dir ∧ Canonical dir ∧ IsAbove dir path ∧ dir ≠ path ∧
          (dir = "/" ↔ steps = (names path).length) := by
  refine ⟨?_, ?_, ?_⟩
  · intro path hpath hroot
    obtain ⟨dir, hdir, hcanonical, -, hjoin, -⟩ := hpath.exists_parent hroot
    exact ⟨dir, hdir, hcanonical, hjoin⟩
  · intro dir name hdir hname
    obtain ⟨hcanonical, -, hparent, hbasename⟩ := hdir.join hname
    exact ⟨hcanonical, hparent, hbasename, hdir.normalize_name hname⟩
  · intro path hpath
    refine ⟨hpath.climb_names, ?_⟩
    intro steps hpos hsteps
    obtain ⟨dir, hclimb, hcanonical, habove, hlength⟩ := hpath.climb_eq_some hpos hsteps
    refine ⟨dir, hclimb, hcanonical, habove, habove.ne, ?_⟩
    rw [hcanonical.eq_root_iff]
    omega

/-- From a directory two levels down, and into it. -/
theorem climb_two_levels :
    (∃ dir, parent "/a/b" = some dir ∧ Canonical dir ∧ join dir (basename "/a/b") = "/a/b") ∧
      normalize "c d" "/a/b" = join "/a/b" "c d" ∧ climb 2 "/a/b" = some "/" ∧
      ∃ dir, climb 1 "/a/b" = some dir ∧ Canonical dir ∧ IsAbove dir "/a/b" ∧ dir ≠ "/a/b" ∧
        (dir = "/" ↔ 1 = (names "/a/b").length) := by
  have hpath : Canonical "/a/b" := by decide +kernel
  have hlength : (names "/a/b").length = 2 := by decide +kernel
  obtain ⟨hup, hdown, hclimb⟩ := parent_join_basename
  obtain ⟨hroot, hbetween⟩ := hclimb "/a/b" hpath
  refine ⟨hup "/a/b" hpath (by decide), ?_, ?_, hbetween 1 Nat.one_pos ?_⟩
  · exact (hdown "/a/b" "c d" hpath ⟨by decide, by decide, by decide, by decide⟩).2.2.2
  · rwa [hlength] at hroot
  · rw [hlength]
    decide

end MemoryShell.Path
