/-
  MemoryShell/Proofs/Path/Resolution.lean
  =======================================
  **What paths resolve to.**

  To resolve a path is to walk its segments over a stack of names.  A walk over one path and then
  over another is a walk over the two with a slash between them, and a walk over a path that is
  written with names puts these on the stack.  So to write the names that a walk leaves and to walk
  over what is written changes nothing, and a path may be resolved in parts: each part against what
  the parts before it resolved to.
-/
import MemoryShell.Proofs.Path

namespace MemoryShell.Path

/-! ### Walks -/

/-- Walk the segments of a path from some names, last one first. -/
def walk (stack : List (List Char)) (path : String) : List (List Char) :=
  (segments path).foldl follow stack

@[simp] theorem walk_empty (stack : List (List Char)) : walk stack "" = stack := rfl

theorem segments_slash (path path' : String) :
    segments (path ++ "/" ++ path') = segments path ++ segments path' := by
  have htext : (path ++ "/" ++ path').toList = path.toList ++ '/' :: path'.toList := by
    rw [String.toList_append, String.toList_append, List.append_assoc]
    rfl
  rw [segments, htext, Text.splitOn_eq, List.splitOn_append_cons_self, ← Text.splitOn_eq,
    ← Text.splitOn_eq]
  rfl

/-- A walk over two paths with a slash between them is one walk after the other. -/
theorem walk_slash (stack : List (List Char)) (path path' : String) :
    walk stack (path ++ "/" ++ path') = walk (walk stack path) path' := by
  rw [walk, segments_slash, List.foldl_append]
  rfl

theorem isName_of_mem_walk {stack : List (List Char)} (hstack : ∀ name ∈ stack, IsName name)
    (path : String) : ∀ name ∈ walk stack path, IsName name := by
  refine isName_of_mem_foldl_follow (fun segment hsegment => ?_) hstack
  rw [segments, Text.splitOn_eq] at hsegment
  exact Text.not_mem_of_mem_splitOn hsegment

theorem follow_name {name : List Char} (h : IsName name) (stack : List (List Char)) :
    follow stack name = name :: stack := by
  rw [follow, if_neg (not_or.mpr ⟨h.ne_nil, h.ne_dot⟩), if_neg h.ne_dots]

theorem foldl_follow_names {names : List (List Char)} (h : ∀ name ∈ names, IsName name)
    (stack : List (List Char)) : names.foldl follow stack = names.reverse ++ stack := by
  induction names generalizing stack with
  | nil => rfl
  | cons name names ih =>
    rw [List.forall_mem_cons] at h
    rw [List.foldl_cons, follow_name h.1, ih h.2, List.reverse_cons, List.append_assoc,
      List.singleton_append]

/-- A walk over what is written with names puts them on the stack. -/
theorem walk_render {names : List (List Char)} (h : ∀ name ∈ names, IsName name)
    (stack : List (List Char)) : walk stack (render names) = names.reverse ++ stack := by
  by_cases hne : names = []
  · subst hne
    rfl
  · rw [walk, segments_render hne h]
    exact foldl_follow_names h stack

/-! ### Normalizing is a walk -/

/-- The names that a path is walked from: none if it starts with a slash, else those of the base. -/
def origin (path base : String) : List (List Char) :=
  if path.toList.head? = some '/' then [] else walk [] base

/-- Where a path leads seen from a base: the names that its walk leaves, last one first. -/
def destination (path base : String) : List (List Char) := walk (origin path base) path

theorem isName_of_mem_destination (path base : String) :
    ∀ name ∈ destination path base, IsName name := by
  apply isName_of_mem_walk
  unfold origin
  split
  · exact List.forall_mem_nil _
  · exact isName_of_mem_walk (List.forall_mem_nil _) base

theorem normalize_empty (base : String) : normalize "" base = base := rfl

theorem normalize_of_ne_empty {path : String} (h : path ≠ "") (base : String) :
    normalize path base = render (destination path base).reverse := by
  rw [normalize, if_neg (by rwa [String.isEmpty_iff]), destination, origin]
  split
  · rfl
  · rw [← walk_slash]
    rfl

/-- Walking over a normalized path gives the names that it was written with. -/
theorem walk_normalize {path : String} (h : path ≠ "") (base : String) :
    walk [] (normalize path base) = destination path base := by
  have hnames : ∀ name ∈ (destination path base).reverse, IsName name := fun name hmem =>
    isName_of_mem_destination path base name (List.mem_reverse.mp hmem)
  rw [normalize_of_ne_empty h, walk_render hnames, List.reverse_reverse, List.append_nil]

/-! ### Canonical paths are what normalizing gives -/

theorem canonical_normalize_of_ne_empty {path : String} (h : path ≠ "") (base : String) :
    Canonical (normalize path base) := by
  rw [normalize_of_ne_empty h]
  exact canonical_render fun name hmem =>
    isName_of_mem_destination path base name (List.mem_reverse.mp hmem)

theorem head?_render (names : List (List Char)) : (render names).toList.head? = some '/' := by
  rw [render, String.toList_ofList, List.head?_cons]

theorem Canonical.head? {path : String} (h : Canonical path) : path.toList.head? = some '/' := by
  obtain ⟨names, -, rfl⟩ := canonical_iff.mp h
  exact head?_render names

theorem Canonical.ne_empty {path : String} (h : Canonical path) : path ≠ "" := by
  rintro rfl
  cases h.head?

/-- A canonical path is already normal. -/
theorem Canonical.normalize_eq {path : String} (h : Canonical path) (base : String) :
    normalize path base = path := by
  obtain ⟨names, hnames, rfl⟩ := canonical_iff.mp h
  rw [normalize_of_ne_empty h.ne_empty, destination, origin, if_pos (head?_render names),
    walk_render hnames, List.append_nil, List.reverse_reverse]

theorem normalize_absolute {path : String} (h : path.toList.head? = some '/')
    (base base' : String) : normalize path base = normalize path base' := by
  have hne : path ≠ "" := by
    rintro rfl
    cases h
  rw [normalize_of_ne_empty hne, normalize_of_ne_empty hne, destination, destination, origin,
    origin, if_pos h, if_pos h]

/-- **Normalizing gives canonical paths and leaves these, and only these, as they are.**  Every path
    but the empty one becomes canonical, whatever the base; a path is what it becomes against every
    base exactly if it is canonical; the base does not matter to a path that starts with a slash,
    and the empty path is the base itself. -/
theorem normalize_eq_self_iff_canonical :
    (∀ path base, path ≠ "" → Canonical (normalize path base)) ∧
      (∀ path, (∀ base, normalize path base = path) ↔ Canonical path) ∧
      (∀ path base base', path.toList.head? = some '/' →
        normalize path base = normalize path base') ∧
      ∀ base, normalize "" base = base := by
  refine ⟨fun path base h => canonical_normalize_of_ne_empty h base, fun path => ⟨fun h => ?_,
    Canonical.normalize_eq⟩, fun path base base' h => normalize_absolute h base base',
    normalize_empty⟩
  by_cases hempty : path = ""
  · -- The empty path is the base, and no text is every base.
    have hroot := h "/"
    rw [hempty, normalize_empty] at hroot
    exact absurd hroot (by decide)
  · rw [← h "/"]
    exact canonical_normalize_of_ne_empty hempty "/"

/-! ### Resolving in parts -/

/-- A path that goes on behind a slash resolves to what goes on, seen from what comes before. -/
theorem normalize_slash {path : String} (h : path ≠ "") {rest : String}
    (hrest : rest.toList.head? ≠ some '/') (base : String) :
    normalize (path ++ "/" ++ rest) base = normalize rest (normalize path base) := by
  have hhead : (path ++ "/" ++ rest).toList.head? = path.toList.head? := by
    obtain ⟨c, cs, hcs⟩ := List.exists_cons_of_ne_nil (mt String.toList_eq_nil_iff.mp h)
    rw [String.toList_append, String.toList_append, hcs]
    rfl
  have hne : path ++ "/" ++ rest ≠ "" := by
    intro hempty
    rw [← String.toList_inj, String.toList_append, String.toList_append] at hempty
    simp at hempty
  rw [normalize_of_ne_empty hne, destination, origin, hhead, walk_slash]
  by_cases hempty : rest = ""
  · rw [hempty, walk_empty, normalize_empty, normalize_of_ne_empty h, destination, origin]
  · rw [normalize_of_ne_empty hempty, destination, origin, if_neg hrest, walk_normalize h,
      destination, origin]

/-- The parent of what is written with names lacks the last one; the root stays as it is. -/
theorem parent_render_getD {names : List (List Char)} (h : ∀ name ∈ names, IsName name) :
    (parent (render names)).getD "/" = render names.dropLast := by
  rcases List.eq_nil_or_concat names with rfl | ⟨init, last, rfl⟩
  · rfl
  · rw [List.concat_eq_append] at h ⊢
    rw [parent_render (h last (by simp)), List.dropLast_concat]
    rfl

/-- What one segment does to a canonical base: nothing, or it leads to the parent (from the root to
    the root itself), or to a child. -/
theorem normalize_segment {base : String} (hbase : Canonical base) {segment : String}
    (h : '/' ∉ segment.toList) : normalize segment base =
      if segment = "" ∨ segment = "." then base
      else if segment = ".." then (parent base).getD "/"
      else join base segment := by
  obtain ⟨names, hnames, rfl⟩ := canonical_iff.mp hbase
  by_cases hempty : segment = ""
  · rw [if_pos (.inl hempty), hempty, normalize_empty]
  · have hhead : segment.toList.head? ≠ some '/' := fun hhead => h (List.mem_of_head? hhead)
    have hdestination : destination segment (render names) =
        follow names.reverse segment.toList := by
      rw [destination, origin, if_neg hhead, walk_render hnames, List.append_nil, walk, segments,
        Text.splitOn_eq, List.splitOn_eq_singleton h]
      rfl
    have htext (text : String) : segment = text ↔ segment.toList = text.toList :=
      String.toList_inj.symm
    have hfollow : follow names.reverse segment.toList =
        if segment = "" ∨ segment = "." then names.reverse
        else if segment = ".." then names.reverse.tail
        else segment.toList :: names.reverse := by
      simp only [htext]
      rfl
    rw [normalize_of_ne_empty hempty, hdestination, hfollow, parent_render_getD hnames]
    split
    · rw [List.reverse_reverse]
    · split
      · rw [List.tail_reverse, List.reverse_reverse]
      · rw [List.reverse_cons, List.reverse_reverse, ← join_render hnames, String.ofList_toList]

end MemoryShell.Path
