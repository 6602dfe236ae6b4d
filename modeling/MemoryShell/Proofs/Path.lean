/-
  MemoryShell/Proofs/Path.lean
  ============================
  **Canonical paths.**

  A canonical path is its names, each behind a slash; the root has none.  Normalizing gives
  canonical paths, and on these the parent, the base name and the child of a directory are what they
  are for lists of names: all but the last, the last, and one more.
-/
import MemoryShell.Path

namespace MemoryShell.Text

/-! ### Cutting at one character -/

theorem splitFrom_eq (c : Char) (piece : List Char) (done : List (List Char)) (cs : List Char) :
    splitFrom [c] 0 piece done cs = done.reverse ++ cs.splitOnPPrepend (· == c) piece := by
  induction cs generalizing piece done with
  | nil => simp [splitFrom]
  | cons d cs ih =>
    by_cases h : d = c
    · subst h
      simp [splitFrom, ih, List.splitOnPPrepend]
    · simp [splitFrom, ih, List.splitOnPPrepend, h, Ne.symm h]

/-- Cutting at one character is cutting a list at one element. -/
theorem splitOn_eq (c : Char) (cs : List Char) : splitOn [c] cs = cs.splitOn c := by
  rw [splitOn, splitFrom_eq]
  rfl

/-- No piece holds the character that was cut at. -/
theorem not_mem_of_mem_splitOn {c : Char} {cs piece : List Char} (h : piece ∈ cs.splitOn c) :
    c ∉ piece := by
  induction cs generalizing piece with
  | nil =>
    rw [List.splitOn_nil, List.mem_singleton] at h
    rw [h]
    exact List.not_mem_nil
  | cons d cs ih =>
    rw [List.splitOn_cons_eq_if_modifyHead] at h
    split at h
    · rcases List.mem_cons.mp h with rfl | hrest
      · exact List.not_mem_nil
      · exact ih hrest
    · rename_i hd
      cases hcs : cs.splitOn c with
      | nil => exact absurd hcs (List.splitOn_ne_nil c cs)
      | cons first rest =>
        rw [hcs] at h ih
        rcases List.mem_cons.mp h with rfl | hrest
        · rw [List.mem_cons, not_or]
          exact ⟨fun heq => hd (by simp [heq]), ih List.mem_cons_self⟩
        · exact ih (List.mem_cons_of_mem _ hrest)

theorem cutAt_append {c : Char} {cs : List Char} (h : c ∉ cs) (ds : List Char) :
    cutAt c (cs ++ c :: ds) = some (cs, ds) := by
  induction cs with
  | nil => simp [cutAt]
  | cons d cs ih =>
    rw [List.mem_cons, not_or] at h
    simp [cutAt, Ne.symm h.1, ih h.2]

theorem eq_of_cutAt {c : Char} {cs before behind : List Char}
    (h : cutAt c cs = some (before, behind)) : cs = before ++ c :: behind := by
  induction cs generalizing before with
  | nil => cases h
  | cons d cs ih =>
    rw [cutAt] at h
    split at h
    · rename_i hd
      cases h
      rw [hd, List.nil_append]
    · obtain ⟨⟨rest, behind'⟩, hcut, heq⟩ := Option.map_eq_some_iff.mp h
      cases heq
      rw [ih hcut, List.cons_append]

end MemoryShell.Text

namespace MemoryShell.Path

/-! ### Names -/

/-- A name of something in a directory. -/
structure IsName (name : List Char) : Prop where
  ne_nil : name ≠ []
  ne_dot : name ≠ ['.']
  ne_dots : name ≠ ['.', '.']
  slash_not_mem : '/' ∉ name

/-- Names, each behind a slash. -/
def written (names : List (List Char)) : List Char := names.flatMap fun name => '/' :: name

@[simp] theorem written_nil : written [] = [] := rfl

@[simp] theorem written_cons (name : List Char) (names : List (List Char)) :
    written (name :: names) = '/' :: (name ++ written names) := rfl

@[simp] theorem written_append (names names' : List (List Char)) :
    written (names ++ names') = written names ++ written names' := List.flatMap_append

theorem render_nil : render [] = "/" := rfl

theorem slash_intercalate {names : List (List Char)} (h : names ≠ []) :
    '/' :: ['/'].intercalate names = written names := by
  induction names with
  | nil => exact absurd rfl h
  | cons name names ih =>
    cases names with
    | nil => simp
    | cons name' names =>
      rw [List.intercalate_cons_cons, List.append_assoc, List.singleton_append,
        ih (List.cons_ne_nil _ _)]
      rfl

theorem render_toList {names : List (List Char)} (h : names ≠ []) :
    (render names).toList = written names := by
  rw [render, slash_intercalate h, String.toList_ofList]

/-! ### Canonical paths

The definition reads the segments of a path, so it can be decided; the work is done on the names
that a canonical path is written from. -/

/-- A path is canonical if it is the root, or if it starts with a slash and none of the segments
    behind that is empty, `.` or `..`.  In particular only the root ends with a slash. -/
def Canonical (path : String) : Prop :=
  path = "/" ∨ path.toList.head? = some '/' ∧
    ∀ segment ∈ (segments path).tail, segment ≠ [] ∧ segment ≠ ['.'] ∧ segment ≠ ['.', '.']

instance (path : String) : Decidable (Canonical path) :=
  inferInstanceAs (Decidable (_ ∨ _ ∧ ∀ segment ∈ (segments path).tail, _))

theorem segments_render {names : List (List Char)} (hne : names ≠ [])
    (h : ∀ name ∈ names, IsName name) :
    segments (render names) = [] :: names := by
  have hslash : ∀ name ∈ names, '/' ∉ name := fun name hmem => (h name hmem).slash_not_mem
  rw [segments, Text.splitOn_eq, render, String.toList_ofList, List.splitOn_cons_eq_if_modifyHead,
    if_pos (beq_self_eq_true _), List.splitOn_intercalate '/' hslash hne]

/-- The canonical paths are the ones that are written with names. -/
theorem canonical_iff {path : String} :
    Canonical path ↔ ∃ names, (∀ name ∈ names, IsName name) ∧ path = render names := by
  constructor
  · rintro (rfl | ⟨hhead, hsegments⟩)
    · exact ⟨[], List.forall_mem_nil _, rfl⟩
    · obtain ⟨cs, hcs⟩ := List.head?_eq_some_iff.mp hhead
      have hsplit : segments path = [] :: cs.splitOn '/' := by
        rw [segments, hcs, Text.splitOn_eq, List.splitOn_cons_eq_if_modifyHead,
          if_pos (beq_self_eq_true _)]
      rw [hsplit] at hsegments
      refine ⟨cs.splitOn '/', fun name hmem => ?_, ?_⟩
      · obtain ⟨hnil, hdot, hdots⟩ := hsegments name hmem
        exact ⟨hnil, hdot, hdots, Text.not_mem_of_mem_splitOn hmem⟩
      · rw [render, List.intercalate_splitOn, ← hcs, String.ofList_toList]
  · rintro ⟨names, hnames, rfl⟩
    by_cases hne : names = []
    · exact .inl (hne ▸ rfl)
    · refine .inr ⟨?_, ?_⟩
      · rw [render, String.toList_ofList, List.head?_cons]
      · rw [segments_render hne hnames]
        intro name hmem
        exact ⟨(hnames name hmem).ne_nil, (hnames name hmem).ne_dot, (hnames name hmem).ne_dots⟩

theorem canonical_render {names : List (List Char)} (h : ∀ name ∈ names, IsName name) :
    Canonical (render names) := canonical_iff.mpr ⟨names, h, rfl⟩

theorem canonical_root : Canonical "/" := .inl rfl

/-! ### Normalizing -/

theorem isName_of_mem_follow {stack : List (List Char)} {segment : List Char}
    (hstack : ∀ name ∈ stack, IsName name)
    (hsegment : '/' ∉ segment) : ∀ name ∈ follow stack segment, IsName name := by
  unfold follow
  split
  · exact hstack
  · rename_i hkept
    rw [not_or] at hkept
    split
    · exact fun name hmem => hstack name (List.mem_of_mem_tail hmem)
    · rename_i hdots
      exact List.forall_mem_cons.mpr ⟨⟨hkept.1, hkept.2, hdots, hsegment⟩, hstack⟩

theorem isName_of_mem_foldl_follow {path : List (List Char)}
    (hpath : ∀ segment ∈ path, '/' ∉ segment)
    {stack : List (List Char)} (hstack : ∀ name ∈ stack, IsName name) :
    ∀ name ∈ path.foldl follow stack, IsName name := by
  induction path generalizing stack with
  | nil => exact hstack
  | cons segment path ih =>
    rw [List.forall_mem_cons] at hpath
    exact ih hpath.2 (isName_of_mem_follow hstack hpath.1)

/-- What a path names seen from a canonical base is canonical. -/
theorem normalize_canonical {base : String} (hbase : Canonical base) (path : String) :
    Canonical (normalize path base) := by
  unfold normalize
  split
  · exact hbase
  · refine canonical_render fun name hmem => ?_
    rw [List.mem_reverse] at hmem
    refine isName_of_mem_foldl_follow (fun segment hsegment => ?_) (List.forall_mem_nil _) name hmem
    rw [segments, Text.splitOn_eq] at hsegment
    exact Text.not_mem_of_mem_splitOn hsegment

/-! ### Parents, base names and children -/

section Render

variable {names : List (List Char)} {name : List Char}

theorem cutLast_append (dir : List Char) (hname : '/' ∉ name) :
    cutLast (dir ++ '/' :: name) = some (dir, name) := by
  have hreverse : (dir ++ '/' :: name).reverse = name.reverse ++ '/' :: dir.reverse := by simp
  rw [cutLast, hreverse, Text.cutAt_append (by simpa using hname)]
  simp

theorem render_concat_toList (names : List (List Char)) (name : List Char) :
    (render (names ++ [name])).toList = written names ++ '/' :: name := by
  rw [render_toList (by simp)]
  simp

theorem render_concat_ne_root (hname : IsName name) : render (names ++ [name]) ≠ "/" := by
  intro heq
  have hlist : written names ++ '/' :: name = ['/'] := by
    rw [← render_concat_toList, heq]
    rfl
  have hlength := congrArg List.length hlist
  have hpos := List.length_pos_iff.mpr hname.ne_nil
  simp only [List.length_append, List.length_cons, List.length_nil] at hlength
  omega

theorem render_eq_ofList_written (names : List (List Char)) :
    render names = if (written names).isEmpty then "/" else String.ofList (written names) := by
  cases names with
  | nil => rfl
  | cons first rest =>
    rw [← String.ofList_toList (s := render _), render_toList (List.cons_ne_nil _ _)]
    rfl

theorem parent_render (hname : IsName name) :
    parent (render (names ++ [name])) = some (render names) := by
  rw [parent, if_neg (render_concat_ne_root hname), render_concat_toList,
    cutLast_append _ hname.slash_not_mem, render_eq_ofList_written]

theorem basename_render (hname : IsName name) :
    basename (render (names ++ [name])) = String.ofList name := by
  rw [basename, render_concat_toList, cutLast_append _ hname.slash_not_mem]

theorem join_render (hnames : ∀ name ∈ names, IsName name) (name : List Char) :
    join (render names) (String.ofList name) = render (names ++ [name]) := by
  rw [← String.toList_inj, render_concat_toList, join]
  rcases List.eq_nil_or_concat names with rfl | ⟨init, last, rfl⟩
  · rw [if_pos render_nil, String.toList_append, String.toList_ofList, String.toList_ofList]
    rfl
  · rw [List.concat_eq_append] at hnames ⊢
    rw [if_neg (render_concat_ne_root (hnames last (by simp))), String.toList_append,
      String.toList_append,
      String.toList_ofList, String.toList_ofList, render_toList (by simp), List.append_assoc]
    rfl

end Render

/-! ### Canonical paths among their neighbours -/

/-- How deep a path lies beneath the root. -/
def depth (path : String) : Nat := if path = "/" then 0 else path.toList.count '/'

theorem count_written {names : List (List Char)} (h : ∀ name ∈ names, IsName name) :
    (written names).count '/' = names.length := by
  induction names with
  | nil => rfl
  | cons name names ih =>
    rw [List.forall_mem_cons] at h
    rw [written_cons, List.count_cons_self, List.count_append,
      List.count_eq_zero.mpr h.1.slash_not_mem,
      ih h.2, List.length_cons, Nat.zero_add]

theorem depth_render {names : List (List Char)} (h : ∀ name ∈ names, IsName name) :
    depth (render names) = names.length := by
  rcases List.eq_nil_or_concat names with rfl | ⟨init, last, rfl⟩
  · rfl
  · rw [List.concat_eq_append] at h ⊢
    rw [depth, if_neg (render_concat_ne_root (h last (by simp))), render_toList (by simp),
      count_written h]

/-- Every canonical path but the root is the child with its base name of its parent. -/
theorem Canonical.exists_parent {path : String} (h : Canonical path) (hroot : path ≠ "/") :
    ∃ dir, parent path = some dir ∧ Canonical dir ∧ IsName (basename path).toList ∧
      join dir (basename path) = path ∧ depth path = depth dir + 1 := by
  obtain ⟨names, hnames, rfl⟩ := canonical_iff.mp h
  rcases List.eq_nil_or_concat names with rfl | ⟨init, last, rfl⟩
  · exact absurd rfl hroot
  · rw [List.concat_eq_append] at hnames hroot ⊢
    have hlast := hnames last (by simp)
    have hinit : ∀ name ∈ init, IsName name := fun name hmem => hnames name (by simp [hmem])
    refine ⟨render init, parent_render hlast, canonical_render hinit, ?_, ?_, ?_⟩
    · rwa [basename_render hlast, String.toList_ofList]
    · rw [basename_render hlast, join_render hinit]
    · rw [depth_render hnames, depth_render hinit, List.length_append]
      rfl

/-- The child with a name of a canonical path is canonical, and the path is its parent. -/
theorem Canonical.join {dir name : String} (h : Canonical dir) (hname : IsName name.toList) :
    Canonical (join dir name) ∧ join dir name ≠ "/" ∧ parent (join dir name) = some dir ∧
      basename (join dir name) = name := by
  obtain ⟨names, hnames, rfl⟩ := canonical_iff.mp h
  have hall : ∀ n ∈ names ++ [name.toList], IsName n :=
    List.forall_mem_append.mpr ⟨hnames, List.forall_mem_singleton.mpr hname⟩
  rw [← String.ofList_toList (s := name), join_render hnames]
  exact ⟨canonical_render hall, render_concat_ne_root hname, parent_render hname,
    basename_render hname⟩

theorem ne_root_of_parent {path dir : String} (h : parent path = some dir) : path ≠ "/" := by
  rintro rfl
  cases h

theorem eq_of_cutLast {path dir name : List Char} (h : cutLast path = some (dir, name)) :
    path = dir ++ '/' :: name := by
  obtain ⟨⟨name', dir'⟩, hcut, heq⟩ := Option.map_eq_some_iff.mp h
  cases heq
  rw [← List.reverse_inj, Text.eq_of_cutAt hcut]
  simp

/-- A parent is the root or shorter than its path, also of a path that is not canonical. -/
theorem eq_root_or_length_lt {path dir : String} (h : parent path = some dir) :
    dir = "/" ∨ dir.length < path.length := by
  rw [parent, if_neg (ne_root_of_parent h)] at h
  split at h
  · rename_i before name hcut
    rw [Option.some.injEq] at h
    split at h
    · exact .inl h.symm
    · right
      rw [← h, String.length_ofList, ← String.length_toList, eq_of_cutLast hcut, List.length_append,
        List.length_cons]
      omega
  · rw [Option.some.injEq] at h
    exact .inl h.symm

/-- A canonical path is its parent's child with its base name. -/
theorem Canonical.join_basename {path dir : String} (h : Canonical path)
    (hdir : parent path = some dir) :
    Path.join dir (basename path) = path := by
  obtain ⟨dir', hdir', -, -, hjoin, -⟩ := h.exists_parent (ne_root_of_parent hdir)
  rw [hdir, Option.some.injEq] at hdir'
  rw [hdir', hjoin]

theorem Canonical.parent_ne {path dir : String} (h : Canonical path)
    (hdir : parent path = some dir) :
    dir ≠ path := by
  obtain ⟨dir', hdir', -, -, -, hdepth⟩ := h.exists_parent (ne_root_of_parent hdir)
  rw [hdir, Option.some.injEq] at hdir'
  subst hdir'
  rintro rfl
  omega

/-! ### Beneath a path

One path lies beneath another if it goes on behind it with a slash, as texts.  On canonical paths
that is the same as reaching the other by taking parents. -/

/-- Whether a path lies beneath another one: it goes on with a slash behind it. -/
def IsBelow (path below : String) : Prop := path.toList ++ ['/'] <+: below.toList

instance (path below : String) : Decidable (IsBelow path below) :=
  inferInstanceAs (Decidable (_ <+: _))

/-- Up to the last slash. -/
theorem concat_slash_prefix_iff {p w n : List Char} (hn : '/' ∉ n) :
    p ++ ['/'] <+: w ++ '/' :: n ↔ p = w ∨ p ++ ['/'] <+: w := by
  constructor
  · intro h
    by_cases hlength : (p ++ ['/']).length ≤ w.length
    · exact .inr (List.prefix_of_prefix_length_le h (List.prefix_append _ _) hlength)
    · rw [List.length_append, List.length_singleton] at hlength
      have hw : w <+: p := List.prefix_of_prefix_length_le (List.prefix_append _ _)
        ((List.prefix_append _ _).trans h) (by omega)
      obtain ⟨t, rfl⟩ := hw
      rw [List.append_assoc, List.prefix_append_right_inj] at h
      cases t with
      | nil => exact .inl (List.append_nil w)
      | cons c t =>
        rw [List.cons_append, List.cons_prefix_cons] at h
        exact absurd (h.2.subset (by simp)) hn
  · rintro (rfl | h)
    · exact ⟨n, by simp⟩
    · exact h.trans (List.prefix_append _ _)

theorem not_isBelow_self (path : String) : ¬ IsBelow path path := by
  intro h
  have hlength := h.length_le
  rw [List.length_append, List.length_singleton] at hlength
  omega

theorem IsBelow.trans {path middle below : String} (h : IsBelow path middle)
    (h' : IsBelow middle below) :
    IsBelow path below :=
  List.IsPrefix.trans h (List.IsPrefix.trans (List.prefix_append _ _) h')

section

variable {path : String} (hpath : Canonical path)
include hpath

theorem Canonical.toList_ne_nil : path.toList ≠ [] := by
  obtain ⟨names, -, rfl⟩ := canonical_iff.mp hpath
  rw [render, String.toList_ofList]
  exact List.cons_ne_nil _ _

theorem Canonical.not_isBelow_root : ¬ IsBelow path "/" := by
  intro h
  have hlength := h.length_le
  have hpos := List.length_pos_iff.mpr hpath.toList_ne_nil
  rw [List.length_append, String.toList_ofList, List.length_singleton] at hlength
  omega

/-- What lies beneath a path is its child, or lies beneath it with its parent. -/
theorem Canonical.isBelow_iff {below dir : String} (hbelow : Canonical below)
    (hdir : parent below = some dir)
    (hroot : path ≠ "/") : IsBelow path below ↔ path = dir ∨ IsBelow path dir := by
  obtain ⟨names, hnames, rfl⟩ := canonical_iff.mp hbelow
  rcases List.eq_nil_or_concat names with rfl | ⟨init, last, rfl⟩
  · cases hdir
  · rw [List.concat_eq_append] at hnames hdir ⊢
    have hlast := hnames last (by simp)
    rw [parent_render hlast, Option.some.injEq] at hdir
    subst hdir
    rw [IsBelow, render_concat_toList, concat_slash_prefix_iff hlast.slash_not_mem]
    cases init with
    | nil =>
      refine iff_of_false ?_ ?_
      · rintro (hnil | h)
        · exact hpath.toList_ne_nil hnil
        · exact absurd (h.length_le) (by simp)
      · rintro (heq | h)
        · exact hroot heq
        · exact hpath.not_isBelow_root h
    | cons first rest =>
      have heq : path = render (first :: rest) ↔ path.toList = written (first :: rest) := by
        rw [← String.toList_inj, render_toList (List.cons_ne_nil _ _)]
      rw [IsBelow, render_toList (List.cons_ne_nil _ _), heq]

theorem Canonical.isBelow_parent {dir : String} (hdir : parent path = some dir)
    (hroot : dir ≠ "/") :
    IsBelow dir path := by
  obtain ⟨dir', hdir', hcanonical, -⟩ := hpath.exists_parent (ne_root_of_parent hdir)
  rw [hdir, Option.some.injEq] at hdir'
  subst hdir'
  exact (hcanonical.isBelow_iff hpath hdir hroot).mpr (.inl rfl)

/-- A parent does not lie beneath its child. -/
theorem Canonical.not_isBelow_parent {dir : String} (hdir : parent path = some dir) :
    ¬ IsBelow path dir := by
  intro hbelow
  by_cases hroot : dir = "/"
  · exact hpath.not_isBelow_root (hroot ▸ hbelow)
  · exact not_isBelow_self path (hbelow.trans (hpath.isBelow_parent hdir hroot))

end

end MemoryShell.Path
