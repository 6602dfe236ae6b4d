/-
  MemoryShell/Proofs/Command/Redirects.lean
  =========================================
  **What is written through a redirect is read back.**

  The mark of a redirect ends the words of a sub-command, and the word behind it names the file that
  is written.  Writing puts one entry into the tree and one name, at most, into the directory around
  it; the current directory stays, so the same word names the same file in the sub-command behind.
-/
import MemoryShell.Proofs.Command.Lines
import MemoryShell.Proofs.Tree.Commands
import MemoryShell.Proofs.Tree.InPlace

/-! ### A file is written -/

namespace MemoryShell.Tree

open MemoryShell.Path (Canonical)

/-- A tree in which a file was written, and nothing else: a new file is listed last in the directory
    around it, and one that was there keeps its place. -/
structure WithFile (t : Tree) (path content : String) (t' : Tree) : Prop where
  currentDir_eq : t'.currentDir = t.currentDir
  read_eq : t'.read path = .ok content
  list_parent {dir : String} {names : List String} : Path.parent path = some dir →
    t.list dir = .ok names →
    t'.list dir = .ok (if t.exists? path then names else names ++ [Path.basename path])
  entry_rest {q : String} : q ≠ path → Path.parent path ≠ some q → t'.entry? q = t.entry? q

variable {t : Tree} {path dir : String}

/-- A directory lists the base name of a path in it exactly if the path exists. -/
theorem WellFormed.basename_mem_iff (h : t.WellFormed) (hpath : Canonical path)
    (hdir : Path.parent path = some dir) {names : List String}
    (hnames : t.entry? dir = some (.directory names)) :
    Path.basename path ∈ names ↔ t.exists? path := by
  rw [h.mem_children hnames]
  constructor
  · rintro ⟨q, hq, hparent, hname⟩
    have heq : q = path := by
      rw [← (h.canonical hq).join_basename hparent, hname, hpath.join_basename hdir]
    rwa [← heq]
  · exact fun hexists => ⟨path, hexists, hdir, rfl⟩

/-- A file can be written wherever no directory is, in a directory that exists. -/
theorem Consistent.write_withFile (h : t.Consistent) (hpath : Canonical path)
    (hnew : t.isDirectory path = false) (hdir : Path.parent path = some dir)
    (hisdir : t.isDirectory dir) (content : String) :
    ∃ t', t.write path content = .ok t' ∧ t.WithFile path content t' := by
  have hentry := WellFormed.entry_added (e := .file content) hisdir hnew
  have hne := WellFormed.dir_ne_path hisdir hnew
  refine ⟨(t.put path (.file content)).register dir (Path.basename path), ?_, ?_, ?_, ?_, ?_⟩
  · rw [Tree.write, if_neg (by rw [hnew]; exact Bool.false_ne_true), Tree.place, existingParent,
      hdir]
    simp only [hisdir, if_true]
    rfl
  · rw [register_currentDir, put_currentDir]
  · rw [read_eq_ok, hentry, if_pos rfl]
  · intro dir' names hdir' hlist
    obtain rfl := Option.some.inj (hdir.symm.trans hdir')
    have hnames := list_eq_ok.mp hlist
    rw [list_eq_ok, hentry, if_neg hne, if_pos rfl, hnames, Option.map_some, Entry.withChild,
      addName]
    simp only [h.basename_mem_iff hpath hdir hnames]
  · intro q hq hparent
    have hqdir : q ≠ dir := fun heq => hparent (heq ▸ hdir)
    rw [hentry, if_neg hq, if_neg hqdir]

end MemoryShell.Tree

namespace MemoryShell.Command

/-! ### Sub-commands with a redirect -/

section Redirect

variable {name target : String} {words : List String}

theorem redirectTarget_word (h : IsWord target) :
    redirectTarget (' ' :: target.toList) = some target := by
  have hrest : (' ' :: target.toList).takeWhile (fun c => decide (c ≠ '>')) =
      ' ' :: target.toList := by
    rw [List.takeWhile_eq_self_iff]
    intro c hc
    have hne : c ≠ '>' := by
      rcases List.mem_cons.mp hc with rfl | hmem
      · decide
      · exact fun heq => h.redirect_not_mem (heq ▸ hmem)
    exact decide_eq_true hne
  have htrim : Text.trimChars (' ' :: target.toList) = target.toList := by
    have hsolid := Text.trimChars_intercalate (List.forall_mem_singleton.mpr h.isSolid)
    rw [List.intercalate_singleton] at hsolid
    rw [Text.trimChars, Text.trimStartChars_blank rfl, ← Text.trimChars, hsolid]
  rw [redirectTarget, hrest, htrim, if_neg (by simpa using h.isSolid.1), String.ofList_toList]

theorem ofText_redirect (h : ∀ word ∈ name :: words, IsWord word) (htarget : IsWord target) :
    Words.ofText (" ".intercalate (name :: words) ++ " > " ++ target) =
      ⟨name, words, some target⟩ := by
  have htext : (" ".intercalate (name :: words) ++ " > " ++ target).toList =
      ((" ".intercalate (name :: words)).toList ++ [' ']) ++ '>' :: ' ' :: target.toList := by
    simp
  have hredirect : '>' ∉ (" ".intercalate (name :: words)).toList ++ [' '] := by
    rw [List.mem_append, not_or]
    exact ⟨redirect_not_mem_words h, by decide⟩
  have hwords : (Text.wordsFrom [] ((" ".intercalate (name :: words)).toList ++ [' '])).map
      String.ofList = name :: words := by
    have hnone : Text.wordsFrom [] [] = [] := rfl
    rw [toList_words, Text.wordsFrom_intercalate_blank (isSolid_of_mem_map h) (by simp), hnone,
      List.append_nil, map_ofList_toList]
  rw [Words.ofText, htext, Text.cutAt_append hredirect]
  simp only [hwords, redirectTarget_word htarget]

/-- A line with a redirect is one sub-command as it stands. -/
theorem splitLine_redirect (h : ∀ word ∈ words, IsWord word) (hne : words ≠ [])
    (htarget : IsWord target) :
    splitLine (" ".intercalate words ++ " > " ++ target) =
      [" ".intercalate words ++ " > " ++ target] := by
  have htexts : " ".intercalate words ++ " > " ++ target =
      " ".intercalate (words ++ [">", target]) := by
    rw [String.intercalate_append_of_ne_nil hne (List.cons_ne_nil _ _),
      String.intercalate_cons_cons, String.intercalate_singleton, ← String.toList_inj]
    simp
  rw [htexts]
  refine splitLine_solid ?_ ?_ (by simp)
  · rw [List.forall_mem_append, List.forall_mem_cons]
    exact ⟨fun word hword => (h word hword).isSolid, by decide +kernel,
      List.forall_mem_singleton.mpr htarget.isSolid⟩
  · rw [List.forall_mem_append, List.forall_mem_cons]
    exact ⟨fun word hword => (h word hword).semicolon_not_mem, by decide +kernel,
      List.forall_mem_singleton.mpr htarget.semicolon_not_mem⟩

end Redirect

/-! ### Written and read back -/

section Cat

variable {limits : Script.Limits} {t t' : Tree} {name target dir : String} {words : List String}

theorem intercalate_cat (words : List String) (hne : words ≠ []) :
    " ".intercalate (Builtin.cat.name :: words) = "cat " ++ " ".intercalate words := by
  rw [String.intercalate_cons_of_ne_nil hne]
  rfl

/-- A line that writes with a redirect. -/
theorem executeLine_cat_redirect (h : ∀ word ∈ name :: words, IsWord word)
    (htarget : IsWord target)
    (hwrite : t.write (t.resolve target) (" ".intercalate words) = .ok t') :
    executeLine limits ("cat " ++ " ".intercalate (name :: words) ++ " > " ++ target) t =
      ([⟨"cat " ++ " ".intercalate (name :: words) ++ " > " ++ target, .silent⟩], t') := by
  have hwords : ∀ word ∈ Builtin.cat.name :: name :: words, IsWord word :=
    List.forall_mem_cons.mpr ⟨isWord_name .cat, h⟩
  rw [← intercalate_cat _ (List.cons_ne_nil _ _),
    executeLine_of_splitLine (splitLine_redirect hwords (List.cons_ne_nil _ _) htarget), execute,
    ofText_redirect hwords htarget]
  simp only [ofName_name, runBuiltin, cat, hwrite, Effect.ofChange]

theorem executeLine_cat (htarget : IsWord target) {content : String}
    (hread : t.read (t.resolve target) = .ok content) :
    executeLine limits ("cat " ++ target) t = ([⟨"cat " ++ target, .success content⟩], t) := by
  have hline : "cat " ++ target = " ".intercalate [Builtin.cat.name, target] := by
    rw [intercalate_cat _ (List.cons_ne_nil _ _), String.intercalate_singleton]
  rw [hline, executeLine_builtin .cat (List.forall_mem_singleton.mpr htarget)]
  simp only [runBuiltin, cat, hread]

/-- **What is written through a redirect is read back.**  Let a word name a path that is no
    directory in a directory that exists.  To write other words to it and then to show it succeeds
    and shows these words with spaces between them; and in the tree that is left, the file was
    written and nothing else changed. -/
theorem cat_redirect_read_back (limits : Script.Limits) (h : t.Consistent)
    (hwords : ∀ word ∈ name :: words, IsWord word) (htarget : IsWord target)
    (hnew : t.isDirectory (t.resolve target) = false)
    (hdir : Path.parent (t.resolve target) = some dir) (hisdir : t.isDirectory dir) :
    ∃ t', executeLine limits
        ("cat " ++ " ".intercalate (name :: words) ++ " > " ++ target ++ "; cat " ++ target) t =
      ([⟨"cat " ++ " ".intercalate (name :: words) ++ " > " ++ target, .silent⟩,
        ⟨"cat " ++ target, .success (" ".intercalate words)⟩], t') ∧
      t.WithFile (t.resolve target) (" ".intercalate words) t' := by
  obtain ⟨t', hwrite, hwith⟩ := h.write_withFile (h.resolve_canonical target) hnew hdir hisdir
    (" ".intercalate words)
  -- The current directory stays, so the word names the same path behind the semicolon.
  have hread : t'.read (t'.resolve target) = .ok (" ".intercalate words) := by
    rw [Tree.resolve, hwith.currentDir_eq]
    exact hwith.read_eq
  have hsemicolon : ';' ∉ ("cat " ++ target).toList := by simpa using htarget.semicolon_not_mem
  have hline : "cat " ++ " ".intercalate (name :: words) ++ " > " ++ target ++ "; cat " ++ target =
      ("cat " ++ " ".intercalate (name :: words) ++ " > " ++ target) ++ ";" ++
        (" " ++ ("cat " ++ target)) := by
    rw [← String.toList_inj]
    simp
  refine ⟨t', ?_, hwith⟩
  rw [hline, executeLine_append, executeLine_cat_redirect hwords htarget hwrite]
  dsimp only
  rw [executeLine_space hsemicolon, executeLine_cat htarget hread, List.singleton_append]

end Cat

/-- A new file beside another, named from a directory deep inside and by way of others that are
    left again. -/
theorem cat_redirect_read_back_beside :
    let target := "../../../a/./../ab/z"
    Tree.siblings.Consistent ∧ (∀ word ∈ ["draft", "one", "two"], IsWord word) ∧ IsWord target ∧
      Tree.siblings.isDirectory (Tree.siblings.resolve target) = false ∧
      Path.parent (Tree.siblings.resolve target) = some "/ab" ∧ Tree.siblings.isDirectory "/ab" ∧
      ∃ t', executeLine {} "cat draft one two > ../../../a/./../ab/z; cat ../../../a/./../ab/z"
          Tree.siblings =
        ([⟨"cat draft one two > ../../../a/./../ab/z", .silent⟩,
          ⟨"cat ../../../a/./../ab/z", .success "one two"⟩], t') ∧
        t'.list "/ab" = .ok ["y", "z"] ∧ t'.read "/ab/y" = .ok "two" := by
  intro target
  have hresolve : Tree.siblings.resolve target = "/ab/z" := by decide +kernel
  have hwords : ∀ word ∈ ["draft", "one", "two"], IsWord word := by
    intro word hword
    simp only [List.mem_cons, List.not_mem_nil, or_false] at hword
    rcases hword with rfl | rfl | rfl <;>
      exact ⟨by decide +kernel, by decide +kernel, by decide +kernel⟩
  have htarget : IsWord target := ⟨by decide +kernel, by decide +kernel, by decide +kernel⟩
  have hnew : Tree.siblings.isDirectory (Tree.siblings.resolve target) = false := by
    decide +kernel
  have hdir : Path.parent (Tree.siblings.resolve target) = some "/ab" := by decide +kernel
  have hisdir : Tree.siblings.isDirectory "/ab" := by decide +kernel
  obtain ⟨t', hline, hwith⟩ := cat_redirect_read_back {} Tree.siblings_consistent hwords htarget
    hnew hdir hisdir
  have hwritten : "cat " ++ " ".intercalate ["draft", "one", "two"] ++ " > " ++ target =
      "cat draft one two > ../../../a/./../ab/z" := by decide +kernel
  have hshown : "cat " ++ target = "cat ../../../a/./../ab/z" := by decide +kernel
  have hcontent : " ".intercalate ["one", "two"] = "one two" := by decide +kernel
  have hboth : "cat draft one two > ../../../a/./../ab/z" ++ "; cat " ++ target =
      "cat draft one two > ../../../a/./../ab/z; cat ../../../a/./../ab/z" := by decide +kernel
  rw [hwritten, hshown, hcontent, hboth] at hline
  rw [hresolve] at hwith
  refine ⟨Tree.siblings_consistent, hwords, htarget, hnew, hdir, hisdir, t', hline, ?_, ?_⟩
  · have hnames : Tree.siblings.list "/ab" = .ok ["y"] := by rfl
    rw [hwith.list_parent (by decide +kernel) hnames]
    rfl
  · rw [Tree.read_eq_ok, hwith.entry_rest (by decide) (by decide +kernel), ← Tree.read_eq_ok]
    rfl

end MemoryShell.Command
