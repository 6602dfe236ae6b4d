/-
  MemoryShell/Proofs/Tree/Log.lean
  ================================
  **A tree is what its log says.**

  The log of a tree holds what it was asked to do, in order, and whether it was done.  What a path
  holds can be read off the log alone: the content that was last given to it, unless it was removed
  since then; and the names in a directory stand in the order in which what they name was created.
  Nothing else is in a tree, so nothing else has to be known to answer for it.
-/
import MemoryShell.Proofs.Tree.Removal

namespace MemoryShell.Tree

open MemoryShell.Path (Canonical IsBelow)

/-! ### Changes -/

/-- What a tree can be asked to do. -/
inductive Change where
  | write (path content : String)
  | touch (path : String)
  | makeDirectory (path : String)
  | removeFile (path : String) (force : Bool)
  | removeDirectory (path : String) (force : Bool)
  | changeDirectory (path : String)
deriving DecidableEq, Repr

def Change.path : Change → String
  | .write path _ | .touch path | .makeDirectory path | .removeFile path _
  | .removeDirectory path _ | .changeDirectory path => path

def apply (t : Tree) : Change → Except Error Tree
  | .write path content => t.write path content
  | .touch path => t.touch path
  | .makeDirectory path => t.makeDirectory path
  | .removeFile path force => t.removeFile path force
  | .removeDirectory path force => t.removeDirectory path force
  | .changeDirectory path => t.changeDirectory path

/-- A change, and whether it succeeded. -/
structure Logged where
  change : Change
  done : Bool
deriving DecidableEq, Repr

/-- A tree and its log, oldest change first. -/
structure Recorded where
  tree : Tree
  log : List Logged

/-- Try a change and note it; one that fails leaves the tree as it was. -/
def Recorded.step (r : Recorded) (c : Change) : Recorded :=
  match r.tree.apply c with
  | .ok t => ⟨t, r.log ++ [⟨c, true⟩]⟩
  | .error _ => ⟨r.tree, r.log ++ [⟨c, false⟩]⟩

def Recorded.after (r : Recorded) (changes : List Change) : Recorded := changes.foldl step r

/-! ### Moments of a log -/

section Moments

variable {log : List Logged} {e : Logged} {P Q : Logged → List Logged → Prop} {i : Nat}

/-- What happens at a moment, seen together with all that came before. -/
def At (log : List Logged) (P : Logged → List Logged → Prop) (i : Nat) : Prop :=
  ∃ e, log[i]? = some e ∧ P e (log.take i)

/-- One thing happens at a moment, and another one at no later moment. -/
def Since (log : List Logged) (P Q : Logged → List Logged → Prop) (i : Nat) : Prop :=
  At log P i ∧ ∀ j, i < j → ¬ At log Q j

theorem At.lt (h : At log P i) : i < log.length := by
  obtain ⟨e, he, -⟩ := h
  exact (List.getElem?_eq_some_iff.mp he).1

theorem not_since_nil : ¬ Since [] P Q i := fun h => Nat.not_lt_zero i h.1.lt

/-- A log that goes on has its old moments and one more. -/
theorem at_concat : At (log ++ [e]) P i ↔ At log P i ∨ i = log.length ∧ P e log := by
  rcases Nat.lt_trichotomy i log.length with hlt | rfl | hgt
  · have hold : At (log ++ [e]) P i ↔ At log P i := by
      rw [At, At, List.getElem?_append_left hlt, List.take_append_of_le_length (Nat.le_of_lt hlt)]
    rw [hold]
    exact ⟨.inl, fun h => h.resolve_right fun hnew => Nat.ne_of_lt hlt hnew.1⟩
  · have hnew : At (log ++ [e]) P log.length ↔ P e log := by
      rw [At, List.getElem?_concat_length, List.take_left]
      simp
    rw [hnew]
    exact ⟨fun h => .inr ⟨rfl, h⟩, fun h => (h.resolve_left fun hold => Nat.lt_irrefl _ hold.lt).2⟩
  · refine iff_of_false (fun h => ?_) ?_
    · have hlt := h.lt
      rw [List.length_append, List.length_singleton] at hlt
      omega
    · rintro (h | ⟨rfl, -⟩)
      · exact absurd h.lt (by omega)
      · exact absurd hgt (Nat.lt_irrefl _)

theorem since_concat :
    Since (log ++ [e]) P Q i ↔ Since log P Q i ∧ ¬ Q e log ∨ i = log.length ∧ P e log := by
  constructor
  · rintro ⟨hat, hlater⟩
    rcases at_concat.mp hat with hold | hnew
    · refine .inl ⟨⟨hold, fun j hj hq => hlater j hj (at_concat.mpr (.inl hq))⟩, fun hq => ?_⟩
      exact hlater log.length hold.lt (at_concat.mpr (.inr ⟨rfl, hq⟩))
    · exact .inr hnew
  · rintro (⟨⟨hat, hlater⟩, hq⟩ | ⟨rfl, hp⟩)
    · refine ⟨at_concat.mpr (.inl hat), fun j hj hqj => ?_⟩
      rcases at_concat.mp hqj with hold | ⟨-, hnew⟩
      · exact hlater j hj hold
      · exact hq hnew
    · refine ⟨at_concat.mpr (.inr ⟨rfl, hp⟩), fun j hj hqj => ?_⟩
      have hlt := hqj.lt
      rw [List.length_append, List.length_singleton] at hlt
      omega

theorem exists_since_concat :
    (∃ i, Since (log ++ [e]) P Q i) ↔ (∃ i, Since log P Q i) ∧ ¬ Q e log ∨ P e log := by
  simp only [since_concat]
  constructor
  · rintro ⟨i, ⟨hsince, hq⟩ | ⟨-, hp⟩⟩
    · exact .inl ⟨⟨i, hsince⟩, hq⟩
    · exact .inr hp
  · rintro (⟨⟨i, hsince⟩, hq⟩ | hp)
    · exact ⟨i, .inl ⟨hsince, hq⟩⟩
    · exact ⟨log.length, .inr ⟨rfl, hp⟩⟩

end Moments

/-! ### What a log says about a path -/

/-- Something stands at a path after the change: it was there, or it is there now. -/
def Logged.Places (e : Logged) (path : String) : Prop :=
  e.done ∧ (e.change = .touch path ∨ e.change = .makeDirectory path ∨
    ∃ content, e.change = .write path content)

/-- The path went, alone or with a directory around it. -/
def Logged.Removes (e : Logged) (path : String) : Prop :=
  e.done ∧ ((∃ force, e.change = .removeFile path force) ∨
    ∃ dir, (∃ force, e.change = .removeDirectory dir force) ∧ (path = dir ∨ IsBelow dir path))

/-- Something was put at the path, and it was not removed since then.  The root is always there. -/
def Survives (log : List Logged) (path : String) : Prop :=
  path = "/" ∨ ∃ i, Since log (fun e _ => e.Places path) (fun e _ => e.Removes path) i

/-- Something comes to stand at a path at which nothing stood. -/
def Creates (path : String) (e : Logged) (before : List Logged) : Prop :=
  e.Places path ∧ ¬ Survives before path

/-- A file is given a content: it is written, or it is created empty. -/
def Gives (path content : String) (e : Logged) (before : List Logged) : Prop :=
  e.done ∧ (e.change = .write path content ∨
    e.change = .touch path ∧ ¬ Survives before path ∧ content = "")

/-- The content that a path was last given, if it was not removed since then. -/
def HoldsContent (log : List Logged) (path content : String) : Prop :=
  ∃ i, Since log (Gives path content)
    (fun e before => (∃ content', Gives path content' e before) ∨ e.Removes path) i

/-- A directory was made at the path, and it was not removed since then. -/
def HoldsDirectory (log : List Logged) (path : String) : Prop :=
  path = "/" ∨ ∃ i, Since log (fun e _ => e.done ∧ e.change = .makeDirectory path)
    (fun e _ => e.Removes path) i

/-- The moment at which what stands at a path was created, if it was not removed since then. -/
def CreatedAt (log : List Logged) (path : String) (i : Nat) : Prop :=
  Since log (Creates path) (fun e before => Creates path e before ∨ e.Removes path) i

/-- Of two names in a directory, what the first one names was created earlier. -/
def CreatedBefore (log : List Logged) (dir name name' : String) : Prop :=
  ∃ i j, CreatedAt log (Path.join dir name) i ∧ CreatedAt log (Path.join dir name') j ∧ i < j

/-- A tree answers as its log says. -/
structure Recorded.Explained (r : Recorded) : Prop where
  read (path content : String) :
    r.tree.read path = .ok content ↔ HoldsContent r.log path content
  lists (dir : String) : (∃ names, r.tree.list dir = .ok names) ↔ HoldsDirectory r.log dir
  nodup {dir : String} {names : List String} : r.tree.list dir = .ok names → names.Nodup
  /-- The names in a directory are those of what lies in it and survives. -/
  mem_list {dir : String} {names : List String} : r.tree.list dir = .ok names → ∀ name,
    name ∈ names ↔ ∃ path, Path.parent path = some dir ∧ Path.basename path = name ∧
      Survives r.log path
  order {dir : String} {names : List String} :
    r.tree.list dir = .ok names → names.Pairwise (CreatedBefore r.log dir)

/-! ### One more change -/

section Concat

variable {log : List Logged} {e : Logged} {path content : String} {i : Nat}

theorem survives_concat : Survives (log ++ [e]) path ↔
    path = "/" ∨ Survives log path ∧ ¬ e.Removes path ∨ e.Places path := by
  rw [Survives, Survives, exists_since_concat]
  by_cases hroot : path = "/" <;> simp [hroot]

theorem holdsContent_concat : HoldsContent (log ++ [e]) path content ↔
    HoldsContent log path content ∧ ¬ ((∃ content', Gives path content' e log) ∨ e.Removes path) ∨
      Gives path content e log :=
  exists_since_concat

theorem holdsDirectory_concat : HoldsDirectory (log ++ [e]) path ↔
    path = "/" ∨ HoldsDirectory log path ∧ ¬ e.Removes path ∨
      e.done ∧ e.change = .makeDirectory path := by
  rw [HoldsDirectory, HoldsDirectory, exists_since_concat]
  by_cases hroot : path = "/" <;> simp [hroot]

theorem CreatedAt.concat (h : CreatedAt log path i) (hsurvives : Survives log path)
    (hkept : ¬ e.Removes path) : CreatedAt (log ++ [e]) path i :=
  since_concat.mpr (.inl ⟨h, not_or.mpr ⟨fun hcreates => hcreates.2 hsurvives, hkept⟩⟩)

theorem createdAt_length (h : Creates path e log) : CreatedAt (log ++ [e]) path log.length :=
  since_concat.mpr (.inr ⟨rfl, h⟩)

theorem CreatedAt.lt (h : CreatedAt log path i) : i < log.length := At.lt h.1

end Concat

/-! ### A tree and its log

`Faithful` is the invariant.  A change can do three things to a tree: nothing that anyone could read
or list, put a leaf at one path, or prune one path with all beneath it; there is one lemma for each
of these, and it does not ask which change it was. -/

/-- A tree and its log tell the same. -/
structure Recorded.Faithful (r : Recorded) : Prop where
  consistent : r.tree.Consistent
  survives (path : String) : r.tree.exists? path ↔ Survives r.log path
  content (path content : String) :
    r.tree.entry? path = some (.file content) ↔ HoldsContent r.log path content
  directory (path : String) : r.tree.isDirectory path ↔ HoldsDirectory r.log path
  created {path : String} : r.tree.exists? path → path ≠ "/" → ∃ i, CreatedAt r.log path i
  order {dir : String} {children : List String} :
    r.tree.entry? dir = some (.directory children) → children.Pairwise (CreatedBefore r.log dir)

namespace Recorded.Faithful

variable {r : Recorded} {t : Tree} {e : Logged} {path dir : String}

theorem exists?_of_content {path content : String} (h : r.Faithful)
    (hcontent : HoldsContent r.log path content) : r.tree.exists? path :=
  exists?_iff.mpr ⟨_, (h.content path content).mpr hcontent⟩

theorem exists?_of_directory {path : String} (h : r.Faithful)
    (hdirectory : HoldsDirectory r.log path) : r.tree.exists? path :=
  exists?_of_isDirectory ((h.directory path).mpr hdirectory)

/-- Names whose paths are still there keep their order. -/
theorem createdBefore_concat (h : r.Faithful) {name name' : String}
    (hbefore : CreatedBefore r.log dir name name')
    (hname : r.tree.exists? (Path.join dir name) ∧ ¬ e.Removes (Path.join dir name))
    (hname' : r.tree.exists? (Path.join dir name') ∧ ¬ e.Removes (Path.join dir name')) :
    CreatedBefore (r.log ++ [e]) dir name name' := by
  obtain ⟨i, j, hi, hj, hlt⟩ := hbefore
  exact ⟨i, j, hi.concat ((h.survives _).mp hname.1) hname.2,
    hj.concat ((h.survives _).mp hname'.1) hname'.2, hlt⟩

theorem pairwise_concat (h : r.Faithful) {children : List String}
    (hchildren : children.Pairwise (CreatedBefore r.log dir))
    (hkept : ∀ name ∈ children,
      r.tree.exists? (Path.join dir name) ∧ ¬ e.Removes (Path.join dir name)) :
    children.Pairwise (CreatedBefore (r.log ++ [e]) dir) := by
  refine hchildren.imp_of_mem ?_
  intro name name' hmem hmem' hbefore
  exact h.createdBefore_concat hbefore (hkept name hmem) (hkept name' hmem')

/-! #### Nothing to see -/

/-- A change that alters no entry is faithful if the log takes it for one: it gives nothing, makes
    no directory, puts something only where something is, and removes only what is not there. -/
theorem unchanged (h : r.Faithful) (ht : t.Consistent) (hentry : ∀ q, t.entry? q = r.tree.entry? q)
    (hplaces : ∀ q, e.Places q → r.tree.exists? q)
    (hremoves : ∀ q, e.Removes q → ¬ r.tree.exists? q)
    (hgives : ∀ q c, ¬ Gives q c e r.log)
    (hmakes : ∀ q, ¬ (e.done ∧ e.change = .makeDirectory q)) :
    Recorded.Faithful ⟨t, r.log ++ [e]⟩ := by
  have hexists (q : String) : t.exists? q = r.tree.exists? q := by rw [exists?, exists?, hentry]
  have hisdir (q : String) : t.isDirectory q = r.tree.isDirectory q := by
    rw [isDirectory, isDirectory, kind?, kind?, hentry]
  have hkept {q : String} (hq : r.tree.exists? q) : ¬ e.Removes q := fun hr => hremoves q hr hq
  refine ⟨ht, fun q => ?_, fun q c => ?_, fun q => ?_, fun {q} hq hroot => ?_, ?_⟩
  · rw [survives_concat, hexists]
    constructor
    · exact fun hq => .inr (.inl ⟨(h.survives q).mp hq, hkept hq⟩)
    · rintro (rfl | ⟨hq, -⟩ | hq)
      · exact exists?_of_isDirectory h.consistent.root
      · exact (h.survives q).mpr hq
      · exact hplaces q hq
  · rw [holdsContent_concat, hentry, h.content]
    constructor
    · intro hc
      have hsilent : ¬ ∃ c', Gives q c' e r.log := not_exists.mpr (hgives q)
      exact .inl ⟨hc, not_or.mpr ⟨hsilent, hkept (h.exists?_of_content hc)⟩⟩
    · rintro (⟨hc, -⟩ | hc)
      · exact hc
      · exact absurd hc (hgives q c)
  · rw [holdsDirectory_concat, hisdir, h.directory]
    constructor
    · exact fun hq => .inr (.inl ⟨hq, hkept (h.exists?_of_directory hq)⟩)
    · rintro (rfl | ⟨hq, -⟩ | hq)
      · exact .inl rfl
      · exact hq
      · exact absurd hq (hmakes q)
  · rw [hexists] at hq
    obtain ⟨i, hi⟩ := h.created hq hroot
    exact ⟨i, hi.concat ((h.survives q).mp hq) (hkept hq)⟩
  · intro d children hd
    rw [hentry] at hd
    refine h.pairwise_concat (h.order hd) fun name hname => ?_
    have hexists := (h.consistent.exists?_join hd hname).1
    exact ⟨hexists, hkept hexists⟩

/-! #### A leaf comes -/

/-- What the log has to say of a change that puts a leaf at a path. -/
structure PutsLeaf (e : Logged) (log : List Logged) (path : String) (x : Entry) : Prop where
  places (q : String) : e.Places q ↔ q = path
  removes (q : String) : ¬ e.Removes q
  gives (q c : String) : Gives q c e log ↔ q = path ∧ x = .file c
  makes (q : String) :
    e.done ∧ e.change = .makeDirectory q ↔ q = path ∧ x = .directory []

theorem added (h : r.Faithful) {x : Entry} (hputs : PutsLeaf e r.log path x)
    (ht : ((r.tree.put path x).register dir (Path.basename path)).Consistent)
    (hpath : Canonical path) (hdir : Path.parent path = some dir)
    (hisdir : r.tree.isDirectory dir) (hnew : r.tree.isDirectory path = false)
    (hleaf : x = .directory [] ∧ ¬ r.tree.exists? path ∨ ∃ c, x = .file c) :
    Recorded.Faithful
      ⟨(r.tree.put path x).register dir (Path.basename path), r.log ++ [e]⟩ := by
  have hroot : path ≠ "/" := Path.ne_root_of_parent hdir
  have hentry := WellFormed.entry_added (e := x) hisdir hnew
  obtain ⟨siblings, hsiblings⟩ := isDirectory_iff.mp hisdir
  refine ⟨ht, fun q => ?_, fun q c => ?_, fun q => ?_, fun {q} hq hqroot => ?_, ?_⟩
  · rw [survives_concat, WellFormed.exists?_added hisdir hnew, hputs.places, h.survives]
    constructor
    · rintro (hq | hq)
      · exact .inr (.inr hq)
      · exact .inr (.inl ⟨hq, hputs.removes q⟩)
    · rintro (rfl | ⟨hq, -⟩ | hq)
      · exact .inr (.inl rfl)
      · exact .inr hq
      · exact .inl hq
  · simp only [holdsContent_concat, hputs.gives, hputs.removes, or_false]
    rw [hentry, ← h.content]
    by_cases hq : q = path
    · subst hq
      rcases hleaf with ⟨rfl, hnone⟩ | ⟨c', rfl⟩
      · have hne : r.tree.entry? q ≠ some (.file c) := fun hc => hnone (exists?_iff.mpr ⟨_, hc⟩)
        simp [hne]
      · simp
    · by_cases hqdir : q = dir
      · subst hqdir
        simp [hq, hsiblings, Entry.withChild]
      · simp [hq, hqdir]
  · rw [holdsDirectory_concat, hputs.makes, ← h.directory]
    constructor
    · intro hq
      by_cases hqpath : q = path
      · obtain ⟨names, hnames⟩ := isDirectory_iff.mp hq
        rw [hentry, if_pos hqpath, Option.some.injEq] at hnames
        rcases hleaf with ⟨hx, -⟩ | ⟨c, rfl⟩
        · exact .inr (.inr ⟨hqpath, hx⟩)
        · cases hnames
      · refine .inr (.inl ⟨?_, hputs.removes q⟩)
        obtain ⟨names, hnames⟩ := isDirectory_iff.mp hq
        rw [hentry, if_neg hqpath] at hnames
        by_cases hqdir : q = dir
        · exact hqdir ▸ hisdir
        · rw [if_neg hqdir] at hnames
          exact isDirectory_iff.mpr ⟨names, hnames⟩
    · rintro (rfl | ⟨hq, -⟩ | ⟨rfl, rfl⟩)
      · exact ht.root
      · exact WellFormed.isDirectory_added hisdir hnew hq
      · exact isDirectory_iff.mpr ⟨[], by rw [hentry, if_pos rfl]⟩
  · -- What stands at the path may have been there before, as a file that was overwritten.
    by_cases hold : r.tree.exists? q
    · obtain ⟨i, hi⟩ := h.created hold hqroot
      exact ⟨i, hi.concat ((h.survives q).mp hold) (hputs.removes q)⟩
    · have hqpath := ((WellFormed.exists?_added hisdir hnew q).mp hq).resolve_right hold
      exact ⟨_, createdAt_length ⟨(hputs.places q).mpr hqpath, mt (h.survives q).mpr hold⟩⟩
  · intro d names hd
    rw [hentry] at hd
    have hkept {d : String} {names : List String}
        (hd : r.tree.entry? d = some (.directory names)) :
        names.Pairwise (CreatedBefore (r.log ++ [e]) d) :=
      h.pairwise_concat (h.order hd) fun name hname =>
        ⟨(h.consistent.exists?_join hd hname).1, hputs.removes _⟩
    split at hd
    · rcases hleaf with ⟨rfl, -⟩ | ⟨c, rfl⟩
      · cases hd
        exact .nil
      · cases hd
    · split at hd
      · rename_i hddir
        subst hddir
        rw [hsiblings] at hd
        cases hd
        unfold addName
        split
        · exact hkept hsiblings
        · rename_i hfresh
          -- The new name goes to the end, and what it names is created now.
          have hjoin := hpath.join_basename hdir
          have hnone : ¬ r.tree.exists? path := fun hexists =>
            hfresh ((h.consistent.mem_children hsiblings _).mpr ⟨path, hexists, hdir, rfl⟩)
          have hcreates : Creates path e r.log :=
            ⟨(hputs.places path).mpr rfl, mt (h.survives path).mpr hnone⟩
          rw [List.pairwise_append]
          refine ⟨hkept hsiblings, List.pairwise_singleton _ _, fun name hname last hlast => ?_⟩
          rw [List.mem_singleton.mp hlast]
          obtain ⟨hexists, hparent, -⟩ := h.consistent.exists?_join hsiblings hname
          obtain ⟨i, hi⟩ := h.created hexists (Path.ne_root_of_parent hparent)
          refine ⟨i, r.log.length, hi.concat ((h.survives _).mp hexists) (hputs.removes _), ?_,
            hi.lt⟩
          rw [hjoin]
          exact createdAt_length hcreates
      · exact hkept hd

/-! #### A path goes -/

/-- What the log has to say of a change that prunes a path.  It may speak of removing what is not
    there as it likes. -/
structure Prunes (e : Logged) (r : Recorded) (path : String) : Prop where
  places (q : String) : ¬ e.Places q
  removes {q : String} : r.tree.exists? q → (e.Removes q ↔ q = path ∨ IsBelow path q)
  gives (q c : String) : ¬ Gives q c e r.log
  makes (q : String) : ¬ (e.done ∧ e.change = .makeDirectory q)

/-- What is still there after a pruning was there before and was not removed; it is the same, but for
    the name that a directory may have lost. -/
theorem entry_of_pruned (hprunes : Prunes e r path) (hpruned : IsPruned r.tree path dir t)
    (q : String) :
    (¬ r.tree.exists? q ∨ e.Removes q) ∧ t.entry? q = none ∨
      ¬ e.Removes q ∧ (t.entry? q = r.tree.entry? q ∨
        t.entry? q = (r.tree.entry? q).map (Entry.withoutChild (Path.basename path))) := by
  have hentry := hpruned.entry q
  by_cases hq : r.tree.exists? q
  · by_cases hremoved : e.Removes q
    · rw [if_pos ((hprunes.removes hq).mp hremoved)] at hentry
      exact .inl ⟨.inr hremoved, hentry⟩
    · rw [if_neg (mt (hprunes.removes hq).mpr hremoved)] at hentry
      split at hentry
      · exact .inr ⟨hremoved, .inr hentry⟩
      · exact .inr ⟨hremoved, .inl hentry⟩
  · have hnone := entry_eq_none hq
    rw [hnone] at hentry
    exact .inl ⟨.inl hq, by rw [hentry]; simp⟩

/-- So a question about a path has its old answer, unless the path was removed, if it does not ask
    for the children of a directory. -/
theorem pruned_iff (hprunes : Prunes e r path) (hpruned : IsPruned r.tree path dir t)
    {K : Option Entry → Prop} (hnone : ¬ K none)
    (hwithout : ∀ x name, K (some (Entry.withoutChild name x)) ↔ K (some x)) (q : String) :
    K (t.entry? q) ↔ K (r.tree.entry? q) ∧ ¬ e.Removes q := by
  rcases entry_of_pruned hprunes hpruned q with ⟨hgone, heq⟩ | ⟨hkept, heq⟩
  · rw [heq]
    refine iff_of_false hnone ?_
    rintro ⟨hold, hkept⟩
    have hnew := hgone.resolve_right hkept
    rw [entry_eq_none hnew] at hold
    exact hnone hold
  · rw [and_iff_left hkept]
    rcases heq with heq | heq
    · rw [heq]
    · rw [heq]
      cases r.tree.entry? q with
      | none => rfl
      | some x => exact hwithout x _

theorem pruned (h : r.Faithful) (hprunes : Prunes e r path) (ht : t.Consistent)
    (hpruned : IsPruned r.tree path dir t) :
    Recorded.Faithful ⟨t, r.log ++ [e]⟩ := by
  have hexists : ∀ q, t.exists? q ↔ r.tree.exists? q ∧ ¬ e.Removes q :=
    pruned_iff (K := fun x => x.isSome) hprunes hpruned Bool.false_ne_true
      fun x name => Iff.rfl
  have hfile (c : String) : ∀ q, t.entry? q = some (.file c) ↔
      r.tree.entry? q = some (.file c) ∧ ¬ e.Removes q :=
    pruned_iff (K := fun x => x = some (.file c)) hprunes hpruned (Option.some_ne_none _).symm
      fun x name => by cases x <;> simp [Entry.withoutChild]
  have hisdir : ∀ q, t.isDirectory q ↔ r.tree.isDirectory q ∧ ¬ e.Removes q :=
    pruned_iff (K := fun x => x.map Entry.kind == some .directory) hprunes hpruned
      Bool.false_ne_true fun x name => by cases x <;> rfl
  refine ⟨ht, fun q => ?_, fun q c => ?_, fun q => ?_, fun {q} hq hqroot => ?_, ?_⟩
  · rw [survives_concat, hexists, h.survives]
    constructor
    · exact fun hq => .inr (.inl hq)
    · rintro (rfl | hq | hq)
      · exact ⟨.inl rfl, ((hexists "/").mp (exists?_of_isDirectory ht.root)).2⟩
      · exact hq
      · exact absurd hq (hprunes.places q)
  · simp only [holdsContent_concat, hprunes.gives, exists_false, false_or, or_false]
    rw [hfile, h.content]
  · rw [holdsDirectory_concat, hisdir, h.directory]
    constructor
    · exact fun hq => .inr (.inl hq)
    · rintro (rfl | hq | hq)
      · exact ⟨.inl rfl, ((hisdir "/").mp ht.root).2⟩
      · exact hq
      · exact absurd hq (hprunes.makes q)
  · obtain ⟨hold, hkept⟩ := (hexists q).mp hq
    obtain ⟨i, hi⟩ := h.created hold hqroot
    exact ⟨i, hi.concat ((h.survives q).mp hold) hkept⟩
  · intro d names hd
    have hkept : ∀ name ∈ names,
        r.tree.exists? (Path.join d name) ∧ ¬ e.Removes (Path.join d name) := fun name hname =>
      (hexists _).mp (ht.exists?_join hd hname).1
    rcases entry_of_pruned hprunes hpruned d with ⟨-, hnone⟩ | ⟨-, heq | heq⟩
    · rw [hnone] at hd
      cases hd
    · rw [heq] at hd
      exact h.pairwise_concat (h.order hd) hkept
    · rw [heq] at hd
      obtain ⟨x, hx, hwithout⟩ := Option.map_eq_some_iff.mp hd
      cases x with
      | file => cases hwithout
      | directory children =>
        cases hwithout
        exact h.pairwise_concat ((h.order hx).filter _) hkept

/-! #### Every change -/

theorem failed (h : r.Faithful) (c : Change) :
    Recorded.Faithful ⟨r.tree, r.log ++ [⟨c, false⟩]⟩ := by
  apply h.unchanged h.consistent fun _ => rfl
  · rintro q ⟨⟨⟩, -⟩
  · rintro q ⟨⟨⟩, -⟩
  · rintro q content ⟨⟨⟩, -⟩
  · rintro q ⟨⟨⟩, -⟩

/-- A change that has put a leaf at a path is faithful if the log takes it for that. -/
theorem placed (h : r.Faithful) (hpath : Canonical path) {x : Entry} {operation : Operation}
    (hok : r.tree.place path x operation = .ok t) (hputs : PutsLeaf e r.log path x)
    (hnew : r.tree.isDirectory path = false)
    (hleaf : x = .directory [] ∧ ¬ r.tree.exists? path ∨ ∃ c, x = .file c) :
    Recorded.Faithful ⟨t, r.log ++ [e]⟩ := by
  have ht : t.Consistent := by
    refine h.consistent.place hpath hnew (fun children hx => ?_) hok
    rcases hleaf with ⟨rfl, -⟩ | ⟨c, rfl⟩
    · cases hx
      rfl
    · cases hx
  unfold Tree.place existingParent at hok
  split at hok
  · rename_i dir hdir
    split at hok
    · rename_i hisdir
      cases hok
      exact h.added hputs ht hpath hdir hisdir hnew hleaf
    · cases hok
  · cases hok

theorem wrote (h : r.Faithful) (hpath : Canonical path) {content : String}
    (hok : r.tree.write path content = .ok t) :
    Recorded.Faithful ⟨t, r.log ++ [⟨.write path content, true⟩]⟩ := by
  unfold Tree.write at hok
  split at hok
  · cases hok
  · rename_i hnew
    refine h.placed hpath hok ⟨fun q => ?_, fun q => ?_, fun q c => ?_, fun q => ?_⟩
      (Bool.eq_false_iff.mpr hnew) (.inr ⟨content, rfl⟩)
    · simp [Logged.Places, eq_comm]
    · simp [Logged.Removes]
    · simp [Gives, eq_comm]
    · simp

theorem touched (h : r.Faithful) (hpath : Canonical path) (hok : r.tree.touch path = .ok t) :
    Recorded.Faithful ⟨t, r.log ++ [⟨.touch path, true⟩]⟩ := by
  unfold Tree.touch at hok
  split at hok
  · rename_i hexists
    cases hok
    apply h.unchanged h.consistent fun _ => rfl
    · rintro q ⟨-, hq⟩
      simp only [Change.touch.injEq, reduceCtorEq, exists_false, or_false] at hq
      exact hq ▸ hexists
    · simp [Logged.Removes]
    · rintro q c ⟨-, hq | ⟨hq, hnew, -⟩⟩
      · cases hq
      · cases hq
        exact hnew ((h.survives path).mp hexists)
    · simp
  · rename_i hnone
    unfold Tree.write at hok
    split at hok
    · cases hok
    · rename_i hnew
      have hgone : ¬ Survives r.log path := mt (h.survives path).mpr hnone
      refine h.placed hpath hok ⟨fun q => ?_, fun q => ?_, fun q c => ?_, fun q => ?_⟩
        (Bool.eq_false_iff.mpr hnew) (.inr ⟨"", rfl⟩)
      · simp [Logged.Places, eq_comm]
      · simp [Logged.Removes]
      · simp only [Gives, reduceCtorEq, false_or, true_and, Change.touch.injEq, Entry.file.injEq]
        constructor
        · rintro ⟨rfl, -, rfl⟩
          exact ⟨rfl, rfl⟩
        · rintro ⟨rfl, rfl⟩
          exact ⟨rfl, hgone, rfl⟩
      · simp

theorem madeDirectory (h : r.Faithful) (hpath : Canonical path)
    (hok : r.tree.makeDirectory path = .ok t) :
    Recorded.Faithful ⟨t, r.log ++ [⟨.makeDirectory path, true⟩]⟩ := by
  unfold Tree.makeDirectory at hok
  split at hok
  · cases hok
  · rename_i hnone
    refine h.placed hpath hok ⟨fun q => ?_, fun q => ?_, fun q c => ?_, fun q => ?_⟩
      (Bool.eq_false_iff.mpr (mt exists?_of_isDirectory hnone)) (.inl ⟨rfl, hnone⟩)
    · simp [Logged.Places, eq_comm]
    · simp [Logged.Removes]
    · simp [Gives]
    · simp [eq_comm]

theorem removedFile (h : r.Faithful) (hpath : Canonical path) {force : Bool}
    (hok : r.tree.removeFile path force = .ok t) :
    Recorded.Faithful ⟨t, r.log ++ [⟨.removeFile path force, true⟩]⟩ := by
  have ht := h.consistent.removeFile hok
  have hremoves (q : String) : Logged.Removes ⟨.removeFile path force, true⟩ q ↔ q = path := by
    simp [Logged.Removes, eq_comm]
  unfold Tree.removeFile at hok
  split at hok
  · rename_i hkind
    cases hok
    have hexists := exists?_of_kind? hkind
    have hfile : r.tree.isDirectory path = false := by
      rw [isDirectory, hkind]
      rfl
    have hroot : path ≠ "/" := by
      rintro rfl
      rw [h.consistent.root] at hfile
      cases hfile
    obtain ⟨dir, hdir, -⟩ := h.consistent.parent hexists hroot
    have hleaf := h.consistent.toWellFormed.isLeaf_of_not_isDirectory hfile
    refine h.pruned ⟨?_, ?_, ?_, ?_⟩ ht (h.consistent.isPruned_remove hexists hfile hdir)
    · simp [Logged.Places]
    · intro q hq
      -- Nothing lies beneath a file.
      have hbelow : ¬ IsBelow path q := fun hbelow =>
        h.consistent.toWellFormed.not_exists_of_isBelow hpath hroot hleaf hbelow hq
      rw [hremoves, or_iff_left hbelow]
    · simp [Gives]
    · simp
  · cases hok
  · rename_i hkind
    split at hok
    · cases hok
      have hnone : ¬ r.tree.exists? path := by
        rw [exists?_iff]
        rintro ⟨x, hx⟩
        rw [kind?, hx] at hkind
        cases hkind
      apply h.unchanged h.consistent fun _ => rfl
      · simp [Logged.Places]
      · intro q hq
        rw [hremoves] at hq
        exact hq ▸ hnone
      · simp [Gives]
      · simp
    · cases hok

theorem removedDirectory (h : r.Faithful) (hpath : Canonical path) {force : Bool}
    (hok : r.tree.removeDirectory path force = .ok t) :
    Recorded.Faithful ⟨t, r.log ++ [⟨.removeDirectory path force, true⟩]⟩ := by
  have hisdir : path ≠ "/" ∧ r.tree.isDirectory path := by
    rw [Tree.removeDirectory, removeBelow] at hok
    split at hok
    · cases hok
    · rename_i hroot
      split at hok
      · cases hok
      · cases hok
      · rename_i children hentry
        exact ⟨hroot, isDirectory_iff.mpr ⟨children, hentry⟩⟩
  obtain ⟨dir, hdir, -⟩ := hpath.exists_parent hisdir.1
  obtain ⟨t', hok', ht, hpruned⟩ := h.consistent.removeDirectory_spec hisdir.2 hdir force
  rw [hok] at hok'
  cases hok'
  refine h.pruned ⟨?_, ?_, ?_, ?_⟩ ht hpruned
  · simp [Logged.Places]
  · simp [Logged.Removes]
  · simp [Gives]
  · simp

theorem changedDirectory (h : r.Faithful) (hok : r.tree.changeDirectory path = .ok t) :
    Recorded.Faithful ⟨t, r.log ++ [⟨.changeDirectory path, true⟩]⟩ := by
  have hentry : ∀ q, t.entry? q = r.tree.entry? q := by
    intro q
    unfold Tree.changeDirectory at hok
    split at hok
    · cases hok
      rfl
    · cases hok
    · cases hok
  apply h.unchanged (h.consistent.changeDirectory hok) hentry
  · simp [Logged.Places]
  · simp [Logged.Removes]
  · simp [Gives]
  · simp

theorem step (h : r.Faithful) {c : Change} (hc : Canonical c.path) : (r.step c).Faithful := by
  unfold Recorded.step
  cases hok : r.tree.apply c with
  | error => exact h.failed c
  | ok t =>
    cases c with
    | write path content => exact h.wrote hc hok
    | touch path => exact h.touched hc hok
    | makeDirectory path => exact h.madeDirectory hc hok
    | removeFile path force => exact h.removedFile hc hok
    | removeDirectory path force => exact h.removedDirectory hc hok
    | changeDirectory path => exact h.changedDirectory hok

theorem after (h : r.Faithful) {changes : List Change} (hc : ∀ c ∈ changes, Canonical c.path) :
    (r.after changes).Faithful := by
  induction changes generalizing r with
  | nil => exact h
  | cons c changes ih =>
    rw [List.forall_mem_cons] at hc
    exact ih (h.step hc.1) hc.2

/-! #### Reading and listing -/

theorem explained (h : r.Faithful) : r.Explained where
  read path content := by rw [read_eq_ok, h.content]
  lists dir := by
    simp only [list_eq_ok]
    rw [← isDirectory_iff, h.directory]
  nodup hok := h.consistent.nodup (list_eq_ok.mp hok)
  mem_list hok name := by
    rw [h.consistent.mem_children (list_eq_ok.mp hok)]
    constructor
    · rintro ⟨path, hexists, hparent, hname⟩
      exact ⟨path, hparent, hname, (h.survives path).mp hexists⟩
    · rintro ⟨path, hparent, hname, hsurvives⟩
      exact ⟨path, (h.survives path).mpr hsurvives, hparent, hname⟩
  order hok := h.order (list_eq_ok.mp hok)

end Recorded.Faithful

/-! ### The trees that sessions start from -/

namespace Recorded

/-- A root alone, of which there is nothing to tell. -/
def root : Recorded := ⟨Tree.root, []⟩

/-- The changes that make a seeded tree. -/
def seeds : List Change :=
  [.write "/hello_world.txt" greeting, .write "/script.js" greetingScript]

/-- A seeded tree; its two files were written. -/
def seeded : Recorded := ⟨Tree.seeded, seeds.map fun c => ⟨c, true⟩⟩

theorem root_faithful : root.Faithful where
  consistent := root_consistent
  survives path := by
    simp only [exists?_iff, Survives, root, not_since_nil, exists_false, or_false]
    rw [root_entry]
    by_cases hroot : path = "/" <;> simp [hroot]
  content path content := by
    simp only [HoldsContent, root, not_since_nil, exists_false, iff_false]
    rw [root_entry]
    by_cases hroot : path = "/" <;> simp [hroot]
  directory path := by
    simp only [isDirectory_iff, HoldsDirectory, root, not_since_nil, exists_false, or_false]
    rw [root_entry]
    by_cases hroot : path = "/" <;> simp [hroot]
  created hexists hroot := by
    obtain ⟨x, hx⟩ := exists?_iff.mp hexists
    rw [root, root_entry, if_neg hroot] at hx
    cases hx
  order hentry := by
    rw [root, root_entry] at hentry
    split at hentry
    · cases hentry
      exact .nil
    · cases hentry

/-- The seeded tree is what its changes make of the root. -/
theorem root_after_seeds : root.after seeds = seeded := rfl

theorem seeded_faithful : seeded.Faithful := by
  rw [← root_after_seeds]
  refine root_faithful.after ?_
  decide +kernel

/-- Whatever changes are tried at canonical paths, from a root alone or from a seeded tree, the tree
    answers as its log says. -/
theorem after_explained (isSeeded : Bool) (changes : List Change)
    (hc : ∀ c ∈ changes, Canonical c.path) :
    ((if isSeeded then seeded else root).after changes).Explained := by
  cases isSeeded with
  | false => exact (root_faithful.after hc).explained
  | true => exact (seeded_faithful.after hc).explained

/-- Two directories of which one is called like the beginning of the other; one goes with all in it
    and comes again, a file in the other is written twice and touched. -/
def reshuffled : List Change :=
  [.makeDirectory "/a", .write "/a/x" "one", .makeDirectory "/ab", .write "/ab/y" "two",
    .touch "/ab/z", .write "/a/x" "three", .removeDirectory "/a" false, .write "/ab/y" "four",
    .touch "/ab/y", .makeDirectory "/a", .removeFile "/a/x" true, .write "/none/x" "five"]

/-- What is left of them, and that the log says so. -/
theorem reshuffled_explained :
    (∀ c ∈ reshuffled, Canonical c.path) ∧ (seeded.after reshuffled).Explained ∧
      (seeded.after reshuffled).tree.list "/" =
        .ok ["hello_world.txt", "script.js", "ab", "a"] ∧
      (seeded.after reshuffled).tree.list "/ab" = .ok ["y", "z"] ∧
      HoldsContent (seeded.after reshuffled).log "/ab/y" "four" ∧
      ∀ content, ¬ HoldsContent (seeded.after reshuffled).log "/a/x" content := by
  have hc : ∀ c ∈ reshuffled, Canonical c.path := by decide +kernel
  have h := after_explained true reshuffled hc
  have hroot : (seeded.after reshuffled).tree.list "/" =
      .ok ["hello_world.txt", "script.js", "ab", "a"] := rfl
  have hdir : (seeded.after reshuffled).tree.list "/ab" = .ok ["y", "z"] := rfl
  have hkept : (seeded.after reshuffled).tree.read "/ab/y" = .ok "four" := rfl
  have hgone : (seeded.after reshuffled).tree.read "/a/x" =
      .error ⟨.notFound, .openFile, "/a/x"⟩ := rfl
  refine ⟨hc, h, hroot, hdir, (h.read _ _).mp hkept, fun content hcontent => ?_⟩
  have hread := (h.read _ _).mpr hcontent
  rw [if_pos rfl, hgone] at hread
  cases hread

end Recorded

end MemoryShell.Tree
