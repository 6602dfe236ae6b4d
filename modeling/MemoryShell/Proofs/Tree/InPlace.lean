/-
  MemoryShell/Proofs/Tree/InPlace.lean
  ====================================
  **Changing a tree in place.**

  The operations give the tree that they leave or a failure, so a failure cannot show half of a
  change.  Here they are written once more on a tree that is changed where it stands, one assignment
  after the other: a failure keeps all that was done before it, and a removal goes down and a climb
  goes up for as long as there is something left to do, without any fuel.  On a consistent tree both
  ways to write an operation come to the same.
-/
import MemoryShell.Proofs.Tree.Log
import MemoryShell.Script.Host

namespace MemoryShell.Tree

open MemoryShell.Path (IsBelow depth)

/-! ### Programs on a tree -/

/-- A program that changes a tree in place and may fail half-way; `none` if it never ends. -/
abbrev InPlace := ExceptT Error (StateT Tree Option)

variable {α β : Type} {t t' : Tree} {path dir name q : String} {force : Bool} {fuel : Nat}

namespace InPlace

/-- Run a program: how it ends, and the tree as it stands then. -/
def runOn (act : InPlace α) (t : Tree) : Option (Except Error α × Tree) :=
  StateT.run (ExceptT.run act) t

theorem runOn_get_bind (f : Tree → InPlace β) : runOn (get >>= f) t = runOn (f t) t := rfl

theorem runOn_set (t' : Tree) : runOn (set t') t = some (.ok (), t') := rfl

/-- A program goes on where its first part ended. -/
theorem runOn_bind_ok {act : InPlace α} {a : α} (h : runOn act t = some (.ok a, t'))
    (f : α → InPlace β) : runOn (act >>= f) t = runOn (f a) t' := by
  change (StateT.run (ExceptT.run act) t).bind _ = _
  change StateT.run (ExceptT.run act) t = _ at h
  rw [h]
  rfl

/-! ### The operations -/

/-- Put an entry at a path whose parent exists, and then its name into the parent. -/
def place (path : String) (e : Entry) (operation : Operation) : InPlace Unit := do
  let dir ← MonadExcept.ofExcept ((← get).existingParent path operation)
  modify fun t => t.put path e
  modify fun t => t.register dir (Path.basename path)

def write (path content : String) : InPlace Unit := do
  if (← get).isDirectory path then throw ⟨.isDirectory, .write, path⟩
  else place path (.file content) .openFile

def makeDirectory (path : String) : InPlace Unit := do
  if (← get).exists? path then throw ⟨.alreadyExists, .makeDirectory, path⟩
  else place path (.directory []) .makeDirectory

def touch (path : String) : InPlace Unit := do
  if (← get).exists? path then return ()
  else write path ""

def changeDirectory (path : String) : InPlace Unit := do
  match (← get).kind? path with
  | some .directory => modify fun t => { t with currentDir := path }
  | some .file => throw ⟨.notADirectory, .changeDirectory, path⟩
  | none => throw ⟨.notFound, .changeDirectory, path⟩

/-- Take out an entry, and then its name from its parent. -/
def remove (path : String) : InPlace Unit := do
  modify fun t => { t with entries := t.entries.erase path }
  modify fun t => t.unregister path

def removeFile (path : String) (force : Bool) : InPlace Unit := do
  match (← get).kind? path with
  | some .file => remove path
  | some .directory => throw ⟨.isDirectory, .unlink, path⟩
  | none => if force then return () else throw ⟨.notFound, .unlink, path⟩

end InPlace

open InPlace

/-- Put a tree in place, and move its current directory up, one step at a time, until it is there.
    -/
def climb (t : Tree) : InPlace Unit := do
  set t
  if t.isDirectory t.currentDir then return ()
  else
    match Path.parent t.currentDir with
    | some up => ({ t with currentDir := up } : Tree) |>.climb
    | none => return ()
partial_fixpoint

/-- A directory that is to go, with force or without. -/
structure Removal where
  path : String
  force : Bool

/-- Remove a directory: its children in turn, each with all beneath it, and then the directory. -/
def Removal.run (r : Removal) : InPlace Unit := do
  if r.path = "/" then throw ⟨.rootRemoval, .removeDirectory, r.path⟩
  else
    match entry? (← get) r.path with
    | none => throw ⟨.notFound, .removeDirectory, r.path⟩
    | some (.file _) => throw ⟨.notADirectory, .removeDirectory, r.path⟩
    | some (.directory children) =>
      children.forM fun name => do
        let child := Path.join r.path name
        if (← get).isDirectory child then ({ r with path := child } : Removal) |>.run
        else InPlace.removeFile child r.force
      InPlace.remove r.path
      (← get).climb
partial_fixpoint

namespace InPlace

def removeDirectory (path : String) (force : Bool) : InPlace Unit := Removal.run ⟨path, force⟩

def apply : Change → InPlace Unit
  | .write path content => write path content
  | .touch path => touch path
  | .makeDirectory path => makeDirectory path
  | .removeFile path force => removeFile path force
  | .removeDirectory path force => removeDirectory path force
  | .changeDirectory path => changeDirectory path

/-! ### Single steps

These end on any tree, and as the operations say: all that can fail comes before the first
assignment. -/

theorem runOn_place (path : String) (e : Entry) (operation : Operation) :
    runOn (place path e operation) t = some (t.commit (t.place path e operation)) := by
  unfold place Tree.place
  rw [runOn_get_bind]
  cases t.existingParent path operation <;> rfl

theorem runOn_write (path content : String) :
    runOn (write path content) t = some (t.commit (t.write path content)) := by
  unfold write Tree.write
  rw [runOn_get_bind]
  split
  · rfl
  · exact runOn_place _ _ _

theorem runOn_makeDirectory (path : String) :
    runOn (makeDirectory path) t = some (t.commit (t.makeDirectory path)) := by
  unfold makeDirectory Tree.makeDirectory
  rw [runOn_get_bind]
  split
  · rfl
  · exact runOn_place _ _ _

theorem runOn_touch (path : String) :
    runOn (touch path) t = some (t.commit (t.touch path)) := by
  unfold touch Tree.touch
  rw [runOn_get_bind]
  split
  · rfl
  · exact runOn_write _ _

theorem runOn_changeDirectory (path : String) :
    runOn (changeDirectory path) t = some (t.commit (t.changeDirectory path)) := by
  unfold changeDirectory Tree.changeDirectory
  rw [runOn_get_bind]
  cases t.kind? path with
  | none => rfl
  | some kind => cases kind <;> rfl

theorem runOn_remove (path : String) : runOn (remove path) t = some (.ok (), t.remove path) := rfl

theorem runOn_removeFile (path : String) (force : Bool) :
    runOn (removeFile path force) t = some (t.commit (t.removeFile path force)) := by
  unfold removeFile Tree.removeFile
  rw [runOn_get_bind]
  cases t.kind? path with
  | none => cases force <;> rfl
  | some kind => cases kind <;> rfl

/-! ### The climb

A parent is shorter than its path, unless it is the root; so a climb ends on any tree, and the fuel
of the operation is enough for it. -/

theorem nearestDirectory_root (fuel : Nat) : t.nearestDirectory fuel "/" = "/" := by
  cases fuel with
  | zero => rfl
  | succ fuel =>
    rw [nearestDirectory]
    split <;> rfl

theorem nearestDirectory_setCurrentDir (dir : String) (fuel : Nat) (path : String) :
    nearestDirectory { t with currentDir := dir } fuel path = t.nearestDirectory fuel path := by
  induction fuel generalizing path with
  | zero => rfl
  | succ fuel ih =>
    rw [nearestDirectory, nearestDirectory]
    cases Path.parent path with
    | none => rfl
    | some up =>
      simp only
      rw [ih]
      rfl

theorem runOn_climb_root {up : Tree} (h : up.currentDir = "/") :
    runOn up.climb t = some (.ok (), up) := by
  rw [climb, runOn_bind_ok (runOn_set up), h]
  split <;> rfl

theorem runOn_climb_fuel {up : Tree} {fuel : Nat} (h : up.currentDir.length + 2 ≤ fuel) :
    runOn up.climb t =
      some (.ok (), { up with currentDir := up.nearestDirectory fuel up.currentDir }) := by
  induction fuel generalizing t up with
  | zero => omega
  | succ fuel ih =>
    rw [climb, runOn_bind_ok (runOn_set up), nearestDirectory]
    split
    · rfl
    · cases hdir : Path.parent up.currentDir with
      | none => rfl
      | some dir =>
        simp only
        rcases Path.eq_root_or_length_lt hdir with rfl | hlt
        · rw [runOn_climb_root rfl, nearestDirectory_root]
        · rw [ih (by simp only; omega), nearestDirectory_setCurrentDir]

theorem runOn_climb : runOn t.climb t = some (.ok (), t.repairCurrentDir) :=
  runOn_climb_fuel (Nat.le_refl _)

/-! ### Removing a directory

The induction is on the fuel of the operation, as for what a removal leaves; the tree is consistent
whenever the loop comes to a child, so no step in it fails. -/

/-- Remove a child of a directory. -/
def removeChild (force : Bool) (path name : String) : InPlace Unit := do
  let child := Path.join path name
  if (← get).isDirectory child then removeDirectory child force
  else removeFile child force

theorem removeDirectory_eq (path : String) (force : Bool) :
    removeDirectory path force = (do
      if path = "/" then throw ⟨.rootRemoval, .removeDirectory, path⟩
      else
        match entry? (← get) path with
        | none => throw ⟨.notFound, .removeDirectory, path⟩
        | some (.file _) => throw ⟨.notADirectory, .removeDirectory, path⟩
        | some (.directory children) =>
          children.forM (removeChild force path)
          remove path
          (← get).climb) := by
  rw [removeDirectory, Removal.run]
  rfl

/-- With this much fuel the operation succeeds on a directory, and in place it ends the same. -/
def RemovesInPlace (force : Bool) (fuel : Nat) : Prop :=
  ∀ {t : Tree} {path dir : String},
    t.Consistent → t.isDirectory path → Path.parent path = some dir →
    (∀ q, t.exists? q → depth q < depth path + fuel) →
      ∃ t', removeBelow force fuel t path = .ok t' ∧
        runOn (removeDirectory path force) t = some (.ok (), t')

theorem runOn_removeChild (hbelow : RemovesInPlace force fuel) (h : t.Consistent)
    {children : List String}
    (hentry : t.entry? path = some (.directory children)) (hname : name ∈ children)
    (hdepth : ∀ q, t.exists? q → depth q < depth path + (fuel + 1)) :
    ∃ t', Tree.removeChild force fuel path t name = .ok t' ∧
      runOn (removeChild force path name) t = some (.ok (), t') := by
  obtain ⟨hexists, hparent, -⟩ := h.toWellFormed.exists?_join hentry hname
  unfold Tree.removeChild removeChild
  rw [runOn_get_bind]
  simp only
  split
  · rename_i hisdir
    obtain ⟨dir, hdir, -, -, -, hsucc⟩ :=
      (h.canonical hexists).exists_parent (Path.ne_root_of_parent hparent)
    rw [hparent, Option.some.injEq] at hdir
    subst hdir
    refine hbelow h hisdir hparent fun q hq => ?_
    have hlt := hdepth q hq
    omega
  · rename_i hfile
    rw [Bool.not_eq_true] at hfile
    have hok := removeFile_of_not_isDirectory hexists hfile force
    refine ⟨_, hok, ?_⟩
    rw [runOn_removeFile, hok]
    rfl

theorem runOn_forM_removeChild (hbelow : RemovesInPlace force fuel)
    {children : List String} :
    ∀ {t : Tree}, t.Consistent → t.entry? path = some (.directory children) →
      (∀ q, t.exists? q → depth q < depth path + (fuel + 1)) →
        ∃ t', children.foldlM (Tree.removeChild force fuel path) t = .ok t' ∧
          runOn (children.forM (removeChild force path)) t = some (.ok (), t') := by
  induction children with
  | nil =>
    intro t _ _ _
    exact ⟨t, rfl, rfl⟩
  | cons name rest ih =>
    intro t h hentry hdepth
    obtain ⟨t₁, hok, hrun⟩ := runOn_removeChild hbelow h hentry List.mem_cons_self hdepth
    obtain ⟨t₁', hok', h₁, hpruned⟩ :=
      removeChild_spec (removesBelow force fuel) h hentry List.mem_cons_self hdepth
    rw [hok] at hok'
    cases hok'
    have hentry₁ := hpruned.entry_rest h hentry
    obtain ⟨t', hrest, hrunrest⟩ := ih h₁ hentry₁ fun q hq => hdepth q (hpruned.exists? hq)
    refine ⟨t', ?_, ?_⟩
    · rw [List.foldlM_cons, hok]
      exact hrest
    · change runOn (removeChild force path name >>= fun _ => rest.forM _) t = _
      rw [runOn_bind_ok hrun]
      exact hrunrest

theorem removesInPlace (force : Bool) (fuel : Nat) : RemovesInPlace force fuel := by
  induction fuel with
  | zero =>
    intro t path dir _ hisdir _ hdepth
    exact absurd (hdepth path (exists?_of_isDirectory hisdir)) (Nat.lt_irrefl _)
  | succ fuel ih =>
    intro t path dir h hisdir hdir hdepth
    have hroot := Path.ne_root_of_parent hdir
    obtain ⟨children, hentry⟩ := isDirectory_iff.mp hisdir
    obtain ⟨emptied, hok, hrun⟩ := runOn_forM_removeChild ih h hentry hdepth
    refine ⟨(emptied.remove path).repairCurrentDir, ?_, ?_⟩
    · rw [removeBelow, if_neg hroot, hentry]
      simp only
      change (children.foldlM (Tree.removeChild force fuel path) t >>= _) = _
      rw [hok]
      rfl
    · rw [removeDirectory_eq, if_neg hroot, runOn_get_bind, hentry]
      simp only
      rw [runOn_bind_ok hrun, runOn_bind_ok (runOn_remove path), runOn_get_bind]
      exact runOn_climb

end InPlace

namespace Consistent

theorem runOn_removeDirectory (h : t.Consistent) (path : String) (force : Bool) :
    runOn (InPlace.removeDirectory path force) t =
      some (t.commit (t.removeDirectory path force)) := by
  by_cases hroot : path = "/"
  · rw [removeDirectory_eq, if_pos hroot, Tree.removeDirectory, removeBelow, if_pos hroot]
    rfl
  · cases hentry : t.entry? path with
    | none =>
      rw [removeDirectory_eq, if_neg hroot, runOn_get_bind, hentry, Tree.removeDirectory,
        removeBelow, if_neg hroot, hentry]
      rfl
    | some e =>
      cases e with
      | file content =>
        rw [removeDirectory_eq, if_neg hroot, runOn_get_bind, hentry, Tree.removeDirectory,
          removeBelow, if_neg hroot, hentry]
        rfl
      | directory children =>
        obtain ⟨dir, hdir, -⟩ := h.parent (exists?_iff.mpr ⟨_, hentry⟩) hroot
        obtain ⟨t', hok, hrun⟩ :=
          removesInPlace force (t.entries.entries.length + 1) h (isDirectory_iff.mpr ⟨_, hentry⟩)
            hdir fun q hq => by have hlt := h.toWellFormed.depth_lt hq; omega
        rw [hrun, Tree.removeDirectory, hok]
        rfl

/-- On a consistent tree every change ends in place, and as the operation says. -/
theorem runOn_apply (h : t.Consistent) (c : Change) :
    runOn (InPlace.apply c) t = some (t.commit (t.apply c)) := by
  cases c with
  | write path content => exact runOn_write path content
  | touch path => exact runOn_touch path
  | makeDirectory path => exact runOn_makeDirectory path
  | removeFile path force => exact runOn_removeFile path force
  | removeDirectory path force => exact h.runOn_removeDirectory path force
  | changeDirectory path => exact runOn_changeDirectory path

end Consistent

/-! ### What goes with a directory -/

/-- What is left of a tree when a path went with all that lies beneath it, and nothing else did. -/
structure WithoutSubtree (t : Tree) (path : String) (t' : Tree) : Prop where
  exists_iff (q : String) : t'.exists? q ↔ t.exists? q ∧ q ≠ path ∧ ¬ IsBelow path q
  read (q content : String) :
    t'.read q = .ok content ↔ t.read q = .ok content ∧ q ≠ path ∧ ¬ IsBelow path q
  /-- Directories keep the order of their children; the name of the path goes from its parent. -/
  list {q : String} {names : List String} : t.list q = .ok names → q ≠ path → ¬ IsBelow path q →
    t'.list q =
      .ok (if Path.parent path = some q then names.erase (Path.basename path) else names)
  currentDir_outside : t.currentDir ≠ path → ¬ IsBelow path t.currentDir →
    t'.currentDir = t.currentDir
  currentDir_inside : t.currentDir = path ∨ IsBelow path t.currentDir →
    Path.parent path = some t'.currentDir

theorem withoutChild_eq_file {e : Entry} {content : String} :
    e.withoutChild name = .file content ↔ e = .file content := by
  cases e <;> simp [Entry.withoutChild]

/-- What a removal leaves at the paths that stay. -/
theorem IsPruned.entry_kept (h : IsPruned t path dir t') (hq : ¬ (q = path ∨ IsBelow path q)) :
    t'.entry? q = if q = dir then (t.entry? q).map (Entry.withoutChild (Path.basename path))
      else t.entry? q := by
  rw [h.entry, if_neg hq]

theorem IsPruned.withoutSubtree (hpruned : IsPruned t path dir t') (h : t.Consistent)
    (hdir : Path.parent path = some dir) : t.WithoutSubtree path t' where
  exists_iff q := by
    rw [← not_or]
    by_cases hq : q = path ∨ IsBelow path q
    · simp [Tree.exists?, hpruned.entry, hq]
    · rw [Tree.exists?, Tree.exists?, hpruned.entry_kept hq]
      rw [and_iff_left hq]
      split <;> simp
  read q content := by
    rw [← not_or, read_eq_ok, read_eq_ok]
    by_cases hq : q = path ∨ IsBelow path q
    · simp [hpruned.entry, hq]
    · rw [hpruned.entry_kept hq]
      split
      · simp [Option.map_eq_some_iff, withoutChild_eq_file, hq]
      · simp [hq]
  list {q names} hlist hne hbelow := by
    rw [list_eq_ok] at hlist ⊢
    rw [hpruned.entry_kept (not_or.mpr ⟨hne, hbelow⟩), hlist, hdir]
    by_cases hq : q = dir
    · subst hq
      rw [if_pos rfl, if_pos rfl, (h.nodup hlist).erase_eq_filter, Option.map_some,
        Entry.withoutChild]
      simp only [ne_eq, decide_not, bne]
      rfl
    · rw [if_neg hq, if_neg fun heq => hq (Option.some.inj heq).symm]
  currentDir_outside hne hbelow := by
    rw [hpruned.currentDir, if_neg (not_or.mpr ⟨hne, hbelow⟩)]
  currentDir_inside hinside := by
    rw [hpruned.currentDir, if_pos hinside, hdir]

/-- Removing a directory other than the root ends and succeeds, with force and without; it takes
    away the directory and what lies beneath it, and nothing else. -/
theorem Consistent.removeDirectory_withoutSubtree (h : t.Consistent) (hisdir : t.isDirectory path)
    (hroot : path ≠ "/") (force : Bool) :
    ∃ t', InPlace.runOn (InPlace.removeDirectory path force) t = some (.ok (), t') ∧
      t.removeDirectory path force = .ok t' ∧ t.WithoutSubtree path t' := by
  obtain ⟨dir, hdir, -⟩ := h.parent (exists?_of_isDirectory hisdir) hroot
  obtain ⟨t', hok, -, hpruned⟩ := h.removeDirectory_spec hisdir hdir force
  refine ⟨t', ?_, hok, hpruned.withoutSubtree h hdir⟩
  rw [h.runOn_removeDirectory, hok]
  rfl

/-- A directory and its sibling whose name starts the same, and a current directory deep inside. -/
def siblings : Tree :=
  (Recorded.seeded.after
    [.makeDirectory "/a", .makeDirectory "/a/b", .makeDirectory "/a/b/c", .write "/a/x" "one",
      .makeDirectory "/ab", .write "/ab/y" "two", .changeDirectory "/a/b/c"]).tree

theorem siblings_consistent : siblings.Consistent :=
  (Recorded.seeded_faithful.after (by decide +kernel)).consistent

/-- The sibling stays with its file, and the current directory is the one around both. -/
theorem siblings_withoutSubtree :
    siblings.Consistent ∧ siblings.isDirectory "/a" ∧ "/a" ≠ "/" ∧
      siblings.currentDir = "/a/b/c" ∧
      ∃ t', InPlace.runOn (InPlace.removeDirectory "/a" false) siblings = some (.ok (), t') ∧
        siblings.removeDirectory "/a" false = .ok t' ∧ siblings.WithoutSubtree "/a" t' ∧
        t'.read "/ab/y" = .ok "two" ∧ ¬ t'.exists? "/a/b" ∧ t'.currentDir = "/" ∧
        t'.list "/" = .ok ["hello_world.txt", "script.js", "ab"] := by
  have hisdir : siblings.isDirectory "/a" := by decide +kernel
  have hroot : "/a" ≠ "/" := by decide
  obtain ⟨t', hrun, hok, hwithout⟩ :=
    siblings_consistent.removeDirectory_withoutSubtree hisdir hroot false
  have hread : siblings.read "/ab/y" = .ok "two" := by rfl
  have hlist : siblings.list "/" = .ok ["hello_world.txt", "script.js", "a", "ab"] := by rfl
  have hcurrent : siblings.currentDir = "/a/b/c" := rfl
  have hbelow : IsBelow "/a" "/a/b" := by decide +kernel
  have hdir : Path.parent "/a" = some t'.currentDir :=
    hwithout.currentDir_inside (.inr (by decide +kernel))
  refine ⟨siblings_consistent, hisdir, hroot, hcurrent, t', hrun, hok, hwithout, ?_, ?_, ?_, ?_⟩
  · exact (hwithout.read _ _).mpr ⟨hread, by decide, by decide +kernel⟩
  · exact fun hexists => ((hwithout.exists_iff _).mp hexists).2.2 hbelow
  · exact (Option.some.inj hdir).symm
  · exact hwithout.list hlist (by decide) (by decide +kernel)

end MemoryShell.Tree
