/-
  MemoryShell/Proofs/Tree/Confinement.lean
  ========================================
  **What a script leaves of the tree it runs on.**

  A script writes files, takes files away and makes directories.  Whatever else it does, it stays
  where it is, and what is there keeps its kind, but for a file that the script takes away.  To see
  that no other way leads past a file, a run is compared with the same run on a host that keeps this
  one file: as long as the script does not take it away, both do the same.
-/
import MemoryShell.Proofs.Script.Moments
import MemoryShell.Proofs.Tree.Commands

namespace MemoryShell.Tree

open MemoryShell.Path (Canonical)
open MemoryShell.Script (Limits Program ComesTo)

variable {t t' : Tree} {path dir q : String} {kind : EntryKind}

/-! ### Kinds after a change -/

@[simp] theorem kind_withChild (name : String) (e : Entry) : (e.withChild name).kind = e.kind := by
  cases e <;> rfl

@[simp] theorem kind_withoutChild (name : String) (e : Entry) :
    (e.withoutChild name).kind = e.kind := by
  cases e <;> rfl

theorem kind_added (hne : dir ≠ path) (e : Entry) (name : String) :
    ((t.put path e).register dir name).kind? q = if q = path then some e.kind else t.kind? q := by
  unfold kind?
  rw [entry_register, entry_put, entry_put, if_neg hne]
  by_cases hdir : q = dir
  · subst hdir
    rw [if_pos rfl, if_neg hne, Option.map_map]
    congr 1
    funext e
    exact kind_withChild name e
  · rw [if_neg hdir]
    by_cases hq : q = path
    · rw [if_pos hq, if_pos hq]
      rfl
    · rw [if_neg hq, if_neg hq]

theorem kind_removed (hdir : Path.parent path = some dir) (hne : dir ≠ path) :
    (t.remove path).kind? q = if q = path then none else t.kind? q := by
  unfold kind?
  rw [entry_remove t hdir hne]
  by_cases hq : q = path
  · rw [if_pos hq, if_pos hq]
    rfl
  · rw [if_neg hq, if_neg hq]
    by_cases hqdir : q = dir
    · subst hqdir
      rw [if_pos rfl, Option.map_map]
      congr 1
      funext e
      exact kind_withoutChild _ e
    · rw [if_neg hqdir]

/-- A new entry is all that changes, and the current directory stays. -/
theorem kind_place {e : Entry} {operation : Operation} (hnew : t.isDirectory path = false)
    (hok : t.place path e operation = .ok t') :
    t'.currentDir = t.currentDir ∧
      ∀ q, t'.kind? q = if q = path then some e.kind else t.kind? q := by
  unfold place existingParent at hok
  split at hok
  · split at hok
    · rename_i hisdir
      cases hok
      have hne := WellFormed.dir_ne_path hisdir hnew
      exact ⟨by rw [register_currentDir, put_currentDir], fun q => kind_added hne e _⟩
    · cases hok
  · cases hok

/-! ### Requests -/

/-- What is at a path keeps its kind, and the current directory stays. -/
structure Keeps (q : String) (kind : EntryKind) (t t' : Tree) : Prop where
  currentDir : t'.currentDir = t.currentDir
  kind : t.kind? q = some kind → t'.kind? q = some kind

theorem Keeps.refl (t : Tree) : Keeps q kind t t := ⟨rfl, id⟩

theorem Keeps.commit {changed : Except Error Tree}
    (hok : ∀ t', changed = .ok t' → Keeps q kind t t') : Keeps q kind t (t.commit changed).2 := by
  cases changed with
  | ok t' => exact hok t' rfl
  | error => exact .refl t

theorem keeps_write {content : String} (hok : t.write path content = .ok t') :
    Keeps q kind t t' := by
  unfold write at hok
  split at hok
  · cases hok
  · rename_i hnew
    rw [Bool.not_eq_true] at hnew
    obtain ⟨hcurrent, hkinds⟩ := kind_place hnew hok
    refine ⟨hcurrent, ?_⟩
    intro hq
    rw [hkinds]
    split
    · rename_i hpath
      subst hpath
      -- What can be written over is a file already.
      cases kind with
      | file => rfl
      | directory =>
        rw [isDirectory, hq] at hnew
        cases hnew
    · exact hq

theorem keeps_ensureDirectory (hok : t.ensureDirectory path = .ok t') : Keeps q kind t t' := by
  unfold ensureDirectory makeDirectory at hok
  split at hok
  · cases hok
    exact .refl t
  · rename_i hnew
    rw [Bool.not_eq_true] at hnew
    split at hok
    · cases hok
    · rename_i hfree
      obtain ⟨hcurrent, hkinds⟩ := kind_place hnew hok
      refine ⟨hcurrent, ?_⟩
      intro hq
      rw [hkinds, if_neg]
      · exact hq
      · rintro rfl
        exact hfree (exists?_of_kind? hq)

theorem keeps_removeFile (h : t.Consistent) (hok : t.removeFile path false = .ok t')
    (hother : kind = .directory ∨ path ≠ q) : Keeps q kind t t' := by
  unfold removeFile at hok
  split at hok
  · rename_i hfile
    cases hok
    have hroot : path ≠ "/" := by
      rintro rfl
      have hdir := beq_iff_eq.mp h.root
      rw [hfile] at hdir
      cases hdir
    obtain ⟨dir, hdir, hisdir⟩ := h.parent (exists?_of_kind? hfile) hroot
    have hne : dir ≠ path := by
      rintro rfl
      rw [isDirectory, hfile] at hisdir
      cases hisdir
    refine ⟨remove_currentDir t path, ?_⟩
    intro hq
    rw [kind_removed hdir hne, if_neg]
    · exact hq
    · rintro rfl
      rcases hother with rfl | hother
      · rw [hfile] at hq
        cases hq
      · exact hother rfl
  · cases hok
  · cases hok

/-! ### A host that keeps a file -/

/-- The tree as a host that refuses to take one file away. -/
@[reducible] def protecting (q : String) : Script.Host Tree :=
  { (inferInstance : Script.Host Tree) with
    unlink path t :=
      if t.resolve path = q ∧ t.kind? q = some .file then (.error ⟨.notFound, .unlink, q⟩, t)
      else Script.Host.unlink path t }

theorem unlink_protecting (q path : String) (t : Tree) :
    @Script.Host.unlink Tree (protecting q) path t =
      if t.resolve path = q ∧ t.kind? q = some .file then (.error ⟨.notFound, .unlink, q⟩, t)
      else Script.Host.unlink path t := rfl

/-- The moments at which a script is about to take a file away. -/
def unlinks (q : String) : Script.Watch Tree := fun stack m =>
  match stack with
  | .calling (.native _ .unlink) args :: _ =>
    decide (m.host.resolve (m.heap.display (Script.argument args 0)) = q ∧
      m.host.kind? q = some .file)
  | _ => false

theorem callNative_unlink (H : Script.Host Tree) (args : List Script.Value)
    (m : Script.Machine Tree) :
    @Script.Act.callNative Tree H .unlink args m = (do
      Script.Act.changeHost (H.unlink (m.heap.display (Script.argument args 0)))
      return Script.Value.undefined) m := rfl

/-- At such a moment the file is there to be taken away, and the call does so. -/
theorem callNative_of_unlinks {stack : List Script.Activity} {id : Nat} {args : List Script.Value}
    {m : Script.Machine Tree} (h : unlinks q (.calling (.native id .unlink) args :: stack) m) :
    Script.Act.callNative .unlink args m = .ok .undefined { m with host := m.host.remove q } := by
  obtain ⟨hpath, hfile⟩ := of_decide_eq_true h
  have hunlink : Script.Host.unlink (m.heap.display (Script.argument args 0)) m.host =
      (.ok (), m.host.remove q) := by
    change m.host.commit (m.host.removeFile (m.host.resolve _) false) = _
    rw [hpath, removeFile, hfile]
    rfl
  rw [callNative_unlink]
  simp only [Bind.bind, EStateM.bind, Script.Act.changeHost, hunlink]
  rfl

namespace Consistent

/-- Every request keeps the directories that are there. -/
theorem keeps_request (h : t.Consistent) {change : Tree → Except Error Unit × Tree}
    (hchange : Script.Host.Request change) : Keeps q .directory t (change t).2 := by
  cases hchange with
  | write path content => exact .commit fun t' hok => keeps_write hok
  | unlink path => exact .commit fun t' hok => keeps_removeFile h hok (.inl rfl)
  | makeDirectory path => exact .commit fun t' hok => keeps_ensureDirectory hok

/-- A host that keeps a file is consistent after every request, and the file is still there. -/
theorem keeps_protected (h : t.Consistent) (hq : t.kind? q = some .file)
    {change : Tree → Except Error Unit × Tree}
    (hchange : @Script.Host.Request Tree (protecting q) change) :
    (change t).2.Consistent ∧ (change t).2.kind? q = some .file := by
  cases hchange with
  | write path content =>
    have hkeeps : Keeps q .file t (t.commit (t.write (t.resolve path) content)).2 :=
      .commit fun t' hok => keeps_write hok
    exact ⟨h.request (.write path content), hkeeps.kind hq⟩
  | unlink path =>
    rw [unlink_protecting]
    split
    · exact ⟨h, hq⟩
    · rename_i hother
      have hkeeps : Keeps q .file t (t.commit (t.removeFile (t.resolve path) false)).2 :=
        .commit fun t' hok => keeps_removeFile h hok (.inr fun hpath => hother ⟨hpath, hq⟩)
      exact ⟨h.request (.unlink path), hkeeps.kind hq⟩
  | makeDirectory path =>
    have hkeeps : Keeps q .file t (t.commit (t.ensureDirectory (t.resolve path))).2 :=
      .commit fun t' hok => keeps_ensureDirectory hok
    exact ⟨h.request (.makeDirectory path), hkeeps.kind hq⟩

/-! ### Runs -/

/-- A run keeps the current directory and all directories. -/
theorem keeps_runOn (h : t.Consistent) (limits : Limits) (p : Program) (q : String) :
    Keeps q .directory t (Script.runOn limits p t).machine.host := by
  have hkept := (Script.runOn_course limits p t).host_keeps
    (P := fun t' => t'.Consistent ∧ Keeps q .directory t t') ?_ ⟨h, .refl t⟩
  · exact hkept.2
  · rintro change hchange t' ⟨h', hkeeps⟩
    have hstep := h'.keeps_request (q := q) hchange
    refine ⟨h'.request hchange, hstep.currentDir.trans hkeeps.currentDir, ?_⟩
    intro hq
    exact hstep.kind (hkeeps.kind hq)

/-- A run that does not come to take a file away is the same on a host that keeps the file. -/
theorem runOn_protecting (limits : Limits) (p : Program) (t : Tree) (q : String)
    (hnot : ¬ ComesTo limits (unlinks q) p t) :
    @Script.runOn Tree (protecting q) limits p t = Script.runOn limits p t := by
  have hnative (stack : List Script.Activity) (id : Nat) (f : Script.Native)
      (args : List Script.Value) (m : Script.Machine Tree)
      (hleft : unlinks q (.calling (.native id f) args :: stack) m = false) :
      @Script.Act.callNative Tree (protecting q) f args m = Script.Act.callNative f args m := by
    cases f with
    | unlink =>
      have hother := of_decide_eq_false hleft
      rw [callNative_unlink, callNative_unlink]
      simp only [Bind.bind, EStateM.bind, Script.Act.changeHost]
      rw [unlink_protecting, if_neg hother]
    | _ => rfl
  have hfollows : Script.Result.Follows ⟨0, 0⟩ (Script.runOnUntil limits (unlinks q) p t)
      (@Script.runOnUntil Tree (protecting q) limits (fun _ _ => false) p t) :=
    Script.runOnUntil_follows _ (protecting q) (Script.admits_true limits) (fun _ => trivial)
      (fun _ _ _ _ _ => rfl) hnative rfl p t
  rcases hfollows.same with hcomes | hsame
  · exact absurd hcomes hnot
  · rw [@Script.runOnUntil_never Tree (protecting q)] at hsame
    rw [hsame]
    rcases Script.comesTo_or_eq limits p t (unlinks q) with hcomes | heq
    · exact absurd hcomes hnot
    · exact heq

/-- A file is still one after a run that does not come to take it away. -/
theorem kind_file_runOn (h : t.Consistent) (limits : Limits) (p : Program)
    (hq : t.kind? q = some .file) (hnot : ¬ ComesTo limits (unlinks q) p t) :
    (Script.runOn limits p t).machine.host.kind? q = some .file := by
  have hrequest (change : Tree → Except Error Unit × Tree)
      (hchange : @Script.Host.Request Tree (protecting q) change) (t' : Tree)
      (ht' : t'.Consistent ∧ t'.kind? q = some .file) :
      (change t').2.Consistent ∧ (change t').2.kind? q = some .file :=
    ht'.1.keeps_protected ht'.2 hchange
  have hcourse := @Script.runOn_course Tree (protecting q) limits p t
  have hkept :=
    @Script.Course.host_keeps Tree (protecting q) limits _ hrequest _ _ _ hcourse ⟨h, hq⟩
  rw [← runOn_protecting limits p t q hnot]
  exact hkept.2

end Consistent

/-- What a script leaves of a tree, where some of the files may have been taken away on the way. -/
structure Confined (t t' : Tree) (taken : String → Prop) : Prop where
  consistent : t'.Consistent
  currentDir : t'.currentDir = t.currentDir
  /-- A directory is still there, and it still lists the directories that it listed. -/
  directory {dir : String} {children : List String} :
    t.entry? dir = some (.directory children) →
      ∃ children', t'.entry? dir = some (.directory children') ∧
        ∀ name ∈ children, t.isDirectory (Path.join dir name) →
          name ∈ children' ∧ t'.isDirectory (Path.join dir name)
  /-- Only a file can be gone or be something else, and only after it was taken away. -/
  kind {q : String} {kind : EntryKind} :
    t.kind? q = some kind → t'.kind? q = some kind ∨ kind = .file ∧ taken q

theorem Consistent.confined (h : t.Consistent) {taken : String → Prop} (h' : t'.Consistent)
    (hkeeps : ∀ q, Keeps q .directory t t')
    (hfile : ∀ q, t.kind? q = some .file → t'.kind? q = some .file ∨ taken q) :
    t.Confined t' taken where
  consistent := h'
  currentDir := (hkeeps "/").currentDir
  directory {dir children} hentry := by
    have hstays (q : String) (hq : t.isDirectory q) : t'.isDirectory q :=
      beq_iff_eq.mpr ((hkeeps q).kind (beq_iff_eq.mp hq))
    obtain ⟨children', hentry'⟩ := isDirectory_iff.mp
      (hstays dir (isDirectory_iff.mpr ⟨children, hentry⟩))
    refine ⟨children', hentry', ?_⟩
    intro name hname hsub
    obtain ⟨-, hparent, hbase⟩ := h.exists?_join hentry hname
    have hsub' := hstays _ hsub
    refine ⟨?_, hsub'⟩
    rw [h'.mem_children hentry']
    exact ⟨_, exists?_of_isDirectory hsub', hparent, hbase⟩
  kind {q kind} hq := by
    cases kind with
    | directory => exact .inl ((hkeeps q).kind hq)
    | file =>
      rcases hfile q hq with hstill | htaken
      · exact .inl hstill
      · exact .inr ⟨rfl, htaken⟩

/-- A script that makes a directory in place of a file. -/
def replacing : String :=
  "const fs = require('fs'); fs.unlinkSync('script.js'); fs.mkdirSync('script.js');"

end MemoryShell.Tree
