/-
  MemoryShell/Proofs/Command/Lines.lean
  =====================================
  **Lines of sub-commands.**

  A semicolon cuts a line in two that do not know of each other: the sub-commands before it run
  first, and those behind it run on the tree that they left, whatever came of them.  A line without
  a semicolon is one sub-command, or none if it is blank.  So what a line does is known from what
  sub-commands do; and as to change to a directory resolves a path, to change to one and from there
  to another is to change to the two with a slash between them.
-/
import MemoryShell.Command.Run
import MemoryShell.Proofs.Path.Resolution
import MemoryShell.Proofs.Text.Blank

/-! ### Cutting at a character -/

namespace MemoryShell.Text

theorem splitOnChar_append {c : Char} {text separator text' : String}
    (h : separator.toList = [c]) :
    splitOnChar c (text ++ separator ++ text') = splitOnChar c text ++ splitOnChar c text' := by
  have htext : (text ++ separator ++ text').toList = text.toList ++ c :: text'.toList := by
    rw [String.toList_append, String.toList_append, h, List.append_assoc, List.singleton_append]
  simp only [splitOnChar, htext, splitOn_eq, List.splitOn_append_cons_self, List.map_append]

/-- What a character does not stand in is not cut at it. -/
theorem splitOnChar_of_not_mem {c : Char} {text : String} (h : c ∉ text.toList) :
    splitOnChar c text = [text] := by
  rw [splitOnChar, splitOn_eq, List.splitOn_eq_singleton h, List.map_singleton,
    String.ofList_toList]

theorem not_mem_of_mem_splitOnChar {c : Char} {text piece : String}
    (h : piece ∈ splitOnChar c text) : c ∉ piece.toList := by
  obtain ⟨cs, hmem, rfl⟩ := List.mem_map.mp h
  rw [splitOn_eq] at hmem
  rw [String.toList_ofList]
  exact not_mem_of_mem_splitOn hmem

theorem cutAt_eq_none {c : Char} {cs : List Char} (h : c ∉ cs) : cutAt c cs = none := by
  induction cs with
  | nil => rfl
  | cons d cs ih =>
    rw [List.mem_cons, not_or] at h
    rw [cutAt, if_neg (Ne.symm h.1), ih h.2]
    rfl

end MemoryShell.Text

namespace MemoryShell.Command

/-! ### Sub-commands of a line -/

theorem splitLine_semicolon (line line' : String) :
    splitLine (line ++ ";" ++ line') = splitLine line ++ splitLine line' := by
  have hsplit : Text.splitOnChar ';' (line ++ ";" ++ line') =
      Text.splitOnChar ';' line ++ Text.splitOnChar ';' line' := Text.splitOnChar_append rfl
  rw [splitLine, hsplit, List.map_append, List.filter_append]
  rfl

/-- A line without a semicolon is one sub-command, or none if there is nothing but blanks. -/
theorem splitLine_of_not_mem {line : String} (h : ';' ∉ line.toList) :
    splitLine line = if Text.trim line = "" then [] else [Text.trim line] := by
  rw [splitLine, Text.splitOnChar_of_not_mem h, List.map_singleton, List.filter_singleton]
  by_cases hempty : Text.trim line = ""
  · rw [hempty]
    rfl
  · rw [if_neg hempty, Bool.cond_eq_ite, if_pos]
    simpa using hempty

/-- A sub-command: neither is it empty, nor does it begin or end with a blank, nor is there a
    semicolon in it. -/
structure IsPart (part : String) : Prop where
  trim_eq : Text.trim part = part
  ne_empty : part ≠ ""
  semicolon_not_mem : ';' ∉ part.toList

theorem isPart_of_mem_splitLine {line part : String} (h : part ∈ splitLine line) : IsPart part := by
  obtain ⟨hmem, hne⟩ := List.mem_filter.mp h
  obtain ⟨piece, hpiece, rfl⟩ := List.mem_map.mp hmem
  refine ⟨Text.trim_trim piece, by simpa using hne, fun hsemicolon => ?_⟩
  rw [Text.trim, String.toList_ofList] at hsemicolon
  exact Text.not_mem_of_mem_splitOnChar hpiece ((Text.trimChars_sublist _).subset hsemicolon)

/-! ### Running -/

variable (limits : Script.Limits)

theorem executeAll_nil (t : Tree) : executeAll limits [] t = ([], t) := rfl

theorem executeAll_cons (part : String) (parts : List String) (t : Tree) :
    executeAll limits (part :: parts) t =
      (⟨part, (execute limits part t).1⟩ :: (executeAll limits parts (execute limits part t).2).1,
        (executeAll limits parts (execute limits part t).2).2) := rfl

theorem executeAll_append (parts parts' : List String) (t : Tree) :
    executeAll limits (parts ++ parts') t =
      ((executeAll limits parts t).1 ++ (executeAll limits parts' (executeAll limits parts t).2).1,
        (executeAll limits parts' (executeAll limits parts t).2).2) := by
  induction parts generalizing t with
  | nil => rfl
  | cons part parts ih =>
    rw [List.cons_append, executeAll_cons, executeAll_cons, ih]
    rfl

/-- What came of sub-commands is given with them, in their order. -/
theorem map_input_executeAll (parts : List String) (t : Tree) :
    (executeAll limits parts t).1.map Executed.input = parts := by
  induction parts generalizing t with
  | nil => rfl
  | cons part parts ih => rw [executeAll_cons, List.map_cons, ih]

/-- The sub-commands before a semicolon run first, those behind it on the tree that they left. -/
theorem executeLine_append (line line' : String) (t : Tree) :
    executeLine limits (line ++ ";" ++ line') t =
      ((executeLine limits line t).1 ++ (executeLine limits line' (executeLine limits line t).2).1,
        (executeLine limits line' (executeLine limits line t).2).2) := by
  rw [executeLine, splitLine_semicolon, executeAll_append]
  rfl

/-- A word of a sub-command: it is not empty, and none of its characters is a blank, a semicolon or
    the mark of a redirect. -/
structure IsWord (word : String) : Prop where
  isSolid : Text.IsSolid word.toList
  semicolon_not_mem : ';' ∉ word.toList
  redirect_not_mem : '>' ∉ word.toList

theorem IsWord.ne_empty {word : String} (h : IsWord word) : word ≠ "" :=
  fun hempty => h.isSolid.1 (String.toList_eq_nil_iff.mpr hempty)

theorem isWord_slash {word word' : String} (h : IsWord word) (h' : IsWord word') :
    IsWord (word ++ "/" ++ word') := by
  have htext : (word ++ "/" ++ word').toList = word.toList ++ '/' :: word'.toList := by
    rw [String.toList_append, String.toList_append, List.append_assoc]
    rfl
  have hnot {c : Char} (hc : '/' ≠ c) (hmem : c ∉ word.toList) (hmem' : c ∉ word'.toList) :
      c ∉ (word ++ "/" ++ word').toList := by
    rw [htext, List.mem_append, List.mem_cons, not_or, not_or]
    exact ⟨hmem, hc.symm, hmem'⟩
  refine ⟨⟨?_, ?_⟩, hnot (by decide) h.semicolon_not_mem h'.semicolon_not_mem,
    hnot (by decide) h.redirect_not_mem h'.redirect_not_mem⟩
  · rw [htext]
    simp
  · rw [htext, List.forall_mem_append, List.forall_mem_cons]
    exact ⟨h.isSolid.2, rfl, h'.isSolid.2⟩

theorem toList_words (words : List String) :
    (" ".intercalate words).toList = [' '].intercalate (words.map String.toList) :=
  String.toList_intercalate

theorem map_ofList_toList (words : List String) :
    (words.map String.toList).map String.ofList = words := by
  rw [List.map_map]
  exact (List.map_congr_left fun word _ => String.ofList_toList).trans (List.map_id _)

/-- What is written with solid texts is one sub-command as it stands, unless a semicolon is in it. -/
theorem splitLine_solid {texts : List String} (hsolid : ∀ text ∈ texts, Text.IsSolid text.toList)
    (hsemicolon : ∀ text ∈ texts, ';' ∉ text.toList) (hne : texts ≠ []) :
    splitLine (" ".intercalate texts) = [" ".intercalate texts] := by
  have hmap := List.forall_mem_map.mpr hsolid
  have hnot : ';' ∉ (" ".intercalate texts).toList := by
    rw [toList_words]
    exact Text.not_mem_intercalate (by decide) (List.forall_mem_map.mpr hsemicolon)
  have htrim : Text.trim (" ".intercalate texts) = " ".intercalate texts := by
    rw [Text.trim, toList_words, Text.trimChars_intercalate hmap, ← toList_words,
      String.ofList_toList]
  have hwords : " ".intercalate texts ≠ "" := by
    intro hempty
    have hcs := Text.wordsFrom_intercalate hmap
    rw [← toList_words, hempty] at hcs
    exact hne (List.map_eq_nil_iff.mp hcs.symm)
  rw [splitLine_of_not_mem hnot, htrim, if_neg hwords]

section Words

variable {words : List String} (h : ∀ word ∈ words, IsWord word)
include h

theorem isSolid_of_mem_map : ∀ word ∈ words.map String.toList, Text.IsSolid word :=
  List.forall_mem_map.mpr fun word hword => (h word hword).isSolid

theorem redirect_not_mem_words : '>' ∉ (" ".intercalate words).toList := by
  rw [toList_words]
  exact Text.not_mem_intercalate (by decide)
    (List.forall_mem_map.mpr fun word hword => (h word hword).redirect_not_mem)

/-- A line that is written with words is one sub-command as it stands. -/
theorem splitLine_words (hne : words ≠ []) :
    splitLine (" ".intercalate words) = [" ".intercalate words] :=
  splitLine_solid (fun word hword => (h word hword).isSolid)
    (fun word hword => (h word hword).semicolon_not_mem) hne

end Words

/-- The words of a sub-command are those that it is written with. -/
theorem ofText_words {name : String} {args : List String}
    (h : ∀ word ∈ name :: args, IsWord word) :
    Words.ofText (" ".intercalate (name :: args)) = ⟨name, args, none⟩ := by
  have hwords : (Text.wordsFrom [] (" ".intercalate (name :: args)).toList).map String.ofList =
      name :: args := by
    rw [toList_words, Text.wordsFrom_intercalate (isSolid_of_mem_map h), map_ofList_toList]
  rw [Words.ofText, Text.cutAt_eq_none (redirect_not_mem_words h)]
  simp only [hwords]

/-! ### Built-in commands in a line -/

section Builtins

variable {limits : Script.Limits} {t : Tree}

theorem isWord_name (b : Builtin) : IsWord b.name := by
  cases b <;> exact ⟨by decide +kernel, by decide +kernel, by decide +kernel⟩

theorem ofName_name (b : Builtin) : Invocation.ofName b.name = .builtin b := by
  rw [Invocation.ofName, Builtin.ofName?_name]

theorem executeLine_of_splitLine {line part : String} (h : splitLine line = [part]) :
    executeLine limits line t =
      ([⟨part, (execute limits part t).1⟩], (execute limits part t).2) := by
  rw [executeLine, h, executeAll_cons, executeAll_nil]

/-- A line that names a command and gives it words runs the command with them. -/
theorem executeLine_builtin (b : Builtin) {args : List String} (h : ∀ word ∈ args, IsWord word) :
    executeLine limits (" ".intercalate (b.name :: args)) t =
      ([⟨" ".intercalate (b.name :: args), (runBuiltin b ⟨b.name, args, none⟩ t).1⟩],
        (runBuiltin b ⟨b.name, args, none⟩ t).2) := by
  have hwords : ∀ word ∈ b.name :: args, IsWord word := List.forall_mem_cons.mpr ⟨isWord_name b, h⟩
  have hexecute : execute limits (" ".intercalate (b.name :: args)) t =
      runBuiltin b ⟨b.name, args, none⟩ t := by
    rw [execute, ofText_words hwords]
    simp only [ofName_name]
  rw [executeLine_of_splitLine (splitLine_words hwords (List.cons_ne_nil _ _)), hexecute]

/-- A blank before a sub-command is nothing of it. -/
theorem executeLine_space {line : String} (h : ';' ∉ line.toList) :
    executeLine limits (" " ++ line) t = executeLine limits line t := by
  have hspace : ';' ∉ (" " ++ line).toList := by simpa using h
  rw [executeLine, executeLine, splitLine_of_not_mem hspace, splitLine_of_not_mem h,
    Text.trim_space]

end Builtins

/-! ### Changing directories -/

section Directories

variable {limits : Script.Limits} {t t' : Tree} {word word' : String}

theorem intercalate_cd (word : String) :
    " ".intercalate [Builtin.cd.name, word] = "cd " ++ word := by
  simp [Builtin.name]

theorem executeLine_cd (h : IsWord word) :
    executeLine limits ("cd " ++ word) t =
      ([⟨"cd " ++ word, (cd [word] t).1⟩], (cd [word] t).2) := by
  rw [← intercalate_cd, executeLine_builtin .cd (List.forall_mem_singleton.mpr h)]
  rfl

theorem executeLine_cd_cd (h : IsWord word) (h' : IsWord word') :
    executeLine limits ("cd " ++ word ++ "; cd " ++ word') t =
      ([⟨"cd " ++ word, (cd [word] t).1⟩, ⟨"cd " ++ word', (cd [word'] (cd [word] t).2).1⟩],
        (cd [word'] (cd [word] t).2).2) := by
  have hlines : "cd " ++ word ++ "; cd " ++ word' =
      "cd " ++ word ++ ";" ++ (" " ++ ("cd " ++ word')) := by
    simp [← String.toList_inj]
  have hsemicolon : ';' ∉ ("cd " ++ word').toList := by simpa using h'.semicolon_not_mem
  rw [hlines, executeLine_append, executeLine_cd h]
  dsimp only
  rw [executeLine_space hsemicolon, executeLine_cd h', List.singleton_append]

/-- To change to a directory succeeds exactly if there is one, and then nothing else changes. -/
theorem cd_eq_silent_iff : cd [word] t = (.silent, t') ↔
    t.kind? (t.resolve word) = some .directory ∧ t' = { t with currentDir := t.resolve word } := by
  have hcd : cd [word] t =
      Effect.ofChange t (t.changeDirectory (t.resolve word)) fun _ => .noDirectory word := rfl
  rw [hcd, Tree.changeDirectory]
  cases t.kind? (t.resolve word) with
  | none => exact ⟨nofun, nofun⟩
  | some kind =>
    cases kind with
    | file => exact ⟨nofun, nofun⟩
    | directory =>
      constructor
      · intro h
        exact ⟨rfl, (congrArg Prod.snd h).symm⟩
      · rintro ⟨-, rfl⟩
        rfl

/-- To change to a directory and from there to another is to change to the two in one. -/
theorem cd_slash {there : Tree} (hne : word ≠ "") (hrest : word'.toList.head? ≠ some '/')
    (h : cd [word] t = (.silent, there)) (h' : cd [word'] there = (.silent, t')) :
    cd [word ++ "/" ++ word'] t = (.silent, t') := by
  obtain ⟨-, rfl⟩ := cd_eq_silent_iff.mp h
  obtain ⟨hkind, rfl⟩ := cd_eq_silent_iff.mp h'
  have hresolve : t.resolve (word ++ "/" ++ word') =
      Tree.resolve { t with currentDir := t.resolve word } word' :=
    Path.normalize_slash hne hrest t.currentDir
  rw [cd_eq_silent_iff, hresolve]
  exact ⟨hkind, rfl⟩

end Directories

/-- **Paths resolve in parts.**  What goes on behind a slash resolves as it does seen from what
    comes before the slash.  So wherever one can change to a directory and from there to another,
    one can change to the two with a slash between them, and ends in the same place. -/
theorem resolve_in_parts :
    (∀ path rest base, path ≠ "" → rest.toList.head? ≠ some '/' →
      Path.normalize (path ++ "/" ++ rest) base = Path.normalize rest (Path.normalize path base)) ∧
    ∀ limits t t' word word', IsWord word → IsWord word' → word'.toList.head? ≠ some '/' →
      executeLine limits ("cd " ++ word ++ "; cd " ++ word') t =
        ([⟨"cd " ++ word, .silent⟩, ⟨"cd " ++ word', .silent⟩], t') →
      executeLine limits ("cd " ++ word ++ "/" ++ word') t =
        ([⟨"cd " ++ word ++ "/" ++ word', .silent⟩], t') := by
  refine ⟨fun path rest base h hrest => Path.normalize_slash h hrest base, ?_⟩
  intro limits t t' word word' hword hword' hrest hboth
  have hthere : "cd " ++ word ++ "/" ++ word' = "cd " ++ (word ++ "/" ++ word') := by
    rw [String.append_assoc, String.append_assoc, String.append_assoc]
  rw [executeLine_cd_cd hword hword'] at hboth
  obtain ⟨hresults, htree⟩ := Prod.mk.inj hboth
  obtain ⟨hfirst, hsecond⟩ := List.cons.inj hresults
  have hcd : cd [word] t = (.silent, (cd [word] t).2) := Prod.ext (Executed.mk.inj hfirst).2 rfl
  have hcd' : cd [word'] (cd [word] t).2 = (.silent, t') :=
    Prod.ext (Executed.mk.inj (List.head_eq_of_cons_eq hsecond)).2 htree
  rw [hthere, executeLine_cd (isWord_slash hword hword'), cd_slash hword.ne_empty hrest hcd hcd']

/-- Two directories beside each other, and a current directory inside the first. -/
def neighbours : Tree where
  entries := .ofList [("/", .directory ["a", "ab"]), ("/a", .directory ["b"]),
    ("/a/b", .directory []), ("/ab", .directory [])]
  currentDir := "/a/b"

/-- Up past the root, and from there down into the other directory. -/
theorem resolve_in_parts_neighbours :
    IsWord "../../.." ∧ IsWord "./ab" ∧
      executeLine {} ("cd " ++ "../../.." ++ "; cd " ++ "./ab") neighbours =
        ([⟨"cd " ++ "../../..", .silent⟩, ⟨"cd " ++ "./ab", .silent⟩],
          { neighbours with currentDir := "/ab" }) ∧
      executeLine {} ("cd " ++ "../../.." ++ "/" ++ "./ab") neighbours =
        ([⟨"cd " ++ "../../.." ++ "/" ++ "./ab", .silent⟩],
          { neighbours with currentDir := "/ab" }) := by
  have hword : IsWord "../../.." := ⟨by decide +kernel, by decide +kernel, by decide +kernel⟩
  have hword' : IsWord "./ab" := ⟨by decide +kernel, by decide +kernel, by decide +kernel⟩
  have hrest : "./ab".toList.head? ≠ some '/' := by decide +kernel
  have hup : cd ["../../.."] neighbours = (.silent, { neighbours with currentDir := "/" }) := by rfl
  have hdown : cd ["./ab"] { neighbours with currentDir := "/" } =
      (.silent, { neighbours with currentDir := "/ab" }) := by rfl
  have hboth : executeLine {} ("cd " ++ "../../.." ++ "; cd " ++ "./ab") neighbours =
      ([⟨"cd " ++ "../../..", .silent⟩, ⟨"cd " ++ "./ab", .silent⟩],
        { neighbours with currentDir := "/ab" }) := by
    rw [executeLine_cd_cd hword hword', hup, hdown]
  exact ⟨hword, hword', hboth, resolve_in_parts.2 _ _ _ _ _ hword hword' hrest hboth⟩

end MemoryShell.Command
