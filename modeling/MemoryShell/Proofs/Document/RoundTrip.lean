/-
  MemoryShell/Proofs/Document/RoundTrip.lean
  ==========================================
  **Reading a document from its own text.**

  A document that is written with nothing but white space between its parts reads back as itself, as
  long as its arrays and objects nest no deeper than a reader goes.  One that nests deeper is not
  read, and that is all that can go wrong: so reading is followed part by part with both outcomes at
  once, the good one under a condition that the parts add up to.

  Numbers are left out.  What they are read as depends on the arithmetic of doubles.
-/
import MemoryShell.Document.Printer
import MemoryShell.Document.Reader
import Mathlib.Tactic.IntervalCases

namespace MemoryShell.Document

/-! ### Heights, and documents without numbers -/

mutual

/-- How many levels a document has, what holds nothing being `leaf` of them. -/
def height (leaf : Nat) : Document → Nat
  | .null | .bool _ | .number _ | .string _ => leaf
  | .array items => itemsHeight leaf items + 1
  | .object members => membersHeight leaf members + 1

def itemsHeight (leaf : Nat) : List Document → Nat
  | [] => 0
  | d :: rest => max (height leaf d) (itemsHeight leaf rest)

def membersHeight (leaf : Nat) : List (String × Document) → Nat
  | [] => 0
  | (_, d) :: rest => max (height leaf d) (membersHeight leaf rest)

end

/-- How many levels a document has in all. -/
def levels : Document → Nat := height 1

/-- How deep arrays and objects nest in a document. -/
def nesting : Document → Nat := height 0

mutual

/-- A document without numbers in which no object has two members of one name. -/
def Plain : Document → Prop
  | .null | .bool _ | .string _ => True
  | .number _ => False
  | .array items => ItemsPlain items
  | .object members => (members.map Prod.fst).Nodup ∧ MembersPlain members

def ItemsPlain : List Document → Prop
  | [] => True
  | d :: rest => d.Plain ∧ ItemsPlain rest

def MembersPlain : List (String × Document) → Prop
  | [] => True
  | (_, d) :: rest => d.Plain ∧ MembersPlain rest

end

/-! ### Readings with two outcomes -/

/-- Where a text stands, `read` gives `a` and goes on behind the text if a condition holds; if not,
    it stops because something nests too deep. -/
structure Gives {α : Type} (condition : Prop) (read : Read α) (text : List Char) (a : α) :
    Prop where
  reads : condition → ∀ rest, read (text ++ rest) = .ok (a, rest)
  stops : ¬ condition → ∀ rest, ∃ stop, read (text ++ rest) = .error stop ∧ stop.cause = .tooDeep

namespace Gives

open Read

variable {α β : Type} {P Q : Prop} {read : Read α} {f : α → Read β} {text text' : List Char}
  {a : α} {b : β} {c : Char}

theorem of_ok (h : ∀ rest, read (text ++ rest) = .ok (a, rest)) : Gives True read text a :=
  ⟨fun _ => h, fun hnot => absurd trivial hnot⟩

theorem congr (h : Gives P read text a) (hPQ : P ↔ Q) : Gives Q read text a :=
  ⟨fun hQ => h.reads (hPQ.mpr hQ), fun hQ => h.stops (mt hPQ.mp hQ)⟩

/-- A reading that does with some text what another one does with another text. -/
theorem step {read' : Read α} (h : Gives P read' text' a)
    (heq : ∀ rest, read (text ++ rest) = read' (text' ++ rest)) : Gives P read text a :=
  ⟨fun hP rest => (heq rest).trans (h.reads hP rest), fun hP rest => by
    rw [heq rest]
    exact h.stops hP rest⟩

theorem pure (a : α) : Gives True (Pure.pure a : Read α) [] a := of_ok fun _ => rfl

theorem bind (h : Gives P read text a) (hf : Gives Q (f a) text' b) :
    Gives (P ∧ Q) (read >>= f) (text ++ text') b := by
  constructor
  · rintro ⟨hP, hQ⟩ rest
    rw [List.append_assoc]
    change (read (text ++ (text' ++ rest)) >>= fun (a, text) => f a text) = _
    rw [h.reads hP]
    exact hf.reads hQ rest
  · intro hnot rest
    rw [List.append_assoc]
    change ∃ stop, (read (text ++ (text' ++ rest)) >>= fun (a, text) => f a text) = _ ∧ _
    by_cases hP : P
    · rw [h.reads hP]
      exact hf.stops (fun hQ => hnot ⟨hP, hQ⟩) rest
    · obtain ⟨stop, hstop, hcause⟩ := h.stops hP (text' ++ rest)
      rw [hstop]
      exact ⟨stop, rfl, hcause⟩

/-- What is read is put into something else. -/
theorem map (h : Gives P read text a) (g : α → β) :
    Gives P (read >>= fun a => Pure.pure (g a)) text (g a) := by
  have hbind : Gives (P ∧ True) (read >>= fun a => Pure.pure (g a)) (text ++ []) (g a) :=
    h.bind (pure (g a))
  rw [List.append_nil] at hbind
  exact hbind.congr (and_iff_left trivial)

theorem skip {f : Unit → Read β} (h : Gives P (f ()) text b) :
    Gives P (Read.skip >>= f) (c :: text) b := h.step fun _ => rfl

/-- The next character behind white space is looked at. -/
theorem next {cause : ReadCause} {f : Char → Read β} {space : List Char}
    (hspace : ∀ s ∈ space, isSpace s = true) (hc : isSpace c = false)
    (h : Gives P (f c) (c :: text) b) :
    Gives P (nextOr cause >>= f) (space ++ c :: text) b := by
  refine h.step fun rest => ?_
  have hskip : ((space ++ c :: text) ++ rest).dropWhile isSpace = c :: text ++ rest := by
    rw [List.append_assoc, List.dropWhile_append_of_pos hspace]
    exact List.dropWhile_cons_of_neg (Bool.eq_false_iff.mp hc)
  have hnext : nextOr cause ((space ++ c :: text) ++ rest) = .ok (c, c :: text ++ rest) := by
    change peekOr cause (((space ++ c :: text) ++ rest).dropWhile isSpace) = _
    rw [hskip]
    rfl
  change (nextOr cause ((space ++ c :: text) ++ rest) >>= fun (a, text) => f a text) = _
  rw [hnext]
  rfl

end Gives

namespace Read

/-! ### Words and strings -/

theorem gives_word (w : List Char) : Gives True (word w) w () := by
  refine .of_ok fun rest => ?_
  induction w with
  | nil => rfl
  | cons c w ih =>
    change (if c = c then (skip >>= fun _ => word w : Read Unit) else failAhead .wordExpected 1)
      (c :: w ++ rest) = _
    rw [if_pos rfl]
    exact ih

theorem hexWord_hexPair {n : Nat} (hn : n < 32) (rest : List Char) :
    hexWord ('0' :: '0' :: (hexPair n ++ rest)) = .ok (n, rest) := by
  interval_cases n <;> rfl

/-- A control character is read back from its number. -/
theorem escape_control {c : Char} (hc : c.toNat < 32) (rest : List Char) :
    escape ('u' :: '0' :: '0' :: (hexPair c.toNat ++ rest)) = .ok (c, rest) := by
  have hword := hexWord_hexPair hc rest
  have htrailing : isTrailing c.toNat = false := by
    rw [isTrailing, decide_eq_false (by omega), Bool.false_and]
  have hleading : isLeading c.toNat = false := by
    rw [isLeading, decide_eq_false (by omega), Bool.false_and]
  change hexEscape ('0' :: '0' :: (hexPair c.toNat ++ rest)) = _
  unfold hexEscape
  change (hexWord ('0' :: '0' :: (hexPair c.toNat ++ rest)) >>= fun (_, _) => _) = _
  rw [hword]
  change (if isTrailing c.toNat then fail .loneSurrogate else if isLeading c.toNat then _ else
    Pure.pure (Char.ofNat c.toNat) : Read Char) rest = _
  rw [htrailing, hleading, Char.ofNat_toNat]
  rfl

theorem stringFrom_escapeChar (left : Nat) (acc : List Char) (c : Char) (rest : List Char) :
    stringFrom (left + 1) acc (escapeChar c ++ rest) = stringFrom left (c :: acc) rest := by
  unfold escapeChar
  split_ifs with hquote hback hline hreturn htab hbell hfeed hcontrol
  · rw [hquote]; rfl
  · rw [hback]; rfl
  · rw [hline]; rfl
  · rw [hreturn]; rfl
  · rw [htab]; rfl
  · rw [hbell]; rfl
  · rw [hfeed]; rfl
  · change (escape >>= fun e => stringFrom left (e :: acc) : Read String)
      ('u' :: '0' :: '0' :: (hexPair c.toNat ++ rest)) = _
    change (escape ('u' :: '0' :: '0' :: (hexPair c.toNat ++ rest)) >>= fun (e, text) =>
      stringFrom left (e :: acc) text) = _
    rw [escape_control hcontrol]
    rfl
  · change (if c = '"' then _ else if c = '\\' then _ else if c.toNat < 32 then _ else
      (skip >>= fun _ => stringFrom left (c :: acc)) : Read String) (c :: rest) = _
    rw [if_neg hquote, if_neg hback, if_neg hcontrol]
    rfl

theorem gives_stringFrom {left : Nat} {acc cs : List Char} (hleft : cs.length < left) :
    Gives True (stringFrom left acc) (cs.flatMap escapeChar ++ ['"'])
      (String.ofList (acc.reverse ++ cs)) := by
  refine .of_ok fun rest => ?_
  induction cs generalizing left acc with
  | nil =>
    obtain _ | left := left
    · exact absurd hleft (Nat.not_lt_zero _)
    rw [List.append_nil]
    rfl
  | cons c cs ih =>
    obtain _ | left := left
    · exact absurd hleft (Nat.not_lt_zero _)
    rw [List.flatMap_cons, List.append_assoc, List.append_assoc, stringFrom_escapeChar,
      ← List.append_assoc, ih (Nat.lt_of_succ_lt_succ hleft), List.reverse_cons, List.append_assoc]
    rfl

/-- A string has its quotes around its characters. -/
theorem length_stringText (s : String) : s.toList.length + 1 < (stringText s).length := by
  have hchars : ∀ cs : List Char, cs.length ≤ (cs.flatMap escapeChar).length := by
    intro cs
    induction cs with
    | nil => exact Nat.zero_le _
    | cons c cs ih =>
      have hne : 0 < (escapeChar c).length := by
        unfold escapeChar
        split_ifs <;> exact Nat.succ_pos _
      rw [List.flatMap_cons, List.length_append, List.length_cons]
      omega
  have hs := hchars s.toList
  rw [stringText, List.cons_append, List.length_cons, List.length_append, List.length_singleton]
  omega

theorem gives_string {turns : Nat} {s : String} (hturns : s.toList.length < turns) :
    Gives True (string turns) (s.toList.flatMap escapeChar ++ ['"']) s := by
  have hgives : Gives True (stringFrom turns []) (s.toList.flatMap escapeChar ++ ['"'])
      (String.ofList ([].reverse ++ s.toList)) := gives_stringFrom hturns
  rw [List.reverse_nil, List.nil_append, String.ofList_toList] at hgives
  exact hgives

/-! ### Arrays and objects -/

section Parts

variable {P Q : Prop} {turns left : Nat} {item : Read Document} {space t tail : List Char}
  {d : Document} {ds : List Document} {name : String} {m : String × Document}
  {ms : List (String × Document)}

/-- A text that begins with neither white space nor the mark behind an array. -/
def Starts (text : List Char) : Prop :=
  ∃ c cs, text = c :: cs ∧ isSpace c = false ∧ c ≠ ']'

theorem gives_itemsFrom_nil (hspace : ∀ s ∈ space, isSpace s = true) :
    Gives True (itemsFrom item (left + 1)) (space ++ [']']) [] :=
  .next hspace rfl (.skip (.pure []))

theorem gives_itemsFrom_cons (hspace : ∀ s ∈ space, isSpace s = true) (ht : Starts t)
    (hd : Gives P item t d) (hds : Gives Q (itemsFrom item left) tail ds) :
    Gives (P ∧ Q) (itemsFrom item (left + 1)) (',' :: (space ++ (t ++ tail))) (d :: ds) := by
  obtain ⟨c, cs, rfl, hc, hne⟩ := ht
  have hcomma : ∀ s ∈ ([] : List Char), isSpace s = true := nofun
  refine Gives.next (c := ',') hcomma rfl (.skip (.next hspace hc ?_))
  rw [if_neg hne]
  exact hd.bind (hds.map (d :: ·))

theorem gives_items_nil : Gives True (items turns item) [']'] [] := by
  have hnone : ∀ s ∈ ([] : List Char), isSpace s = true := nofun
  exact Gives.next (c := ']') hnone rfl (.skip (.pure []))

theorem gives_items_cons (hspace : ∀ s ∈ space, isSpace s = true) (ht : Starts t)
    (hd : Gives P item t d) (hds : Gives Q (itemsFrom item turns) tail ds) :
    Gives (P ∧ Q) (items turns item) (space ++ (t ++ tail)) (d :: ds) := by
  obtain ⟨c, cs, rfl, hc, hne⟩ := ht
  refine Gives.next hspace hc ?_
  rw [if_neg hne]
  exact hd.bind (hds.map (d :: ·))

theorem gives_member (hturns : name.toList.length < turns) (hd : Gives P item t d) :
    Gives P (member turns item) (stringText name ++ (':' :: t)) (name, d) := by
  have hnone : ∀ s ∈ ([] : List Char), isSpace s = true := nofun
  have hvalue : Gives P (nextOr .objectEnds >>= fun c => if c = ':' then skip >>= fun _ =>
      item >>= fun d => Pure.pure (name, d) else failAtNext .colonExpected) (':' :: t) (name, d) :=
    Gives.next (c := ':') hnone rfl (.skip (hd.map fun d => (name, d)))
  have hmember : Gives (True ∧ P) (member turns item)
      ('"' :: (name.toList.flatMap escapeChar ++ ['"'] ++ ':' :: t)) (name, d) :=
    .skip (.bind (gives_string hturns) hvalue)
  exact hmember.congr (and_iff_right trivial)

theorem gives_membersFrom_nil (hspace : ∀ s ∈ space, isSpace s = true) :
    Gives True (membersFrom turns item (left + 1)) (space ++ ['\x7d']) [] :=
  .next hspace rfl (.skip (.pure []))

theorem gives_membersFrom_cons (hspace : ∀ s ∈ space, isSpace s = true)
    (hm : Gives P (member turns item) (stringText name ++ t) m)
    (hms : Gives Q (membersFrom turns item left) tail ms) :
    Gives (P ∧ Q) (membersFrom turns item (left + 1))
      (',' :: (space ++ (stringText name ++ t ++ tail))) (m :: ms) := by
  have hcomma : ∀ s ∈ ([] : List Char), isSpace s = true := nofun
  refine Gives.next (c := ',') hcomma rfl (.skip (.next hspace (c := '"') rfl ?_))
  exact hm.bind (hms.map (m :: ·))

theorem gives_members_nil : Gives True (members turns item) ['\x7d'] [] := by
  have hnone : ∀ s ∈ ([] : List Char), isSpace s = true := nofun
  exact Gives.next (c := '\x7d') hnone rfl (.skip (.pure []))

theorem gives_members_cons (hspace : ∀ s ∈ space, isSpace s = true)
    (hm : Gives P (member turns item) (stringText name ++ t) m)
    (hms : Gives Q (membersFrom turns item turns) tail ms) :
    Gives (P ∧ Q) (members turns item) (space ++ (stringText name ++ t ++ tail)) (m :: ms) := by
  refine Gives.next hspace (c := '"') rfl ?_
  exact hm.bind (hms.map (m :: ·))

end Parts

end Read

/-! ### Layouts of white space -/

namespace Layout

/-- A layout that sets items apart by white space alone. -/
def Blank : Layout → Prop
  | .compact => True
  | .lines indent => ∀ s ∈ indent, Read.isSpace s = true

variable {layout : Layout} {opening closing : Char} {depth : Nat} {t : List Char}
  {ts : List (List Char)}

theorem Blank.newline (h : layout.Blank) (depth : Nat) :
    ∀ s ∈ layout.newline depth, Read.isSpace s = true := by
  cases layout with
  | compact => nofun
  | lines indent =>
    intro s hs
    rcases List.mem_cons.mp hs with rfl | hs
    · rfl
    · obtain ⟨copy, hcopy, hs⟩ := List.mem_flatten.mp hs
      rw [List.eq_of_mem_replicate hcopy] at hs
      exact h s hs

theorem colon_eq (layout : Layout) :
    ∃ space, layout.colon = ':' :: space ∧ ∀ s ∈ space, Read.isSpace s = true := by
  cases layout with
  | compact => exact ⟨[], rfl, nofun⟩
  | lines indent => exact ⟨[' '], rfl, fun s hs => by rw [List.mem_singleton.mp hs]; rfl⟩

/-- Items behind the first one, each behind a comma. -/
def more (layout : Layout) (depth : Nat) (ts : List (List Char)) : List Char :=
  ts.flatMap fun t => ',' :: (layout.newline (depth + 1) ++ t)

theorem intercalate_cons (sep t : List Char) (ts : List (List Char)) :
    sep.intercalate (t :: ts) = t ++ ts.flatMap (sep ++ ·) := by
  induction ts generalizing t with
  | nil => simp [List.intercalate]
  | cons u us ih =>
    rw [List.intercalate_cons_cons, ih, List.flatMap_cons, List.append_assoc, List.append_assoc]

theorem enclose_cons :
    layout.enclose opening closing depth (t :: ts) =
      opening :: (layout.newline (depth + 1) ++
        (t ++ (layout.more depth ts ++ (layout.newline depth ++ [closing])))) := by
  rw [enclose, if_neg nofun, intercalate_cons]
  simp only [more, List.cons_append, List.append_assoc]

theorem more_cons (tail : List Char) :
    layout.more depth (t :: ts) ++ tail =
      ',' :: (layout.newline (depth + 1) ++ (t ++ (layout.more depth ts ++ tail))) := by
  simp only [more, List.flatMap_cons, List.cons_append, List.append_assoc]

theorem length_le_more (h : t ∈ ts) : t.length ≤ (layout.more depth ts).length := by
  induction ts with
  | nil => cases h
  | cons u us ih =>
    rw [more, List.flatMap_cons, List.length_append, List.length_cons, List.length_append]
    rcases List.mem_cons.mp h with rfl | h
    · omega
    · exact Nat.le_trans (ih h) (Nat.le_add_left _ _)

theorem length_le_length_more : ts.length ≤ (layout.more depth ts).length := by
  induction ts with
  | nil => exact Nat.zero_le _
  | cons u us ih =>
    rw [more, List.flatMap_cons, List.length_append, List.length_cons, List.length_cons]
    unfold more at ih
    omega

/-- What bounds a text bounds the items that it encloses, and how many they are. -/
theorem lengths_of_enclose {turns : Nat}
    (h : (layout.enclose opening closing depth ts).length < turns) :
    (∀ t ∈ ts, t.length < turns) ∧ ts.length < turns := by
  cases ts with
  | nil => exact ⟨nofun, Nat.lt_of_le_of_lt (Nat.zero_le _) h⟩
  | cons u us =>
    rw [enclose_cons] at h
    simp only [List.length_cons, List.length_append, List.length_nil] at h
    have hmore : us.length ≤ (layout.more depth us).length := length_le_length_more
    refine ⟨fun t ht => ?_, by rw [List.length_cons]; omega⟩
    rcases List.mem_cons.mp ht with rfl | ht
    · omega
    · have ht : t.length ≤ (layout.more depth us).length := length_le_more ht
      omega

end Layout

/-! ### Documents -/

section Documents

open Read

variable {layout : Layout} {turns : Nat}

theorem starts_textAt {d : Document} (h : d.Plain) (depth : Nat) :
    Starts (textAt layout depth d) := by
  cases d with
  | null => exact ⟨'n', _, rfl, rfl, by decide⟩
  | bool b => cases b <;> exact ⟨_, _, rfl, rfl, by decide⟩
  | number x => exact h.elim
  | string s => exact ⟨'"', _, rfl, rfl, by decide⟩
  | array items =>
    rw [textAt]
    cases itemTexts layout (depth + 1) items with
    | nil => exact ⟨'[', _, rfl, rfl, by decide⟩
    | cons t ts => exact ⟨'[', _, Layout.enclose_cons, rfl, by decide⟩
  | object members =>
    rw [textAt]
    cases memberTexts layout (depth + 1) members with
    | nil => exact ⟨'\x7b', _, rfl, rfl, by decide⟩
    | cons t ts => exact ⟨'\x7b', _, Layout.enclose_cons, rfl, by decide⟩

theorem length_itemTexts (depth : Nat) (ds : List Document) :
    (itemTexts layout depth ds).length = ds.length := by
  induction ds with
  | nil => rfl
  | cons d ds ih => rw [itemTexts, List.length_cons, ih, List.length_cons]

theorem length_memberTexts (depth : Nat) (ms : List (String × Document)) :
    (memberTexts layout depth ms).length = ms.length := by
  induction ms with
  | nil => rfl
  | cons m ms ih => rw [memberTexts, List.length_cons, ih, List.length_cons]

/-- White space before a value makes no difference. -/
theorem gives_value_space {P : Prop} {levels : Nat} {space t : List Char} {d : Document}
    (hspace : ∀ s ∈ space, isSpace s = true) (h : Gives P (value turns levels) t d) :
    Gives P (value turns levels) (space ++ t) d := by
  refine h.step fun rest => ?_
  have hnext : nextOr .valueEnds (space ++ t ++ rest) = nextOr .valueEnds (t ++ rest) := by
    change peekOr .valueEnds ((space ++ t ++ rest).dropWhile isSpace) =
      peekOr .valueEnds ((t ++ rest).dropWhile isSpace)
    rw [List.append_assoc, List.dropWhile_append_of_pos hspace]
  cases levels with
  | zero =>
    change (nextOr .valueEnds (space ++ t ++ rest) >>= _) =
      (nextOr .valueEnds (t ++ rest) >>= _)
    rw [hnext]
  | succ levels =>
    change (nextOr .valueEnds (space ++ t ++ rest) >>= _) =
      (nextOr .valueEnds (t ++ rest) >>= _)
    rw [hnext]

theorem gives_valueOf_word {nested : Option (Read Document)} {c : Char} {cs : List Char}
    {d : Document} (hword : ∀ rest, valueOf turns nested (c :: cs ++ rest) =
      (word (c :: cs) >>= fun _ => pure d : Read Document) (c :: cs ++ rest)) :
    Gives True (valueOf turns nested) (c :: cs) d :=
  ((gives_word (c :: cs)).map fun _ => d).step hword

theorem gives_valueOf_string {nested : Option (Read Document)} {s : String}
    (hturns : (stringText s).length < turns) :
    Gives True (valueOf turns nested) (stringText s) (.string s) := by
  have hnone : ∀ s ∈ ([] : List Char), isSpace s = true := nofun
  have hs := gives_string (Nat.lt_trans (Nat.lt_of_succ_lt (length_stringText s)) hturns)
  have hquoted : Gives True (valueOf turns nested)
      ('"' :: (s.toList.flatMap escapeChar ++ ['"'])) (.string s) :=
    Gives.next (c := '"') hnone rfl (.skip (hs.map Document.string))
  exact hquoted

/-- A value that holds no other values. -/
theorem gives_value_of_leaf {levels : Nat} {text : List Char} {d : Document}
    (hd : d.nesting = 0) (h : ∀ nested, Gives True (valueOf turns nested) text d) :
    Gives (d.nesting ≤ levels) (value turns levels) text d := by
  refine Gives.congr ?_ (iff_of_true trivial (hd.trans_le (Nat.zero_le levels)))
  cases levels with
  | zero => exact h none
  | succ levels => exact h (some (value turns levels))

theorem gives_array {P : Prop} {levels : Nat} {text : List Char} {ds : List Document}
    (h : Gives P (items turns (value turns levels)) text ds) :
    Gives P (value turns (levels + 1)) ('[' :: text) (.array ds) := by
  have hnone : ∀ s ∈ ([] : List Char), isSpace s = true := nofun
  exact Gives.next (c := '[') hnone rfl (.skip (h.map Document.array))

theorem gives_object {P : Prop} {levels : Nat} {text : List Char}
    {ms : List (String × Document)} (h : Gives P (members turns (value turns levels)) text ms) :
    Gives P (value turns (levels + 1)) ('\x7b' :: text) (.object ms) := by
  have hnone : ∀ s ∈ ([] : List Char), isSpace s = true := nofun
  exact Gives.next (c := '\x7b') hnone rfl (.skip (h.map Document.object))

/-- Where no level is left, arrays and objects are not read. -/
theorem gives_value_zero {text : List Char} {d : Document} {n : Nat}
    (h : ∃ cs, text = '[' :: cs ∨ text = '\x7b' :: cs) :
    Gives (n + 1 ≤ 0) (value turns 0) text d := by
  refine ⟨fun h => absurd h (Nat.not_succ_le_zero n), fun _ rest => ?_⟩
  obtain ⟨cs, rfl | rfl⟩ := h
  · exact ⟨_, rfl, rfl⟩
  · exact ⟨_, rfl, rfl⟩

/-- A member of an object, if its value is read. -/
theorem gives_memberText {name : String} {d : Document} {levels depth : Nat}
    (hturns : (stringText name ++ layout.colon ++ textAt layout depth d).length < turns)
    (h : (textAt layout depth d).length < turns →
      Gives (d.nesting ≤ levels) (value turns levels) (textAt layout depth d) d) :
    Gives (d.nesting ≤ levels) (member turns (value turns levels))
      (stringText name ++ (layout.colon ++ textAt layout depth d)) (name, d) := by
  rw [List.length_append, List.length_append] at hturns
  have hname := length_stringText name
  obtain ⟨space, hcolon, hspace⟩ := layout.colon_eq
  rw [hcolon]
  exact gives_member (by omega) (gives_value_space hspace (h (by omega)))

variable (hlayout : layout.Blank)
include hlayout

mutual

/-- **A document is read from its text, and its text goes no further, exactly if it nests no deeper
    than there are levels.**  Otherwise the reading stops because something nests too deep. -/
theorem gives_textAt (levels depth : Nat) : (d : Document) → d.Plain →
    (textAt layout depth d).length < turns →
    Gives (d.nesting ≤ levels) (value turns levels) (textAt layout depth d) d
  | .null, _, _ => gives_value_of_leaf rfl fun nested => gives_valueOf_word fun rest => by rfl
  | .bool true, _, _ => gives_value_of_leaf rfl fun nested => gives_valueOf_word fun rest => by rfl
  | .bool false, _, _ => gives_value_of_leaf rfl fun nested => gives_valueOf_word fun rest => by rfl
  | .string s, _, hturns => by
    rw [textAt] at hturns ⊢
    exact gives_value_of_leaf rfl fun nested => gives_valueOf_string hturns
  | .array [], _, _ => by
    cases levels with
    | zero => exact gives_value_zero ⟨_, .inl rfl⟩
    | succ levels =>
      exact (gives_array gives_items_nil).congr
        (iff_of_true trivial (Nat.succ_le_succ (Nat.zero_le levels)))
  | .array (d :: ds), h, hturns => by
    rw [textAt] at hturns ⊢
    obtain ⟨hlengths, hcount⟩ := Layout.lengths_of_enclose hturns
    obtain ⟨hd, hds⟩ := List.forall_mem_cons.mp hlengths
    rw [length_itemTexts] at hcount
    rw [itemTexts, Layout.enclose_cons]
    cases levels with
    | zero => exact gives_value_zero ⟨_, .inl rfl⟩
    | succ levels =>
      have hfirst := gives_textAt levels (depth + 1) d h.1 hd
      have hrest := gives_more_items levels depth turns ds h.2 hds (Nat.lt_of_succ_lt hcount)
      have hitems := gives_items_cons (hlayout.newline (depth + 1))
        (starts_textAt h.1 (depth + 1)) hfirst hrest
      refine (gives_array hitems).congr ?_
      rw [nesting, height, itemsHeight, Nat.succ_le_succ_iff, Nat.max_le]
  | .object [], _, _ => by
    cases levels with
    | zero => exact gives_value_zero ⟨_, .inr rfl⟩
    | succ levels =>
      exact (gives_object gives_members_nil).congr
        (iff_of_true trivial (Nat.succ_le_succ (Nat.zero_le levels)))
  | .object ((name, d) :: ms), h, hturns => by
    rw [textAt] at hturns ⊢
    obtain ⟨hlengths, hcount⟩ := Layout.lengths_of_enclose hturns
    obtain ⟨hd, hms⟩ := List.forall_mem_cons.mp hlengths
    rw [length_memberTexts] at hcount
    rw [memberTexts, List.append_assoc, Layout.enclose_cons]
    cases levels with
    | zero => exact gives_value_zero ⟨_, .inr rfl⟩
    | succ levels =>
      have hfirst := gives_memberText hd (gives_textAt levels (depth + 1) d h.2.1)
      have hrest := gives_more_members levels depth turns ms h.2.2 hms (Nat.lt_of_succ_lt hcount)
      have hmembers := gives_members_cons (hlayout.newline (depth + 1)) hfirst hrest
      refine (gives_object hmembers).congr ?_
      rw [nesting, height, membersHeight, Nat.succ_le_succ_iff, Nat.max_le]

theorem gives_more_items (levels depth left : Nat) : (ds : List Document) → ItemsPlain ds →
    (∀ t ∈ itemTexts layout (depth + 1) ds, t.length < turns) → ds.length < left →
    Gives (itemsHeight 0 ds ≤ levels) (itemsFrom (value turns levels) left)
      (layout.more depth (itemTexts layout (depth + 1) ds) ++ (layout.newline depth ++ [']'])) ds
  | [], _, _, hleft => by
    obtain _ | left := left
    · exact absurd hleft (Nat.not_lt_zero _)
    exact (gives_itemsFrom_nil (hlayout.newline depth)).congr
      (iff_of_true trivial (Nat.zero_le levels))
  | d :: ds, h, hturns, hleft => by
    obtain _ | left := left
    · exact absurd hleft (Nat.not_lt_zero _)
    obtain ⟨hd, hds⟩ := List.forall_mem_cons.mp hturns
    have hfirst := gives_textAt levels (depth + 1) d h.1 hd
    have hrest := gives_more_items levels depth left ds h.2 hds (Nat.lt_of_succ_lt_succ hleft)
    have hitems := gives_itemsFrom_cons (hlayout.newline (depth + 1))
      (starts_textAt h.1 (depth + 1)) hfirst hrest
    rw [itemTexts, Layout.more_cons]
    refine hitems.congr ?_
    rw [nesting, itemsHeight, Nat.max_le]

theorem gives_more_members (levels depth left : Nat) : (ms : List (String × Document)) →
    MembersPlain ms → (∀ t ∈ memberTexts layout (depth + 1) ms, t.length < turns) →
    ms.length < left →
    Gives (membersHeight 0 ms ≤ levels) (membersFrom turns (value turns levels) left)
      (layout.more depth (memberTexts layout (depth + 1) ms) ++
        (layout.newline depth ++ ['\x7d'])) ms
  | [], _, _, hleft => by
    obtain _ | left := left
    · exact absurd hleft (Nat.not_lt_zero _)
    exact (gives_membersFrom_nil (hlayout.newline depth)).congr
      (iff_of_true trivial (Nat.zero_le levels))
  | (name, d) :: ms, h, hturns, hleft => by
    obtain _ | left := left
    · exact absurd hleft (Nat.not_lt_zero _)
    obtain ⟨hd, hms⟩ := List.forall_mem_cons.mp hturns
    have hfirst := gives_memberText hd (gives_textAt levels (depth + 1) d h.1)
    have hrest := gives_more_members levels depth left ms h.2 hms (Nat.lt_of_succ_lt_succ hleft)
    have hmembers := gives_membersFrom_cons (hlayout.newline (depth + 1)) hfirst hrest
    rw [memberTexts, List.append_assoc, Layout.more_cons]
    refine hmembers.congr ?_
    rw [nesting, membersHeight, Nat.max_le]

end

omit hlayout in
theorem Gives.whole_reads {P : Prop} {text : List Char} {d : Document} (h : P)
    (hgives : Gives P (value turns maxLevels) text d) : whole turns text = .ok (d, []) := by
  have hvalue := hgives.reads h []
  rw [List.append_nil] at hvalue
  change (value turns maxLevels text >>= fun (d, text) => _) = _
  rw [hvalue]
  rfl

omit hlayout in
theorem Gives.whole_stops {P : Prop} {text : List Char} {d : Document} (h : ¬ P)
    (hgives : Gives P (value turns maxLevels) text d) :
    ∃ stop, whole turns text = .error stop ∧ stop.cause = .tooDeep := by
  obtain ⟨stop, hstop, hcause⟩ := hgives.stops h []
  rw [List.append_nil] at hstop
  refine ⟨stop, ?_, hcause⟩
  change (value turns maxLevels text >>= fun (d, text) => _) = _
  rw [hstop]
  rfl

/-- **The text of a document is read as that document if it nests as deep as a reader goes, and as
    none if it nests deeper.** -/
theorem ofText_render {d : Document} (h : d.Plain) :
    (d.nesting ≤ maxLevels → ofText (d.render layout) = .ok d) ∧
      (¬ d.nesting ≤ maxLevels → ∃ stop : Stop, stop.cause = .tooDeep ∧
        ofText (d.render layout) = .error (stop.message (d.render layout))) := by
  have htext : (d.render layout).toList = textAt layout 0 d := String.toList_ofList
  have hturns : (textAt layout 0 d).length < (d.render layout).length + 1 := by
    rw [← String.length_toList, htext]
    exact Nat.lt_succ_self _
  have hgives := gives_textAt hlayout maxLevels 0 d h hturns
  unfold ofText
  rw [htext]
  constructor
  · intro hnesting
    rw [show (whole _).run (textAt layout 0 d) = _ from hgives.whole_reads hnesting]
  · intro hnesting
    obtain ⟨stop, hstop, hcause⟩ := hgives.whole_stops hnesting
    refine ⟨stop, hcause, ?_⟩
    rw [show (whole _).run (textAt layout 0 d) = _ from hstop]

end Documents

end MemoryShell.Document
