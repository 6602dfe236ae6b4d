/-
  MemoryShell/Proofs/Script/Documents.lean
  ========================================
  **Values written as JSON text, and read back.**

  A value holds a document if it is built like it: null, flags and texts are what the document says,
  arrays and plain objects hold what its items and members say, in the same order.  So two values
  are built alike, each on its own heap, if both hold one document.

  A value is written if it has no more levels than the writer follows, and its text is read back if
  its arrays and objects nest no deeper than the reader goes.  These two bounds differ: there are
  values that are written to a text that is not read.
-/
import MemoryShell.Proofs.Document.RoundTrip
import MemoryShell.Script.Functions
import MemoryShell.Script.Globals

namespace MemoryShell.Script

open Document (itemsHeight membersHeight ItemsPlain MembersPlain)

/-! ### What values hold -/

namespace Heap

mutual

/-- Whether a value is built like a document.  A number is not, nor is an error. -/
def Holds (h : Heap) : Document → Value → Prop
  | .null, v => v = .null
  | .bool b, v => v = .bool b
  | .number _, _ => False
  | .string s, v => v = .string s
  | .array items, v => ∃ r values, v = .array r ∧ h.arrays[r.index]? = some values ∧
    h.HoldItems items values.toList
  | .object members, v => ∃ r o, v = .object r ∧ h.objects[r.index]? = some o ∧
    o.isError = false ∧ o.members.keys.Nodup ∧ h.HoldMembers members o.members.entries

def HoldItems (h : Heap) : List Document → List Value → Prop
  | [], vs => vs = []
  | d :: ds, vs => ∃ w ws, vs = w :: ws ∧ h.Holds d w ∧ h.HoldItems ds ws

def HoldMembers (h : Heap) : List (String × Document) → List (String × Value) → Prop
  | [], vs => vs = []
  | (name, d) :: ds, vs => ∃ w ws, vs = (name, w) :: ws ∧ h.Holds d w ∧ h.HoldMembers ds ws

end

variable {h h' h'' : Heap}

theorem HoldMembers.names {ds : List (String × Document)} {vs : List (String × Value)}
    (hholds : h.HoldMembers ds vs) : vs.map Prod.fst = ds.map Prod.fst := by
  induction ds generalizing vs with
  | nil => rw [show vs = [] from hholds]; rfl
  | cons m ds ih =>
    obtain ⟨w, ws, rfl, -, hws⟩ := hholds
    rw [List.map_cons, List.map_cons, ih hws]

mutual

theorem Holds.plain : (d : Document) → (v : Value) → h.Holds d v → d.Plain
  | .null, _, _ | .bool _, _, _ | .string _, _, _ => trivial
  | .array items, _, ⟨_, values, _, _, hitems⟩ => HoldItems.plain items values.toList hitems
  | .object members, _, ⟨_, o, _, _, _, hkeys, hmembers⟩ => by
    refine ⟨?_, HoldMembers.plain members o.members.entries hmembers⟩
    rw [← hmembers.names]
    exact hkeys

theorem HoldItems.plain : (ds : List Document) → (vs : List Value) → h.HoldItems ds vs →
    ItemsPlain ds
  | [], _, _ => trivial
  | d :: ds, _, ⟨w, ws, _, hw, hws⟩ => ⟨Holds.plain d w hw, HoldItems.plain ds ws hws⟩

theorem HoldMembers.plain : (ds : List (String × Document)) → (vs : List (String × Value)) →
    h.HoldMembers ds vs → MembersPlain ds
  | [], _, _ => trivial
  | (_, d) :: ds, _, ⟨w, ws, _, hw, hws⟩ => ⟨Holds.plain d w hw, HoldMembers.plain ds ws hws⟩

end

/-! ### Heaps that grow -/

/-- All arrays and objects of a heap are on another one, in their places. -/
structure Within (h h' : Heap) : Prop where
  array : ∀ {i : Nat} {values : Array Value}, h.arrays[i]? = some values →
    h'.arrays[i]? = some values
  object : ∀ {i : Nat} {o : ScriptObject}, h.objects[i]? = some o → h'.objects[i]? = some o

theorem Within.refl (h : Heap) : h.Within h := ⟨id, id⟩

theorem Within.trans (h₁ : h.Within h') (h₂ : h'.Within h'') : h.Within h'' :=
  ⟨fun ha => h₂.array (h₁.array ha), fun ho => h₂.object (h₁.object ho)⟩

theorem getElem?_push_of_some {α : Type} {xs : Array α} {i : Nat} {x y : α} (h : xs[i]? = some x) :
    (xs.push y)[i]? = some x := by
  obtain ⟨hi, -⟩ := Array.getElem?_eq_some_iff.mp h
  rw [Array.getElem?_push_lt hi]
  exact congrArg some (Array.getElem?_eq_some_iff.mp h).2

theorem within_newArray (h : Heap) (items : Array Value) : h.Within (h.newArray items).2 :=
  ⟨getElem?_push_of_some, id⟩

theorem within_newObject (h : Heap) (o : ScriptObject) : h.Within (h.newObject o).2 :=
  ⟨id, getElem?_push_of_some⟩

mutual

/-- What a value holds, it holds on every heap that has grown out of its own. -/
theorem Holds.mono (hwithin : h.Within h') : (d : Document) → (v : Value) → h.Holds d v →
    h'.Holds d v
  | .null, _, hv | .bool _, _, hv | .string _, _, hv => hv
  | .array items, _, ⟨r, values, hv, hr, hitems⟩ =>
    ⟨r, values, hv, hwithin.array hr, HoldItems.mono hwithin items values.toList hitems⟩
  | .object members, _, ⟨r, o, hv, hr, herror, hkeys, hmembers⟩ =>
    ⟨r, o, hv, hwithin.object hr, herror, hkeys,
      HoldMembers.mono hwithin members o.members.entries hmembers⟩

theorem HoldItems.mono (hwithin : h.Within h') : (ds : List Document) → (vs : List Value) →
    h.HoldItems ds vs → h'.HoldItems ds vs
  | [], _, hvs => hvs
  | d :: ds, _, ⟨w, ws, hvs, hw, hws⟩ =>
    ⟨w, ws, hvs, Holds.mono hwithin d w hw, HoldItems.mono hwithin ds ws hws⟩

theorem HoldMembers.mono (hwithin : h.Within h') : (ds : List (String × Document)) →
    (vs : List (String × Value)) → h.HoldMembers ds vs → h'.HoldMembers ds vs
  | [], _, hvs => hvs
  | (_, d) :: ds, _, ⟨w, ws, hvs, hw, hws⟩ =>
    ⟨w, ws, hvs, Holds.mono hwithin d w hw, HoldMembers.mono hwithin ds ws hws⟩

end

/-! ### Writing -/

theorem array_of_some {r : ArrayRef} {values : Array Value}
    (hr : h.arrays[r.index]? = some values) : h.array r = values := by
  rw [array, hr]
  rfl

theorem object_of_some {r : ObjectRef} {o : ScriptObject} (hr : h.objects[r.index]? = some o) :
    h.object r = o := by
  rw [object, hr]
  rfl

/-- What is written, if a condition holds; if not, the writer takes a value for one that holds
    itself. -/
def Written {α : Type} (condition : Prop) (a : α) : Except Mistake α → Prop
  | .ok a' => condition ∧ a' = a
  | .error e => ¬ condition ∧ e = .circularJson

namespace Written

variable {α β : Type} {P Q : Prop} {a : α} {b : β} {x : Except Mistake α}
  {f : α → Except Mistake β}

theorem congr (hx : Written P a x) (hPQ : P ↔ Q) : Written Q a x := by
  cases x with
  | ok a' => exact ⟨hPQ.mp hx.1, hx.2⟩
  | error e => exact ⟨mt hPQ.mpr hx.1, hx.2⟩

theorem bind (hx : Written P a x) (hf : Written Q b (f a)) : Written (P ∧ Q) b (x >>= f) := by
  cases x with
  | error e => exact ⟨fun hPQ => hx.1 hPQ.1, hx.2⟩
  | ok a' =>
    obtain ⟨hP, rfl⟩ := hx
    exact hf.congr (and_iff_right hP).symm

theorem map (hx : Written P a x) (g : α → β) : Written P (g a) (x >>= fun a => pure (g a)) := by
  cases x with
  | error e => exact hx
  | ok a' => exact ⟨hx.1, congrArg g hx.2⟩

end Written

mutual

/-- The document of a value is what it holds, as long as that has no more levels than are
    followed. -/
theorem Holds.written : (d : Document) → (v : Value) → h.Holds d v → (levels : Nat) →
    Written (d.levels ≤ levels) (some d) (h.toDocument levels v)
  | .null, _, rfl, levels | .bool _, _, rfl, levels | .string _, _, rfl, levels => by
    cases levels with
    | zero => exact ⟨Nat.not_succ_le_zero 0, rfl⟩
    | succ levels => exact ⟨Nat.succ_le_succ (Nat.zero_le levels), rfl⟩
  | .array items, _, ⟨r, values, rfl, hr, hitems⟩, levels => by
    obtain _ | levels := levels
    · exact ⟨Nat.not_succ_le_zero _, rfl⟩
    have hwritten := (HoldItems.written items values.toList hitems levels).map
      fun ds => some (Document.array (ds.map fun d => d.getD .null))
    have hitems : (items.map some).map (fun d => d.getD Document.null) = items := by
      rw [List.map_map]
      exact List.map_id items
    rw [hitems] at hwritten
    rw [toDocument, array_of_some hr]
    exact hwritten.congr Nat.succ_le_succ_iff.symm
  | .object members, _, ⟨r, o, rfl, hr, herror, _, hmembers⟩, levels => by
    obtain _ | levels := levels
    · exact ⟨Nat.not_succ_le_zero _, rfl⟩
    have hwritten := (HoldMembers.written members o.members.entries hmembers levels).map
      fun ds => some (Document.object (ds.filterMap id))
    have hmembers : (members.map some).filterMap id = members := by
      rw [List.filterMap_map]
      exact List.filterMap_some
    rw [hmembers] at hwritten
    rw [toDocument]
    dsimp only
    rw [object_of_some hr, herror]
    exact hwritten.congr Nat.succ_le_succ_iff.symm

theorem HoldItems.written : (ds : List Document) → (vs : List Value) → h.HoldItems ds vs →
    (levels : Nat) →
    Written (itemsHeight 1 ds ≤ levels) (ds.map some) (vs.mapM (h.toDocument levels))
  | [], _, rfl, levels => ⟨Nat.zero_le levels, rfl⟩
  | d :: ds, _, ⟨w, ws, rfl, hw, hws⟩, levels => by
    have hfirst := Holds.written d w hw levels
    have hrest := (HoldItems.written ds ws hws levels).map (some d :: ·)
    rw [List.mapM_cons]
    exact (hfirst.bind hrest).congr Nat.max_le.symm

theorem HoldMembers.written : (ds : List (String × Document)) → (vs : List (String × Value)) →
    h.HoldMembers ds vs → (levels : Nat) →
    Written (membersHeight 1 ds ≤ levels) (ds.map some) (vs.mapM fun (name, v) => do
      return (← h.toDocument levels v).map fun d => (name, d))
  | [], _, rfl, levels => ⟨Nat.zero_le levels, rfl⟩
  | (name, d) :: ds, _, ⟨w, ws, rfl, hw, hws⟩, levels => by
    have hfirst := (Holds.written d w hw levels).map fun d => d.map fun d => (name, d)
    have hrest := (HoldMembers.written ds ws hws levels).map (some (name, d) :: ·)
    rw [List.mapM_cons]
    exact (hfirst.bind hrest).congr Nat.max_le.symm

end

/-! ### Reading -/

theorem holds_newArray {ds : List Document} {vs : List Value} (hvs : h.HoldItems ds vs) :
    (h.newArray vs.toArray).2.Holds (.array ds) (.array (h.newArray vs.toArray).1) :=
  ⟨_, _, rfl, Array.getElem?_push_size, HoldItems.mono (within_newArray h _) ds vs hvs⟩

theorem holds_newObject {ds : List (String × Document)} {members : Dict Value}
    (hkeys : members.keys.Nodup) (hvs : h.HoldMembers ds members.entries) :
    (h.newObject ⟨false, members⟩).2.Holds (.object ds)
      (.object (h.newObject ⟨false, members⟩).1) :=
  ⟨_, _, rfl, Array.getElem?_push_size, rfl, hkeys,
    HoldMembers.mono (within_newObject h _) ds members.entries hvs⟩

mutual

/-- The value that is made of a document holds it, on a heap that has grown. -/
theorem holds_ofDocument : (d : Document) → d.Plain → (h : Heap) →
    h.Within (h.ofDocument d).2 ∧ (h.ofDocument d).2.Holds d (h.ofDocument d).1
  | .null, _, h | .bool _, _, h | .string _, _, h => ⟨.refl h, rfl⟩
  | .array items, hplain, h => by
    obtain ⟨hwithin, hvalues⟩ := holds_ofItems items hplain h
    rw [ofDocument]
    exact ⟨hwithin.trans (within_newArray _ _), holds_newArray hvalues⟩
  | .object members, hplain, h => by
    obtain ⟨hwithin, hvalues⟩ := holds_ofMembers members hplain.2 h
    have hnames : ((h.ofMembers members).1.map Prod.fst).Nodup := by
      rw [hvalues.names]
      exact hplain.1
    rw [ofDocument]
    dsimp only
    rw [Dict.ofList_of_nodup hnames]
    exact ⟨hwithin.trans (within_newObject _ _), holds_newObject hnames hvalues⟩

theorem holds_ofItems : (ds : List Document) → ItemsPlain ds → (h : Heap) →
    h.Within (h.ofItems ds).2 ∧ (h.ofItems ds).2.HoldItems ds (h.ofItems ds).1
  | [], _, h => ⟨.refl h, rfl⟩
  | d :: ds, hplain, h => by
    obtain ⟨hwithin, hvalue⟩ := holds_ofDocument d hplain.1 h
    obtain ⟨hwithin', hvalues⟩ := holds_ofItems ds hplain.2 (h.ofDocument d).2
    exact ⟨hwithin.trans hwithin', _, _, rfl, Holds.mono hwithin' d _ hvalue, hvalues⟩

theorem holds_ofMembers : (ds : List (String × Document)) → MembersPlain ds → (h : Heap) →
    h.Within (h.ofMembers ds).2 ∧ (h.ofMembers ds).2.HoldMembers ds (h.ofMembers ds).1
  | [], _, h => ⟨.refl h, rfl⟩
  | (name, d) :: ds, hplain, h => by
    obtain ⟨hwithin, hvalue⟩ := holds_ofDocument d hplain.1 h
    obtain ⟨hwithin', hvalues⟩ := holds_ofMembers ds hplain.2 (h.ofDocument d).2
    exact ⟨hwithin.trans hwithin', _, _, rfl, Holds.mono hwithin' d _ hvalue, hvalues⟩

end

end Heap

/-! ### JSON text -/

/-- What a text or its lines can be indented by so that it is read back: any number of blanks, or
    white space. -/
def BlankIndent : Value → Prop
  | .string s => ∀ c ∈ s.toList, Document.Read.isSpace c = true
  | _ => True

theorem BlankIndent.layoutOf {v : Value} (hv : BlankIndent v) : (layoutOf v).Blank := by
  unfold Script.layoutOf
  split
  · dsimp only
    split
    · trivial
    · intro c hc
      rw [List.eq_of_mem_replicate hc]
      rfl
  · split
    · trivial
    · exact fun c hc => hv c (List.mem_of_mem_take hc)
  · trivial

namespace Act

variable {σ : Type} [Host σ] {m : Machine σ} {args : List Value} {d : Document}

theorem callNative_stringify (hd : m.heap.Holds d (argument args 0)) :
    (d.levels ≤ maxDocumentLevels →
      callNative .stringify args m =
        .ok (.string (d.render (layoutOf (argument args 2)))) m) ∧
      (¬ d.levels ≤ maxDocumentLevels →
        callNative .stringify args m = throwMistake .circularJson m) := by
  have hwritten := Heap.Holds.written d _ hd maxDocumentLevels
  change (_ → stringify (argument args 0) (argument args 2) m = _) ∧
    (_ → stringify (argument args 0) (argument args 2) m = _)
  rw [stringify_eq]
  cases hto : m.heap.toDocument maxDocumentLevels (argument args 0) with
  | ok o =>
    rw [hto] at hwritten
    obtain ⟨hlevels, rfl⟩ := hwritten
    exact ⟨fun _ => rfl, fun hnot => absurd hlevels hnot⟩
  | error e =>
    rw [hto] at hwritten
    obtain ⟨hnot, rfl⟩ := hwritten
    exact ⟨fun hlevels => absurd hlevels hnot, fun _ => rfl⟩

/-- The text of a plain document is read as a value that holds it, unless it nests too deep. -/
theorem callNative_parseJson {layout : Document.Layout} (hlayout : layout.Blank) (hd : d.Plain)
    (m : Machine σ) :
    (d.nesting ≤ Document.Read.maxLevels →
      ∃ v m', callNative .parseJson [.string (d.render layout)] m = .ok v m' ∧
        m.heap.Within m'.heap ∧ m'.heap.Holds d v) ∧
      (¬ d.nesting ≤ Document.Read.maxLevels →
        ∃ stop : Document.Stop, stop.cause = .tooDeep ∧
          callNative .parseJson [.string (d.render layout)] m =
            throwMistake (.malformedJson (stop.message (d.render layout))) m) := by
  obtain ⟨hreads, hstops⟩ := Document.ofText_render hlayout hd
  have hparse : callNative .parseJson [.string (d.render layout)] m =
      parseText (d.render layout) m := rfl
  rw [hparse, parseText]
  constructor
  · intro hnesting
    rw [hreads hnesting]
    obtain ⟨hwithin, hholds⟩ := Heap.holds_ofDocument d hd m.heap
    exact ⟨_, _, rfl, hwithin, hholds⟩
  · intro hnesting
    obtain ⟨stop, hcause, hstop⟩ := hstops hnesting
    rw [hstop]
    exact ⟨stop, hcause, rfl⟩

end Act

section Exchange

variable {σ : Type} [Host σ] {m : Machine σ} {args : List Value} {d : Document}

/-- **A value that holds a document is written exactly if it has at most 129 levels, and what is
    written is read back exactly if arrays and objects nest at most 127 deep in it.**  What is read
    back holds the same document, on a heap on which all else is as it was. -/
theorem parseJson_stringify (hd : m.heap.Holds d (argument args 0))
    (hindent : BlankIndent (argument args 2)) :
    (d.levels ≤ 129 →
      ∃ text, Act.callNative .stringify args m = .ok (.string text) m ∧
        ∀ n : Machine σ,
          (d.nesting ≤ 127 →
            ∃ v n', Act.callNative .parseJson [.string text] n = .ok v n' ∧
              n.heap.Within n'.heap ∧ n'.heap.Holds d v) ∧
          (¬ d.nesting ≤ 127 →
            ∃ stop : Document.Stop, stop.cause = .tooDeep ∧
              Act.callNative .parseJson [.string text] n =
                Act.throwMistake (.malformedJson (stop.message text)) n)) ∧
      (¬ d.levels ≤ 129 →
        Act.callNative .stringify args m = Act.throwMistake .circularJson m) := by
  obtain ⟨hwrites, hrefuses⟩ := Act.callNative_stringify hd
  refine ⟨fun hlevels => ⟨_, hwrites hlevels, fun n => ?_⟩, hrefuses⟩
  exact Act.callNative_parseJson hindent.layoutOf (Heap.Holds.plain d _ hd) n

/-- A machine whose heap holds nothing but the value of a document. -/
def documentMachine (d : Document) : Machine Tree :=
  { Machine.start Tree.root with heap := (Heap.empty.ofDocument d).2 }

/-- The value of a document. -/
def documentValue (d : Document) : Value := (Heap.empty.ofDocument d).1

theorem holds_documentMachine (h : d.Plain) :
    (documentMachine d).heap.Holds d (argument [documentValue d] 0) :=
  (Heap.holds_ofDocument d h Heap.empty).2

/-- A list of a text and an object. -/
def mixedDocument : Document :=
  .array [.string "a\n\x01", .object [("b", .null), ("", .array [])]]

theorem parseJson_stringify_mixedDocument :
    ∃ text, Act.callNative .stringify [documentValue mixedDocument]
        (documentMachine mixedDocument) =
          .ok (.string text) (documentMachine mixedDocument) ∧
      ∃ v n', Act.callNative .parseJson [.string text] (documentMachine mixedDocument) = .ok v n' ∧
        n'.heap.Holds mixedDocument v := by
  have hplain : mixedDocument.Plain := ⟨trivial, ⟨by decide, trivial, trivial, trivial⟩, trivial⟩
  obtain ⟨hwrites, -⟩ := parseJson_stringify (holds_documentMachine hplain) trivial
  obtain ⟨text, htext, hreads⟩ := hwrites (by decide)
  obtain ⟨v, n', hv, -, hn'⟩ := (hreads (documentMachine mixedDocument)).1 (by decide)
  exact ⟨text, htext, v, n', hv, hn'⟩

/-- A document between the two bounds is written to a text that is not read. -/
theorem parseJson_stringify_ne_ok (hplain : d.Plain) (hlevels : d.levels ≤ maxDocumentLevels)
    (hnesting : ¬ d.nesting ≤ Document.Read.maxLevels) :
    ∃ text, Act.callNative .stringify [documentValue d] (documentMachine d) =
        .ok (.string text) (documentMachine d) ∧
      ∀ v n', Act.callNative .parseJson [.string text] (documentMachine d) ≠ .ok v n' := by
  obtain ⟨hwrites, -⟩ := Act.callNative_stringify (holds_documentMachine hplain)
  refine ⟨_, hwrites hlevels, fun v n' heq => ?_⟩
  have hcompact : (layoutOf (argument [documentValue d] 2)).Blank := trivial
  obtain ⟨-, hstops⟩ := Act.callNative_parseJson hcompact hplain (documentMachine d)
  obtain ⟨stop, -, hstop⟩ := hstops hnesting
  rw [hstop] at heq
  cases heq

/-- Empty lists in one another. -/
def nestedLists : Nat → Document
  | 0 => .array []
  | n + 1 => .array [nestedLists n]

theorem nestedLists_plain (n : Nat) : (nestedLists n).Plain := by
  induction n with
  | zero => trivial
  | succ n ih => exact ⟨ih, trivial⟩

theorem nestedLists_height (leaf n : Nat) : (nestedLists n).height leaf = n + 1 := by
  induction n with
  | zero => rfl
  | succ n ih => rw [nestedLists, Document.height, itemsHeight, ih, itemsHeight, Nat.max_zero]

/-- 128 lists in one another are written to a text that is not read. -/
theorem not_parseJson_nestedLists :
    ∃ text, Act.callNative .stringify [documentValue (nestedLists 127)]
        (documentMachine (nestedLists 127)) =
          .ok (.string text) (documentMachine (nestedLists 127)) ∧
      ∀ v n', Act.callNative .parseJson [.string text] (documentMachine (nestedLists 127)) ≠
        .ok v n' := by
  refine parseJson_stringify_ne_ok (nestedLists_plain 127) ?_ ?_
  · rw [Document.levels, nestedLists_height]
    decide
  · rw [Document.nesting, nestedLists_height]
    decide

end Exchange

end MemoryShell.Script
