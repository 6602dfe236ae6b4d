/-
  MemoryShell/Proofs/Session/Deferred.lean
  ========================================
  **Requests that wait change nothing but the order of what is shown.**

  A session that lets requests wait is compared with one that has them answered at once.  What is
  typed has the same results in both, on the same tree.  What is shown is made of the same pieces:
  each sub-command shows a piece of its own, and each request one with its answer.  The pieces of the
  sub-commands keep their order; an answer comes whenever it comes, but whole and once.
-/
import Mathlib.Data.List.Perm.Basic
import MemoryShell.Proofs.Display.Lines
import MemoryShell.Session

namespace MemoryShell.Session

/-! ### What is typed -/

/-- What a user does. -/
inductive Turn where
  | submit (line : String)
  | execute (line : String)
  | settle
deriving DecidableEq, Repr

/-- The sub-commands that are typed. -/
def Turn.parts : Turn → List String
  | .submit line | .execute line => Command.splitLine line
  | .settle => []

/-- Whether the display is cleared by what is typed. -/
def Turn.Clears (turn : Turn) : Prop :=
  ∃ part ∈ turn.parts, (Command.Words.ofText part).name = Command.Builtin.clear.name

instance (turn : Turn) : Decidable turn.Clears :=
  inferInstanceAs (Decidable (∃ part ∈ turn.parts, _))

/-- A turn of a session that does not leave the order of the answers open. -/
def take (s : Session) : Turn → List Command.Result × Session
  | .submit line => s.submit line
  | .execute line => s.execute line
  | .settle => ([], s.settle)

/-- What there is to see after a turn, the display apart. -/
structure Seen where
  results : List Command.Result
  tree : Tree
  history : History

/-- The turns of such a session, with what there is to see after each. -/
def run : Session → List Turn → List Seen × Session
  | s, [] => ([], s)
  | s, turn :: turns =>
    let (results, s) := s.take turn
    let (seen, s') := run s turns
    (⟨results, s.tree, s.history⟩ :: seen, s')

/-! ### Requests that come back at any time

The sub-commands of a line run on the tree first; then they are shown one by one.  A request that
waits can come back before, between and behind them. -/

/-- Sub-commands are shown, and meanwhile requests come back. -/
inductive Shows : Session → List Command.Executed → Session → Prop where
  | done {s : Session} : Shows s [] s
  | finish {s s' : Session} {es : List Command.Executed} (i : Nat) :
      Shows (s.finish i) es s' → Shows s es s'
  | next {s s' : Session} {e : Command.Executed} {es : List Command.Executed} :
      Shows (s.showExecuted e) es s' → Shows s (e :: es) s'

/-- A turn during which requests may come back; settling is waiting until none is on its way. -/
inductive Takes : Session → Turn → List Command.Result → Session → Prop where
  | submit {s s' : Session} {line : String} {es : List Command.Executed} {tree : Tree} :
      Command.executeLine s.limits line s.tree = (es, tree) →
      Shows { s with history := s.history.record line, tree } es s' →
      Takes s (.submit line) (es.map Command.Executed.result) s'
  | execute {s s' : Session} {line : String} {es : List Command.Executed} {tree : Tree} :
      Command.executeLine s.limits line s.tree = (es, tree) →
      Shows { s with tree } es s' →
      Takes s (.execute line) (es.map Command.Executed.result) s'
  | settle {s s' : Session} : Shows s [] s' → s'.pending = [] → Takes s .settle [] s'

/-- Turns during which requests may come back, with what there is to see after each. -/
inductive Runs : Session → List Turn → List Seen → Session → Prop where
  | done {s : Session} : Runs s [] [] s
  | next {s s' s'' : Session} {turn : Turn} {turns : List Turn} {results : List Command.Result}
      {seen : List Seen} :
      Takes s turn results s' → Runs s' turns seen s'' →
      Runs s (turn :: turns) (⟨results, s'.tree, s'.history⟩ :: seen) s''

/-! ### Pieces -/

/-- A piece of what is shown: of a sub-command itself, or the answer of a request. -/
inductive Piece where
  | own (lines : List DisplayLine)
  | answer (lines : List DisplayLine)
deriving DecidableEq, Repr

namespace Piece

def lines : Piece → List DisplayLine
  | .own lines | .answer lines => lines

def own? : Piece → Option (List DisplayLine)
  | .own lines => some lines
  | .answer _ => none

def answer? : Piece → Option (List DisplayLine)
  | .own _ => none
  | .answer lines => some lines

end Piece

/-- The lines of a sub-command itself: its prompt, and its output unless that is up to the
    session. -/
def ownLines (e : Command.Executed) : List DisplayLine :=
  ⟨.prompt, e.input⟩ ::
    match e.result with
    | .action _ => []
    | result => Display.outputLines result.shown

/-- The request that a sub-command makes. -/
def request? (e : Command.Executed) : Option Request :=
  match e.result with
  | .action (.fetch request) => some request
  | _ => none

def answerLines (fetch : Fetch) (request : Request) : List DisplayLine :=
  Display.outputLines (Curl.perform (some fetch) request)

/-- The pieces of a sub-command, if it is answered at once. -/
def pieces (fetch : Fetch) (e : Command.Executed) : List Piece :=
  .own (ownLines e) :: ((request? e).map fun request => .answer (answerLines fetch request)).toList

/-- The pieces of all turns, each answer right behind its sub-command. -/
def shownBy (fetch : Fetch) (limits : Script.Limits) : List Turn → Tree → List Piece
  | [], _ => []
  | turn :: turns, t =>
    let (es, t) := Command.executeAll limits turn.parts t
    es.flatMap (pieces fetch) ++ shownBy fetch limits turns t

/-- Lines that are made of the same pieces in another order, in which those of the sub-commands
    still stand one behind the other. -/
def Interleaves (shown : List Piece) (lines : List DisplayLine) : Prop :=
  ∃ arranged : List Piece, lines = arranged.flatMap Piece.lines ∧
    arranged.filterMap Piece.own? = shown.filterMap Piece.own? ∧
    (arranged.filterMap Piece.answer?).Perm (shown.filterMap Piece.answer?)

/-- Such lines in which the answers as well stand in the order in which they were asked for. -/
def InterleavesInOrder (shown : List Piece) (lines : List DisplayLine) : Prop :=
  ∃ arranged : List Piece, lines = arranged.flatMap Piece.lines ∧
    arranged.filterMap Piece.own? = shown.filterMap Piece.own? ∧
    arranged.filterMap Piece.answer? = shown.filterMap Piece.answer?

/-! ### What clears the display -/

section Clearing

open Command

theorem ofChange_ne_action {t : Tree} {changed : Except Tree.Error Tree} {f : Tree.Error → Failure}
    {a : Action} : (Effect.ofChange t changed f).1 ≠ .action a := by
  cases changed <;> nofun

theorem withOperand_ne_action {b : Builtin} {args : List String} {t : Tree} {f : String → Effect}
    {a : Action} (hf : ∀ word, (f word).1 ≠ .action a) :
    (withOperand b args t f).1 ≠ .action a := by
  cases args with
  | nil => nofun
  | cons word rest => exact hf word

theorem runBuiltin_ne_clearScreen {b : Builtin} (hb : b ≠ .clear) (words : Words) (t : Tree) :
    (runBuiltin b words t).1 ≠ .action .clearScreen := by
  cases b with
  | clear => exact absurd rfl hb
  | ls =>
    change ls words.args t ≠ _
    unfold ls
    simp only
    split <;> nofun
  | pwd => nofun
  | cat =>
    change (cat words.args words.redirect t).1 ≠ _
    unfold cat
    split
    · nofun
    · exact ofChange_ne_action
    · simp only
      split <;> nofun
  | cd => exact withOperand_ne_action fun _ => ofChange_ne_action
  | mkdir => exact withOperand_ne_action fun _ => ofChange_ne_action
  | touch => exact withOperand_ne_action fun _ => ofChange_ne_action
  | rm =>
    refine withOperand_ne_action fun word => ?_
    simp only
    split
    · split <;> nofun
    · exact ofChange_ne_action
    · split
      · exact ofChange_ne_action
      · nofun
  | curl =>
    change curl words.args ≠ _
    unfold curl
    split <;> nofun
  | man =>
    change man words.args ≠ _
    unfold man
    split
    · nofun
    · split <;> nofun

/-- Only the command that is called so clears the display. -/
theorem execute_ne_clearScreen {input : String} (h : (Words.ofText input).name ≠ Builtin.clear.name)
    (limits : Script.Limits) (t : Tree) :
    (Command.execute limits input t).1 ≠ .action .clearScreen := by
  unfold Command.execute Invocation.ofName
  simp only
  cases hname : Builtin.ofName? (Words.ofText input).name with
  | some b =>
    refine runBuiltin_ne_clearScreen ?_ _ t
    rintro rfl
    have heq := List.find?_some hname
    exact h (of_decide_eq_true heq).symm
  | none =>
    simp only
    split
    · rename_i b hb
      split at hb
      · cases hb
      · split at hb <;> cases hb
    · unfold runScript
      simp only
      split
      · split <;> nofun
      · nofun
    · nofun
    · nofun

theorem executeAll_ne_clearScreen {parts : List String}
    (h : ∀ part ∈ parts, (Words.ofText part).name ≠ Builtin.clear.name) (limits : Script.Limits)
    (t : Tree) : ∀ e ∈ (executeAll limits parts t).1, e.result ≠ .action .clearScreen := by
  induction parts generalizing t with
  | nil => exact List.forall_mem_nil _
  | cons part parts ih =>
    rw [List.forall_mem_cons] at h
    exact List.forall_mem_cons.mpr ⟨execute_ne_clearScreen h.1 limits t, ih h.2 _⟩

end Clearing

/-! ### Showing -/

/-- The session with some more lines on display. -/
def showLines (s : Session) (lines : List DisplayLine) : Session :=
  { s with display := lines.foldl Display.push s.display }

theorem showOutput_eq (s : Session) (text : String) :
    s.showOutput text = s.showLines (Display.outputLines text) := by
  rw [showOutput, Display.pushOutput_eq, showLines]

/-- A sub-command that does not clear shows its own lines, and then its request is started. -/
theorem showExecuted_eq (s : Session) {e : Command.Executed}
    (hclear : e.result ≠ .action .clearScreen) :
    s.showExecuted e = match request? e with
      | some request => (s.showLines (ownLines e)).startFetch request
      | none => s.showLines (ownLines e) := by
  obtain ⟨input, result⟩ := e
  cases result with
  | success output =>
    unfold showExecuted
    simp only
    rw [showOutput_eq]
    rfl
  | failure f =>
    unfold showExecuted
    simp only
    rw [showOutput_eq]
    rfl
  | action a =>
    cases a with
    | clearScreen => exact absurd rfl hclear
    | fetch request => rfl

/-! ### The display as pieces -/

/-- A display that holds the newest lines of some pieces. -/
structure Displays (d : Display) (cap : Nat) (shown : List Piece) : Prop where
  cap_eq : d.cap = cap
  lines_eq : d.lines = Display.newest cap (shown.flatMap Piece.lines)

theorem Displays.push {d : Display} {cap : Nat} {shown : List Piece} (h : Displays d cap shown)
    (p : Piece) : Displays (p.lines.foldl Display.push d) cap (shown ++ [p]) := by
  obtain ⟨hcap, hlines⟩ := Display.Holds.push ⟨h.cap_eq, h.lines_eq⟩ p.lines
  refine ⟨hcap, ?_⟩
  rw [hlines, List.flatMap_append, List.flatMap_singleton]

/-- As many lines are shown whatever the order of the pieces. -/
theorem length_flatMap_lines (shown : List Piece) :
    (shown.flatMap Piece.lines).length = (shown.filterMap Piece.own?).flatten.length +
      (shown.filterMap Piece.answer?).flatten.length := by
  induction shown with
  | nil => rfl
  | cons p shown ih =>
    cases p with
    | own lines =>
      simp only [List.flatMap_cons, Piece.lines, List.length_append, ih, List.filterMap_cons,
        Piece.own?, Piece.answer?, List.flatten_cons]
      omega
    | answer lines =>
      simp only [List.flatMap_cons, Piece.lines, List.length_append, ih, List.filterMap_cons,
        Piece.own?, Piece.answer?, List.flatten_cons]
      omega

/-! ### What showing leaves alone -/

/-- Showing a sub-command changes the display and the requests that wait. -/
theorem showExecuted_frame (s : Session) (e : Command.Executed) :
    ∃ display pending, s.showExecuted e = { s with display, pending } := by
  unfold showExecuted
  simp only
  split
  · rename_i a _
    cases a with
    | clearScreen => exact ⟨_, _, rfl⟩
    | fetch request =>
      unfold act startFetch
      simp only
      split <;> exact ⟨_, _, rfl⟩
  · exact ⟨_, _, rfl⟩

theorem finish_frame (s : Session) (i : Nat) :
    ∃ display pending, s.finish i = { s with display, pending } := by
  unfold finish
  split <;> exact ⟨_, _, rfl⟩

theorem Shows.frame {s s' : Session} {es : List Command.Executed} (h : Shows s es s') :
    ∃ display pending, s' = { s with display, pending } := by
  induction h with
  | done => exact ⟨_, _, rfl⟩
  | @finish s s' es i h ih =>
    obtain ⟨display, pending, heq⟩ := s.finish_frame i
    rw [heq] at ih
    exact ih
  | @next s s' e es h ih =>
    obtain ⟨display, pending, heq⟩ := s.showExecuted_frame e
    rw [heq] at ih
    exact ih

/-! ### Turns

A turn first makes the session ready: the line is recorded and run.  Then its sub-commands are shown;
settling is a turn without any. -/

def Turn.record (turn : Turn) (h : History) : History :=
  match turn with
  | .submit line => h.record line
  | .execute _ | .settle => h

/-- What a turn comes to before anything is shown. -/
def ran (s : Session) (turn : Turn) : List Command.Executed × Tree :=
  Command.executeAll s.limits turn.parts s.tree

/-- The session before anything is shown. -/
def ready (s : Session) (turn : Turn) : Session :=
  { s with history := turn.record s.history, tree := (s.ran turn).2 }

theorem Takes.shows {s s' : Session} {turn : Turn} {results : List Command.Result}
    (h : Takes s turn results s') :
    results = (s.ran turn).1.map Command.Executed.result ∧
      Shows (s.ready turn) (s.ran turn).1 s' := by
  cases h with
  | submit hline hshows | execute hline hshows =>
    unfold ready ran
    unfold Command.executeLine at hline
    rw [Turn.parts, hline]
    exact ⟨rfl, hshows⟩
  | settle hshows => exact ⟨rfl, hshows⟩

theorem foldl_answer (s : Session) (requests : List Request) :
    requests.foldl (fun s request => s.showOutput (s.answer request)) s =
      { s with display := requests.foldl (fun d r => d.pushOutput (s.answer r)) s.display } := by
  induction requests generalizing s with
  | nil => rfl
  | cons request rest ih =>
    rw [List.foldl_cons, ih]
    rfl

theorem settle_eq (s : Session) :
    s.settle = { s with
      display := s.pending.foldl (fun d request => d.pushOutput (s.answer request)) s.display
      pending := [] } := by
  rw [settle, foldl_answer]

theorem settle_of_nil {s : Session} (h : s.pending = []) : s.settle = s := by
  rw [settle_eq, h]
  exact congrArg (fun pending => { s with pending }) h.symm

/-- Settling lets the first request come back before it goes on. -/
theorem settle_finish_zero {s : Session} {request : Request} {rest : List Request}
    (h : s.pending = request :: rest) : (s.finish 0).settle = s.settle := by
  have hfinish : s.finish 0 = { s.showOutput (s.answer request) with pending := rest } := by
    unfold finish
    rw [h]
    rfl
  rw [settle_eq, settle_eq, h, hfinish]
  rfl

theorem pending_finish (s : Session) (i : Nat) : (s.finish i).pending = s.pending.eraseIdx i := by
  unfold finish
  cases hrequest : s.pending[i]? with
  | none => exact (List.eraseIdx_of_length_le (List.getElem?_eq_none_iff.mp hrequest)).symm
  | some request => rfl

/-- Settling lets the requests come back in the order of their start. -/
theorem shows_settle (s : Session) : Shows s [] s.settle := by
  induction hpending : s.pending generalizing s with
  | nil =>
    rw [settle_of_nil hpending]
    exact .done
  | cons request rest ih =>
    have hshows := ih (s.finish 0) (by rw [pending_finish, hpending]; rfl)
    rw [settle_finish_zero hpending] at hshows
    exact .finish 0 hshows

theorem shows_foldl (s : Session) (es : List Command.Executed) :
    Shows s es (es.foldl showExecuted s) := by
  induction es generalizing s with
  | nil => exact .done
  | cons e es ih => exact .next (ih _)

/-- A turn that does not leave the order of the answers open is a turn. -/
theorem takes_take (s : Session) (turn : Turn) : Takes s turn (s.take turn).1 (s.take turn).2 := by
  cases turn with
  | submit line => exact .submit rfl (shows_foldl _ _)
  | execute line => exact .execute rfl (shows_foldl _ _)
  | settle => exact .settle (shows_settle s) rfl

theorem runs_run (s : Session) (turns : List Turn) :
    Runs s turns (s.run turns).1 (s.run turns).2 := by
  induction turns generalizing s with
  | nil => exact .done
  | cons turn turns ih => exact .next (takes_take s turn) (ih _)

/-! ### What does not depend on when requests come back -/

/-- What is typed changes the tree and the history; the display and the requests that wait are all
    that can differ. -/
theorem Takes.frame {s s' : Session} {turn : Turn} {results : List Command.Result}
    (h : Takes s turn results s') :
    ∃ display pending, s' = { s.ready turn with display, pending } :=
  h.shows.2.frame

/-- Two sessions that start alike have the same to be seen after every turn, the display apart,
    however they make their requests and whenever these come back. -/
theorem Runs.seen_eq {s t s' t' : Session} {turns : List Turn} {seen seen' : List Seen}
    (hs : Runs s turns seen s') (ht : Runs t turns seen' t') (htree : s.tree = t.tree)
    (hhistory : s.history = t.history) (hlimits : s.limits = t.limits) : seen = seen' := by
  induction hs generalizing t seen' with
  | done =>
    cases ht
    rfl
  | @next s s₁ s' turn turns results seen htakes hruns ih =>
    cases ht with
    | @next _ t₁ _ _ _ results' seen' htakes' hruns' =>
      have hran : s.ran turn = t.ran turn := by rw [ran, ran, htree, hlimits]
      obtain ⟨d, p, rfl⟩ := htakes.frame
      obtain ⟨d', p', rfl⟩ := htakes'.frame
      have hresults : results = results' := by rw [htakes.shows.1, htakes'.shows.1, hran]
      have htree₁ : (s.ready turn).tree = (t.ready turn).tree := congrArg Prod.snd hran
      have hhistory₁ : (s.ready turn).history = (t.ready turn).history :=
        congrArg turn.record hhistory
      rw [ih hruns' htree₁ hhistory₁ hlimits, hresults]
      simp only [htree₁, hhistory₁]

/-- After settling no request is on its way. -/
theorem Runs.pending_settled {s s' : Session} {turns : List Turn} {seen : List Seen}
    (h : Runs s (turns ++ [.settle]) seen s') : s'.pending = [] := by
  induction turns generalizing s seen with
  | nil =>
    cases h with
    | next htakes hruns =>
      cases hruns
      cases htakes with
      | settle _ hpending => exact hpending
  | cons turn turns ih =>
    cases h with
    | next _ hruns => exact ih hruns

theorem not_clears_iff {turn : Turn} :
    ¬ turn.Clears ↔ ∀ part ∈ turn.parts,
      (Command.Words.ofText part).name ≠ Command.Builtin.clear.name := by
  unfold Turn.Clears
  constructor
  · intro h part hpart heq
    exact h ⟨part, hpart, heq⟩
  · rintro h ⟨part, hpart, heq⟩
    exact h part hpart heq

/-- What is typed without clearing the display comes to sub-commands that do not clear it. -/
theorem ran_ne_clearScreen {turn : Turn} (h : ¬ turn.Clears) (s : Session) :
    ∀ e ∈ (s.ran turn).1, e.result ≠ .action .clearScreen :=
  executeAll_ne_clearScreen (not_clears_iff.mp h) s.limits s.tree

theorem take_snd (s : Session) {turn : Turn} (h : turn ≠ .settle) :
    (s.take turn).2 = (s.ran turn).1.foldl showExecuted (s.ready turn) := by
  cases turn with
  | submit line => rfl
  | execute line => rfl
  | settle => exact absurd rfl h

/-! ### Answered at once -/

/-- A session whose requests are answered at once, and the pieces that it has shown. -/
structure Immediate (fetch : Fetch) (cap : Nat) (s : Session) (shown : List Piece) : Prop where
  network : s.network = .immediate fetch
  pending : s.pending = []
  displays : Displays s.display cap shown

namespace Immediate

variable {fetch : Fetch} {cap : Nat} {s : Session} {shown : List Piece}

theorem showExecuted (h : Immediate fetch cap s shown) {e : Command.Executed}
    (hclear : e.result ≠ .action .clearScreen) :
    Immediate fetch cap (s.showExecuted e) (shown ++ pieces fetch e) := by
  have hown := h.displays.push (.own (ownLines e))
  rw [showExecuted_eq s hclear, pieces]
  cases request? e with
  | none => exact ⟨h.network, h.pending, hown⟩
  | some request =>
    have hstart : (s.showLines (ownLines e)).startFetch request =
        (s.showLines (ownLines e)).showLines (answerLines fetch request) := by
      unfold startFetch
      rw [show (s.showLines (ownLines e)).network = .immediate fetch from h.network]
      exact showOutput_eq _ _
    have hanswer := hown.push (.answer (answerLines fetch request))
    rw [List.append_assoc] at hanswer
    simp only
    rw [hstart]
    exact ⟨h.network, h.pending, hanswer⟩

theorem foldl (h : Immediate fetch cap s shown) {es : List Command.Executed}
    (hclear : ∀ e ∈ es, e.result ≠ .action .clearScreen) :
    Immediate fetch cap (es.foldl Session.showExecuted s) (shown ++ es.flatMap (pieces fetch)) := by
  induction es generalizing s shown with
  | nil => rwa [List.flatMap_nil, List.append_nil]
  | cons e es ih =>
    rw [List.forall_mem_cons] at hclear
    rw [List.flatMap_cons, ← List.append_assoc]
    exact ih (h.showExecuted hclear.1) hclear.2

theorem take (h : Immediate fetch cap s shown) {turn : Turn} (hclear : ¬ turn.Clears) :
    Immediate fetch cap (s.take turn).2 (shown ++ (s.ran turn).1.flatMap (pieces fetch)) := by
  by_cases hturn : turn = .settle
  · subst hturn
    rw [show (s.take .settle).2 = s from settle_of_nil h.pending]
    simpa [ran, Turn.parts, Command.executeAll] using h
  · rw [s.take_snd hturn]
    have hready : Immediate fetch cap (s.ready turn) shown := ⟨h.network, h.pending, h.displays⟩
    exact hready.foldl (ran_ne_clearScreen hclear s)

theorem run (h : Immediate fetch cap s shown) {turns : List Turn}
    (hclear : ∀ turn ∈ turns, ¬ turn.Clears) :
    Immediate fetch cap (s.run turns).2 (shown ++ shownBy fetch s.limits turns s.tree) := by
  induction turns generalizing s shown with
  | nil => simpa [Session.run, shownBy] using h
  | cons turn turns ih =>
    rw [List.forall_mem_cons] at hclear
    obtain ⟨display, pending, heq⟩ := (takes_take s turn).frame
    have hrest := ih (h.take hclear.1) hclear.2
    rw [List.append_assoc] at hrest
    rw [show (s.take turn).2.limits = s.limits by rw [heq]; rfl,
      show (s.take turn).2.tree = (s.ran turn).2 by rw [heq]; rfl] at hrest
    exact hrest

end Immediate

/-! ### Answered later -/

/-- A session whose requests wait, and the pieces that it has shown or will show: those of
    sub-commands, and the answers, first the ones on display and then the ones that wait. -/
structure Deferring (fetch : Fetch) (cap : Nat) (s : Session)
    (owns answers : List (List DisplayLine)) : Prop where
  network : s.network = .deferred fetch
  displays : ∃ arranged, Displays s.display cap arranged ∧ arranged.filterMap Piece.own? = owns ∧
    arranged.filterMap Piece.answer? ++ s.pending.map (answerLines fetch) = answers

namespace Deferring

variable {fetch : Fetch} {cap : Nat} {s s' : Session} {owns answers : List (List DisplayLine)}

theorem showExecuted (h : Deferring fetch cap s owns answers) {e : Command.Executed}
    (hclear : e.result ≠ .action .clearScreen) :
    Deferring fetch cap (s.showExecuted e) (owns ++ (pieces fetch e).filterMap Piece.own?)
      (answers ++ (pieces fetch e).filterMap Piece.answer?) := by
  obtain ⟨arranged, hdisplays, rfl, rfl⟩ := h.displays
  have hown := hdisplays.push (.own (ownLines e))
  rw [showExecuted_eq s hclear, pieces]
  cases request? e with
  | none =>
    refine ⟨h.network, _, hown, List.filterMap_append, ?_⟩
    simp [Session.showLines, List.filterMap_cons, Piece.answer?]
  | some request =>
    have hstart : (s.showLines (ownLines e)).startFetch request =
        { s.showLines (ownLines e) with pending := s.pending ++ [request] } := by
      have hnetwork : (s.showLines (ownLines e)).network = .deferred fetch := h.network
      unfold startFetch
      simp only [hnetwork]
      rfl
    simp only
    rw [hstart]
    refine ⟨h.network, _, hown, ?_, ?_⟩
    · simp [List.filterMap_cons, Piece.own?]
    · simp [List.filterMap_cons, Piece.answer?]

theorem foldl (h : Deferring fetch cap s owns answers) {es : List Command.Executed}
    (hclear : ∀ e ∈ es, e.result ≠ .action .clearScreen) :
    Deferring fetch cap (es.foldl Session.showExecuted s)
      (owns ++ (es.flatMap (pieces fetch)).filterMap Piece.own?)
      (answers ++ (es.flatMap (pieces fetch)).filterMap Piece.answer?) := by
  induction es generalizing s owns answers with
  | nil => simpa using h
  | cons e es ih =>
    rw [List.forall_mem_cons] at hclear
    rw [List.flatMap_cons, List.filterMap_append, List.filterMap_append, ← List.append_assoc,
      ← List.append_assoc]
    exact ih (h.showExecuted hclear.1) hclear.2

/-- A request that comes back has its answer shown before those that still wait. -/
theorem finish_some (h : Deferring fetch cap s owns answers) {i : Nat} {request : Request}
    (hrequest : s.pending[i]? = some request) :
    ∃ shown, answers = shown ++ s.pending.map (answerLines fetch) ∧
      Deferring fetch cap (s.finish i) owns
        (shown ++ (request :: s.pending.eraseIdx i).map (answerLines fetch)) := by
  obtain ⟨arranged, hdisplays, rfl, rfl⟩ := h.displays
  have hfinish : s.finish i =
      { s.showLines (answerLines fetch request) with pending := s.pending.eraseIdx i } := by
    unfold Session.finish answer
    rw [hrequest, h.network]
    simp only
    rw [showOutput_eq]
    rfl
  rw [hfinish]
  refine ⟨_, rfl, h.network, _, hdisplays.push (.answer (answerLines fetch request)), ?_, ?_⟩
  · simp [List.filterMap_cons, Piece.own?]
  · simp [Piece.answer?]

theorem finish (h : Deferring fetch cap s owns answers) (i : Nat) :
    ∃ answers', Deferring fetch cap (s.finish i) owns answers' ∧ answers'.Perm answers := by
  cases hrequest : s.pending[i]? with
  | none =>
    have hfinish : s.finish i = s := by
      unfold Session.finish
      rw [hrequest]
    rw [hfinish]
    exact ⟨answers, h, .refl answers⟩
  | some request =>
    obtain ⟨shown, rfl, hfinish⟩ := h.finish_some hrequest
    obtain ⟨hi, hget⟩ := List.getElem?_eq_some_iff.mp hrequest
    have hperm : (request :: s.pending.eraseIdx i).Perm s.pending := by
      rw [← hget]
      exact List.getElem_cons_eraseIdx_perm hi
    exact ⟨_, hfinish, (hperm.map (answerLines fetch)).append_left shown⟩

/-- Settling shows the answers that wait, in their order. -/
theorem settle (h : Deferring fetch cap s owns answers) :
    Deferring fetch cap s.settle owns answers := by
  induction hpending : s.pending generalizing s with
  | nil => rwa [settle_of_nil hpending]
  | cons request rest ih =>
    obtain ⟨shown, hanswers, hfinish⟩ := h.finish_some (i := 0) (by rw [hpending]; rfl)
    rw [← settle_finish_zero hpending]
    refine ih (s := s.finish 0) ?_ (by rw [pending_finish, hpending]; rfl)
    rw [hanswers]
    rwa [hpending] at hfinish ⊢

theorem take (h : Deferring fetch cap s owns answers) {turn : Turn} (hclear : ¬ turn.Clears) :
    Deferring fetch cap (s.take turn).2
      (owns ++ ((s.ran turn).1.flatMap (pieces fetch)).filterMap Piece.own?)
      (answers ++ ((s.ran turn).1.flatMap (pieces fetch)).filterMap Piece.answer?) := by
  by_cases hturn : turn = .settle
  · subst hturn
    rw [show (s.take .settle).2 = s.settle from rfl]
    simpa [ran, Turn.parts, Command.executeAll] using h.settle
  · rw [s.take_snd hturn]
    have hready : Deferring fetch cap (s.ready turn) owns answers := ⟨h.network, h.displays⟩
    exact hready.foldl (ran_ne_clearScreen hclear s)

theorem run (h : Deferring fetch cap s owns answers) {turns : List Turn}
    (hclear : ∀ turn ∈ turns, ¬ turn.Clears) :
    Deferring fetch cap (s.run turns).2
      (owns ++ (shownBy fetch s.limits turns s.tree).filterMap Piece.own?)
      (answers ++ (shownBy fetch s.limits turns s.tree).filterMap Piece.answer?) := by
  induction turns generalizing s owns answers with
  | nil => simpa [Session.run, shownBy] using h
  | cons turn turns ih =>
    rw [List.forall_mem_cons] at hclear
    obtain ⟨display, pending, heq⟩ := (takes_take s turn).frame
    have hrest := ih (h.take hclear.1) hclear.2
    rw [List.append_assoc, List.append_assoc, ← List.filterMap_append, ← List.filterMap_append]
      at hrest
    rw [show (s.take turn).2.limits = s.limits by rw [heq]; rfl,
      show (s.take turn).2.tree = (s.ran turn).2 by rw [heq]; rfl] at hrest
    exact hrest

theorem shows {es : List Command.Executed} (hshows : Shows s es s')
    (h : Deferring fetch cap s owns answers)
    (hclear : ∀ e ∈ es, e.result ≠ .action .clearScreen) :
    ∃ answers', Deferring fetch cap s' (owns ++ (es.flatMap (pieces fetch)).filterMap Piece.own?)
        answers' ∧
      answers'.Perm (answers ++ (es.flatMap (pieces fetch)).filterMap Piece.answer?) := by
  induction hshows generalizing owns answers with
  | done => exact ⟨answers, by simpa using h, by simp⟩
  | finish i _ ih =>
    obtain ⟨answers₁, hfinish, hperm₁⟩ := h.finish i
    obtain ⟨answers₂, hshown, hperm₂⟩ := ih hfinish hclear
    exact ⟨answers₂, hshown, hperm₂.trans (hperm₁.append_right _)⟩
  | next _ ih =>
    rw [List.forall_mem_cons] at hclear
    obtain ⟨answers', hshown, hperm⟩ := ih (h.showExecuted hclear.1) hclear.2
    rw [List.append_assoc, ← List.filterMap_append, ← List.flatMap_cons] at hshown hperm
    exact ⟨answers', hshown, hperm⟩

theorem runs {turns : List Turn} {seen : List Seen} (hruns : Runs s turns seen s')
    (h : Deferring fetch cap s owns answers) (hclear : ∀ turn ∈ turns, ¬ turn.Clears) :
    ∃ answers', Deferring fetch cap s'
        (owns ++ (shownBy fetch s.limits turns s.tree).filterMap Piece.own?) answers' ∧
      answers'.Perm (answers ++ (shownBy fetch s.limits turns s.tree).filterMap Piece.answer?) := by
  induction hruns generalizing owns answers with
  | done => exact ⟨answers, by simpa [shownBy] using h, by simp [shownBy]⟩
  | @next s s₁ s' turn turns results seen htakes _ ih =>
    rw [List.forall_mem_cons] at hclear
    have hready : Deferring fetch cap (s.ready turn) owns answers := ⟨h.network, h.displays⟩
    obtain ⟨answers₁, hshown, hperm₁⟩ :=
      shows htakes.shows.2 hready (ran_ne_clearScreen hclear.1 s)
    obtain ⟨answers₂, hrest, hperm₂⟩ := ih hshown hclear.2
    obtain ⟨display, pending, rfl⟩ := htakes.frame
    refine ⟨answers₂, ?_, hperm₂.trans ((hperm₁.append_right _).trans (.of_eq ?_))⟩
    · rwa [List.append_assoc, ← List.filterMap_append] at hrest
    · rw [List.append_assoc, ← List.filterMap_append]
      rfl

end Deferring

/-! ### The two sessions -/

/-- The same pieces in another order need no more room. -/
theorem Displays.lines_of_length_le {d : Display} {cap : Nat} {shown arranged : List Piece}
    (h : Displays d cap arranged)
    (hown : arranged.filterMap Piece.own? = shown.filterMap Piece.own?)
    (hanswer : (arranged.filterMap Piece.answer?).Perm (shown.filterMap Piece.answer?))
    (hcap : (shown.flatMap Piece.lines).length ≤ cap) : d.lines = arranged.flatMap Piece.lines := by
  rw [h.lines_eq]
  apply Display.newest_of_length_le
  rwa [length_flatMap_lines, hown, hanswer.flatten.length_eq, ← length_flatMap_lines]

section Comparing

variable {fetch : Fetch} {tree : Tree} {limits : Script.Limits} {cap : Nat} {turns : List Turn}

theorem displays_new (network : Network) :
    Displays (new tree cap limits network).display (max cap 1) [] :=
  ⟨rfl, (Display.newest_nil _).symm⟩

theorem shownBy_append_settle :
    shownBy fetch limits (turns ++ [.settle]) tree = shownBy fetch limits turns tree := by
  induction turns generalizing tree with
  | nil => rfl
  | cons turn turns ih =>
    rw [List.cons_append, shownBy, shownBy]
    simp only
    rw [ih]

theorem not_clears_append_settle (hclear : ∀ turn ∈ turns, ¬ turn.Clears) :
    ∀ turn ∈ turns ++ [.settle], ¬ turn.Clears := by
  intro turn hturn
  rcases List.mem_append.mp hturn with hturn | hturn
  · exact hclear turn hturn
  · rw [List.mem_singleton.mp hturn]
    rintro ⟨part, hpart, -⟩
    exact List.not_mem_nil hpart

theorem immediate_display (hclear : ∀ turn ∈ turns, ¬ turn.Clears)
    (hcap : ((shownBy fetch limits turns tree).flatMap Piece.lines).length ≤ cap) :
    ((new tree cap limits (.immediate fetch)).run (turns ++ [.settle])).2.display.lines =
      (shownBy fetch limits turns tree).flatMap Piece.lines := by
  have hnew : Immediate fetch (max cap 1) (new tree cap limits (.immediate fetch)) [] :=
    ⟨rfl, rfl, displays_new _⟩
  have hrun : Immediate fetch (max cap 1) _
      ([] ++ shownBy fetch limits (turns ++ [.settle]) tree) :=
    hnew.run (not_clears_append_settle hclear)
  rw [List.nil_append, shownBy_append_settle] at hrun
  exact hrun.displays.lines_of_length_le rfl (.refl _) (Nat.le_trans hcap (Nat.le_max_left _ _))

/-- Once nothing waits any more, the pieces of a session are all on display. -/
theorem Deferring.arranged {s : Session} {answers : List (List DisplayLine)}
    (h : Deferring fetch (max cap 1) s
      ((shownBy fetch limits turns tree).filterMap Piece.own?) answers)
    (hpending : s.pending = [])
    (hperm : answers.Perm ((shownBy fetch limits turns tree).filterMap Piece.answer?))
    (hcap : ((shownBy fetch limits turns tree).flatMap Piece.lines).length ≤ cap) :
    ∃ arranged : List Piece, s.display.lines = arranged.flatMap Piece.lines ∧
      arranged.filterMap Piece.own? = (shownBy fetch limits turns tree).filterMap Piece.own? ∧
      arranged.filterMap Piece.answer? = answers := by
  obtain ⟨arranged, hdisplays, hown, rfl⟩ := h.displays
  rw [hpending, List.map_nil, List.append_nil] at hperm ⊢
  have hroom := Nat.le_trans hcap (Nat.le_max_left cap 1)
  exact ⟨arranged, hdisplays.lines_of_length_le hown hperm hroom, hown, rfl⟩

theorem deferring_new :
    Deferring fetch (max cap 1) (new tree cap limits (.deferred fetch)) [] [] :=
  ⟨rfl, [], displays_new _, rfl, rfl⟩

theorem deferred_display {seen : List Seen} {s : Session}
    (hclear : ∀ turn ∈ turns, ¬ turn.Clears)
    (hcap : ((shownBy fetch limits turns tree).flatMap Piece.lines).length ≤ cap)
    (hruns : Runs (new tree cap limits (.deferred fetch)) (turns ++ [.settle]) seen s) :
    Interleaves (shownBy fetch limits turns tree) s.display.lines := by
  obtain ⟨answers, hs, hperm⟩ :=
    Deferring.runs hruns deferring_new (not_clears_append_settle hclear)
  change Deferring _ _ _ ([] ++ (shownBy fetch limits (turns ++ [.settle]) tree).filterMap _) _ at hs
  change answers.Perm ([] ++ (shownBy fetch limits (turns ++ [.settle]) tree).filterMap _) at hperm
  rw [List.nil_append, shownBy_append_settle] at hs hperm
  obtain ⟨arranged, hlines, hown, rfl⟩ := hs.arranged hruns.pending_settled hperm hcap
  exact ⟨arranged, hlines, hown, hperm⟩

theorem deferred_display_inOrder (hclear : ∀ turn ∈ turns, ¬ turn.Clears)
    (hcap : ((shownBy fetch limits turns tree).flatMap Piece.lines).length ≤ cap) :
    InterleavesInOrder (shownBy fetch limits turns tree)
      ((new tree cap limits (.deferred fetch)).run (turns ++ [.settle])).2.display.lines := by
  have hrun : Deferring fetch (max cap 1) _
      ([] ++ (shownBy fetch limits (turns ++ [.settle]) tree).filterMap Piece.own?)
      ([] ++ (shownBy fetch limits (turns ++ [.settle]) tree).filterMap Piece.answer?) :=
    deferring_new.run (not_clears_append_settle hclear)
  rw [List.nil_append, List.nil_append, shownBy_append_settle] at hrun
  have hpending :=
    (runs_run (new tree cap limits (.deferred fetch)) (turns ++ [.settle])).pending_settled
  obtain ⟨arranged, hlines, hown, hanswer⟩ := hrun.arranged hpending (.refl _) hcap
  exact ⟨arranged, hlines, hown, hanswer⟩

end Comparing

/-- A collaborator that answers with the address. -/
def echoed : Fetch := fun request => .response ⟨200, "OK", "page " ++ request.url⟩

/-- Two requests, and a command between them. -/
def crossing : List Turn := [.submit "curl a; pwd", .execute "curl b"]

end MemoryShell.Session
