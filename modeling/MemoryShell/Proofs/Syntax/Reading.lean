/-
  MemoryShell/Proofs/Syntax/Reading.lean
  ======================================
  **What a phrase reads depends on its tokens alone.**

  Every reader of the grammar tracks itself: neither the places of the tokens, nor what stands
  behind them, nor the room for nesting changes what is read, as long as something is read at all.
-/
import MemoryShell.Proofs.Syntax.Tracking

namespace MemoryShell.Script

open Parse

variable {room : Prop} {extra : List Token} {c c' : Cursor} {α β : Type}

/-- A token that is the same as another one is that one in its own place. -/
theorem Token.Same.eq {t t' : Token} (h : t.Same t') : t' = { t with position := t'.position } := by
  obtain ⟨kind, text, position, afterNewline⟩ := t
  obtain ⟨kind', text', position', afterNewline'⟩ := t'
  obtain ⟨rfl, rfl, rfl⟩ := h
  rfl

namespace Token.Same

variable {t t' : Token}

theorem isMemberName (h : t.Same t') : Grammar.isMemberName t' = Grammar.isMemberName t := by
  rw [h.eq]
  rfl

theorem numberValue? (h : t.Same t') : Grammar.numberValue? t' = Grammar.numberValue? t := by
  rw [h.eq]
  rfl

theorem updateOf? (h : t.Same t') : Grammar.updateOf? t' = Grammar.updateOf? t := by
  rw [h.eq]
  rfl

theorem unaryOf? (h : t.Same t') : Grammar.unaryOf? t' = Grammar.unaryOf? t := by
  rw [h.eq]
  rfl

end Token.Same

/-- Whether a phrase is an expression. -/
def Phrase.IsExpression : {α : Type} → Phrase α → Prop
  | _, .statement => False
  | _, .assignment | _, .power | _, .unary => True

/-- A cursor at which an expression begins with a primary one: neither an operator, an update nor a
    construction stands there, nor an arrow with its parameters. -/
structure Cursor.Plain (c : Cursor) : Prop where
  unary : Grammar.unaryOf? c.current = none
  update : Grammar.updateOf? c.current = none
  construction : c.current.kind ≠ .keyword .newWord
  named : (c.current.kind == .identifier && (c.rest[1]?.map Token.kind == some (.symbol .arrow))) =
    false
  listed : (c.current.kind == .symbol .leftParen && Grammar.startsArrow c.rest.tail) = false

theorem Cursor.Plain.of_closing (h : c.current.kind.Closing) : c.Plain := by
  have hname := h.beq (k := .identifier) nofun
  have hparen := h.beq (k := .symbol .leftParen) nofun
  refine ⟨?_, ?_, ?_, by rw [hname, Bool.false_and], by rw [hparen, Bool.false_and]⟩
  all_goals
    try unfold Grammar.unaryOf?
    try unfold Grammar.updateOf?
    generalize c.current.kind = k at h ⊢
    cases h <;> first | rfl | nofun

theorem Cursor.Plain.withDepth (h : c.Plain) (n : Nat) : ({ c with depth := n } : Cursor).Plain :=
  ⟨h.unary, h.update, h.construction, h.named, h.listed⟩

/-- Where the readers that nested phrases are given track each other. -/
structure Readers.Track (room : Prop) (extra : List Token) (r r' : Readers) : Prop where
  phrase : ∀ {α : Type} (p : Phrase α), Tracks room extra (r.phrase p) (r'.phrase p)
  fails : ∀ {α : Type} (p : Phrase α), p.IsExpression → ∀ c : Cursor, c.current.kind.Closing →
    Fails (r.phrase p) c
  fails' : ∀ {α : Type} (p : Phrase α), p.IsExpression → ∀ c : Cursor, c.current.kind.Closing →
    Fails (r'.phrase p) c
  fragment : ∀ source e, r.fragment source = .ok e → Agrees room e (r'.fragment source)

namespace Grammar

variable {r r' : Readers}

theorem fails_current {f : Token → Parse β} (h : Fails (f c.current) c) :
    Fails (current >>= f) c := h

theorem failsAtEnd_identifier : FailsAtEnd identifier := by
  intro c hend
  have hne : c.current.kind ≠ .identifier := by rw [hend.kind]; nofun
  exact (fails_expect hne).bind

theorem failsAtEnd_expression (H : r.Track room extra r') : FailsAtEnd (expression r) :=
  fun c hend => H.fails .assignment trivial c hend.closing

/-! ### Blocks and functions -/

theorem tracks_block (H : r.Track room extra r') : Tracks room extra (block r) (block r') :=
  (Tracks.expectSymbol _).bind fun _ => Tracks.untilBrace (H.phrase .statement)

theorem tracks_parameters : Tracks room extra parameters parameters :=
  (Tracks.expectSymbol _).bind fun _ => Tracks.items Tracks.identifier failsAtEnd_identifier

theorem tracks_functionRest (H : r.Track room extra r') (needsName : Bool) :
    Tracks room extra (functionRest r needsName) (functionRest r' needsName) := by
  have hbody : ∀ name : Option String, Tracks room extra
      (parameters >>= fun params => block r >>= fun body =>
        pure (FunctionDef.mk name params (.block body) false))
      (parameters >>= fun params => block r' >>= fun body =>
        pure (FunctionDef.mk name params (.block body) false)) := fun name =>
    tracks_parameters.bind fun params => (tracks_block H).bind fun body => .pure _
  refine Tracks.check (k := .identifier) nofun fun found => ?_
  cases found with
  | true => exact (Tracks.identifier.map some).bind hbody
  | false =>
    cases needsName with
    | true => exact .of_fails fun c => Fails.unexpected.bind
    | false => exact (Tracks.pure none).bind hbody

theorem tracks_arrowRest (H : r.Track room extra r') (params : List String) :
    Tracks room extra (arrowRest r params) (arrowRest r' params) := by
  refine (Tracks.expectSymbol _).bind fun _ =>
    Tracks.checkSymbol (s := .leftBrace) nofun fun found => ?_
  cases found with
  | true => exact (tracks_block H).bind fun body => .pure _
  | false => exact (H.phrase .assignment).bind fun e => .pure _

/-! ### Primary expressions -/

theorem failsAtEnd_objectMember : FailsAtEnd (objectMember r) := by
  intro c hend
  refine fails_current ?_
  simp only [hend.kind, hend.nameless]
  exact Fails.unexpected.bind

/-- What follows the key of a member that begins with a token. -/
def memberRest (r : Readers) (t : Token) (key : String) : Parse (String × Expr) := do
  if ← eatSymbol .colon then return (key, ← r.phrase .assignment)
  if ← checkSymbol .leftParen then
    let params ← parameters
    let body ← block r
    return (key, .function (.mk (some key) params (.block body) false))
  if t.kind = .identifier then return (key, .ident key)
  unexpected

theorem tracks_memberRest (H : r.Track room extra r') (t : Token) (key : String) :
    Tracks room extra (memberRest r t key) (memberRest r' t key) := by
  refine Tracks.eatSymbol (s := .colon) nofun ((H.phrase .assignment).bind fun e => .pure _) ?_
  refine Tracks.checkSymbol (s := .leftParen) nofun fun found => ?_
  cases found with
  | true => exact tracks_parameters.bind fun params => (tracks_block H).bind fun body => .pure _
  | false =>
    simp only [Bool.false_eq_true, ↓reduceIte]
    split
    · exact .pure _
    · exact .of_fails fun c => .unexpected

/-- The key of a member, if there is one, is found at both cursors. -/
theorem tracksAt_key {k : TokenKind} {text x : String} {named : Bool} {f g : String → Parse β}
    (h : ∀ key, TracksAt room extra c c' (f key) (g key)) :
    TracksAt room extra c c'
      (match k with
        | .string => pure text >>= f
        | .number => pure x >>= f
        | _ => if named then pure text >>= f else unexpected >>= f)
      (match k with
        | .string => pure text >>= g
        | .number => pure x >>= g
        | _ => if named then pure text >>= g else unexpected >>= g) := by
  split
  · exact h _
  · exact h _
  · split
    · exact h _
    · exact .of_fails Fails.unexpected.bind

theorem tracks_objectMember (H : r.Track room extra r') :
    Tracks room extra (objectMember r) (objectMember r') := by
  intro c c' hb
  cases hb.heads with
  | atEnd hend => exact .of_fails (failsAtEnd_objectMember c hend)
  | ahead _ _ hlike hnext =>
    have hrest : ∀ key, TracksAt room extra c c' (advance >>= fun _ => memberRest r c.current key)
        (advance >>= fun _ => memberRest r' c.current key) :=
      fun key => .advance (tracks_memberRest H c.current key _ _ hnext)
    refine .current ?_
    rw [hlike.kind, hlike.text, hlike.same.isMemberName, hlike.same.numberValue?]
    exact tracksAt_key hrest

theorem fails_primary (h : c.current.kind.Closing) : Fails (primary r) c := by
  refine fails_current ?_
  generalize c.current.kind = k at h ⊢
  cases h <;> exact Fails.unexpected

theorem agrees_templatePartsFrom {f f' : List Char → Except SyntaxError Expr}
    (h : ∀ source e, f source = .ok e → Agrees room e (f' source)) (p p' : Position) (fuel : Nat)
    (literal text : List Char) {parts : List TemplatePart}
    (hparts : templatePartsFrom f p fuel literal text = .ok parts) :
    Agrees room parts (templatePartsFrom f' p' fuel literal text) := by
  induction fuel, literal, text using templatePartsFrom.induct generalizing parts with
  | case1 | case2 =>
    unfold templatePartsFrom at hparts ⊢
    cases hparts
    rfl
  | case3 fuel literal escaped rest ih => exact ih hparts
  | case4 fuel literal inner hmatch =>
    simp only [templatePartsFrom, hmatch] at hparts
    cases hparts
  | case5 fuel literal inner source rest hmatch ih =>
    simp only [templatePartsFrom, hmatch] at hparts ⊢
    refine .bind (h source) (fun e parts hrest => ?_) hparts
    exact .bind (fun parts hparts => ih hparts) (fun parts all hall => by cases hall; rfl) hrest
  | case6 fuel literal c cs hescape hmark ih =>
    rw [templatePartsFrom.eq_5 _ _ _ _ _ _ hescape hmark] at hparts ⊢
    exact ih hparts

theorem agrees_templateParts {f f' : List Char → Except SyntaxError Expr}
    (h : ∀ source e, f source = .ok e → Agrees room e (f' source)) {t t' : Token}
    (hlike : t.Like t') {parts : List TemplatePart} (hparts : templateParts f t = .ok parts) :
    Agrees room parts (templateParts f' t') := by
  unfold templateParts
  rw [hlike.text]
  exact agrees_templatePartsFrom h _ _ _ _ _ hparts

theorem tracks_primary (H : r.Track room extra r') :
    Tracks room extra (primary r) (primary r') := by
  intro c c' hb
  cases hb.heads with
  | atEnd hend => exact .of_fails (fails_primary hend.closing)
  | ahead _ _ hlike hnext =>
    refine .current ?_
    rw [hlike.kind, hlike.text, hlike.same.numberValue?]
    generalize c.current.kind = k
    split
    case h_1 =>
      refine .advance ?_
      split
      · exact Tracks.pure _ _ _ hnext
      · exact .of_fails nofun
    case h_3 =>
      refine .advance ((Tracks.lift fun parts hparts => ?_).bind (fun parts => .pure _) _ _ hnext)
      exact agrees_templateParts H.fragment hlike hparts
    case h_8 =>
      exact .advance (((H.phrase .assignment).bind fun e =>
        (Tracks.expectSymbol _).bind fun _ => .pure e) _ _ hnext)
    case h_9 =>
      refine .advance ((Tracks.items (H.phrase .assignment) ?_).bind (fun es => .pure _) _ _ hnext)
      exact failsAtEnd_expression H
    case h_10 =>
      exact .advance ((Tracks.items (tracks_objectMember H) failsAtEnd_objectMember).bind
        (fun ms => .pure _) _ _ hnext)
    case h_11 => exact .advance ((tracks_functionRest H false).bind (fun f => .pure _) _ _ hnext)
    case h_12 => exact .of_fails .unexpected
    all_goals exact .advance (Tracks.pure _ _ _ hnext)

/-! ### Members, calls and updates -/

theorem tracks_arguments (H : r.Track room extra r') :
    Tracks room extra (arguments r) (arguments r') :=
  (Tracks.expectSymbol _).bind fun _ =>
    Tracks.items (H.phrase .assignment) (failsAtEnd_expression H)

/-- Nothing goes on where an expression ends. -/
theorem suffix_of_ends (allowCall : Bool) (e : Expr) (h : c.current.kind.Ends) :
    suffix r allowCall e c = .ok (none, c) := by
  unfold suffix
  rw [bind_of_ok (current_eq c)]
  generalize c.current.kind = k at h ⊢
  cases h <;> rfl

theorem tracks_suffix (H : r.Track room extra r') (allowCall : Bool) (e : Expr) :
    Tracks room extra (suffix r allowCall e) (suffix r' allowCall e) := by
  intro c c' hb
  cases hb.heads with
  | atEnd hend hclosing =>
    exact .congr (suffix_of_ends allowCall e hend.closing.ends)
      (suffix_of_ends allowCall e hclosing.ends) (Tracks.pure none c c' hb)
  | ahead _ _ hlike hnext =>
    refine .current ?_
    rw [hlike.kind]
    generalize c.current.kind = k
    split
    · refine .enter hb fun n n' hdepth => .advance (.current ?_)
      change TracksAt room extra _ _
        (if isMemberName c.next.current = true then
          advance >>= fun _ => pure (some (Expr.member e c.next.current.text)) else unexpected)
        (if isMemberName c'.next.current = true then
          advance >>= fun _ => pure (some (Expr.member e c'.next.current.text)) else unexpected)
      cases hnext.heads with
      | atEnd hend =>
        rw [if_neg (Bool.eq_false_iff.mp hend.nameless)]
        exact .of_fails .unexpected
      | ahead _ _ hlike hlast =>
        rw [hlike.same.isMemberName, hlike.text]
        split
        · exact .advance (Tracks.pure _ _ _ (hlast.withDepth hdepth))
        · exact .of_fails .unexpected
    · refine .enter hb fun n n' hdepth => .advance ?_
      exact ((H.phrase .assignment).bind fun key => (Tracks.expectSymbol _).bind fun _ => .pure _)
        _ _ (hnext.withDepth hdepth)
    · refine Tracks.enter ?_ c c' hb
      cases allowCall with
      | true => exact (tracks_arguments H).bind fun args => .pure _
      | false => exact .pure none
    · exact Tracks.pure none c c' hb

theorem fails_grow {step : Expr → Parse (Option Expr)} {first : Parse Expr} (h : Fails first c) :
    Fails (grow step first) c := by
  have hgrow : Fails (first >>= fun e => growFrom step (maxDepth + 1) e >>= fun e =>
      setDepth c.depth >>= fun _ => pure e) c := h.bind
  exact hgrow

theorem fails_callMember (hplain : c.Plain) (h : Fails (primary r) c) : Fails (callMember r) c :=
  fails_grow (.after (eat_of_ne hplain.construction) h)

theorem tracks_construction (H : r.Track room extra r') :
    Tracks room extra (construction r) (construction r') := by
  refine (Tracks.grow (tracks_suffix H false) (tracks_primary H)).bind fun callee => ?_
  refine Tracks.checkSymbol (s := .leftParen) nofun fun found => ?_
  cases found with
  | true => exact (tracks_arguments H).bind fun args => .pure _
  | false => exact .pure _

theorem tracks_callMember (H : r.Track room extra r') :
    Tracks room extra (callMember r) (callMember r') :=
  Tracks.grow (tracks_suffix H true)
    (Tracks.eatKeyword .newWord (tracks_construction H) (tracks_primary H))

theorem updateOf?_of_ends {t : Token} (h : t.kind.Ends) : updateOf? t = none := by
  unfold updateOf?
  generalize t.kind = k at h ⊢
  cases h <;> rfl

theorem tracks_postfixUpdate (H : r.Track room extra r') :
    Tracks room extra (postfixUpdate r) (postfixUpdate r') := by
  refine (tracks_callMember H).bind fun e c c' hb => .current ?_
  cases hb.heads with
  | atEnd hend hclosing =>
    rw [updateOf?_of_ends hend.closing.ends, updateOf?_of_ends hclosing.ends]
    exact Tracks.pure e c c' hb
  | ahead _ _ hlike hnext =>
    rw [hlike.afterNewline, hlike.same.updateOf?]
    split
    · split
      · exact Tracks.pure e c c' hb
      · split
        · exact .of_fails Fails.failWith.bind
        · exact .advance (Tracks.pure _ _ _ hnext)
    · exact Tracks.pure e c c' hb

/-! ### Operators -/

theorem fails_unary (hplain : c.Plain) (h : Fails (primary r) c) : Fails (unary r) c := by
  refine fails_current ?_
  rw [hplain.unary, hplain.update]
  exact (fails_callMember hplain h).bind

theorem tracks_unary (H : r.Track room extra r') : Tracks room extra (unary r) (unary r') := by
  intro c c' hb
  cases hb.heads with
  | atEnd hend =>
    exact .of_fails (fails_unary (.of_closing hend.closing) (fails_primary hend.closing))
  | ahead _ _ hlike hnext =>
    refine .current ?_
    rw [hlike.same.unaryOf?, hlike.same.updateOf?]
    generalize unaryOf? c.current = op
    generalize updateOf? c.current = increment
    split
    · exact .advance ((H.phrase .unary).bind (fun e => .pure _) _ _ hnext)
    · refine .advance ((H.phrase .unary).bind (fun target => ?_) _ _ hnext)
      split
      · exact .of_fails fun c => Fails.failWith.bind
      · exact .pure _
    · exact tracks_postfixUpdate H c c' hb

theorem tracks_power (H : r.Track room extra r') : Tracks room extra (power r) (power r') := by
  refine (H.phrase .unary).bind fun base => Tracks.eatSymbol (s := .power) nofun ?_ (.pure base)
  exact (H.phrase .power).bind fun e => .pure _

/-- A level of operators, none of which ends an expression. -/
theorem tracks_level {combine : TokenKind → Option (Expr → Expr → Expr)}
    {operand operand' : Parse Expr}
    (hcombine : ∀ k : TokenKind, k.Closing → combine k = none)
    (h : Tracks room extra operand operand') :
    Tracks room extra (level combine operand) (level combine operand') := by
  refine Tracks.grow (fun left c c' hb => .current ?_) h
  cases hb.heads with
  | atEnd hend hclosing =>
    rw [hcombine _ hend.closing, hcombine _ hclosing]
    exact Tracks.pure none c c' hb
  | ahead _ _ hlike hnext =>
    rw [hlike.kind]
    split
    · exact Tracks.pure none c c' hb
    · exact .advance (Tracks.enter (h.bind fun e => .pure _) _ _ hnext)

theorem tracks_disjunction (H : r.Track room extra r') :
    Tracks room extra (disjunction r) (disjunction r') := by
  refine tracks_level ?_ <| tracks_level ?_ <| tracks_level ?_ <| tracks_level ?_ <|
    tracks_level ?_ <| tracks_level ?_ (tracks_power H)
  all_goals
    intro k hk
    cases hk <;> rfl

theorem fails_disjunction (hunary : Fails (r.phrase .unary) c) : Fails (disjunction r) c :=
  fails_grow <| fails_grow <| fails_grow <| fails_grow <| fails_grow <| fails_grow hunary.bind

theorem tracks_conditional (H : r.Track room extra r') :
    Tracks room extra (conditional r) (conditional r') := by
  refine (tracks_disjunction H).bind fun test =>
    Tracks.eatSymbol (s := .question) nofun ?_ (.pure test)
  exact (H.phrase .assignment).bind fun consequent => (Tracks.expectSymbol _).bind fun _ =>
    (H.phrase .assignment).bind fun alternate => .pure _

/-- No arrow is what ends an expression. -/
theorem head_arrow_along {ts ts' : List Token} {stop : Token} (h : Along Token.Like extra ts ts')
    (hclosing : (extra.head?.getD stop).kind.Closing) :
    (ts'.head?.map Token.kind == some (.symbol .arrow)) =
      (ts.head?.map Token.kind == some (.symbol .arrow)) := by
  cases h with
  | next hlike _ =>
    simp only [List.head?_cons, Option.map_some]
    rw [hlike.kind]
  | done =>
    refine beq_false_of_ne fun heq => ?_
    obtain _ | ⟨t, extra⟩ := extra
    · cases heq
    · have hkind : t.kind.Closing := hclosing
      rw [Option.some.inj heq] at hkind
      cases hkind

/-- Looking for the end of an arrow's parameters comes to the same in both lists. -/
theorem startsArrow_along {ts ts' : List Token} {stop : Token} (h : Along Token.Like extra ts ts')
    (hclosing : (extra.head?.getD stop).kind.Closing)
    (hnoArrow : (extra.head?.getD stop).kind = .symbol .rightParen →
      extra[1]?.map Token.kind ≠ some (.symbol .arrow)) :
    startsArrow ts' = startsArrow ts := by
  induction h with
  | done =>
    obtain _ | ⟨t, extra⟩ := extra
    · rfl
    have hkind : t.kind.Closing := hclosing
    replace hnoArrow : t.kind = .symbol .rightParen → _ := hnoArrow
    unfold startsArrow
    generalize t.kind = k at hkind hnoArrow
    cases hkind with
    | stop | brace => rfl
    | paren =>
      rw [List.head?_eq_getElem?]
      exact beq_false_of_ne (hnoArrow rfl)
  | next hlike halong ih =>
    unfold startsArrow
    rw [hlike.kind]
    split
    · exact ih
    · exact ih
    · exact head_arrow_along halong hclosing
    · rfl

theorem startsArrow_beside (h : Beside room extra c c') :
    (c'.current.kind == .symbol .leftParen && startsArrow c'.rest.tail) =
      (c.current.kind == .symbol .leftParen && startsArrow c.rest.tail) := by
  rw [h.current_beq (k := .symbol .leftParen) nofun]
  cases h.heads with
  | ahead _ _ _ hnext =>
    have halong : Along Token.Like extra c.rest.tail c'.rest.tail := hnext.along
    rw [startsArrow_along halong h.closing h.noArrow]
  | atEnd hend => rw [hend.kind]; rfl

theorem namedArrow_beside (h : Beside room extra c c') :
    (c'.current.kind == .identifier && (c'.rest[1]?.map Token.kind == some (.symbol .arrow))) =
      (c.current.kind == .identifier && (c.rest[1]?.map Token.kind == some (.symbol .arrow))) := by
  rw [h.current_beq (k := .identifier) nofun]
  cases h.heads with
  | ahead _ _ _ hnext =>
    have halong : Along Token.Like extra c.rest.tail c'.rest.tail := hnext.along
    have hhead := head_arrow_along halong h.closing
    rw [List.head?_tail, List.head?_tail] at hhead
    rw [hhead]
  | atEnd hend => rw [hend.kind]; rfl

theorem tracksAt_atArrow {f g : Bool → Parse β}
    (h : TracksAt room extra c c'
      (f (c.current.kind == .symbol .leftParen && startsArrow c.rest.tail))
      (g (c'.current.kind == .symbol .leftParen && startsArrow c'.rest.tail))) :
    TracksAt room extra c c' (atArrow >>= f) (atArrow >>= g) := h

theorem tracksAt_checkNextSymbol {s : Symbol} {f g : Bool → Parse β}
    (h : TracksAt room extra c c' (f (c.rest[1]?.map Token.kind == some (.symbol s)))
      (g (c'.rest[1]?.map Token.kind == some (.symbol s)))) :
    TracksAt room extra c c' (checkNextSymbol s >>= f) (checkNextSymbol s >>= g) := h

theorem assignmentOf?_of_ends {k : TokenKind} (h : k.Ends) : assignmentOf? k = none := by
  cases h <;> rfl

theorem tracks_assignment (H : r.Track room extra r') :
    Tracks room extra (assignment r) (assignment r') := by
  refine fun c c' hb => .check (tracksAt_checkNextSymbol ?_)
  rw [namedArrow_beside hb]
  split
  · exact Tracks.identifier.bind (fun param => tracks_arrowRest H [param]) c c' hb
  refine tracksAt_atArrow ?_
  rw [startsArrow_beside hb]
  split
  · exact tracks_parameters.bind (tracks_arrowRest H) c c' hb
  refine (tracks_conditional H).bind (fun left c c' hb => .current ?_) c c' hb
  cases hb.heads with
  | atEnd hend hclosing =>
    rw [assignmentOf?_of_ends hend.closing.ends, assignmentOf?_of_ends hclosing.ends]
    exact Tracks.pure left c c' hb
  | ahead _ _ hlike hnext =>
    rw [hlike.kind]
    split
    · exact Tracks.pure left c c' hb
    · split
      · exact .of_fails Fails.failWith.bind
      · exact .advance ((H.phrase .assignment).bind (fun value => .pure _) _ _ hnext)

/-! ### Statements -/

theorem failsAtEnd_advance {p : Parse α} (h : FailsAtEnd p) :
    FailsAtEnd (advance >>= fun _ => p) := by
  intro c hend
  refine .after (d := c) (a := c.current) ?_ (h c hend)
  change Except.ok (c.current, c.next) = _
  rw [hend.next_eq]

/-- Passing over a token, if nothing can be read where the source ends. -/
theorem tracks_advance {p q : Parse α} (h : Tracks room extra p q) (hend : FailsAtEnd p) :
    Tracks room extra (advance >>= fun _ => p) (advance >>= fun _ => q) := by
  intro c c' hb
  cases hb.heads with
  | ahead _ _ _ hnext => exact .advance (h _ _ hnext)
  | atEnd hatEnd => exact .of_fails (failsAtEnd_advance hend c hatEnd)

theorem failsAtEnd_declaration (kind : DeclKind) : FailsAtEnd (declaration r kind) :=
  fun c hend => (failsAtEnd_identifier c hend).bind

theorem tracks_declaration (H : r.Track room extra r') (kind : DeclKind) :
    Tracks room extra (declaration r kind) (declaration r' kind) := by
  refine Tracks.identifier.bind fun name => Tracks.eatSymbol (s := .assign) nofun ?_ ?_
  · exact (H.phrase .assignment).bind fun e => .pure _
  · simp only [Bool.false_eq_true, ↓reduceIte]
    split
    · exact .of_fails fun c => Fails.failWith.bind
    · exact .pure _

theorem failsAtEnd_declarations (kind : DeclKind) : FailsAtEnd (declarations r kind) := by
  intro c hend
  refine Fails.bind ?_
  change Fails (commaSeparatedFrom (declaration r kind) c.rest.length) c
  have hfails := failsAtEnd_declaration (r := r) kind c hend
  cases c.rest.length with
  | zero => exact hfails.bind
  | succ n => exact hfails.bind

theorem tracks_declarations (H : r.Track room extra r') (kind : DeclKind) :
    Tracks room extra (declarations r kind) (declarations r' kind) :=
  (Tracks.commaSeparated (tracks_declaration H kind) (failsAtEnd_declaration kind)).bind
    fun _ => .pure _

theorem tracks_parenthesized (H : r.Track room extra r') :
    Tracks room extra (parenthesized r) (parenthesized r') :=
  (Tracks.expectSymbol _).bind fun _ => (H.phrase .assignment).bind fun e =>
    (Tracks.expectSymbol _).bind fun _ => .pure e

theorem tracks_ifRest (H : r.Track room extra r') :
    Tracks room extra (ifRest r) (ifRest r') := by
  refine (tracks_parenthesized H).bind fun test => (H.phrase .statement).bind fun consequent => ?_
  exact Tracks.eatKeyword .elseWord ((H.phrase .statement).bind fun s => .pure _) (.pure _)

/-- A loop over elements or keys, behind its declaring keyword. -/
def eachLoop (r : Readers) (kind : Option DeclKind) (elements : Bool) : Parse Stmt := do
  let name ← identifier
  let _ ← advance
  let source ← expression r
  expectSymbol .rightParen
  let body ← r.phrase .statement
  return if elements then .forOf kind name source body else .forIn kind name source body

theorem tracks_eachLoop (H : r.Track room extra r') (kind : Option DeclKind) (elements : Bool) :
    Tracks room extra (eachLoop r kind elements) (eachLoop r' kind elements) := by
  refine Tracks.identifier.bind fun name => tracks_advance ?_ ?_
  · exact (H.phrase .assignment).bind fun source => (Tracks.expectSymbol _).bind fun _ =>
      (H.phrase .statement).bind fun body => .pure _
  · exact fun c hend => (failsAtEnd_expression H c hend).bind

theorem tracks_eachRest (H : r.Track room extra r') (kind : Option DeclKind) (elements : Bool) :
    Tracks room extra (eachRest r kind elements) (eachRest r' kind elements) := by
  have hloop := tracks_eachLoop H kind elements
  cases kind with
  | none => exact hloop
  | some kind =>
    exact tracks_advance hloop fun c hend => (failsAtEnd_identifier c hend).bind

theorem failsAtEnd_unlessSymbol {p : Parse α} (h : FailsAtEnd p) (s : Symbol) :
    FailsAtEnd (unlessSymbol s p) := by
  intro c hend
  have hcheck : checkSymbol s c = .ok (false, c) := by
    unfold checkSymbol check
    rw [beq_false_of_ne (hend.ne_symbol s)]
  exact .after hcheck (h c hend).bind

theorem tracks_unlessSymbol {s : Symbol} {p q : Parse α} (h : Tracks room extra p q)
    (hend : FailsAtEnd p) :
    Tracks room extra (unlessSymbol s p) (unlessSymbol s q) := by
  intro c c' hb
  cases hb.heads with
  | atEnd hatEnd => exact .of_fails (failsAtEnd_unlessSymbol hend s c hatEnd)
  | ahead _ _ hlike _ =>
    refine .check ?_
    rw [hlike.kind]
    cases c.current.kind == .symbol s with
    | true => exact Tracks.pure none c c' hb
    | false => exact h.bind (fun a => .pure _) c c' hb

theorem eachOf?_of_closing {t : Token} (h : t.kind.Closing) : eachOf? t = none := by
  unfold eachOf?
  rw [if_neg, if_neg]
  · intro heq
    rw [heq] at h
    cases h
  · rintro ⟨heq, -⟩
    rw [heq] at h
    cases h

/-- What `eachAhead` finds in a list. -/
def eachIn : List Token → Option Bool
  | name :: after :: _ => if name.kind = .identifier then eachOf? after else none
  | _ => none

theorem eachAhead_eq (declared : Bool) (c : Cursor) :
    eachAhead declared c = .ok (eachIn (if declared then c.rest.tail else c.rest), c) := by
  unfold eachAhead eachIn
  obtain _ | ⟨name, _ | ⟨after, rest⟩⟩ := if declared then c.rest.tail else c.rest <;> rfl

/-- Looking for a loop over elements or keys comes to the same in both lists. -/
theorem eachIn_along {ts ts' : List Token} {stop : Token} (h : Along Token.Like extra ts ts')
    (hclosing : (extra.head?.getD stop).kind.Closing) : eachIn ts' = eachIn ts := by
  have hend : ∀ t rest, extra = t :: rest → t.kind.Closing := fun t rest heq => by
    rw [heq] at hclosing
    exact hclosing
  cases h with
  | done =>
    unfold eachIn
    split
    · rename_i name after rest
      rw [if_neg]
      intro heq
      have hkind := hend _ _ rfl
      rw [heq] at hkind
      cases hkind
    · rfl
  | @next name name' _ _ hlike halong =>
    cases halong with
    | @next after after' _ _ hafter _ =>
      have heach : eachOf? after' = eachOf? after := by
        unfold eachOf?
        rw [hafter.kind, hafter.text]
      change (if name'.kind = .identifier then eachOf? after' else none) =
        (if name.kind = .identifier then eachOf? after else none)
      rw [hlike.kind, heach]
    | done =>
      unfold eachIn
      split
      · rename_i name after rest heq
        obtain ⟨rfl, rfl⟩ := List.cons.inj heq
        rw [eachOf?_of_closing (hend _ _ rfl), ite_self]
      · rfl

theorem declKindOf?_of_closing {k : TokenKind} (h : k.Closing) : declKindOf? k = none := by
  cases h <;> rfl

theorem tracksAt_eachAhead {declared : Bool} {f g : Option Bool → Parse β}
    (h : TracksAt room extra c c' (f (eachIn (if declared then c.rest.tail else c.rest)))
      (g (eachIn (if declared then c'.rest.tail else c'.rest)))) :
    TracksAt room extra c c' (eachAhead declared >>= f) (eachAhead declared >>= g) :=
  .congr (bind_of_ok (eachAhead_eq declared c)) (bind_of_ok (eachAhead_eq declared c')) h

/-- The start of a loop, with or without a declaring keyword. -/
def loopStart (r : Readers) : Option DeclKind → Parse Stmt
  | some kind => do
    let _ ← advance
    declarations r kind
  | none => return .expr (← expression r)

theorem failsAtEnd_loopStart (H : r.Track room extra r') (kind : Option DeclKind) :
    FailsAtEnd (loopStart r kind) := by
  cases kind with
  | none => exact fun c hend => (failsAtEnd_expression H c hend).bind
  | some kind => exact failsAtEnd_advance (failsAtEnd_declarations kind)

theorem tracks_loopStart (H : r.Track room extra r') (kind : Option DeclKind) :
    Tracks room extra (loopStart r kind) (loopStart r' kind) := by
  cases kind with
  | none => exact (H.phrase .assignment).bind fun e => .pure _
  | some kind => exact tracks_advance (tracks_declarations H kind) (failsAtEnd_declarations kind)

/-- A loop behind its opening parenthesis that is none over elements or keys. -/
def loopRest (r : Readers) (kind : Option DeclKind) : Parse Stmt := do
  let start ← unlessSymbol .semicolon (loopStart r kind)
  expectSymbol .semicolon
  let test ← unlessSymbol .semicolon (expression r)
  expectSymbol .semicolon
  let update ← unlessSymbol .rightParen (expression r)
  expectSymbol .rightParen
  let body ← r.phrase .statement
  return .forLoop start test update body

theorem tracks_loopRest (H : r.Track room extra r') (kind : Option DeclKind) :
    Tracks room extra (loopRest r kind) (loopRest r' kind) := by
  have hexpression : ∀ s, Tracks room extra (unlessSymbol s (expression r))
      (unlessSymbol s (expression r')) :=
    fun s => tracks_unlessSymbol (H.phrase .assignment) (failsAtEnd_expression H)
  exact (tracks_unlessSymbol (tracks_loopStart H kind) (failsAtEnd_loopStart H kind)).bind
    fun start => (Tracks.expectSymbol _).bind fun _ => (hexpression _).bind fun test =>
    (Tracks.expectSymbol _).bind fun _ => (hexpression _).bind fun update =>
    (Tracks.expectSymbol _).bind fun _ => (H.phrase .statement).bind fun body => .pure _

theorem tracks_forRest (H : r.Track room extra r') :
    Tracks room extra (forRest r) (forRest r') := by
  refine (Tracks.expectSymbol _).bind fun _ c c' hb => .current ?_
  dsimp only
  cases hb.heads with
  | atEnd hend =>
    rw [declKindOf?_of_closing hend.closing]
    refine .of_fails (.after (eachAhead_eq _ c) ?_)
    rw [show eachIn (if (none : Option DeclKind).isSome then c.rest.tail else c.rest) = none by
      rw [hend.rest]; rfl]
    exact (failsAtEnd_unlessSymbol (failsAtEnd_loopStart H none) _ c hend).bind
  | ahead _ _ hlike hnext =>
    rw [hlike.kind]
    generalize declKindOf? c.current.kind = kind
    refine tracksAt_eachAhead ?_
    have hlists : Along Token.Like extra (if kind.isSome then c.rest.tail else c.rest)
        (if kind.isSome then c'.rest.tail else c'.rest) := by
      split
      · exact hnext.along
      · exact hb.along
    rw [eachIn_along hlists hb.closing]
    split
    · exact tracks_eachRest H kind _ c c' hb
    · exact tracks_loopRest H kind c c' hb

/-- What may follow a guarded block and its handler. -/
def finallyRest (r : Readers) (guarded : List Stmt) (param : Option String)
    (handler : Option (List Stmt)) : Parse Stmt := do
  let finalizer ←
    if ← eatKeyword .finallyWord then some <$> block r else pure none
  if handler.isNone && finalizer.isNone then failWith .missingHandler
  return .tryCatch guarded param handler finalizer

theorem tracks_finallyRest (H : r.Track room extra r') (guarded : List Stmt) (param : Option String)
    (handler : Option (List Stmt)) :
    Tracks room extra (finallyRest r guarded param handler)
      (finallyRest r' guarded param handler) := by
  have hend : ∀ finalizer : Option (List Stmt), Tracks room extra
      (if (handler.isNone && finalizer.isNone) = true then
        (failWith .missingHandler : Parse Unit) >>= fun _ =>
          pure (Stmt.tryCatch guarded param handler finalizer)
        else pure (.tryCatch guarded param handler finalizer))
      (if (handler.isNone && finalizer.isNone) = true then
        (failWith .missingHandler : Parse Unit) >>= fun _ =>
          pure (Stmt.tryCatch guarded param handler finalizer)
        else pure (.tryCatch guarded param handler finalizer)) := by
    intro finalizer
    split
    · exact .of_fails fun c => Fails.failWith.bind
    · exact .pure _
  exact Tracks.eatKeyword .finallyWord (((tracks_block H).map some).bind hend)
    ((Tracks.pure none).bind hend)

theorem tracks_tryRest (H : r.Track room extra r') :
    Tracks room extra (tryRest r) (tryRest r') := by
  refine (tracks_block H).bind fun guarded => ?_
  have hhandler : ∀ param : Option String, Tracks room extra
      (block r >>= fun body => finallyRest r guarded param (some body))
      (block r' >>= fun body => finallyRest r' guarded param (some body)) :=
    fun param => (tracks_block H).bind fun body => tracks_finallyRest H guarded param _
  refine Tracks.eatKeyword .catchWord ?_ (tracks_finallyRest H guarded none none)
  exact Tracks.eatSymbol (s := .leftParen) nofun
    (Tracks.identifier.bind fun name => (Tracks.expectSymbol _).bind fun _ => hhandler (some name))
    (hhandler none)

theorem tracks_returnRest (H : r.Track room extra r') :
    Tracks room extra (returnRest r) (returnRest r') := by
  intro c c' hb
  have hend : ∀ value : Option Expr, Tracks room extra
      (endStatement >>= fun _ => pure (Stmt.returnWith value))
      (endStatement >>= fun _ => pure (Stmt.returnWith value)) :=
    fun value => Tracks.endStatement.bind fun _ => .pure _
  refine .current ?_
  dsimp only
  cases hb.heads with
  | ahead _ _ hlike _ =>
    rw [hlike.kind, hlike.afterNewline]
    split
    · exact hend none c c' hb
    · exact (Tracks.map some (H.phrase .assignment)).bind hend c c' hb
  | atEnd hatEnd hclosing hwhole =>
    rw [if_pos (by rw [hatEnd.kind]; simp)]
    split
    · exact hend none c c' hb
    · rename_i hbare
      intro r hr
      have hfails : Fails (some <$> expression r' >>= fun value =>
        endStatement >>= fun _ => pure (Stmt.returnWith value)) c' :=
        (Fails.map (H.fails' .assignment trivial c' hclosing)).bind
      obtain ⟨e, he⟩ := hfails.exists_error
      rw [he]
      intro hroom
      exact hbare (by rw [hwhole hroom]; simp)

theorem tracks_statement (H : r.Track room extra r') :
    Tracks room extra (statement r) (statement r') := by
  intro c c' hb
  cases hb.heads with
  | atEnd hend =>
    refine .of_fails (fails_current ?_)
    rw [hend.kind]
    exact (failsAtEnd_expression H c hend).bind
  | ahead _ _ hlike hnext =>
    refine .current ?_
    rw [hlike.kind]
    generalize c.current.kind = k
    split
    · exact (tracks_block H).bind (fun body => .pure _) c c' hb
    · exact .advance (Tracks.pure _ _ _ hnext)
    · exact .advance ((tracks_declarations H _).bind
        (fun s => Tracks.endStatement.bind fun _ => .pure s) _ _ hnext)
    · exact .advance ((tracks_declarations H _).bind
        (fun s => Tracks.endStatement.bind fun _ => .pure s) _ _ hnext)
    · exact .advance ((tracks_declarations H _).bind
        (fun s => Tracks.endStatement.bind fun _ => .pure s) _ _ hnext)
    · exact .advance ((tracks_functionRest H true).bind (fun f => .pure _) _ _ hnext)
    · exact .advance (tracks_ifRest H _ _ hnext)
    · exact .advance ((tracks_parenthesized H).bind
        (fun test => (H.phrase .statement).bind fun body => .pure _) _ _ hnext)
    · have hend : ∀ body test, Tracks room extra
          (eatSymbol .semicolon >>= fun _ => pure (Stmt.doWhile body test))
          (eatSymbol .semicolon >>= fun _ => pure (Stmt.doWhile body test)) := fun body test =>
        Tracks.eatSymbol (s := .semicolon) nofun (.pure _) (.pure _)
      exact .advance ((H.phrase .statement).bind (fun body => (Tracks.expectKeyword _).bind fun _ =>
        (tracks_parenthesized H).bind (hend body)) _ _ hnext)
    · exact .advance (tracks_forRest H _ _ hnext)
    · exact .advance (tracks_returnRest H _ _ hnext)
    · exact .advance (Tracks.endStatement.bind (fun _ => .pure _) _ _ hnext)
    · exact .advance (Tracks.endStatement.bind (fun _ => .pure _) _ _ hnext)
    · have hvalue : Tracks room extra
          (expression r >>= fun e => endStatement >>= fun _ => pure (Stmt.throwValue e))
          (expression r' >>= fun e => endStatement >>= fun _ => pure (Stmt.throwValue e)) :=
        (H.phrase .assignment).bind fun e => Tracks.endStatement.bind fun _ => .pure _
      refine .advance (.current ?_)
      dsimp only
      cases hnext.heads with
      | atEnd hend =>
        refine .of_fails ?_
        split
        · exact Fails.unexpected.bind
        · exact (failsAtEnd_expression H _ hend).bind
      | ahead _ _ hlike _ =>
        rw [hlike.afterNewline]
        split
        · exact .of_fails Fails.unexpected.bind
        · exact hvalue _ _ hnext
    · exact .advance (tracks_tryRest H _ _ hnext)
    · exact (H.phrase .assignment).bind (fun e => Tracks.endStatement.bind fun _ => .pure _) c c' hb

/-! ### Phrases -/

/-- Where no arrow begins, an assignment is what is tighter than it, or goes on from that. -/
theorem assignment_eq (hplain : c.Plain) :
    assignment r c = (conditional r >>= fun left => current >>= fun t =>
      match assignmentOf? t.kind with
      | none => pure left
      | some op => do
        if !left.isTarget then failWith .invalidAssignment
        let _ ← advance
        return .assign op left (← r.phrase .assignment)) c := by
  have hassignment : assignment r c =
      (if (c.current.kind == .identifier &&
          (c.rest[1]?.map Token.kind == some (.symbol .arrow))) = true then _
        else atArrow >>= _) c := rfl
  have hlisted : atArrow c = .ok (false, c) := by rw [atArrow, hplain.listed]
  rw [hassignment, hplain.named, if_neg nofun, bind_of_ok hlisted]
  rfl

theorem fails_assignment (hplain : c.Plain) (hunary : Fails (r.phrase .unary) c) :
    Fails (assignment r) c := by
  intro e he
  rw [assignment_eq hplain] at he
  exact (fails_disjunction hunary).bind.bind e he

theorem tracks_phrase (H : r.Track room extra r') (p : Phrase α) :
    Tracks room extra (phrase r p) (phrase r' p) := by
  cases p with
  | statement => exact tracks_statement H
  | assignment => exact tracks_assignment H
  | power => exact tracks_power H
  | unary => exact tracks_unary H

theorem fails_phrase (hunary : Fails (r.phrase .unary) c) (h : c.current.kind.Closing)
    {p : Phrase α} (hp : p.IsExpression) : Fails (phrase r p) c := by
  cases p with
  | statement => exact hp.elim
  | assignment => exact fails_assignment (.of_closing h) hunary
  | power => exact hunary.bind
  | unary => exact fails_unary (.of_closing h) (fails_primary h)

end Grammar

/-! ### Levels and fragments -/

theorem fails_nested {p : Parse α} (h : Fails p { c with depth := c.depth + 1 }) :
    Fails (nested p) c := by
  intro r hr
  obtain ⟨⟨⟩, d, henter, hrest⟩ := bind_eq_ok.mp hr
  unfold enter at henter
  split at henter
  · cases henter
  · cases henter
    exact h.bind r hrest

theorem fails_phraseAt (f : List Char → Except SyntaxError Expr) (levels : Nat) {p : Phrase α}
    (hp : p.IsExpression) (h : c.current.kind.Closing) : Fails (phraseAt f levels p) c := by
  induction levels generalizing c α with
  | zero => exact .failWith
  | succ levels ih =>
    refine fails_nested ?_
    have hunary : Fails (phraseAt f levels .unary) { c with depth := c.depth + 1 } := ih trivial h
    exact Grammar.fails_phrase (c := { c with depth := c.depth + 1 }) hunary h hp

/-- What a phrase reads does not depend on the levels that are left, as long as they suffice. -/
theorem tracks_phraseAt {f f' : List Char → Except SyntaxError Expr}
    (hf : ∀ source e, f source = .ok e → Agrees room e (f' source)) {levels levels' : Nat}
    (hlevels : room → levels ≤ levels') (p : Phrase α) :
    Tracks room extra (phraseAt f levels p) (phraseAt f' levels' p) := by
  induction levels generalizing levels' α with
  | zero => exact .of_fails fun c => .failWith
  | succ levels ih =>
    obtain _ | levels' := levels'
    · exact fun c c' _ _ _ hroom => absurd (hlevels hroom) (Nat.not_succ_le_zero levels)
    refine Tracks.nested (Grammar.tracks_phrase ⟨ih ?_, ?_, ?_, hf⟩ p)
    · exact fun hroom => Nat.le_of_succ_le_succ (hlevels hroom)
    · exact fun p hp c h => fails_phraseAt f levels hp h
    · exact fun p hp c h => fails_phraseAt f' levels' hp h

end MemoryShell.Script
