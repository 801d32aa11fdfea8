import ShellFront.Proofs.Layout.Progress
import ShellFront.Proofs.Twins.Scripts

/-!
# How deep rules go

The rules of the grammar are nested to a depth that the tokens left allow, and past it there is nothing but an
error. No reader ever comes there. A script is its own twin, and on the side of the twin it makes no difference
what the rules have further down: whatever is put there, the same comes of it. So reading always ends, with a
result that owes nothing to the depth.

## Contents
- `Seam.itself`, a script next to itself.
- `Parse.Outcome.Settled`, `Parse.Mirrors.settled`: what comes of a rule at any depth.
- `Rules.Sounds`, `Rules.expression_sounds` and the like.
- `Session.Advances`, `Session.Fathoms`, `session_total`.
-/

namespace ShellFront

open Outlined Parse

/-! ## A script next to itself -/

/-- A script next to itself, as it is. -/
def Seam.itself (s : Script) (isBuiltin : String → Bool) (hstarts : ∀ t ∈ s.body.head?, t.kind ≠ .newline) : Seam :=
  .same s .plain .plain isBuiltin isBuiltin View.plain_steady View.plain_steady (View.builtin_self .plain isBuiltin)
    (View.qualified_self .plain) hstarts

section

variable {s : Script} {isBuiltin : String → Bool} {hstarts : ∀ t ∈ s.body.head?, t.kind ≠ .newline}
  {report report' : Report} {c : Cursor}

theorem Seam.itself_agrees :
    (Seam.itself s isBuiltin hstarts).Agrees report report' ↔ report' = report := by
  have hviews : (Seam.itself s isBuiltin hstarts).Agrees report report' ↔
      report'.toList.map (Diagnostic.view .plain) = report.toList.map (Diagnostic.view .plain) := .rfl
  rw [hviews, View.plain_steady.diagnostics, View.plain_steady.diagnostics]
  exact ⟨fun h => congrArg Report.mk (Array.toList_inj.mp h), congrArg Report.toList⟩

theorem Seam.itself_meets (hc : c.tokens = s.tokens) : (Seam.itself s isBuiltin hstarts).Meets c :=
  ⟨hc, fun h => absurd rfl h, nofun⟩

theorem Seam.itself_image (hc : c.tokens = s.tokens) : (Seam.itself s isBuiltin hstarts).image c = c :=
  Seam.image_self (b := .itself s isBuiltin hstarts) rfl rfl hc

/-! ## Outcomes at any depth -/

namespace Parse

variable {α : Type} {m m' : Parse α} {n : Nat} {K : TokenKind → Prop} {st : State} {mode : Mode}

/-- An outcome that is not the end of the depth. -/
def Outcome.Settled (x : Outcome α) : Prop := ∀ e, x.result = .error e → e.problem ≠ .tooDeep

/-- What comes of a script and of itself is the same. -/
theorem Tied.settled [Viewable α] {c : Cursor} {Q : α → Cursor → Prop}
    {x y : EStateM.Result SyntaxError State α} (hplain : ∀ a : α, Viewable.view .plain a = a)
    (h : Tied (.itself s isBuiltin hstarts) c (fun _ => False) Q x y) :
    Outcome.of y = .of x ∧ (Outcome.of x).Settled := by
  cases h with
  | @agree a a' st st' hlike hmeets _ hcursor hreport _ =>
      have hsame : a = a' := by
        rw [← hplain a, ← hplain a']
        exact hlike
      have hcursor : st'.cursor = st.cursor := hcursor.trans (Seam.itself_image hmeets.tokens)
      rw [Outcome.of, Outcome.of, hsame, hcursor, Seam.itself_agrees.mp hreport]
      refine ⟨rfl, fun e h => ?_⟩
      contradiction
  | @fail e e' st st' hlike hmeets _ hcursor hreport hshallow =>
      have hsame : e = e' := hlike
      have hcursor : st'.cursor = st.cursor := hcursor.trans (Seam.itself_image hmeets.tokens)
      rw [Outcome.of, Outcome.of, ← hsame, hcursor, Seam.itself_agrees.mp hreport]
      exact ⟨rfl, fun e' h => Except.error.inj h ▸ Problem.ne_tooDeep hshallow⟩
  | stray _ hlost => exact absurd hlost.cut Bool.false_ne_true
  | spent hspent => exact absurd hspent.cut Bool.false_ne_true

theorem Mirrors.settled [Viewable α] {hstarts : ∀ t ∈ s.body.head?, t.kind ≠ .newline} {ctx : Context}
    (hplain : ∀ a : α, Viewable.view .plain a = a) (h : Mirrors (.itself s ctx.isBuiltin hstarts) n K m m')
    (hc : st.cursor.tokens = s.tokens) (hn : st.cursor.ahead.length < n) (hK : K st.cursor.kind) :
    m'.outcome ctx st = m.outcome ctx st ∧ (m.outcome ctx st).Settled :=
  Tied.settled hplain (h st.cursor (Seam.itself_meets hc) hn hK ctx.mode st st nofun rfl
    (Seam.itself_image hc).symm (Seam.itself_agrees.mpr rfl))

end Parse

end

namespace Rules

variable {s : Script} {ctx : Context} {st : State} {n : Nat}

/-! ## Rules at any depth -/

/-- What comes of an action on the rules is the same whatever they have beyond the depth that the tokens left
    allow, and it is not the end of the depth. -/
def Sounds {α : Type} (action : Rules → Parse α) (ctx : Context) (st : State) : Prop :=
  ∀ base n, st.cursor.depth ≤ n →
    (action (atop base n)).outcome ctx st = (action (upTo st.cursor.depth)).outcome ctx st ∧
      ((action (upTo st.cursor.depth)).outcome ctx st).Settled

theorem expression_sounds (hstarts : ∀ t ∈ s.body.head?, t.kind ≠ .newline) (hc : st.cursor.tokens = s.tokens) :
    Sounds expression ctx st := by
  intro base n hn
  have hmirrors := (atop_twins (.itself s ctx.isBuiltin hstarts) base hn).expression
  exact hmirrors.settled Node.view_plain hc (by rw [upTo_fuel, Cursor.depth]; omega) trivial

theorem pattern_sounds (hstarts : ∀ t ∈ s.body.head?, t.kind ≠ .newline) (hc : st.cursor.tokens = s.tokens) :
    Sounds pattern ctx st := by
  intro base n hn
  have hmirrors := (atop_twins (.itself s ctx.isBuiltin hstarts) base hn).pattern
  exact hmirrors.settled Pattern.view_plain hc (by rw [upTo_fuel, Cursor.depth]; omega) trivial

/-- Separators before a statement make no difference. -/
theorem statement_sounds (hstarts : ∀ t ∈ s.body.head?, t.kind ≠ .newline) (hc : st.cursor.tokens = s.tokens) :
    Sounds statement ctx st := by
  intro base n hn
  obtain ⟨n, rfl⟩ : ∃ m, n = m + 1 := ⟨n - 1, by rw [Cursor.depth] at hn; omega⟩
  obtain ⟨ts, hread, -⟩ := st.cursor.skipWhile_reads TokenKind.isSeparator
  have hstops := Cursor.kind_skipWhile (p := TokenKind.isSeparator) rfl hc
  let onward : State := { st with cursor := st.cursor.skipWhile TokenKind.isSeparator }
  have hskip : (atop base (n + 1)).statement ctx st = (atop base (n + 1)).statement ctx onward :=
    Grammar.statement_skip (atop base n) ctx st hstops
  have hskip' : (upTo st.cursor.depth).statement ctx st = (upTo st.cursor.depth).statement ctx onward :=
    Grammar.statement_skip (upTo (st.cursor.ahead.length + 1)) ctx st hstops
  have hmirrors := (atop_twins (.itself s ctx.isBuiltin hstarts) base hn).statement
  have hle : onward.cursor.ahead.length ≤ st.cursor.ahead.length := hread.reaches.length_le
  have honward : onward.cursor.ahead.length < (upTo st.cursor.depth).fuel - 1 := by
    rw [upTo_fuel, Cursor.depth]
    omega
  rw [outcome, outcome, hskip, hskip']
  exact hmirrors.settled Node.view_plain (hread.tokens_eq.trans hc) honward hstops

/-- The statements of a script. -/
theorem statements_sound (hstarts : ∀ t ∈ s.body.head?, t.kind ≠ .newline) (hc : st.cursor.tokens = s.tokens) :
    Sounds (fun r => Grammar.statementList r false) ctx st := by
  intro base n hn
  -- the script is its own twin: the rules go as deep as there are tokens in one reading, deeper in the other
  let b := Seam.itself s ctx.isBuiltin hstarts
  obtain ⟨ts, hread, -⟩ := st.cursor.skipWhile_reads TokenKind.isSeparator
  have himage : b.image (st.cursor.skipWhile TokenKind.isSeparator) = st.cursor.skipWhile TokenKind.isSeparator :=
    Seam.itself_image (hread.tokens_eq.trans hc)
  have hfuel : (upTo st.cursor.depth).fuel = st.cursor.ahead.length + 2 := upTo_fuel _
  obtain ⟨list, st₁, hrun, hreach, -⟩ :=
    Grammar.statementList_reads (upTo_sound s st.cursor.depth) ctx hc (by omega)
  have hturns : st.cursor.ahead.length < (atop base n).fuel + 1 := by
    rw [atop_fuel]
    rw [Cursor.depth] at hn
    omega
  obtain ⟨list', st₂, hrun', hlike, hreport, hcursor⟩ :=
    Grammar.statements_alike (b := b) rfl (atop_twins b base hn) hc himage.symm (by omega) (by omega) hturns
      (Seam.itself_agrees.mpr rfl) hrun
  have hsame : Viewable.view View.plain list = Viewable.view View.plain list' := hlike
  rw [Viewable.nodes_plain, Viewable.nodes_plain] at hsame
  have hcursor : st₂.cursor = st₁.cursor :=
    hcursor.trans (Seam.itself_image (hreach.tokens_eq.trans hc))
  have hrun' : Grammar.statementList (atop base n) false ctx st = .ok list' st₂ := hrun'
  rw [outcome, outcome]
  dsimp only
  rw [hrun, hrun', Outcome.of, Outcome.of, hsame, hcursor, Seam.itself_agrees.mp hreport]
  refine ⟨rfl, fun e h => ?_⟩
  contradiction

end Rules

/-! ## Sessions -/

namespace Session

variable {α : Type}

/-- An action leads forwards, no further than `stop`, and does not give up for want of depth. -/
def Advances (session : Session) (stop : Nat) (action : Parse α) : Prop :=
  let (result, after) := session.run action
  session.index ≤ after.index ∧ after.index ≤ stop ∧ ∀ e, result = .error e → e.problem ≠ .tooDeep

/-- Whatever the rules have beyond the depth that the tokens left allow, the same comes of an action. -/
def Fathoms (session : Session) (action : Rules → Parse α) : Prop :=
  ∀ base n, session.state.cursor.depth ≤ n → (action (.atop base n)).outcome session.context session.state =
    (withRules action).outcome session.context session.state

theorem run_eq (session : Session) (action : Parse α) :
    (session.run action).1 = (action.outcome session.context session.state).result ∧
      (session.run action).2.state.cursor = (action.outcome session.context session.state).cursor := by
  rw [run, outcome]
  cases action session.context session.state <;> exact ⟨rfl, rfl⟩

variable {s : Script} {session : Session}

theorem Advances.of {action : Parse α} (hc : session.state.cursor.tokens = s.tokens)
    (hreach : session.state.cursor.Reaches (action.outcome session.context session.state).cursor)
    (hsettled : (action.outcome session.context session.state).Settled) :
    session.Advances s.body.length action := by
  obtain ⟨hresult, hcursor⟩ := session.run_eq action
  rw [← hcursor] at hreach
  refine ⟨hreach.index_le, Cursor.index_le_length (hreach.tokens_eq.trans hc), fun e he => hsettled e ?_⟩
  rw [← hresult]
  exact he

/-- An action goes by the rules that the tokens left allow. -/
theorem withRules_outcome (action : Rules → Parse α) (ctx : Context) (st : State) :
    (withRules action).outcome ctx st = (action (.upTo st.cursor.depth)).outcome ctx st := rfl

theorem Fathoms.of {action : Rules → Parse α} (h : Rules.Sounds action session.context session.state) :
    session.Fathoms action := by
  intro base n hn
  rw [withRules_outcome]
  exact (h base n hn).1

/-- Rules of which the same comes at any depth are not in want of depth. -/
theorem advances_fathoms {action : Rules → Parse α} (hc : session.state.cursor.tokens = s.tokens)
    (hreach : session.state.cursor.Reaches
      ((action (.upTo session.state.cursor.depth)).outcome session.context session.state).cursor)
    (hsounds : Rules.Sounds action session.context session.state) :
    session.Advances s.body.length (withRules action) ∧ session.Fathoms action := by
  have hsettled := (hsounds .exhausted _ (Nat.le_refl _)).2
  rw [← withRules_outcome] at hreach hsettled
  exact ⟨.of hc hreach hsettled, .of hsounds⟩

theorem expression_total (hstarts : ∀ t ∈ s.body.head?, t.kind ≠ .newline)
    (hc : session.state.cursor.tokens = s.tokens) :
    session.Advances s.body.length Parse.expression ∧ session.Fathoms Rules.expression :=
  advances_fathoms hc (Rules.expression_reaches _ _ hc) (Rules.expression_sounds hstarts hc)

theorem statement_total (hstarts : ∀ t ∈ s.body.head?, t.kind ≠ .newline)
    (hc : session.state.cursor.tokens = s.tokens) :
    session.Advances s.body.length Parse.statement ∧ session.Fathoms Rules.statement :=
  advances_fathoms hc (Rules.statement_reaches (session.state.cursor.ahead.length + 1) _ hc)
    (Rules.statement_sounds hstarts hc)

theorem pattern_total (hstarts : ∀ t ∈ s.body.head?, t.kind ≠ .newline)
    (hc : session.state.cursor.tokens = s.tokens) :
    session.Advances s.body.length Parse.pattern ∧ session.Fathoms Rules.pattern :=
  advances_fathoms hc (Rules.pattern_reaches _ _ hc) (Rules.pattern_sounds hstarts hc)

/-- **A script is always read**, and to its end if errors are recovered from. -/
theorem program_total (hc : session.state.cursor.tokens = s.tokens) (name : Option String) :
    ∃ program after, session.run (Parse.program name) = (.ok program, after) ∧
      session.index ≤ after.index ∧ after.index ≤ s.body.length ∧
      (session.context.mode.recovering = true → after.index = s.body.length) := by
  have hfuel : session.state.cursor.ahead.length ≤ (Rules.upTo session.state.cursor.depth).fuel := by
    rw [Rules.upTo_fuel, Cursor.depth]
    omega
  obtain ⟨list, st', hlist, hreach, hend⟩ :=
    Grammar.statementList_reads (Rules.upTo_sound s session.state.cursor.depth) session.context hc hfuel
  have hrun : ∃ program, Parse.program name session.context session.state = .ok program st' := by
    rw [Parse.program, bind_run]
    simp only [here]
    rw [bind_run]
    simp only [withRules]
    rw [hlist]
    exact ⟨_, rfl⟩
  obtain ⟨program, hrun⟩ := hrun
  have htokens := hreach.tokens_eq.trans hc
  exact ⟨program, _, run_of_ok hrun, hreach.index_le, Cursor.index_le_length htokens,
    fun hrecovering => Cursor.index_of_end htokens (hend hrecovering)⟩

/-- **A turn over statements gets somewhere**, unless it ends the list as it is. -/
theorem turn_total (hc : session.state.cursor.tokens = s.tokens) {depth : Nat} {inBlock : Bool}
    {statements : Array Node} {ctx : Context} {turn : Turn (Array Node) (List Node)} {after : State}
    (hrun : Grammar.statementTurn (.upTo depth) inBlock statements ctx session.state = .ok turn after) :
    turn = .done statements.toList ∨ session.index < after.cursor.index := by
  have hgains := @Grammar.statementTurn_gains s (.upTo depth) inBlock statements session.state.cursor
    (Rules.upTo_neat s .nothing depth) hc ctx session.state (fun _ => .inl rfl) rfl
  rw [hrun] at hgains
  obtain hdone | ⟨ts, hne, hread⟩ := hgains
  · exact .inl hdone
  · exact .inr (hread.index_lt hne)

end Session

/-- **Reading always ends, and gets somewhere.** Given tokens of a script that break off anywhere, a reader that
    begins anywhere among them goes forwards, and not beyond the end. It does not run out of depth: the same would
    come of it with any rules further down. Every turn over statements reads something, unless it ends the list as
    it is. A whole script is always read, and to its end if errors are recovered from. -/
theorem session_total (source file : String) (count index : Nat) (recovering : Bool) (isBuiltin : String → Bool)
    (report : Report) (log : Array LogEntry) :
    let tokens := (tokenize source file).tokens.take count
    let session := Session.start tokens index recovering isBuiltin report log
    let stop := endIndex tokens
    (session.Advances stop Parse.expression ∧ session.Advances stop Parse.statement ∧
      session.Advances stop Parse.pattern ∧ ∀ name, session.Advances stop (Parse.program name)) ∧
    (session.Fathoms Rules.expression ∧ session.Fathoms Rules.statement ∧ session.Fathoms Rules.pattern ∧
      session.Fathoms fun r => Grammar.statementList r false) ∧
    (∀ depth inBlock statements context turn after,
      Grammar.statementTurn (.upTo depth) inBlock statements context session.state = .ok turn after →
        turn = .done statements.toList ∨ session.index < after.cursor.index) ∧
    ∀ name, ∃ program after, session.run (Parse.program name) = (.ok program, after) ∧
      (recovering = true → after.index = stop) := by
  obtain ⟨whole, hwhole, -⟩ := tokenize_script source file
  have hwholeStarts := Script.starts hwhole
  rw [hwhole]
  -- a reader of the first tokens reads a script of its own, which ends where they do
  obtain ⟨s, hprefix, hstop, -, htokens⟩ := Cursor.ofTokens_take whole count
  have hstarts : ∀ t ∈ s.body.head?, t.kind ≠ .newline := by
    intro t ht
    obtain ⟨more, hmore⟩ := hprefix
    refine hwholeStarts t ?_
    rw [← hmore, List.head?_append, ht]
    rfl
  intro tokens session stop
  have hc : session.state.cursor.tokens = s.tokens :=
    (Cursor.reaches_seek index (Cursor.ofTokens tokens)).tokens_eq.trans htokens
  have hmode : session.context.mode.recovering = recovering := rfl
  have hstop : stop = s.body.length := hstop
  clear_value session stop
  subst hstop
  obtain ⟨hexpression, hexpressionDepth⟩ := Session.expression_total hstarts hc
  obtain ⟨hstatement, hstatementDepth⟩ := Session.statement_total hstarts hc
  obtain ⟨hpattern, hpatternDepth⟩ := Session.pattern_total hstarts hc
  refine ⟨⟨hexpression, hstatement, hpattern, fun name => ?_⟩,
    ⟨hexpressionDepth, hstatementDepth, hpatternDepth, .of (Rules.statements_sound hstarts hc)⟩,
    fun depth inBlock statements context turn after => Session.turn_total hc, fun name => ?_⟩
  · obtain ⟨program, after, hrun, hforwards, hwithin, -⟩ := Session.program_total hc name
    rw [Session.Advances, hrun]
    refine ⟨hforwards, hwithin, fun e h => ?_⟩
    contradiction
  · obtain ⟨program, after, hrun, -, -, hall⟩ := Session.program_total hc name
    exact ⟨program, after, hrun, fun hrecovering => hall (hmode.trans hrecovering)⟩

end ShellFront
