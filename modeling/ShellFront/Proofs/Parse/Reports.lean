import ShellFront.Proofs.Layout.Endings
import ShellFront.Proofs.Layout.Progress
import ShellFront.Proofs.Parse.Scripts

/-!
# What one strict reading reports

A strict reading reports the error that it gives up with, and nothing else. Readings that are taken back on the way,
of a record or a closure, leave nothing in the report, however deep they are nested. An ambiguous brace is blamed only
where the reader went back to it.

## Contents
- `Parse.Once`, how a strict reading ends.
- `Session.ReportsOnce`, `Session.reportsOnce_of`.
- `session_reports`.
-/

namespace ShellFront

open Outlined

variable {α : Type}

namespace Parse

variable [Outlined α] {s : Script} {held : List Outline} {Q : α → Cursor → Prop} {st st₁ : State}
  {x y : EStateM.Result SyntaxError State α}

omit [Outlined α] in
/-- How a strict reading that began in a state ends: the report is as it was, or it gave up with its only error. -/
inductive Once (s : Script) (st : State) : EStateM.Result SyntaxError State α → Prop where
  | gives {a : α} {st' : State} (hreport : st'.report = st.report) : Once s st (.ok a st')
  | fails {e : SyntaxError} {st' : State} (hfails : Fails s st e st') : Once s st (.error e st')

theorem Matches.once (h : Matches s held Q st x y) : Once s st x := by
  cases h with
  | agree _ hreport => exact .gives hreport
  | fail hfails => exact .fails hfails
  | part hfails => exact .fails hfails

omit [Outlined α] in
theorem Once.precede (h : Once s st₁ x) (hreach : st.cursor.Reaches st₁.cursor) (hreport : st₁.report = st.report) :
    Once s st x := by
  cases h with
  | gives hsame => exact .gives (hsame.trans hreport)
  | fails hfails => exact .fails (hfails.precede hreach hreport)

end Parse

namespace Session

/-- An action **reports once**: nothing when it gives a result, and its error when it gives up, unless the lexer
    reported that one already. An ambiguous brace is always reported, and it is the brace where the reader stays. -/
def ReportsOnce (session : Session) (action : Parse α) : Prop :=
  match session.run action with
  | (.ok _, after) => after.report = session.report
  | (.error e, after) => after.report = session.report.after e ∧ (e.problem = .ambiguousBrace →
      after.report = session.report.add e.diagnostic ∧ e.found.kind = .symbol .openBrace ∧
      e.span = e.found.span ∧ after.state.cursor.current = e.found)

variable {s : Script} {session : Session}

/-- What holds of a strict reading of an action holds of the session that runs it. -/
theorem reportsOnce_of {action : Parse α} (h : Parse.Once s session.state (action session.context session.state)) :
    session.ReportsOnce action := by
  rw [ReportsOnce, run]
  generalize action session.context session.state = x at h
  cases h with
  | gives hreport => exact hreport
  | @fails e st' hfails =>
      refine ⟨hfails.report, fun hambiguous => ?_⟩
      obtain ⟨hkind, hfound, hspan⟩ := hfails.brace hambiguous
      have hbrace : e.found.kind = .symbol .openBrace := (congrArg Token.kind hfound).trans hkind
      have hvalid : e.found.kind ≠ .invalid := by simp [hbrace]
      exact ⟨hfails.report.trans (if_neg hvalid), hbrace, hspan.trans (congrArg Token.span hfound.symm), hfound.symm⟩

variable (hc : session.state.cursor.tokens = s.tokens) (hstrict : session.context.strict = session.context)

include hc hstrict

theorem expression_once : session.ReportsOnce Parse.expression := by
  have hmatch := (Rules.upTo_sound s session.state.cursor.depth).expression _ trivial session.context _ rfl hc
  rw [hstrict] at hmatch
  exact reportsOnce_of hmatch.once

theorem pattern_once : session.ReportsOnce Parse.pattern := by
  have hmatch := (Rules.upTo_sound s session.state.cursor.depth).pattern _ trivial session.context _ rfl hc
  rw [hstrict] at hmatch
  exact reportsOnce_of hmatch.once

/-- Separators before a statement are skipped and not reported on. -/
theorem statement_once : session.ReportsOnce Parse.statement := by
  obtain ⟨htokens, hseparator⟩ := session.state.onward_tokens hc
  have hmatch := (Rules.upTo_sound s session.state.cursor.depth).statement _ hseparator session.context
    session.state.onward rfl htokens
  rw [hstrict] at hmatch
  have hskip : Parse.statement session.context session.state =
      (Rules.upTo session.state.cursor.depth).statement session.context session.state.onward :=
    Grammar.statement_skip _ _ _ hseparator
  obtain ⟨ts, hread, -⟩ := session.state.cursor.skipWhile_reads TokenKind.isSeparator
  have honce := hmatch.once.precede hread.reaches rfl
  rw [← hskip] at honce
  exact reportsOnce_of honce

end Session

/-- **A strict reading costs one diagnostic if it gives up, and none if it does not.** Given tokens of a script that
    break off anywhere, and whatever was reported before, this holds of an expression, a statement and a pattern read
    from anywhere among them. -/
theorem session_reports (source file : String) (count index : Nat) (isBuiltin : String → Bool) (report : Report)
    (log : Array LogEntry) :
    let session := Session.start ((tokenize source file).tokens.take count) index false isBuiltin report log
    session.ReportsOnce Parse.expression ∧ session.ReportsOnce Parse.statement ∧
      session.ReportsOnce Parse.pattern := by
  obtain ⟨whole, hwhole, -⟩ := tokenize_script source file
  rw [hwhole]
  obtain ⟨s, -, -, -, htokens⟩ := Cursor.ofTokens_take whole count
  intro session
  have hc : session.state.cursor.tokens = s.tokens :=
    (Cursor.reaches_seek index (Cursor.ofTokens (whole.tokens.take count))).tokens_eq.trans htokens
  exact ⟨Session.expression_once hc rfl, Session.statement_once hc rfl, Session.pattern_once hc rfl⟩

end ShellFront
