import ShellFront.Proofs.Parse.Scripts
import ShellFront.Proofs.Token.Lines

/-!
# The order of a report

The report of a script has the errors of the lexer first and those of the parser after them, each of the two in the
order of the source. An error of the parser stands at a token, however many statements were skipped and however often
the reader went back before it.

## Contents
- `Diagnostic.Before`, `Diagnostic.NotAfter`.
- `places_ordered`: the errors of the lexer.
- `scriptStatements_empty`: nothing is reported about a script without tokens.
- `parse_report_ordered`.
-/

namespace ShellFront

open Parse

/-- A diagnostic begins before another one. -/
def Diagnostic.Before (d d' : Diagnostic) : Prop :=
  ∃ s s', d.span = some s ∧ d'.span = some s' ∧ s.start < s'.start

/-- A diagnostic begins no later than another one. -/
def Diagnostic.NotAfter (d d' : Diagnostic) : Prop :=
  ∃ s s', d.span = some s ∧ d'.span = some s' ∧ s.start ≤ s'.start

/-- Errors of the lexer come in order, no two at one place. -/
theorem places_ordered {s : Script} {report : Report} (h : report.places = invalidPlaces s.body) :
    report.toList.Pairwise Diagnostic.Before := by
  have htokens : (s.body.filter fun t => t.kind == .invalid).Pairwise fun t u => t.span.start < u.span.start := by
    have hordered := (List.pairwise_append.mp s.ordered).1
    refine (hordered.imp_of_mem fun {t u} ht _ hle => ?_).sublist List.filter_sublist
    have := s.nonempty t ht
    omega
  have hplaces : report.places.Pairwise fun p q => ∃ a b, p.2.2 = some a ∧ q.2.2 = some b ∧ a.start < b.start := by
    rw [h, invalidPlaces]
    exact List.pairwise_map.mpr (htokens.imp fun hlt => ⟨_, _, rfl, rfl, hlt⟩)
  exact (List.pairwise_map.mp hplaces).imp id

/-- Where there is nothing to read, nothing is reported. -/
theorem scriptStatements_empty {s : Script} {source file : String} (htokens : (tokenize source file).tokens = s.tokens)
    (hbody : s.body = []) (ctx : Context) :
    scriptStatements source file ctx (.first source file) = .ok [] (.first source file) := by
  have hcursor : (State.first source file).cursor = ⟨[], s.last, []⟩ := by
    rw [State.first, htokens, Script.tokens, hbody, List.nil_append, Cursor.ofTokens]
    exact if_pos s.last_kind
  have hskip : (State.first source file).cursor.skipWhile TokenKind.isSeparator = (State.first source file).cursor := by
    rw [hcursor, Cursor.skipWhile]
  have hends : Grammar.endsList false (State.first source file).cursor.kind = true := by
    rw [hcursor]
    show Grammar.endsList false s.last.kind = true
    rw [s.last_kind]
    rfl
  rw [scriptStatements, Grammar.statementList, Rules.loop, Grammar.iterate_run, Grammar.statementTurn_run, hskip,
    if_pos hends]

/-- **Diagnostics come in the order of the source, and stand at tokens.** When a script is read with recovery, those of
    the lexer are reported first, each before the next one; then those of the parser, none of them before the one
    that was reported last. Each error of the parser has the span of a token that is neither a line break nor the
    end of the input. -/
theorem parse_report_ordered (source file : String) (isBuiltin : String → Bool) :
    let lexing := tokenize source file
    ∃ found, (parse source file false isBuiltin).report.toList = lexing.report.toList ++ found ∧
      ((∀ d ∈ lexing.report.toList, d.category = .lexical) ∧ lexing.report.toList.Pairwise Diagnostic.Before) ∧
      (∀ d ∈ found, (d.category = .grammar ∨ d.category = .ambiguity) ∧
        ∃ t ∈ lexing.tokens, t.kind ≠ .newline ∧ t.kind ≠ .endOfInput ∧ d.span = some t.span) ∧
      found.Pairwise Diagnostic.NotAfter := by
  obtain ⟨s, htokens, hplaces⟩ := tokenize_script source file
  obtain ⟨list, st', hrun, hended⟩ := script_lenient htokens ⟨.top true, isBuiltin⟩
  obtain ⟨-, hreport⟩ := parse_of_run false hrun
  obtain ⟨-, -, es, hes, hlie, hordered⟩ := hended.proceeds
  intro lexing
  refine ⟨es.map SyntaxError.diagnostic, hreport ▸ hes, ⟨fun d hd => (Report.lexical_of_places hplaces hd).2,
    places_ordered hplaces⟩, fun d hd => ?_, ?_⟩
  · obtain ⟨e, he, rfl⟩ := List.mem_map.mp hd
    refine ⟨e.diagnostic_category, ?_⟩
    rcases hbody : s.body with - | ⟨first, body⟩
    · -- Without tokens there are no errors.
      rw [scriptStatements_empty htokens hbody] at hrun
      cases hrun
      have hlength := congrArg List.length hes
      rw [List.length_append, List.length_map] at hlength
      rw [List.length_eq_zero_iff.mp (by omega : es.length = 0)] at he
      contradiction
    · have hfirst : s.body.head? = some first := by rw [hbody, List.head?_cons]
      have hstarts : s.Starts := by
        refine ⟨first, hfirst, tokenize_starts source file first ?_⟩
        rw [htokens, Script.tokens, List.head?_append, hfirst]
        rfl
      obtain ⟨t, ht, hnewline, hspan⟩ := (hlie e he).real hstarts
      have hmem : t ∈ lexing.tokens := htokens ▸ List.mem_append_left _ ht
      exact ⟨t, hmem, hnewline, s.kinds t ht, congrArg some hspan⟩
  · exact List.pairwise_map.mpr (hordered.imp fun hle => ⟨_, _, rfl, rfl, hle⟩)

end ShellFront
