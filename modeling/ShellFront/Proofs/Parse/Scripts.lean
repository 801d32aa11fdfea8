import ShellFront.Parse.Program
import ShellFront.Proofs.Parse.Statements

/-!
# Whole scripts

The rules of the grammar are sound to every depth, so what holds of their readings holds of the reading of a
script. A strict reading of it is the lenient one cut at the first error; errors are reported just when the
tree shows them; and the statements of the script and of its blocks cover all tokens.

## Contents
- `Rules.upTo_sound`.
- `Runs`, `iterate_runs`: both readings of a script.
- `parse_covers`, `parse_errors_iff`, `parse_failFast`.
-/

namespace ShellFront

open Outlined Parse

/-! ## The rules -/

namespace Rules

/-- Where the depth is exhausted nothing is read, and both readings give up. -/
theorem exhausted_sound (s : Script) : exhausted.Sound s where
  expression := fun _ _ => .fail rfl
  binary := fun _ _ _ => .fail rfl
  unary := fun _ _ => .fail rfl
  access := fun _ _ => .fail rfl
  statement := fun _ _ => .fail rfl
  assigned := fun _ _ => .fail rfl
  pattern := .fail rfl

/-- **The rules are sound to every depth.** -/
theorem upTo_sound (s : Script) (n : Nat) : (upTo n).Sound s := by
  induction n with
  | zero => exact exhausted_sound s
  | succ n ih =>
      exact ⟨Grammar.expression_parses ih, Grammar.binary_parses ih, Grammar.unary_parses ih,
        Grammar.access_parses ih, Grammar.statement_parses ih, Grammar.assigned_parses ih,
        Grammar.pattern_gathers ih⟩

theorem upTo_fuel (n : Nat) : (upTo n).fuel = n := by cases n <;> rfl

end Rules

/-! ## Statements up to the end -/

namespace Grammar

variable {s : Script} {r : Rules} {c₁ : Cursor} {statements : Array Node} {ctx : Context} {st st' : State}
  {held mid : List Outline} {x y : EStateM.Result SyntaxError State (List Node)}

/-- One turn of a loop, and what comes after it. -/
theorem iterate_run {α β : Type} (turn : α → Parse (Turn α β)) (n : Nat) (a : α) (ctx : Context)
    (st : State) :
    iterate turn (n + 1) a ctx st = match turn a ctx st with
      | .ok (.again a') st' => iterate turn n a' ctx st'
      | .ok (.done b) st' => .ok b st'
      | .error e st' => .error e st' := by
  rw [iterate, bind_run]
  cases turn a ctx st with
  | ok t st' => cases t <;> rfl
  | error e st' => rfl

/-- The lenient reading of a list of statements ended, with the statements of a script. -/
structure Ended (s : Script) (c₁ : Cursor) (before : List Node) (st : State) (list : List Node)
    (st' : State) : Prop where
  more : before <+: list
  proceeds : Proceeds s st st'
  settled : (∀ o ∈ shown before, o.Settled s) → ∀ o ∈ shown list, o.Settled s
  listed : ∃ fresh, Listed c₁ fresh list st'.cursor
  kind : st'.cursor.kind = .endOfInput

/-- Nothing is taken back from a report. -/
theorem Ended.grows {before list : List Node} (h : Ended s c₁ before st list st') : st.report.Grows st'.report :=
  h.proceeds.grows

/-- What a related lenient turn does by itself. -/
theorem Kept.lenient {Q : Cursor → Turn (Array Node) (List Node) → Prop}
    {x y : EStateM.Result SyntaxError State (Turn (Array Node) (List Node))}
    (h : Kept s false statements Q st x y) (hc : st.cursor.tokens = s.tokens) :
    ∃ turn st', y = .ok turn st' ∧ Proceeds s st st' ∧
      ((∀ o ∈ shown statements, o.Settled s) → ∀ o ∈ shown turn, o.Settled s) ∧ Q st'.cursor turn := by
  cases h with
  | agree hpass hreport hcarries hpost =>
      exact ⟨_, _, rfl, .of_same hc hpass.reaches hreport, hcarries.settled, hpost⟩
  | cut hfails hproceeds hgrows hkept hbroken hsettled hpost =>
      exact ⟨_, _, rfl, hproceeds, hsettled, hpost⟩

/-- **A lenient reading goes on to the end of the script.** -/
theorem iterate_lenient (hr : r.Sound s) (ctx : Context) (n : Nat) (hn : st.cursor.ahead.length < n)
    (hready : Ready c₁ statements.toList st.cursor) (hc : st.cursor.tokens = s.tokens) :
    ∃ list st', iterate (statementTurn r false) n statements ctx.lenient st = .ok list st' ∧
      Ended s c₁ statements.toList st list st' := by
  -- Every turn reads a token, so there are enough turns for what is ahead.
  induction n generalizing statements st with
  | zero => contradiction
  | succ n ih =>
      obtain ⟨turn, st₁, hrun, hproceeds, hsettled, hpost⟩ := (statementTurn_kept hr false ctx hready hc).lenient hc
      rw [iterate_run, hrun]
      cases turn with
      | done list =>
          obtain ⟨rfl, hlisted, hends⟩ := hpost
          refine ⟨_, _, rfl, List.prefix_refl _, hproceeds, id, hlisted, ?_⟩
          simpa [endsList] using hends
      | again next =>
          obtain ⟨hready', hlt, hmore⟩ := hpost
          obtain ⟨list, st', hrun', hended⟩ := ih (by omega) hready' (hproceeds.reaches.tokens_eq.trans hc)
          exact ⟨list, st', hrun', hmore.trans hended.more, hproceeds.trans hended.proceeds,
            fun hheld => hended.settled (hsettled hheld), hended.listed, hended.kind⟩

/-- How both readings of a script are related: they give the same statements, or the strict one is cut before
    the first statement that could not be read. -/
inductive Runs (s : Script) (held : List Outline) (st : State) :
    EStateM.Result SyntaxError State (List Node) → EStateM.Result SyntaxError State (List Node) → Prop where
  | whole {list : List Node} {st' : State} (hpass : st.cursor.Passes st'.cursor)
      (hreport : st'.report = st.report) (hcarries : Carries s held (shown list)) :
      Runs s held st (.ok list st') (.ok list st')
  | cut {kept more : List Node} {node : Node} {e : SyntaxError} {st₁ st' : State}
      (hfails : Fails s st e st₁) (hgrows : st₁.report.Grows st'.report) (hkept : Carries s held (shown kept))
      (hbroken : ¬ node.outline.Intact) : Runs s held st (.ok kept st₁) (.ok (kept ++ node :: more) st')

/-- What was read and held before a run belongs to it. -/
theorem Runs.precede (hpass : st.cursor.Passes st'.cursor) (hreport : st'.report = st.report)
    (hcarries : Carries s held mid) (h : Runs s mid st' x y) : Runs s held st x y := by
  cases h with
  | whole hpass' hreport' hcarries' =>
      exact .whole (hpass.trans hpass') (hreport'.trans hreport) (hcarries.comp hcarries')
  | cut hfails hgrows hkept hbroken =>
      exact .cut (hfails.precede hpass.reaches hreport) hgrows (hcarries.comp hkept) hbroken

/-- What the strict reading gives when the lenient one goes to the end: the statements before the first one
    that could not be read, and a report that may have one more error. -/
theorem Runs.strict {list : List Node} (h : Runs s [] st x (.ok list st')) :
    ∃ kept rest st₁, x = .ok kept st₁ ∧ list = kept ++ rest ∧ (∀ n ∈ kept, n.outline.Intact) ∧
      (∀ n ∈ rest.head?, ¬ n.outline.Intact) ∧ st₁.report.Grows st'.report ∧
      (st₁.report = st.report ∨ ∃ e, st₁.report = st.report.after e) := by
  have hintact {kept : List Node} (hcarries : Carries s [] (shown kept)) :
      ∀ n ∈ kept, n.outline.Intact := by
    have hkept := hcarries.intact.mpr (by simp)
    rwa [shown_nodes, List.forall_mem_map] at hkept
  cases h with
  | whole hpass hreport hcarries =>
      exact ⟨list, [], st', rfl, (List.append_nil list).symm, hintact hcarries, by simp, .refl _,
        .inl hreport⟩
  | cut hfails hgrows hkept hbroken =>
      refine ⟨_, _, _, rfl, rfl, hintact hkept, ?_, hgrows, .inr ⟨_, hfails.report⟩⟩
      rintro n ⟨⟩
      exact hbroken

/-- **A strict reading of a script is the lenient one, cut at the first error.** -/
theorem iterate_runs (hr : r.Sound s) (ctx : Context) (n : Nat) (hn : st.cursor.ahead.length < n)
    (hready : Ready c₁ statements.toList st.cursor) (hc : st.cursor.tokens = s.tokens) :
    Runs s (shown statements) st (iterate (statementTurn r false) n statements ctx.strict st)
      (iterate (statementTurn r false) n statements ctx.lenient st) := by
  induction n generalizing statements st with
  | zero => contradiction
  | succ n ih =>
      have hkept := statementTurn_kept hr false ctx hready hc
      rw [iterate_run, iterate_run]
      generalize statementTurn r false statements ctx.strict st = x,
        statementTurn r false statements ctx.lenient st = y at hkept
      cases hkept with
      | @agree turn _ hpass hreport hcarries hpost =>
          cases turn with
          | done list => exact .whole hpass hreport hcarries
          | again next =>
              obtain ⟨hready', hlt, -⟩ := hpost
              exact .precede hpass hreport hcarries
                (ih (by omega) hready' (hpass.reaches.tokens_eq.trans hc))
      | @cut kept next e st₁ _ hfails hproceeds hgrows hkept hbroken hsettled hpost =>
          -- The strict reading is over; the lenient one goes on by itself and keeps what it has.
          obtain ⟨hready', hlt, -⟩ := hpost
          obtain ⟨node, more, hnext, hnode⟩ := hbroken
          obtain ⟨list, st', hrun, hended⟩ :=
            iterate_lenient hr ctx n (by omega) hready' (hproceeds.reaches.tokens_eq.trans hc)
          obtain ⟨later, rfl⟩ := hended.more
          rw [hnext, List.append_assoc, List.cons_append] at hrun
          dsimp only
          rw [hrun]
          exact .cut hfails (hgrows.trans hended.grows) hkept hnode

end Grammar

/-! ## Reading a script -/

namespace Cursor

variable {s : Script} {c c' : Cursor} {ts : List Token}

/-- Seeking nothing stays at the place. -/
theorem seek_zero (c : Cursor) : seek 0 c = c := by
  rw [seek]
  intro n _ _ _ _ h
  exact absurd h.symm (Nat.succ_ne_zero n)

/-- A script is read from its first token on. -/
theorem ofTokens_script (s : Script) :
    (ofTokens s.tokens).before = [] ∧ (ofTokens s.tokens).tokens = s.tokens := by
  have hlast : s.tokens.getLast? = some s.last := List.getLast?_concat
  rcases htokens : s.tokens with _ | ⟨t, ts⟩
  · rw [htokens] at hlast
    contradiction
  · rw [htokens, List.getLast?_cons, Option.some_inj] at hlast
    rw [ofTokens]
    simp only [hlast, s.last_kind, if_true]
    exact ⟨trivial, rfl⟩

/-- At the end of the input all other tokens were read. -/
theorem Reads.all (h : c.Reads ts c') (hc : c.tokens = s.tokens) (hstart : c.before = [])
    (hend : c'.kind = .endOfInput) : ts = s.body := by
  have htokens : s.tokens = ts ++ c'.current :: c'.ahead := by
    rw [← hc, tokens, hstart, h.rest]
    rfl
  have hahead : c'.ahead = [] := by
    by_contra hne
    have hbody := congrArg List.dropLast htokens
    rw [Script.tokens, List.dropLast_concat, List.dropLast_append_of_ne_nil (by simp),
      List.dropLast_cons_of_ne_nil hne] at hbody
    exact s.kinds c'.current (by rw [hbody]; simp) hend
  rw [hahead] at htokens
  exact (List.append_inj' htokens rfl).1.symm

end Cursor

/-- The state in which the reading of a script begins. -/
def Parse.State.first (source file : String) : Parse.State :=
  let lexing := tokenize source file
  ⟨.ofTokens lexing.tokens, lexing.report, lexing.log⟩

/-- The span of a script. -/
def scriptSpan (source file : String) : Span :=
  let stop := (Parse.State.first source file).cursor.last.span
  ⟨file, 1, 1, 0, stop.stop, stop.endLine, stop.endColumn⟩

/-- The statements of a script, as the rules give them. -/
def scriptStatements (source file : String) : Parse (List Node) :=
  Grammar.statementList (.upTo (Parse.State.first source file).cursor.depth) false

/-- A session goes on with the state that an action leaves. -/
theorem Session.run_of_ok {α : Type} {session : Session} {action : Parse α} {a : α} {st : Parse.State}
    (h : action session.context session.state = .ok a st) :
    session.run action = (.ok a, { session with state := st }) := by
  rw [Session.run, h]

/-- What parsing makes of the statements of a script. -/
theorem parse_of_run {source file : String} (failFast : Bool) {isBuiltin : String → Bool}
    {list : List Node} {st' : Parse.State}
    (h : scriptStatements source file ⟨.top (!failFast), isBuiltin⟩ (.first source file) = .ok list st') :
    (parse source file failFast isBuiltin).program = ⟨scriptSpan source file, file, list⟩ ∧
      (parse source file failFast isBuiltin).report = st'.report := by
  have hrun : Parse.program (some file) ⟨.top (!failFast), isBuiltin⟩ (.first source file) =
      .ok ⟨scriptSpan source file, file, list⟩ st' := by
    rw [Parse.program, bind_run]
    simp only [here]
    rw [bind_run]
    simp only [withRules]
    rw [show Grammar.statementList _ false _ _ = _ from h]
    rfl
  have hstart : Session.start (tokenize source file).tokens 0 (!failFast) isBuiltin
      (tokenize source file).report (tokenize source file).log =
      ⟨⟨.top (!failFast), isBuiltin⟩, .first source file⟩ := by
    rw [Session.start, Cursor.seek_zero]
    rfl
  have hsession : Session.run ⟨⟨.top (!failFast), isBuiltin⟩, .first source file⟩
      (Parse.program (some file)) = _ := Session.run_of_ok hrun
  rw [parse, hstart, hsession]
  exact ⟨rfl, rfl⟩

section

variable {s : Script} {source file : String} {isBuiltin : String → Bool}

/-- At first nothing is read, and all tokens of the script are before the reader. -/
theorem first_cursor (htokens : (tokenize source file).tokens = s.tokens) :
    (State.first source file).cursor.before = [] ∧ (State.first source file).cursor.tokens = s.tokens := by
  rw [State.first, htokens]
  exact Cursor.ofTokens_script s

/-- Both readings of the statements of a script. -/
theorem script_runs (htokens : (tokenize source file).tokens = s.tokens) (ctx : Context) :
    Grammar.Runs s [] (.first source file) (scriptStatements source file ctx.strict (.first source file))
      (scriptStatements source file ctx.lenient (.first source file)) :=
  Grammar.iterate_runs (Rules.upTo_sound s _) ctx _
    (by rw [Rules.upTo_fuel, Cursor.depth]; omega) (Grammar.ready_nil _) (first_cursor htokens).2

/-- The lenient reading of the statements of a script. -/
theorem script_lenient (htokens : (tokenize source file).tokens = s.tokens) (ctx : Context) :
    ∃ list st', scriptStatements source file ctx.lenient (.first source file) = .ok list st' ∧
      Grammar.Ended s (State.first source file).cursor [] (.first source file) list st' :=
  Grammar.iterate_lenient (Rules.upTo_sound s _) ctx _
    (by rw [Rules.upTo_fuel, Cursor.depth]; omega) (Grammar.ready_nil _) (first_cursor htokens).2

end

/-! ## What parsing promises -/

/-- **No token is lost.** The statements of a script cover its tokens, and those of every block that is not
    the body of a closure cover the tokens between its braces. -/
theorem parse_covers (source file : String) (isBuiltin : String → Bool) :
    let tokens := (tokenize source file).tokens
    let program := (parse source file false isBuiltin).program
    Covers tokens (program.statements.map Node.outline) ∧
      ∀ u ∈ program.outline.walk, u.kind ≠ .closure →
        ∀ b ∈ u.children, b.kind = .block → b.Braced tokens := by
  obtain ⟨s, htokens, -⟩ := tokenize_script source file
  obtain ⟨hbefore, hfirst⟩ := first_cursor htokens
  obtain ⟨list, st', hrun, hended⟩ := script_lenient htokens ⟨.top true, isBuiltin⟩
  obtain ⟨fresh, read, hread, htiling⟩ := hended.listed
  obtain ⟨hprogram, -⟩ := parse_of_run false hrun
  -- the reader began at the first token and came to the last one, so it has read them all
  have hall := hread.all hfirst hbefore hended.kind
  subst hall
  have hsegment := Script.segment (show s.tokens = [] ++ (s.body ++ s.last :: []) from rfl)
  dsimp only
  rw [hprogram, htokens]
  constructor
  · rw [← shown_nodes]
    exact (htiling.covers hsegment.1 hsegment.2).concat s.last_kind
  · have hsettled := hended.settled (by simp)
    rw [Outline.walk_eq_preorder, Program.outline, Node.outlines_eq]
    exact Outline.everywhere_mk.mpr
      ⟨fun _ b hb => (hsettled b hb).self, fun o ho => (hsettled o ho).below⟩

/-! ### Reports -/

/-- A report of the lexer holds errors of the lexer only. -/
theorem Report.lexical_of_places {report : Report} {ts : List Token} (h : report.places = invalidPlaces ts)
    {d : Diagnostic} (hd : d ∈ report.toList) : d.severity = .error ∧ d.category = .lexical := by
  have hmem : (d.severity, d.category, d.span) ∈ report.places := List.mem_map_of_mem hd
  rw [h] at hmem
  obtain ⟨t, -, ht⟩ := List.mem_map.mp hmem
  rw [Prod.mk.injEq, Prod.mk.injEq] at ht
  exact ⟨ht.1.symm, ht.2.1.symm⟩

/-- A report of the lexer is empty when no token is `invalid`. -/
theorem Report.toList_eq_nil {report : Report} {ts : List Token} (h : report.places = invalidPlaces ts) :
    report.toList = [] ↔ ∀ t ∈ ts, t.kind ≠ .invalid := by
  rw [← List.map_eq_nil_iff, show report.toList.map _ = report.places from rfl, h, invalidPlaces,
    List.map_eq_nil_iff, List.filter_eq_nil_iff]
  exact forall₂_congr fun _ _ => by rw [beq_iff_eq]

/-- A report of errors has errors unless it is empty. -/
theorem Report.hasErrors_iff {report : Report} (h : ∀ d ∈ report.toList, d.severity = .error) :
    report.hasErrors = true ↔ report.toList ≠ [] := by
  rw [hasErrors, Array.any_eq_true']
  constructor
  · rintro ⟨d, hd, -⟩ hnil
    have hd : d ∈ report.toList := Array.mem_toList_iff.mpr hd
    rw [hnil] at hd
    contradiction
  · intro hne
    obtain ⟨d, hd⟩ := List.exists_mem_of_ne_nil _ hne
    exact ⟨d, Array.mem_toList_iff.mp hd, beq_of_eq (h d hd)⟩

/-- An error of the parser is reported as one. -/
theorem SyntaxError.diagnostic_category (e : SyntaxError) :
    e.diagnostic.category = .grammar ∨ e.diagnostic.category = .ambiguity := by
  show e.problem.category = _ ∨ e.problem.category = _
  unfold Problem.category
  split <;> simp

/-- Where the parser gave up, an error is reported, if not by the parser then by the lexer. -/
theorem Parse.Fails.reported {s : Script} {st st₁ : Parse.State} {e : SyntaxError} (h : Fails s st e st₁)
    (hplaces : st.report.places = invalidPlaces s.body) : st₁.report.toList ≠ [] := by
  intro hnil
  rw [h.report, Report.after] at hnil
  split at hnil
  · next hkind =>
      have hfound : e.found ∈ s.body := by
        rcases List.mem_append.mp (h.found hkind) with hmem | hmem
        · exact hmem
        · rw [List.mem_singleton.mp hmem, s.last_kind] at hkind
          contradiction
      exact (Report.toList_eq_nil hplaces).mp hnil _ hfound hkind
  · rw [Report.toList_add] at hnil
    exact List.append_ne_nil_of_right_ne_nil _ (by simp) hnil

/-- After the lexer's errors, one more is at most one that is not the lexer's. -/
theorem Report.length_filter_after {report : Report} {ts : List Token}
    (h : report.places = invalidPlaces ts) (e : SyntaxError) :
    ((report.after e).toList.filter fun d => d.category != .lexical).length ≤ 1 := by
  have hnone : report.toList.filter (fun d => d.category != .lexical) = [] :=
    List.filter_eq_nil_iff.mpr fun d hd => by simp [(lexical_of_places h hd).2]
  unfold after
  split
  · rw [hnone]
    exact Nat.zero_le _
  · rw [toList_add, List.filter_append, hnone]
    exact List.length_filter_le ..

/-- A tree that is not intact has a node that could not be read, and the walk comes to it. -/
theorem Outline.exists_errorNode {t : Outline} : (∃ u ∈ t.walk, u.kind = .errorNode) ↔ ¬ t.Intact := by
  rw [Outline.walk_eq_preorder, Outline.Intact, Outline.Everywhere]
  push Not
  rfl

/-- A program is intact if its statements are. -/
theorem Program.intact_iff (p : Program) : p.outline.Intact ↔ ∀ n ∈ p.statements, n.outline.Intact := by
  rw [Program.outline, Node.outlines_eq, shown_nodes, ← List.forall_mem_map (P := Outline.Intact)]
  exact Outline.everywhere_mk.trans (and_iff_right (show NodeKind.program ≠ .errorNode by decide))

/-- **Errors are never silent and never phantom.** All that is reported about a script are errors of the
    lexer and the parser, and there are any just when the tree shows a part that could not be read. -/
theorem parse_errors_iff (source file : String) (isBuiltin : String → Bool) :
    let parsed := parse source file false isBuiltin
    (∀ d ∈ parsed.report.toList, d.severity = .error ∧
      (d.category = .lexical ∨ d.category = .grammar ∨ d.category = .ambiguity)) ∧
    (parsed.report.hasErrors = true ↔ ∃ u ∈ parsed.program.outline.walk, u.kind = .errorNode) := by
  obtain ⟨s, htokens, hplaces⟩ := tokenize_script source file
  obtain ⟨list, st', hrun, hended⟩ := script_lenient htokens ⟨.top true, isBuiltin⟩
  obtain ⟨hprogram, hreport⟩ := parse_of_run false hrun
  have hall : ∀ d ∈ st'.report.toList, d.severity = .error ∧
      (d.category = .lexical ∨ d.category = .grammar ∨ d.category = .ambiguity) := by
    intro d hd
    obtain ⟨es, hes⟩ := hended.grows
    rw [hes] at hd
    rcases List.mem_append.mp hd with hd | hd
    · obtain ⟨hseverity, hcategory⟩ := Report.lexical_of_places hplaces hd
      exact ⟨hseverity, .inl hcategory⟩
    · obtain ⟨e, -, rfl⟩ := List.mem_map.mp hd
      exact ⟨rfl, .inr e.diagnostic_category⟩
  dsimp only
  rw [hreport, hprogram, Report.hasErrors_iff fun d hd => (hall d hd).1, Outline.exists_errorNode,
    Program.intact_iff]
  refine ⟨hall, not_congr ?_⟩
  -- Only the strict reading tells whether `invalid` tokens were passed over, so both are compared.
  have hruns := script_runs htokens ⟨.top true, isBuiltin⟩
  rw [hrun] at hruns
  generalize scriptStatements source file _ _ = x at hruns
  cases hruns with
  | whole hpass hsame hcarries =>
      obtain ⟨hbefore, hfirst⟩ := first_cursor htokens
      obtain ⟨ts, hvalid, hread⟩ := hpass
      have hbody := hread.all hfirst hbefore hended.kind
      have hintact := hcarries.intact.mpr (by simp)
      rw [shown_nodes, List.forall_mem_map] at hintact
      refine iff_of_true ?_ hintact
      rw [hsame]
      exact (Report.toList_eq_nil hplaces).mpr (hbody ▸ hvalid)
  | cut hfails hgrows hkept hbroken =>
      obtain ⟨es, hes⟩ := hgrows
      refine iff_of_false (fun hnil => hfails.reported hplaces ?_) fun hintact => ?_
      · rw [hes] at hnil
        exact (List.append_eq_nil_iff.mp hnil).1
      · exact hbroken (hintact _ (by simp))

/-- **A strict reading is the lenient one, cut at the first error.** It gives the statements before the first
    one with a part that could not be read, and reports no more than what the lenient one reports first; at
    most one error is not the lexer's. -/
theorem parse_failFast (source file : String) (isBuiltin : String → Bool) :
    let lenient := parse source file false isBuiltin
    let strict := parse source file true isBuiltin
    strict.program.statements =
        lenient.program.statements.takeWhile (fun n => n.outline.walk.all fun u => u.kind != .errorNode) ∧
      (∀ u ∈ strict.program.outline.walk, u.kind ≠ .errorNode) ∧
      strict.program.span = lenient.program.span ∧ strict.program.file = lenient.program.file ∧
      strict.report.toList <+: lenient.report.toList ∧
      (strict.report.toList.filter fun d => d.category != .lexical).length ≤ 1 := by
  obtain ⟨s, htokens, hplaces⟩ := tokenize_script source file
  obtain ⟨list, st', hrun, -⟩ := script_lenient htokens ⟨.top true, isBuiltin⟩
  obtain ⟨kept, rest, st₁, hstrict, rfl, hkept, hrest, hgrows, hafter⟩ :=
    (hrun ▸ script_runs htokens ⟨.top true, isBuiltin⟩).strict
  obtain ⟨hlenient, hreport⟩ := parse_of_run false hrun
  obtain ⟨hprogram, hreport'⟩ := parse_of_run true hstrict
  dsimp only
  rw [hlenient, hprogram, hreport, hreport']
  refine ⟨?_, ?_, rfl, rfl, ?_, ?_⟩
  · -- What the strict reading kept is intact, and the statement after it is not.
    rw [List.takeWhile_append_of_pos fun n hn => Outline.intact_iff.mpr (hkept n hn)]
    cases rest with
    | nil => exact (List.append_nil kept).symm
    | cons node more =>
        have hnode : ¬ (node.outline.walk.all fun u => u.kind != .errorNode) = true :=
          fun h => hrest node rfl (Outline.intact_iff.mp h)
        rw [List.takeWhile_cons, if_neg hnode, List.append_nil]
  · rw [Outline.walk_eq_preorder]
    exact (Program.intact_iff _).mpr hkept
  · obtain ⟨es, hes⟩ := hgrows
    exact ⟨_, hes.symm⟩
  · rcases hafter with hsame | ⟨e, hafter⟩
    · rw [hsame, List.filter_eq_nil_iff.mpr fun d hd => by simp [(Report.lexical_of_places hplaces hd).2]]
      exact Nat.zero_le _
    · rw [hafter]
      exact Report.length_filter_after hplaces e

end ShellFront
