import ShellFront.Proofs.Layout.Scripts
import ShellFront.Proofs.Token.Lines
import ShellFront.Proofs.Twins.Statements

/-!
# How scripts tally

The rules of the grammar are those of a twin to every depth. So what is read of a script where nothing follows
its twin is alike, from the first statement to the last. A script is its own twin, too, and then the readings
may only differ in what they say of commands.

## Contents
- `Rules.atop`, `Rules.atop_twins`.
- `statements_alike`, `statements_whole`: all statements of a script.
- `Seam.reads_alike`: a script that is its own twin.
- `Seam.same`, `parse_seen`: such a script, seen in two ways.
-/

namespace ShellFront

open Outlined Parse

variable {b : Seam}

namespace Rules

/-- The rules of the grammar, nested to a depth on top of other rules, which may be any. -/
def atop (base : Rules) : Nat → Rules
  | 0 => base
  | n + 1 =>
      { fuel := base.fuel + (n + 1)
        expression := fun ctx st => Grammar.expression (atop base n) ctx st
        binary := fun least ctx st => Grammar.binary (atop base n) least ctx st
        unary := fun ctx st => Grammar.unary (atop base n) ctx st
        access := fun ctx st => Grammar.access (atop base n) ctx st
        statement := fun ctx st => Grammar.statement (atop base n) ctx st
        assigned := fun ctx st => Grammar.assigned (atop base n) ctx st
        pattern := fun ctx st => Grammar.pattern (atop base n) ctx st }

theorem atop_fuel (base : Rules) (n : Nat) : (atop base n).fuel = base.fuel + n := by cases n <;> rfl

theorem upTo_eq_atop (n : Nat) : upTo n = atop exhausted n := by
  induction n with
  | zero => rfl
  | succ n ih =>
      have hfuel : exhausted.fuel + (n + 1) = n + 1 := Nat.zero_add _
      rw [upTo, atop, ih, hfuel]

/-- **The rules are those of a twin to every depth**, and what the twin has further down does not matter. -/
theorem atop_twins (b : Seam) (base : Rules) {n n' : Nat} (hle : n ≤ n') : (upTo n).Twins b (atop base n') := by
  induction n generalizing n' with
  | zero =>
      refine ⟨fun w => upTo_neat b.script w 0, ?_, ?_, ?_, ?_, ?_, ?_, ?_, ?_⟩
      · rw [upTo_fuel]
        exact Nat.zero_le _
      all_goals intros; exact fun c _ h => absurd h (Nat.not_lt_zero _)
  | succ n ih =>
      obtain ⟨m, rfl⟩ : ∃ m, n' = m + 1 := ⟨n' - 1, by omega⟩
      have ih := ih (Nat.le_of_succ_le_succ hle)
      have hfuel : (upTo (n + 1)).fuel - 1 = (upTo n).fuel := by rw [upTo_fuel, upTo_fuel, Nat.add_sub_cancel]
      refine ⟨fun w => upTo_neat b.script w _, ?_, ?_, fun least => ?_, ?_, ?_, ?_, ?_, ?_⟩
      · rw [upTo_fuel, atop_fuel]
        omega
      all_goals rw [hfuel]
      · exact Grammar.expression_mirrors ih
      · exact Grammar.binary_mirrors ih least
      · exact Grammar.unary_mirrors ih
      · exact Grammar.access_mirrors ih
      · exact Grammar.statement_mirrors ih
      · exact Grammar.assigned_mirrors ih
      · exact Grammar.pattern_mirrors ih

theorem upTo_twins (b : Seam) {n n' : Nat} (hle : n ≤ n') : (upTo n).Twins b (upTo n') := by
  rw [upTo_eq_atop n']
  exact atop_twins b exhausted hle

end Rules

namespace Grammar

variable {r r' : Rules} {c c' : Cursor} {mode : Mode} {st st' st₁ : State} {list : List Node} {n n' : Nat}

/-- The statements of a script from a cursor on, after the separators there. -/
theorem iterate_skip (n : Nat) (statements : Array Node) (ctx : Context) (st : State) :
    iterate (statementTurn r false) (n + 1) statements ctx st =
      (statementAt r false statements >>= fun
        | .again next => iterate (statementTurn r false) n next
        | .done list => pure list) ctx { st with cursor := st.cursor.skipWhile TokenKind.isSeparator } := by
  have hskip : skipSeparators ctx st =
      .ok () { st with cursor := st.cursor.skipWhile TokenKind.isSeparator } := rfl
  rw [iterate_run, statementTurn_eq, bind_run, hskip, bind_run]
  dsimp only
  cases statementAt r false statements ctx { st with cursor := st.cursor.skipWhile TokenKind.isSeparator } with
  | ok t st' => cases t <;> rfl
  | error e st' => rfl

/-- The statements from the start of one on, on a script and on its twin, tally. -/
theorem statements_tallies (n n' : Nat) (hcut : b.cut = false) (hr : r.Twins b r') {start : Cursor} (hmeets : b.Meets start)
    (hin : b.Inside start) (hseparator : start.kind.isSeparator = false) (hfuel : start.ahead.length + 1 < r.fuel)
    (hn : start.ahead.length ≤ n) (hn' : start.ahead.length ≤ n') :
    Tallies b start
      (statementAt r false #[] >>= fun
        | .again next => iterate (statementTurn r false) n next
        | .done list => pure list)
      (statementAt r' false #[] >>= fun
        | .again next => iterate (statementTurn r' false) n' next
        | .done list => pure list)
      (fun _ => True) fun _ _ => True := by
  have hturn : Tallies b start (statementAt r false #[]) (statementAt r' false #[]) (Turn.Loose False fun _ => True)
      (Turn.Steps start.ahead.length) :=
    statementAt_tallies hr (fun h => by rw [hcut] at h; contradiction) like_empty hmeets hin hseparator
      (by omega) (Nat.le_refl _)
  refine hturn.loosely ?_ ?_
  · intro t ht
    cases t with
    | again => exact ht.elim
    | done => exact .pure trivial
  · intro t t' c₁ hlike hmeets₁ hle₁ hsteps
    obtain ⟨as, as', rfl, rfl, has⟩ | ⟨as, as', rfl, rfl, has⟩ := Turn.cases_like hlike
    · -- the first statement was read, so there are fewer tokens for the turns that are left
      have hlt : c₁.ahead.length < start.ahead.length := hsteps
      have hfresh : b.Fresh r start := ⟨hmeets, by omega⟩
      refine .iterate (A := False) (fun n _ _ h => statementTurn_continues hr ?_ h) (fun h => h.elim) n n' as as'
        has (hfresh.past hmeets₁ hlt).here (by omega) (by omega)
      exact fun h => by rw [hcut] at h; contradiction
    · exact .pure hmeets₁ has trivial

/-- Where nothing follows the twin of a script, both readers end at the same place, and what they give is alike. The
    second one may have more separators to skip before the first statement. -/
theorem statements_alike (hcut : b.cut = false) (hr : r.Twins b r') (hc : st.cursor.tokens = b.script.tokens)
    (hskip : st'.cursor.skipWhile TokenKind.isSeparator = b.image (st.cursor.skipWhile TokenKind.isSeparator))
    (hfuel : st.cursor.ahead.length + 1 < r.fuel) (hn : st.cursor.ahead.length < n)
    (hn' : st.cursor.ahead.length < n') (hreport : b.Agrees st.report st'.report)
    (hrun : iterate (statementTurn r false) n #[] ⟨mode, b.isBuiltin⟩ st = .ok list st₁) :
    ∃ list' st₁', iterate (statementTurn r' false) n' #[] ⟨mode, b.isBuiltin'⟩ st' = .ok list' st₁' ∧
      b.Like list list' ∧ b.Agrees st₁.report st₁'.report ∧ st₁'.cursor = b.image st₁.cursor := by
  obtain ⟨n, rfl⟩ : ∃ m, n = m + 1 := ⟨n - 1, by omega⟩
  obtain ⟨n', rfl⟩ : ∃ m, n' = m + 1 := ⟨n' - 1, by omega⟩
  obtain ⟨ts, hread, -⟩ := st.cursor.skipWhile_reads TokenKind.isSeparator
  have htokens := hread.tokens_eq.trans hc
  have hle := Cursor.length_ahead_skipWhile TokenKind.isSeparator st.cursor
  have hseparator := Cursor.kind_skipWhile (p := TokenKind.isSeparator) rfl hc
  rw [iterate_skip] at hrun ⊢
  rw [hskip]
  generalize st.cursor.skipWhile TokenKind.isSeparator = start at hrun hskip htokens hle hseparator ⊢
  have hin : b.Inside start := fun h => by rw [hcut] at h; contradiction
  by_cases hend : start.kind = .endOfInput
  · -- there is no statement at all
    have hend' : (b.image start).kind = .endOfInput := (hin.kind htokens).trans hend
    have hdone (r : Rules) (mode : Mode) (isBuiltin : String → Bool) (st : State)
        (h : st.cursor.kind = .endOfInput) : statementAt r false #[] ⟨mode, isBuiltin⟩ st = .ok (.done []) st := by
      rw [statementAt, bind_run]
      simp only [here, h]
      rfl
    rw [bind_run, hdone _ _ _ _ hend] at hrun
    rw [bind_run, hdone _ _ _ _ hend']
    obtain ⟨rfl, rfl⟩ := EStateM.Result.ok.inj hrun
    exact ⟨[], _, rfl, rfl, hreport, rfl⟩
  · have hmeets : b.Meets start := by
      refine ⟨htokens, fun _ _ => ?_, fun h => by rw [hcut] at h; contradiction⟩
      rw [TokenKind.isTerminator_eq, hseparator, beq_eq_false_iff_ne.mpr hend]
      rfl
    have htallies := statements_tallies n n' hcut hr hmeets hin hseparator (by omega) (by omega) (by omega)
    have htied := htallies mode { st with cursor := start } { st' with cursor := b.image start }
      (fun h => by rw [hcut] at h; contradiction) rfl rfl hreport
    rw [hrun] at htied
    generalize (statementAt r' false #[] >>= _ : Parse (List Node)) _ _ = y at htied ⊢
    -- nothing is cut off, so neither of the two can have lost the other one
    cases htied with
    | agree hlike _ _ hcursor hreport _ => exact ⟨_, _, rfl, hlike, hreport, hcursor⟩
    | stray _ hlost => exact absurd hlost.cut (by rw [hcut]; decide)

/-- **What is read of a script is alike**, if nothing follows its twin. -/
theorem statements_whole (hcut : b.cut = false) (hr : r.Twins b r') (hc : st.cursor.tokens = b.script.tokens)
    (hskip : st'.cursor.skipWhile TokenKind.isSeparator = b.image (st.cursor.skipWhile TokenKind.isSeparator))
    (hfuel : st.cursor.ahead.length + 1 < r.fuel) (hn : st.cursor.ahead.length < n)
    (hn' : st.cursor.ahead.length < n') (hreport : b.Agrees st.report st'.report)
    (hrun : iterate (statementTurn r false) n #[] ⟨mode, b.isBuiltin⟩ st = .ok list st₁) :
    ∃ list' st₁', iterate (statementTurn r' false) n' #[] ⟨mode, b.isBuiltin'⟩ st' = .ok list' st₁' ∧
      b.Like list list' ∧ b.Agrees st₁.report st₁'.report := by
  obtain ⟨list', st₁', hrun', hlike, hreport', -⟩ :=
    statements_alike hcut hr hc hskip hfuel hn hn' hreport hrun
  exact ⟨list', st₁', hrun', hlike, hreport'⟩

end Grammar

/-! ## Scripts that are their own twins -/

/-- Where a script is its own twin, every place is its own image. -/
theorem Seam.image_self (htwins : b.twins = b.script.tokens) (hbefore : b.before = []) {c : Cursor}
    (hc : c.tokens = b.script.tokens) : b.image c = c := by
  have hsplit : b.twins = c.before.reverse ++ c.rest := htwins.trans hc.symm
  have hlength : c.before.reverse.length = c.index := List.length_reverse
  rw [image, hsplit, List.drop_left' hlength, List.take_left' hlength, List.reverse_reverse, hbefore]
  show Cursor.mk (c.before ++ []) c.current c.ahead = c
  rw [List.append_nil]

/-- **A script that is its own twin is read alike**, in both modes. -/
theorem Seam.reads_alike {source file : String} (htokens : (tokenize source file).tokens = b.script.tokens)
    (htwins : b.twins = b.script.tokens) (hbefore : b.before = []) (hcut : b.cut = false)
    (hreport : b.Agrees (tokenize source file).report (tokenize source file).report) (failFast : Bool) :
    ∃ list list' st₁ st₁',
      scriptStatements source file ⟨.top (!failFast), b.isBuiltin⟩ (.first source file) = .ok list st₁ ∧
      scriptStatements source file ⟨.top (!failFast), b.isBuiltin'⟩ (.first source file) = .ok list' st₁' ∧
      b.Like list list' ∧ b.Agrees st₁.report st₁'.report := by
  obtain ⟨-, hfirst⟩ := first_cursor htokens
  obtain ⟨list, st₁, hrun⟩ := script_reads htokens failFast b.isBuiltin
  have hlt : (State.first source file).cursor.ahead.length + 1 <
      (Rules.upTo (State.first source file).cursor.depth).fuel := by
    rw [Rules.upTo_fuel, Cursor.depth]
    omega
  obtain ⟨ts, hread, -⟩ := (State.first source file).cursor.skipWhile_reads TokenKind.isSeparator
  have himage := (b.image_self htwins hbefore (hread.tokens_eq.trans hfirst)).symm
  obtain ⟨list', st₁', hrun', hlike, hreport⟩ :
      ∃ list' st₁', scriptStatements source file ⟨.top (!failFast), b.isBuiltin'⟩ (.first source file) = .ok list' st₁' ∧
        b.Like list list' ∧ b.Agrees st₁.report st₁'.report :=
    Grammar.statements_whole hcut (Rules.upTo_twins b (Nat.le_refl _)) hfirst himage hlt (by omega) (by omega)
      hreport hrun
  exact ⟨list, list', st₁, st₁', hrun, hrun', hlike, hreport⟩

/-- A view leaves all places and texts as they are. -/
structure View.Steady (g : View) : Prop where
  span : g.span = id
  text : g.text = id

theorem View.plain_steady : View.plain.Steady := ⟨rfl, rfl⟩

/-- Seen alike on both sides, what is built in is so on both sides. -/
theorem View.builtin_self (g : View) (isBuiltin : String → Bool) :
    ∀ name, g.builtin none name (isBuiltin name) = g.builtin none name (isBuiltin name) := fun _ => rfl

theorem View.qualified_self (g : View) :
    ∀ qualifier name, g.builtin (some qualifier) name false = g.builtin (some qualifier) name false := fun _ _ => rfl

theorem View.Steady.tokens {g : View} (h : g.Steady) (ts : List Token) : ts.map (Token.view g) = ts := by
  refine (List.map_congr_left fun t _ => ?_).trans (List.map_id ts)
  rw [Token.view, h.span]
  rfl

theorem View.Steady.diagnostics {g : View} (h : g.Steady) (ms : List Diagnostic) :
    ms.map (Diagnostic.view g) = ms := by
  refine (List.map_congr_left fun m _ => ?_).trans (List.map_id ms)
  rw [Diagnostic.view, h.span, Option.map_id]
  rfl

/-- Where nothing follows a script, nothing is asked of where its brackets end. -/
theorem Script.nested_of_uncut {s : Script} (hcut : false = true) : Nested s.body :=
  absurd hcut Bool.false_ne_true

/-- Nor of what its last line ends with. -/
theorem Script.firm_of_uncut {s : Script} (hcut : false = true) : ∀ xs t ys, s.body = xs ++ t :: ys →
    (∀ y ∈ ys, y.kind = .newline) → t.kind = .newline ∨ t.kind.isFirm = true :=
  absurd hcut Bool.false_ne_true

/-- Nor of what comes after it. -/
theorem Script.clear_of_uncut {s : Script} (hcut : false = true) :
    ∀ t ∈ ([s.last].dropWhile (fun t => t.kind == .newline)).head?,
      t.kind ≠ .keyword .elifKw ∧ t.kind ≠ .keyword .elseKw :=
  absurd hcut Bool.false_ne_true

/-- A script that is its own twin. -/
def Seam.same (s : Script) (left right : View) (isBuiltin isBuiltin' : String → Bool) (hleft : left.Steady)
    (hright : right.Steady)
    (hbuiltin : ∀ name, left.builtin none name (isBuiltin name) = right.builtin none name (isBuiltin' name))
    (hqualified : ∀ qualifier name, left.builtin (some qualifier) name false = right.builtin (some qualifier) name false)
    (hstarts : ∀ t ∈ s.body.head?, t.kind ≠ .newline) : Seam where
  script := s
  left := left
  right := right
  isBuiltin := isBuiltin
  isBuiltin' := isBuiltin'
  before := []
  twin := s.body
  ending := s.last
  after := []
  reports := []
  cut := false
  alike := by rw [hleft.tokens, hright.tokens]
  cover := by
    rw [hleft.span, hright.span]
    rintro span other span' other' rfl rfl
    rfl
  text := by
    intro ts ts' h
    rw [hleft.tokens, hright.tokens] at h
    rw [h, hleft.text, hright.text]
  builtin := hbuiltin
  qualified := hqualified
  touches := by
    intro i t u t' u' ht hu ht' hu' _
    rw [Script.tokens] at ht hu
    rw [ht, Option.some.injEq] at ht'
    rw [hu, Option.some.injEq] at hu'
    rw [ht', hu']
  starts := hstarts
  whole := fun _ => ⟨by rw [Token.view, Token.view, hleft.span, hright.span], rfl⟩
  joint := fun hcut => absurd hcut Bool.false_ne_true
  nested := Script.nested_of_uncut
  firm := Script.firm_of_uncut
  clear := Script.clear_of_uncut

theorem Script.starts {s : Script} {source file : String} (htokens : (tokenize source file).tokens = s.tokens) :
    ∀ t ∈ s.body.head?, t.kind ≠ .newline := by
  intro t ht
  refine tokenize_starts source file t ?_
  rw [htokens, Script.tokens]
  obtain ⟨ts, hts⟩ := List.head?_eq_some_iff.mp ht
  rw [hts]
  rfl

/-- **A script seen in two ways.** Where two views agree on places and on what is said of commands, a script is
    read alike. -/
theorem parse_seen (left right : View) (isBuiltin isBuiltin' : String → Bool) (hleft : left.Steady)
    (hright : right.Steady)
    (hbuiltin : ∀ name, left.builtin none name (isBuiltin name) = right.builtin none name (isBuiltin' name))
    (hqualified : ∀ qualifier name, left.builtin (some qualifier) name false = right.builtin (some qualifier) name false)
    (source file : String) (failFast : Bool) :
    let parsed := parse source file failFast isBuiltin
    let parsed' := parse source file failFast isBuiltin'
    parsed.program.statements.map (Node.view left) = parsed'.program.statements.map (Node.view right) ∧
      parsed.program.span = parsed'.program.span ∧ parsed.program.file = parsed'.program.file ∧
      parsed.report = parsed'.report := by
  obtain ⟨s, htokens, -⟩ := tokenize_script source file
  let b := Seam.same s left right isBuiltin isBuiltin' hleft hright hbuiltin hqualified (Script.starts htokens)
  -- views without shifts leave diagnostics as they are
  have hagrees (report report' : Report) : b.Agrees report report' ↔ report'.toList = report.toList := by
    rw [Seam.Agrees, show b.left = left from rfl, show b.right = right from rfl, hleft.diagnostics,
      hright.diagnostics]
    rfl
  obtain ⟨list, list', st₁, st₁', hrun, hrun', hlike, hreport⟩ :=
    Seam.reads_alike (b := b) htokens rfl rfl rfl ((hagrees _ _).mpr rfl) failFast
  obtain ⟨hprogram, hreported⟩ := @parse_of_run source file failFast isBuiltin list st₁ hrun
  obtain ⟨hprogram', hreported'⟩ := @parse_of_run source file failFast isBuiltin' list' st₁' hrun'
  dsimp only
  rw [hprogram, hprogram', hreported, hreported']
  exact ⟨hlike, rfl, rfl, congrArg Report.mk (Array.toList_inj.mp ((hagrees _ _).mp hreport).symm)⟩

end ShellFront
