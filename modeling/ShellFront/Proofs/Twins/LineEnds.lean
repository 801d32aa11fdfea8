import ShellFront.Proofs.Token.Trailing
import ShellFront.Proofs.Twins.Joints

/-!
# Scripts with other blanks at line ends

Two scripts that differ only in the blanks at their line ends have the same tokens but for their places, and these
touch each other alike, line breaks apart. Of all that is asked of a script only one answer hangs on a line break that
is touched: a minus sign among the arguments of a command that stands apart from the token before it begins a negative
argument if it touches the next token, and this may be a line break. If it does in one script and not in the other,
they are read differently. If all such minus signs touch alike, the scripts are read alike.

## Contents
- `View.placeless`, and what of a token is seen without its place.
- `danglingMinuses`: the minus signs that count.
- `Seam.lineEnds`, `parse_lineEnds` and `parse_lineEnds_minus`.
-/

namespace ShellFront

open Outlined Parse

/-! ## Trees without places -/

/-- The view without places and without the text of statements that could not be read. -/
def View.placeless : View := { View.plain with span := fun _ => .origin "", text := fun _ => "" }

/-- Without its place a token is what it says. -/
theorem Token.views_placeless {ts ts' : List Token} (h : ts.map Token.content = ts'.map Token.content) :
    ts.map (Token.view .placeless) = ts'.map (Token.view .placeless) := by
  have hsame := congrArg (List.map fun w => (⟨w.1, w.2.1, .origin "", w.2.2⟩ : Token)) h
  rwa [List.map_map, List.map_map] at hsame

theorem Token.kind_of_map_content {ts ts' : List Token} {i : Nat} {t t' : Token}
    (h : ts.map Token.content = ts'.map Token.content) (ht : ts[i]? = some t) (ht' : ts'[i]? = some t') :
    t'.kind = t.kind := by
  have hsame := congrArg (fun ws => ws[i]?.map Prod.fst) h
  simp only [List.getElem?_map, ht, ht', Option.map_some, Option.some.injEq] at hsame
  exact hsame.symm

/-! ## Minus signs at line ends -/

/-- Which tokens stand between two others as a minus sign does that **dangles**: it stands apart from the token before
    it and touches the line break after it. -/
def danglingMinuses : List Token → List Bool
  | t :: u :: v :: ts =>
      (u.kind == .symbol .minus && !t.touches u && v.kind == .newline && u.touches v) :: danglingMinuses (u :: v :: ts)
  | _ => []

variable {i : Nat} {ts ts' : List Token} {t u v t' u' v' : Token}

theorem danglingMinuses_getElem? (ht : ts[i]? = some t) (hu : ts[i + 1]? = some u) (hv : ts[i + 2]? = some v) :
    (danglingMinuses ts)[i]? =
      some (u.kind == .symbol .minus && !t.touches u && v.kind == .newline && u.touches v) := by
  induction i generalizing ts with
  | zero =>
      obtain ⟨ts, rfl⟩ : ∃ us, ts = t :: u :: v :: us := by
        rcases ts with - | ⟨t, - | ⟨u, - | ⟨v, ts⟩⟩⟩
        · contradiction
        · contradiction
        · contradiction
        · obtain rfl := Option.some.inj ht
          obtain rfl := Option.some.inj hu
          obtain rfl := Option.some.inj hv
          exact ⟨ts, rfl⟩
      rfl
  | succ i ih =>
      rcases ts with - | ⟨w, - | ⟨x, - | ⟨y, ts⟩⟩⟩
      · contradiction
      · contradiction
      · contradiction
      · exact ih ht hu hv

/-- What joints say of two tokens in both readings. -/
theorem touches_of_joints {stop stop' : Int} (hjoints : joints stop ts = joints stop' ts') (ht : ts[i]? = some t)
    (hu : ts[i + 1]? = some u) (ht' : ts'[i]? = some t') (hu' : ts'[i + 1]? = some u') (hkind : u'.kind = u.kind)
    (hbreak : u.kind ≠ .newline) : t'.touches u' = t.touches u := by
  have hjoint := (joints_getElem? ht' hu').symm.trans (hjoints ▸ joints_getElem? ht hu)
  have hmark : (u.kind != .newline) = true := bne_iff_ne.mpr hbreak
  rw [hkind, hmark, Bool.and_true, Bool.and_true] at hjoint
  exact Option.some.inj hjoint

/-- A minus sign that stands apart touches the line break after it in both readings, or in none. -/
theorem touches_of_danglingMinuses (hsame : danglingMinuses ts = danglingMinuses ts') (ht : ts[i]? = some t)
    (hu : ts[i + 1]? = some u) (hv : ts[i + 2]? = some v) (ht' : ts'[i]? = some t') (hu' : ts'[i + 1]? = some u')
    (hv' : ts'[i + 2]? = some v') (hminus : u.kind = .symbol .minus) (hminus' : u'.kind = .symbol .minus)
    (hapart : t.touches u = false) (hapart' : t'.touches u' = false) (hbreak : v.kind = .newline)
    (hbreak' : v'.kind = .newline) : u'.touches v' = u.touches v := by
  have hdangles := (danglingMinuses_getElem? ht' hu' hv').symm.trans (hsame ▸ danglingMinuses_getElem? ht hu hv)
  rw [hminus, hminus', hapart, hapart', hbreak, hbreak'] at hdangles
  simpa using hdangles

/-- Where tokens say the same and have the same joints, and the same minus signs dangle, they touch each other alike as
    far as anything depends on it. -/
theorem touches_alike {s s' : Script} (hcontent : s.tokens.map Token.content = s'.tokens.map Token.content)
    (hjoints : joints (-1) s.tokens = joints (-1) s'.tokens)
    (hminus : danglingMinuses s.tokens = danglingMinuses s'.tokens) (ht : s.tokens[i]? = some t)
    (hu : s.tokens[i + 1]? = some u) (ht' : s'.tokens[i]? = some t') (hu' : s'.tokens[i + 1]? = some u')
    (h : u.kind.isMark = true ∨ s.StandsApart i t) : t'.touches u' = t.touches u := by
  have hkind := Token.kind_of_map_content hcontent ht ht'
  have hnext := Token.kind_of_map_content hcontent hu hu'
  by_cases hbreak : u.kind = .newline
  · obtain ⟨hsign, j, v, rfl, hv, hapart⟩ := h.resolve_left (by rw [hbreak]; decide)
    have hlt : j + 1 < s'.tokens.length := (List.getElem?_eq_some_iff.mp ht').1
    have hv' : s'.tokens[j]? = some s'.tokens[j] := List.getElem?_eq_getElem (Nat.lt_of_succ_lt hlt)
    have hapart' : s'.tokens[j].touches t' = false := by
      rw [touches_of_joints hjoints hv ht hv' ht' hkind (by rw [hsign]; nofun), hapart]
    exact touches_of_danglingMinuses hminus hv ht hu hv' ht' hu' hsign (hkind.trans hsign) hapart hapart' hbreak
      (hnext.trans hbreak)
  · exact touches_of_joints hjoints ht hu ht' hu' hnext hbreak

/-! ## Sewing -/

/-- Two scripts whose tokens say the same and touch each other alike. -/
def Seam.lineEnds (s s' : Script) (isBuiltin : String → Bool)
    (hcontent : s.tokens.map Token.content = s'.tokens.map Token.content)
    (hjoints : joints (-1) s.tokens = joints (-1) s'.tokens)
    (hminus : danglingMinuses s.tokens = danglingMinuses s'.tokens) (hstarts : ∀ t ∈ s.body.head?, t.kind ≠ .newline) :
    Seam where
  script := s
  left := .placeless
  right := .placeless
  isBuiltin := isBuiltin
  isBuiltin' := isBuiltin
  before := []
  twin := s'.body
  ending := s'.last
  after := []
  reports := []
  cut := false
  alike := by
    have hsame := Token.views_placeless hcontent
    rw [Script.tokens, Script.tokens, List.map_append, List.map_append] at hsame
    exact (List.append_inj' hsame rfl).1
  cover := fun _ _ => rfl
  text := fun _ => rfl
  builtin := View.builtin_self .placeless isBuiltin
  qualified := View.qualified_self .placeless
  touches := fun _ _ _ _ _ ht hu ht' hu' h => touches_alike hcontent hjoints hminus ht hu ht' hu' h
  starts := hstarts
  whole := fun _ => by
    have hsame := Token.views_placeless hcontent
    rw [Script.tokens, Script.tokens, List.map_append, List.map_append] at hsame
    exact ⟨List.singleton_inj.mp (List.append_inj' hsame rfl).2, rfl⟩
  joint := fun hcut => absurd hcut Bool.false_ne_true
  nested := Script.nested_of_uncut
  firm := Script.firm_of_uncut
  clear := Script.clear_of_uncut

/-! ## Reading -/

/-- **Blanks at line ends do not count, but for minus signs that dangle.** When two scripts without invalid tokens
    differ only in the blanks at their line ends outside strings, and the same minus signs dangle in both, then parsing
    gives the same statements, but for places and the text of what could not be read, and the same messages, but for
    places. -/
theorem parse_lineEnds (source source' file file' : String) (failFast : Bool) (isBuiltin : String → Bool)
    (hvalid : ∀ t ∈ (tokenize source file).tokens, t.kind ≠ .invalid)
    (hvalid' : ∀ t ∈ (tokenize source' file').tokens, t.kind ≠ .invalid) (htrimmed : trimmed source = trimmed source')
    (hminus : danglingMinuses (tokenize source file).tokens = danglingMinuses (tokenize source' file').tokens) :
    let parsed := parse source file failFast isBuiltin
    let parsed' := parse source' file' failFast isBuiltin
    parsed.program.statements.map (Node.view .placeless) = parsed'.program.statements.map (Node.view .placeless) ∧
      parsed.report.toList.map (fun d => (d.severity, d.category, d.message)) =
        parsed'.report.toList.map (fun d => (d.severity, d.category, d.message)) := by
  intro parsed parsed'
  obtain ⟨hcontent, hjoints⟩ := tokenize_trimmed source file file hvalid
  obtain ⟨hcontent', hjoints'⟩ := tokenize_trimmed source' file' file hvalid'
  rw [← htrimmed] at hcontent' hjoints'
  replace hcontent := hcontent.symm.trans hcontent'
  replace hjoints := hjoints.symm.trans hjoints'
  obtain ⟨s, htokens, hplaces⟩ := tokenize_script source file
  obtain ⟨s', htokens', hplaces'⟩ := tokenize_script source' file'
  rw [htokens] at hvalid hcontent hjoints hminus
  rw [htokens'] at hvalid' hcontent hjoints hminus
  let b := Seam.lineEnds s s' isBuiltin hcontent hjoints hminus (Script.starts htokens)
  -- nothing is reported before the first statement
  have hsilent : (State.first source file).report.toList = [] :=
    (Report.toList_eq_nil hplaces).mpr fun t ht => hvalid t (List.mem_append_left _ ht)
  have hsilent' : (State.first source' file').report.toList = [] :=
    (Report.toList_eq_nil hplaces').mpr fun t ht => hvalid' t (List.mem_append_left _ ht)
  have hagrees : b.Agrees (State.first source file).report (State.first source' file').report := by
    rw [Seam.Agrees, hsilent, hsilent']
    rfl
  obtain ⟨-, hfirst⟩ := first_cursor htokens
  have hback : (State.first source' file').cursor.skipWhile TokenKind.isSeparator =
      b.image ((State.first source file).cursor.skipWhile TokenKind.isSeparator) := by
    rw [first_image (b := b) htokens htokens' rfl rfl]
    exact Seam.image_skipWhile hfirst fun h => absurd h Bool.false_ne_true
  have hlength : s.body.length = s'.body.length := by
    have hsame := congrArg List.length hcontent
    simpa only [Script.tokens, List.length_map, List.length_append, List.length_singleton, Nat.add_right_cancel_iff]
      using hsame
  have hahead := first_ahead htokens
  have hahead' := first_ahead htokens'
  have hdepth : (State.first source file).cursor.depth ≤ (State.first source' file').cursor.depth := by
    simp only [Cursor.depth]
    omega
  obtain ⟨list, st, hrun⟩ := script_reads htokens failFast isBuiltin
  obtain ⟨list', st', hrun', hlikes, hreport⟩ :
      ∃ list' st', scriptStatements source' file' ⟨.top (!failFast), isBuiltin⟩ (.first source' file') =
        .ok list' st' ∧ b.Like list list' ∧ b.Agrees st.report st'.report :=
    Grammar.statements_whole (b := b) rfl (Rules.upTo_twins b hdepth) hfirst hback
      (by rw [Rules.upTo_fuel, Cursor.depth]; omega) (by rw [Rules.upTo_fuel, Cursor.depth]; omega)
      (by rw [Rules.upTo_fuel, Cursor.depth]; omega) hagrees hrun
  obtain ⟨hprogram, hreported⟩ := parse_of_run failFast hrun
  obtain ⟨hprogram', hreported'⟩ := parse_of_run failFast hrun'
  have hmessages : st'.report.toList.map (Diagnostic.view .placeless) =
      st.report.toList.map (Diagnostic.view .placeless) := hreport
  have hseen := congrArg (List.map fun d => (d.severity, d.category, d.message)) hmessages
  rw [List.map_map, List.map_map] at hseen
  rw [show parsed = parse source file failFast isBuiltin from rfl, hprogram, hreported,
    show parsed' = parse source' file' failFast isBuiltin from rfl, hprogram', hreported']
  exact ⟨hlikes, hseen.symm⟩

/-- Carriage returns and blanks at line ends, also at the end of a comment, and a minus sign that dangles in both
    scripts. -/
theorem parse_lineEnds_returns :
    let source := "let x = (1 +\r\n  2)\t \r\nls -a # c \r\necho $x -\n2"
    let source' := "let x = (1 +\n  2)\nls -a # c\necho $x -\n2"
    let parsed := parse source "a" false fun _ => false
    let parsed' := parse source' "b" false fun _ => false
    (∀ t ∈ (tokenize source "a").tokens, t.kind ≠ .invalid) ∧
      (∀ t ∈ (tokenize source' "b").tokens, t.kind ≠ .invalid) ∧ trimmed source = trimmed source' ∧
      danglingMinuses (tokenize source "a").tokens = danglingMinuses (tokenize source' "b").tokens ∧
      parsed.program.statements.map (Node.view .placeless) = parsed'.program.statements.map (Node.view .placeless) ∧
      parsed.report.toList.map (fun d => (d.severity, d.category, d.message)) =
        parsed'.report.toList.map (fun d => (d.severity, d.category, d.message)) := by
  intro source source' parsed parsed'
  have hvalid : ∀ t ∈ (tokenize source "a").tokens, t.kind ≠ .invalid := by decide +kernel
  have hvalid' : ∀ t ∈ (tokenize source' "b").tokens, t.kind ≠ .invalid := by decide +kernel
  have htrimmed : trimmed source = trimmed source' := by decide +kernel
  have hminus : danglingMinuses (tokenize source "a").tokens = danglingMinuses (tokenize source' "b").tokens := by
    decide +kernel
  exact ⟨hvalid, hvalid', htrimmed, hminus,
    parse_lineEnds source source' "a" "b" false (fun _ => false) hvalid hvalid' htrimmed hminus⟩

/-- **A minus sign that dangles in one script only.** With a line break right after it, it begins a negative argument
    that never comes; after a blank it is an operator with its second operand on the next line. -/
theorem parse_lineEnds_dangling :
    let source := "echo 1 -\n2"
    let source' := "echo 1 - \n2"
    let parsed := parse source "a" false fun _ => false
    let parsed' := parse source' "a" false fun _ => false
    (∀ t ∈ (tokenize source "a").tokens, t.kind ≠ .invalid) ∧
      (∀ t ∈ (tokenize source' "a").tokens, t.kind ≠ .invalid) ∧ trimmed source = trimmed source' ∧
      parsed.program.statements.length = 2 ∧ parsed'.program.statements.length = 1 ∧
      parsed.report.toList.map (·.message) = ["Expected expression, got newline"] ∧ parsed'.report.toList = [] := by
  decide +kernel

end ShellFront
