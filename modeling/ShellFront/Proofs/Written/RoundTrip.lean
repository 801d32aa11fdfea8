import ShellFront.Proofs.Written.Cuts

/-!
# Written values are read back

A script that binds a value to a variable, with the value written out, is read as this one binding, and the value that
is read is the one that was written. The lexer cuts the script into the tokens of the binding and those that spell the
value; the grammar reads these, wherever they stand; and after them it finds the end of the input.

## Contents
- `Grammar.assigned_gives`, `Grammar.letBinding_gives`: the binding of what is spelled.
- `tokenize_of_cuts`, `first_reads`: the tokens of a script that is cut, and how they are read.
- `parse_statement`: a script that is one statement.
- `parse_written`.
-/

namespace ShellFront

open Parse

/-! ## Reading a binding -/

namespace Grammar

variable {e : Node} {ts : List Token} {n : Nat} {ctx : Context} {c c' : Cursor} {start name assign : Token}

theorem isAssignment_of_isPart {kind : TokenKind} (h : kind.isPart = true) : kind.isAssignment = false := by
  unfold TokenKind.isPart at h
  split at h
  · contradiction
  · contradiction
  · contradiction
  · simpa using h

theorem isAssignment_of_closes {kind : TokenKind} (h : kind.closesValue = true) : kind.isAssignment = false := by
  unfold TokenKind.closesValue at h
  split at h <;> first | contradiction | rfl

/-- What is spelled is no assignment, so that it is assigned as an expression. -/
theorem assigned_gives (h : Spells e ts) (hctx : ctx.Valued) (hn : ts.length ≤ n) (hread : c.Reads ts c')
    (hclose : c'.kind.closesValue = true) : Gives (assigned (.upTo n)) ctx c e.Alike c' := by
  have hnext : c.next.kind.isAssignment = false := by
    cases ts with
    | nil => exact absurd rfl (ne_nil_of_opens h.opens)
    | cons t ts =>
        rw [hread.next]
        cases ts with
        | nil => exact isAssignment_of_closes hclose
        | cons u us => exact isAssignment_of_isPart (h.parts u (by simp))
  have hahead : assignmentAhead c = false := by
    rw [assignmentAhead, hnext, Bool.and_false]
  refine .here ?_
  rw [hahead]
  exact h.whole hctx hn hread hclose

/-- A keyword, a name, a mark and what is spelled are read as a binding. -/
theorem letBinding_gives {keyword : Keyword} (h : Spells e ts) (hstart : start.kind ≠ .endOfInput)
    (hname : name.kind = .identifier) (hassign : assign.kind = .symbol .assign) (hctx : ctx.Valued)
    (hn : ts.length ≤ n) (hread : c.Reads (start :: name :: assign :: ts) c') (hclose : c'.kind.closesValue = true) :
    Gives (letBinding (.upTo (n + 1)) keyword) ctx c
      (fun a => ∃ span place value, a = .binding span keyword ⟨place, name.lexeme⟩ value ∧ e.Alike value) c' := by
  obtain ⟨-, hafter⟩ := hread.step hstart
  have hidentifier : c.advance.kind = .identifier := hafter.kind.trans hname
  have hcurrent : c.advance.current = name := (List.cons.inj hafter.rest).1
  obtain ⟨-, hmark⟩ := hafter.step (by rw [hname]; nofun)
  have hkind : c.advance.advance.kind = .symbol .assign := hmark.kind.trans hassign
  obtain ⟨-, hvalue⟩ := hmark.step (by rw [hassign]; nofun)
  have hinner : Gives (Rules.upTo (n + 1)).assigned ctx c.advance.advance.advance e.Alike c' :=
    assigned_gives h hctx hn hvalue hclose
  refine .advance (.expect hidentifier (Gives.expect hkind (.bind hinner fun value halike => .spanFrom fun span => ?_)))
  rw [hcurrent]
  exact .pure ⟨_, _, _, rfl, halike⟩

/-- The binding as a statement. -/
theorem statement_binding (h : Spells e ts) (hstart : start.kind = .keyword .letKw) (hname : name.kind = .identifier)
    (hassign : assign.kind = .symbol .assign) (hctx : ctx.Valued) (hn : ts.length ≤ n)
    (hread : c.Reads (start :: name :: assign :: ts) c') (hclose : c'.kind.closesValue = true) :
    Gives (statement (.upTo (n + 1))) ctx c
      (fun a => ∃ span place value, a = .binding span .letKw ⟨place, name.lexeme⟩ value ∧ e.Alike value) c' := by
  have hkind : c.kind = .keyword .letKw := hread.kind.trans hstart
  refine .skipWhile (by rw [hkind]; rfl) (.peek ?_)
  rw [show c.current.kind = .keyword .letKw from hkind]
  exact .here (letBinding_gives h (by rw [hstart]; nofun) hname hassign hctx hn hread hclose)

end Grammar

/-! ## The script -/

open Lexer Grammar

variable {e : Node} {file source : String} {report : Report} {ts : List Token} {st : Lexer.State}

/-- The tokens of a script that is cut are those that it is cut into, and the end of the input. -/
theorem tokenize_of_cuts (h : Cuts file (.first report) source.toList [] ts st) :
    (tokenize source file report).tokens = ts ++ [.endMark file st.place] ∧
      (tokenize source file report).report = report := by
  have hrun : run file (.first report) source.toList = st := by
    have hrun := h.run
    rwa [List.append_nil, show run file st [] = st by rw [run]] at hrun
  constructor
  · show ((run file (.first report) source.toList).tokens.push _).toList = _
    rw [hrun, Array.toList_push, h.tokens]
    rfl
  · show (run file (.first report) source.toList).report = report
    rw [hrun, h.report]
    rfl

/-- A script that is cut is read from its first token to the end of the input. -/
theorem first_reads (h : Cuts file (.first .empty) source.toList [] ts st) :
    ∃ c', (State.first source file).cursor.Reads ts c' ∧ c'.kind = .endOfInput ∧
      (State.first source file).cursor.depth = ts.length + 2 := by
  obtain ⟨s, hscript, -⟩ := tokenize_script source file
  obtain ⟨hbefore, htokens⟩ := first_cursor hscript
  rw [← hscript, (tokenize_of_cuts h).1, Cursor.tokens, hbefore] at htokens
  refine ⟨⟨ts.reverse, .endMark file st.place, []⟩, ⟨by rw [hbefore, List.append_nil], htokens⟩, rfl, ?_⟩
  have hlength := congrArg List.length htokens
  simp only [Cursor.rest, List.length_append, List.length_cons, List.length_nil, List.length_reverse] at hlength
  rw [Cursor.depth]
  omega

/-- A script that is cut into a statement is this statement, and nothing is reported about it. -/
theorem parse_statement {t : Token} {P : Node → Prop} (h : Cuts file (.first .empty) source.toList [] (t :: ts) st)
    (hseparator : t.kind.isSeparator = false) (hends : endsList false t.kind = false) (failFast : Bool)
    (isBuiltin : String → Bool)
    (hstatement : ∀ c c' : Cursor, c.Reads (t :: ts) c' → c'.kind = .endOfInput →
      Gives (statement (.upTo (ts.length + 2))) ⟨.top (!failFast), isBuiltin⟩ c P c') :
    (parse source file failFast isBuiltin).report = .empty ∧
      ∃ a, (parse source file failFast isBuiltin).program.statements = [a] ∧ P a := by
  obtain ⟨c', hread, hend, hdepth⟩ := first_reads h
  have hgives : Gives (scriptStatements source file) ⟨.top (!failFast), isBuiltin⟩ (State.first source file).cursor
      (fun list => ∃ a, list = [a] ∧ P a) c' := by
    rw [scriptStatements, hdepth]
    refine statementList_single (Cursor.skipWhile_of_not ?_) ?_ (hstatement _ c' hread hend) hend
    · rwa [hread.kind]
    · rwa [hread.kind]
  obtain ⟨_, hrun, a, rfl, ha⟩ := hgives (State.first source file).report (State.first source file).log
  obtain ⟨hprogram, hreport⟩ := parse_of_run failFast hrun
  constructor
  · rw [hreport]
    exact (tokenize_of_cuts h).2
  · rw [hprogram]
    exact ⟨a, rfl, ha⟩

/-- The script that binds a written value. -/
theorem cuts_binding (h : e.IsValue) (file : String) :
    ∃ start name assign ts st,
      Cuts file (.first .empty) ("let v = " ++ e.written).toList [] (start :: name :: assign :: ts) st ∧
        start.kind = .keyword .letKw ∧ name.kind = .identifier ∧ name.lexeme = "v" ∧
        assign.kind = .symbol .assign ∧ Spells e ts := by
  have hv : IsName "v" := ⟨'v', [], rfl, rfl, rfl⟩
  obtain ⟨start, st₁, hlet, hstart⟩ := cuts_keyword file (.first .empty) .letKw
    (endsName_blank ('v' :: ' ' :: '=' :: ' ' :: e.written.toList ++ []))
  obtain ⟨name, st₂, hbound, hname, hlexeme, -⟩ := cuts_name file (st₁.blank file) hv
    (endsName_blank ('=' :: ' ' :: e.written.toList ++ []))
  obtain ⟨assign, st₃, hmark, hassign⟩ := cuts_symbol file (st₂.blank file) .assign (e.written.toList ++ [])
  obtain ⟨ts, st₄, hvalue, hspells⟩ := h.cuts file (st₃.blank file) [] (.inl fun _ hc => absurd hc (by simp))
  have hne := ne_nil_of_opens hspells.opens
  have hmarked : Cuts file (st₂.blank file) ('=' :: ' ' :: e.written.toList) [] (assign :: ts) st₄ :=
    hmark.append hvalue.blank hne
  have hnamed : Cuts file (st₁.blank file) ('v' :: ' ' :: '=' :: ' ' :: e.written.toList) []
      (name :: assign :: ts) st₄ := hbound.append hmarked.blank (List.cons_ne_nil _ _)
  have htext : ("let v = " ++ e.written).toList =
      Keyword.letKw.text.toList ++ ' ' :: 'v' :: ' ' :: '=' :: ' ' :: e.written.toList := by
    rw [String.toList_append]
    rfl
  rw [htext]
  exact ⟨start, name, assign, ts, st₄, hlet.append hnamed.blank (List.cons_ne_nil _ _), hstart,
    hname.trans (nameKind_identifier rfl), hlexeme, hassign, hspells⟩

/-- **Values are read back as they were written.** The script that binds a written value is read as this one binding,
    nothing is reported about it, and the value is the one that was written, but for the places in it. -/
theorem parse_written {e : Node} (h : e.IsValue) (file : String) (failFast : Bool) (isBuiltin : String → Bool) :
    (parse ("let v = " ++ e.written) file failFast isBuiltin).report = .empty ∧
      ∃ span place value,
        (parse ("let v = " ++ e.written) file failFast isBuiltin).program.statements =
          [.binding span .letKw ⟨place, "v"⟩ value] ∧
        e.Alike value := by
  obtain ⟨start, name, assign, ts, st, hcuts, hstart, hname, hlexeme, hassign, hspells⟩ := cuts_binding h file
  have hctx : Context.Valued ⟨.top (!failFast), isBuiltin⟩ := ⟨rfl, rfl⟩
  obtain ⟨hreport, _, hstatements, span, place, value, rfl, halike⟩ := parse_statement hcuts
    (by rw [hstart]; rfl) (by rw [hstart]; rfl) failFast isBuiltin fun c c' hread hend =>
      statement_binding hspells hstart hname hassign hctx (Nat.le_add_right ts.length 3) hread (by rw [hend]; rfl)
  rw [hlexeme] at hstatements
  exact ⟨hreport, span, place, value, hstatements, halike⟩

/-- A number added to a member of what a call gives. -/
def Node.sumOfMember : Node :=
  let span : Span := .origin ""
  .binary span .plus (.literal span (.integer 1 .decimal))
    (.fieldAccess span (.call span ⟨span, "f"⟩ [.variableUse span "x"]) ⟨span, "size"⟩)

theorem parse_written_sum :
    Node.sumOfMember.IsValue ∧ Node.sumOfMember.written = "1 + f($x).size" ∧
      (parse ("let v = " ++ Node.sumOfMember.written) "" false fun _ => false).report = .empty ∧
      ∃ span place value,
        (parse ("let v = " ++ Node.sumOfMember.written) "" false fun _ => false).program.statements =
          [.binding span .letKw ⟨place, "v"⟩ value] ∧
        Node.sumOfMember.Alike value := by
  have hx : Node.IsValue (.variableUse (.origin "") "x") :=
    .variableUse ⟨⟨'x', [], rfl, rfl, List.forall_mem_nil _⟩, by decide⟩
  have hf : IsIdentifier "f" := ⟨⟨'f', [], rfl, rfl, rfl⟩, by decide⟩
  have hsize : IsName "size" := ⟨'s', ['i', 'z', 'e'], rfl, rfl, rfl⟩
  have hvalue : Node.sumOfMember.IsValue :=
    .binary (by decide) (by decide) (.integer (n := 1) (by decide))
      (.fieldAccess rfl hsize (.call hf (List.forall_mem_singleton.mpr hx)))
  exact ⟨hvalue, by decide, parse_written hvalue "" false fun _ => false⟩

end ShellFront
