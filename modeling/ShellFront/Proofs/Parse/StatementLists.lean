import ShellFront.Proofs.Parse.Parts
import ShellFront.Proofs.Parse.Recovery

/-!
# Lists of statements

A list of statements is read turn by turn. After each turn the statements read so far tile the tokens read,
and they are `Ready` for another one. At an error the strict reading is cut: a block gives up, and a script
ends with what it has. The lenient reading goes on, and has kept the same statements up to there.

## Contents
- `Listed` and `Ready`, what holds of the statements between turns.
- `Kept`, `statementTurn_kept`: how the two readings of a turn are related.
- `statementList_from`, `block_gathers`.
-/

namespace ShellFront

open Outlined Parse

namespace Cursor

variable {s : Script} {c c' : Cursor} {ts : List Token}

/-- Who reads nothing stays where it is. -/
theorem Reads.eq_of_nil (h : c.Reads [] c') : c' = c := by
  obtain ⟨before, current, ahead⟩ := c
  obtain ⟨before', current', ahead'⟩ := c'
  obtain ⟨hbefore, hrest⟩ := h
  cases hbefore
  cases hrest
  rfl

/-- Who reads something has less before it. -/
theorem Reads.length_lt (h : c.Reads ts c') (hne : ts ≠ []) : c'.ahead.length < c.ahead.length := by
  have hlength := congrArg List.length h.rest
  have hpos := List.length_pos_iff.mpr hne
  simp only [Cursor.rest, List.length_append, List.length_cons] at hlength
  omega

/-- Whatever spans a place has read something. -/
theorem Spans.length_lt {span : Span} (h : c.Spans span c') : c'.ahead.length < c.ahead.length :=
  let ⟨_, hne, hread⟩ := h.reads
  hread.length_lt hne

/-- Nobody goes back. -/
theorem Reaches.length_le (h : c.Reaches c') : c'.ahead.length ≤ c.ahead.length := by
  obtain ⟨ts, hread⟩ := h
  have hlength := congrArg List.length hread.rest
  simp only [Cursor.rest, List.length_append, List.length_cons] at hlength
  omega

/-- Skipping stops at the end or at a token of another class. -/
theorem skipWhile_stops (p : TokenKind → Bool) (c : Cursor) :
    (c.skipWhile p).ahead = [] ∨ p (c.skipWhile p).kind = false := by
  fun_induction skipWhile p c with
  | case1 => exact .inl rfl
  | case2 _ _ _ _ _ ih => exact ih
  | case3 _ _ _ _ hp => exact .inr (Bool.eq_false_iff.mpr hp)

/-- In a script, what is skipped ends before the end of the input does. -/
theorem kind_skipWhile {p : TokenKind → Bool} (hp : p .endOfInput = false) (hc : c.tokens = s.tokens) :
    p (c.skipWhile p).kind = false := by
  obtain ⟨ts, hread, -⟩ := c.skipWhile_reads p
  rcases c.skipWhile_stops p with hahead | hstop
  · rwa [kind_of_ahead_nil (hread.tokens_eq.trans hc) hahead]
  · exact hstop

end Cursor

namespace Grammar

/-! ## One turn -/

/-- Statements end with the input, and in a block with its brace. -/
theorem endsList_kind {inBlock : Bool} {kind : TokenKind} (h : endsList inBlock kind = true) :
    kind = .endOfInput ∨ kind = .symbol .closeBrace := by
  rw [endsList, Bool.or_eq_true, Bool.and_eq_true] at h
  exact h.imp eq_of_beq fun h => eq_of_beq h.2

/-- Where statements go on, no statement is ended. -/
theorem isTerminator_false {inBlock : Bool} {kind : TokenKind}
    (h : (kind.isSeparator || endsList inBlock kind) = false) : kind.isTerminator = false := by
  rw [endsList, Bool.or_eq_false_iff, Bool.or_eq_false_iff] at h
  rw [TokenKind.isTerminator_eq, h.1, h.2.1]
  rfl

/-! ## Between turns -/

variable {s : Script} {r : Rules} {inBlock fresh : Bool} {c₁ c start after : Cursor} {node : Node}
  {list : List Node}

/-- The statements of a list tile the tokens read from `c₁` on. -/
def Listed (c₁ : Cursor) (fresh : Bool) (list : List Node) (c : Cursor) : Prop :=
  ∃ read, c₁.Reads read c ∧ Tiling fresh read (shown list)

/-- A list of statements may go on: a separator comes next, unless one was read already or the list can only
    go on with an error. -/
def Ready (c₁ : Cursor) (list : List Node) (c : Cursor) : Prop :=
  ∃ fresh, Listed c₁ fresh list c ∧
    (fresh = true ∨ c.kind.isTerminator = true ∨ c.kind = .symbol .closeBrace)

/-- Before the first statement. -/
theorem ready_nil (c : Cursor) : Ready c [] c := ⟨true, ⟨[], .refl c, .nil⟩, .inl rfl⟩

/-- Where a statement begins, separators were read. -/
theorem Ready.skip (h : Ready c₁ list c) (hc : c.tokens = s.tokens) :
    let start := c.skipWhile TokenKind.isSeparator
    start.kind.isSeparator = false ∧ ∃ fresh, Listed c₁ fresh list start ∧
      (fresh = true ∨ start.kind = .endOfInput ∨ start.kind = .symbol .closeBrace) := by
  obtain ⟨fresh, ⟨read, hread, htiling⟩, hnext⟩ := h
  obtain ⟨ts, hskip, hts⟩ := c.skipWhile_reads TokenKind.isSeparator
  intro start
  have hstop : start.kind.isSeparator = false := Cursor.kind_skipWhile (p := TokenKind.isSeparator) rfl hc
  refine ⟨hstop, _, ⟨_, hread.trans hskip, htiling.separators hts⟩, ?_⟩
  -- Without a separator here, there was one before or none is called for.
  rcases ts with - | ⟨t, ts⟩
  · have heq : start = c := hskip.eq_of_nil
    rw [heq] at hstop ⊢
    rw [List.isEmpty_nil, Bool.not_true, Bool.or_false]
    refine hnext.imp_right (Or.imp_left fun hterminator => ?_)
    rw [TokenKind.isTerminator_eq, hstop, Bool.false_or] at hterminator
    exact eq_of_beq hterminator
  · exact .inl (by simp)

/-- A statement adds its tokens. -/
theorem Listed.statement (h : Listed c₁ fresh list start) (hspans : start.Spans node.span after)
    (hfresh : fresh = true ∨ node.outline.kind = .errorNode) : Listed c₁ false (list ++ [node]) after := by
  obtain ⟨read, hread, htiling⟩ := h
  obtain ⟨ts, -, hstatement, hfills⟩ := hspans.fills
  refine ⟨read ++ ts, hread.trans hstatement, ?_⟩
  rw [shown_append]
  exact htiling.statement (node.outline_span ▸ hfills) hfresh

/-- A node in the place of what was skipped adds all tokens skipped. -/
theorem Listed.recovered (h : Listed c₁ fresh list start) {span : Span} {message text : String}
    (hskips : start.Skips span c) : Ready c₁ (list ++ [.broken span message text]) c := by
  obtain ⟨read, hread, htiling⟩ := h
  obtain ⟨seg, newlines, hskip, hfills, hnewlines, hnext⟩ := hskips.split
  have hseg := htiling.statement (o := Node.outline (.broken span message text)) hfills (.inr rfl)
  have hseparators : ∀ t ∈ newlines, t.kind.isSeparator := fun t ht => by rw [hnewlines t ht]; rfl
  have hall := hseg.separators hseparators
  rw [List.append_assoc] at hall
  refine ⟨!newlines.isEmpty, ⟨_, hread.trans hskip, ?_⟩, hnext.imp_left fun hne => ?_⟩
  · rw [shown_append]
    exact hall
  · simpa using hne

/-! ## Going on after an error -/

/-- Where the strict reading of a turn is **cut**: a block gives up, and a script ends with what it has. -/
def cut (inBlock : Bool) (kept : Array Node) (e : SyntaxError) (st : State) :
    EStateM.Result SyntaxError State (Turn (Array Node) (List Node)) :=
  if inBlock then .error e st else .ok (.done kept.toList) st

/-- The lenient reading went on from the state after the error of a statement that begins at `start`, with a node in the
    place of what was skipped. -/
def Recovered (c₁ start : Cursor) (kept : Array Node) (now : State)
    (x : EStateM.Result SyntaxError State (Turn (Array Node) (List Node))) : Prop :=
  ∃ span message text st', x = .ok (.again (kept.push (.broken span message text))) st' ∧
    (st'.report = now.report ∧ now.cursor.Reaches st'.cursor) ∧
    Ready c₁ (kept.push (.broken span message text)).toList st'.cursor ∧
    ∃ ts, ts ≠ [] ∧ start.Reads ts st'.cursor

variable {ctx : Context} {st st₁ : State} {statements kept : Array Node} {e : SyntaxError}

/-- The strict reading gives up with an error of a statement. -/
theorem afterError_strict : afterError inBlock kept start e ctx.strict st = cut inBlock kept e st := by
  cases inBlock <;> rfl

/-- The lenient reading goes on behind a statement that could not be read, and keeps the others. -/
theorem afterError_lenient (h : Listed c₁ fresh kept.toList start) (hc : start.tokens = s.tokens)
    (hkind : start.kind.isTerminator = false) (hreach : start.Reaches st.cursor) :
    Recovered c₁ start kept st (afterError inBlock kept start e ctx.lenient st) := by
  have hskips := Cursor.resynchronize_skips hc hkind hreach
  refine ⟨_, _, _, _, rfl, ⟨rfl, Cursor.resynchronize_reaches start st.cursor⟩, ?_, ?_⟩
  · rw [Array.toList_push]
    exact h.recovered hskips
  · obtain ⟨seg, newlines, hread, ⟨first, _, hfirst, -⟩, -⟩ := hskips.split
    refine ⟨seg ++ newlines, fun hnil => ?_, hread⟩
    rw [(List.append_eq_nil_iff.mp hnil).1] at hfirst
    contradiction

/-- After a statement both readings go on, or a separator is missing. -/
theorem afterStatement_run (h : Listed c₁ false kept.toList st.cursor) (hc : st.cursor.tokens = s.tokens) :
    ((∀ ctx, afterStatement inBlock kept ctx st = .ok (.again kept) st) ∧
        Ready c₁ kept.toList st.cursor) ∨
      ∃ e : SyntaxError, (e.problem = .statementEnd ∧ e.found ∈ s.tokens ∧ e.span = st.cursor.blamed) ∧
        ∀ ctx : Context, afterStatement inBlock kept ctx.strict st =
            cut inBlock kept e { st with report := st.report.after e } ∧
          Recovered c₁ st.cursor kept { st with report := st.report.after e }
            (afterStatement inBlock kept ctx.lenient st) := by
  cases hnext : st.cursor.kind.isSeparator || endsList inBlock st.cursor.kind with
  | true =>
      refine .inl ⟨fun ctx => ?_, false, h, .inr ?_⟩
      · rw [afterStatement, bind_run]
        simp only [here, hnext, if_true]
        rfl
      · rw [TokenKind.isTerminator_eq, Bool.or_eq_true, or_assoc]
        exact (Bool.or_eq_true _ _ ▸ hnext).imp_right fun hends => (endsList_kind hends).imp_left beq_of_eq
  | false =>
      let e : SyntaxError := ⟨.statementEnd, st.cursor.current, st.cursor.blamed⟩
      have hrun (ctx : Context) : afterStatement inBlock kept ctx st =
          afterError inBlock kept st.cursor e ctx { st with report := st.report.after e } := by
        rw [afterStatement, bind_run]
        simp only [here, hnext, Bool.false_eq_true, if_false]
        rw [bind_run, refuse_run]
      refine .inr ⟨e, ⟨rfl, Cursor.mem_tokens_of_mem_rest hc List.mem_cons_self, rfl⟩, fun ctx => ?_⟩
      rw [hrun, hrun]
      exact ⟨afterError_strict, afterError_lenient h hc (isTerminator_false hnext) (.refl _)⟩

/-! ## A turn in both modes -/

/-- What holds after a turn that began at `c`. -/
def AfterTurn (inBlock : Bool) (c₁ c : Cursor) (list : List Node) (c' : Cursor) :
    Turn (Array Node) (List Node) → Prop
  | .again next => Ready c₁ next.toList c' ∧ c'.ahead.length < c.ahead.length ∧ list <+: next.toList
  | .done list' => list' = list ∧ (∃ fresh, Listed c₁ fresh list c') ∧ endsList inBlock c'.kind = true

/-- The array goes on from another one with something that could not be read. -/
def Broken (kept next : Array Node) : Prop :=
  ∃ node more, next.toList = kept.toList ++ node :: more ∧ ¬ node.outline.Intact

/-- How the strict and the lenient reading of a turn are related: they agree, or the strict one is cut while
    the lenient one **kept** the same statements and went on. -/
inductive Kept (s : Script) (inBlock : Bool) (statements : Array Node)
    (Q : Cursor → Turn (Array Node) (List Node) → Prop) (st : State) :
    EStateM.Result SyntaxError State (Turn (Array Node) (List Node)) →
    EStateM.Result SyntaxError State (Turn (Array Node) (List Node)) → Prop where
  | agree {turn : Turn (Array Node) (List Node)} {st' : State} (hpass : st.cursor.Passes st'.cursor)
      (hreport : st'.report = st.report) (hcarries : Carries s (shown statements) (shown turn))
      (hpost : Q st'.cursor turn) : Kept s inBlock statements Q st (.ok turn st') (.ok turn st')
  | cut {kept next : Array Node} {e : SyntaxError} {st₁ st' : State} (hfails : Fails s st e st₁)
      (hproceeds : Proceeds s st st') (hgrows : st₁.report.Grows st'.report)
      (hkept : Carries s (shown statements) (shown kept)) (hbroken : Broken kept next)
      (hsettled : (∀ o ∈ shown statements, o.Settled s) → ∀ o ∈ shown next, o.Settled s)
      (hpost : Q st'.cursor (.again next)) :
      Kept s inBlock statements Q st (cut inBlock kept e st₁) (.ok (.again next) st')

variable {x y : EStateM.Result SyntaxError State (Turn (Array Node) (List Node))} {c₂ : Cursor}

/-- In the place of what could not be read nothing has to be covered. -/
theorem broken_settled {span : Span} {message text : String} :
    (Node.broken span message text).outline.Settled s :=
  Outline.settled_mk (by decide) (by simp)

/-- One more statement. -/
theorem settled_push (hstatements : ∀ o ∈ shown statements, o.Settled s) (hnode : node.outline.Settled s) :
    ∀ o ∈ shown (statements.push node), o.Settled s := by
  rw [shown_push]
  exact List.forall_mem_append.mpr ⟨hstatements, List.forall_mem_singleton.mpr hnode⟩

/-- Statements are added at the end. -/
theorem prefix_push (statements : Array Node) (node : Node) :
    statements.toList <+: (statements.push node).toList := by
  rw [Array.toList_push]
  exact List.prefix_append ..

/-- What is related from where a statement begins is related from before the separators. -/
theorem Kept.precede (hpass : st.cursor.Passes start)
    (h : Kept s inBlock statements (AfterTurn inBlock c₁ start statements.toList)
      { st with cursor := start } x y) :
    Kept s inBlock statements (AfterTurn inBlock c₁ st.cursor statements.toList) st x y := by
  have hpost {c' : Cursor} : ∀ {turn}, AfterTurn inBlock c₁ start statements.toList c' turn →
      AfterTurn inBlock c₁ st.cursor statements.toList c' turn
    | .again _, h => ⟨h.1, Nat.lt_of_lt_of_le h.2.1 hpass.reaches.length_le, h.2.2⟩
    | .done _, h => h
  cases h with
  | agree hpass' hreport hcarries h => exact .agree (hpass.trans hpass') hreport hcarries (hpost h)
  | cut hfails hproceeds hgrows hkept hbroken hsettled h =>
      exact .cut (hfails.precede hpass.reaches rfl) (hproceeds.precede hpass.reaches rfl) hgrows hkept hbroken
        hsettled (hpost h)

/-- A lenient reading that recovered is related to a strict one that was cut. -/
theorem Recovered.related {now : State} (hfails : Fails s st e st₁) (hreach : st.cursor.Reaches start)
    (hproceeds : Proceeds s st now) (hgrows : st₁.report.Grows now.report)
    (hkept : Carries s (shown statements) (shown kept)) (hkeeps : statements.toList <+: kept.toList)
    (h : Recovered c₁ start kept now x) :
    Kept s inBlock statements (AfterTurn inBlock c₁ st.cursor statements.toList) st
      (cut inBlock kept e st₁) x := by
  obtain ⟨span, message, text, st', rfl, ⟨hreport, honward⟩, hready, ts, hne, hread⟩ := h
  have hbroken : ¬ (Node.broken span message text).outline.Intact := fun h => h.self rfl
  have hlt := Nat.lt_of_lt_of_le (hread.length_lt hne) hreach.length_le
  exact .cut hfails (hproceeds.follow honward hreport) (hreport ▸ hgrows) hkept ⟨_, [], Array.toList_push, hbroken⟩
    (fun hheld => settled_push (hkept.settled hheld) broken_settled)
    ⟨hready, hlt, hkeeps.trans (prefix_push ..)⟩

/-- After a statement that both readings gave. -/
theorem afterStatement_agree (hlisted : Listed c₁ false (statements.push node).toList st₁.cursor)
    (hc : st₁.cursor.tokens = s.tokens) (hpass : st.cursor.Passes st₁.cursor)
    (hlt : st₁.cursor.ahead.length < st.cursor.ahead.length) (hreport : st₁.report = st.report)
    (hcarries : Carries s [] (shown node)) :
    Kept s inBlock statements (AfterTurn inBlock c₁ st.cursor statements.toList) st
      (afterStatement inBlock (statements.push node) ctx.strict st₁)
      (afterStatement inBlock (statements.push node) ctx.lenient st₁) := by
  have hpush : Carries s (shown statements) (shown (statements.push node)) := by
    rw [shown_push, ← List.append_nil (shown statements)]
    exact hcarries.trans (.parts (by simp))
  rcases afterStatement_run hlisted hc with ⟨hrun, hready⟩ | ⟨e, ⟨hproblem, hfound, hspan⟩, hrun⟩
  · rw [hrun, hrun]
    exact .agree hpass hreport hpush ⟨hready, hlt, prefix_push ..⟩
  · obtain ⟨hstrict, hlenient⟩ := hrun ctx
    rw [hstrict]
    have hbrace : BlamesBrace e st₁.cursor := fun h => absurd (hproblem.symm.trans h) (by decide)
    have hproceeds : Proceeds s st { st₁ with report := st₁.report.after e } :=
      (Proceeds.of_same (hpass.reaches.tokens_eq.symm.trans hc) hpass.reaches hreport).trans
        (.of_after hc (.refl _) rfl fun _ => hspan ▸ Cursor.lies_blamed hc (.refl _))
    exact hlenient.related ⟨hproceeds, congrArg (·.after e) hreport, fun _ => hfound, hbrace⟩ hpass.reaches
      hproceeds (.refl _) hpush (prefix_push ..)

/-- After a statement that only the lenient reading gave. -/
theorem afterStatement_part {st₂ : State} (hfails : Fails s st e st₂)
    (hlisted : Listed c₁ false (statements.push node).toList st₁.cursor)
    (hc : st₁.cursor.tokens = s.tokens) (hproceeds : Proceeds s st st₁)
    (hlt : st₁.cursor.ahead.length < st.cursor.ahead.length) (hgrows : st₂.report.Grows st₁.report)
    (hbroken : ¬ node.outline.Intact) (hsettled : node.outline.Settled s) :
    Kept s inBlock statements (AfterTurn inBlock c₁ st.cursor statements.toList) st
      (cut inBlock statements e st₂) (afterStatement inBlock (statements.push node) ctx.lenient st₁) := by
  have hpush (hheld : ∀ o ∈ shown statements, o.Settled s) := settled_push hheld hsettled
  rcases afterStatement_run hlisted hc with ⟨hrun, hready⟩ | ⟨e', ⟨-, -, hspan⟩, hrun⟩
  · rw [hrun]
    exact .cut hfails hproceeds hgrows (.parts (by simp)) ⟨node, [], Array.toList_push, hbroken⟩ hpush
      ⟨hready, hlt, prefix_push ..⟩
  · obtain ⟨-, span, message, text, st', hlenient, ⟨hreport, honward⟩, hready, ts, hne, hread⟩ := hrun ctx
    have hnow : Proceeds s st { st₁ with report := st₁.report.after e' } :=
      hproceeds.trans (.of_after hc (.refl _) rfl fun _ => hspan ▸ Cursor.lies_blamed hc (.refl _))
    rw [hlenient]
    refine .cut hfails (hnow.follow honward hreport) (hreport ▸ hgrows.trans (Report.grows_after _ _))
      (.parts (by simp)) ⟨node, [.broken span message text], ?_, hbroken⟩
      (fun hheld => settled_push (hpush hheld) broken_settled)
      ⟨hready, Nat.lt_trans (hread.length_lt hne) hlt, (prefix_push ..).trans (prefix_push ..)⟩
    rw [Array.toList_push, Array.toList_push, List.append_assoc]
    rfl

/-- A turn, step by step: it ends the list, or it reads a statement and what ends it, or it goes on after an error.
    -/
theorem statementTurn_run (ctx : Context) (st : State) :
    statementTurn r inBlock statements ctx st =
      let start := st.cursor.skipWhile TokenKind.isSeparator
      let st₀ := { st with cursor := start }
      if endsList inBlock start.kind then .ok (.done statements.toList) st₀
      else match r.statement ctx st₀ with
        | .error e st₁ => afterError inBlock statements start e ctx st₁
        | .ok node st₁ => afterStatement inBlock (statements.push node) ctx st₁ := by
  rw [statementTurn, bind_run]
  simp only [skipSeparators, move]
  rw [bind_run]
  simp only [here]
  split
  · rfl
  · rw [bind_run, attempt]
    cases r.statement ctx _ <;> rfl

/-- **A turn goes the same way in both modes until it is cut.** -/
theorem statementTurn_kept (hr : r.Sound s) (inBlock : Bool) (ctx : Context)
    (hready : Ready c₁ statements.toList st.cursor) (hc : st.cursor.tokens = s.tokens) :
    Kept s inBlock statements (AfterTurn inBlock c₁ st.cursor statements.toList) st
      (statementTurn r inBlock statements ctx.strict st)
      (statementTurn r inBlock statements ctx.lenient st) := by
  obtain ⟨hseparator, fresh, hlisted, hfresh⟩ := hready.skip hc
  have hpass := st.cursor.skipWhile_passes (p := TokenKind.isSeparator) rfl
  rw [statementTurn_run, statementTurn_run]
  generalize st.cursor.skipWhile TokenKind.isSeparator = start at hseparator hlisted hfresh hpass
  have hstart : start.tokens = s.tokens := hpass.reaches.tokens_eq.trans hc
  refine .precede hpass ?_
  dsimp only
  -- Both modes ask the same question at `start`, so one case split serves both.
  split
  next hends => exact .agree (.refl _) rfl (.parts (by simp)) ⟨rfl, ⟨fresh, hlisted⟩, hends⟩
  next hends =>
  have hterminator :=
    isTerminator_false (Bool.or_eq_false_iff.mpr ⟨hseparator, Bool.eq_false_iff.mpr hends⟩)
  have hmatch := hr.statement start hseparator ctx { st with cursor := start } rfl hstart
  have hstatement {node : Node} {after : Cursor} (hspans : start.Spans (Located.span node) after) :
      Listed c₁ false (statements.push node).toList after := by
    rw [Array.toList_push]
    refine hlisted.statement hspans (.inl ?_)
    -- A statement without a separator before it would begin at the end, or at a brace, and none does.
    rcases hfresh with hfresh | hend | hbrace
    · exact hfresh
    · exact absurd (by rw [endsList, hend]; rfl) hends
    · exact absurd hbrace hspans.kind
  generalize r.statement ctx.strict _ = x, r.statement ctx.lenient _ = y at hmatch
  cases hmatch with
  | agree hpass' hreport hcarries hspans =>
      exact afterStatement_agree (hstatement hspans) (hpass'.reaches.tokens_eq.trans hstart) hpass'
        hspans.length_lt hreport hcarries
  | fail hfails hproceeds hgrows =>
      dsimp only
      rw [afterError_strict]
      exact (afterError_lenient hlisted hstart hterminator hproceeds.reaches).related hfails (.refl _) hproceeds hgrows
        (.parts (by simp)) (List.prefix_refl _)
  | part hfails hproceeds hgrows hbroken hsettled hspans =>
      dsimp only
      rw [afterError_strict]
      exact afterStatement_part hfails (hstatement hspans) (hproceeds.reaches.tokens_eq.trans hstart) hproceeds
        hspans.length_lt hgrows (fun h => hbroken (List.forall_mem_singleton.mpr h))
        (hsettled (by simp) _ (by simp))

/-! ## Statements between braces -/

/-- Once a statement could not be read, the list is not intact. -/
theorem Broken.not_intact {kept next : Array Node} (h : Broken kept next) :
    ¬ ∀ o ∈ shown next, o.Intact := by
  obtain ⟨node, more, hnext, hnode⟩ := h
  refine fun hall => hnode (hall _ ?_)
  rw [← shown_toList, shown_nodes, hnext]
  simp

/-- The statements of a block tile the tokens between its braces. -/
theorem statementList_from (hr : r.Sound s) (c : Cursor) :
    From s c [] (statementList r true) fun list c' => ∃ fresh, Listed c fresh list c' := by
  rw [statementList]
  refine .loop r (I := fun (statements : Array Node) c' => Ready c statements.toList c') rfl
    (ready_nil c) ?_
  intro statements c' hready ctx st hst hc
  subst hst
  have hkept := statementTurn_kept hr true ctx hready hc
  generalize statementTurn r true statements ctx.strict st = x,
    statementTurn r true statements ctx.lenient st = y at hkept
  cases hkept with
  | @agree turn _ hpass hreport hcarries hpost =>
      refine .agree hpass hreport hcarries ?_
      match turn with
      | .again next => exact hpost.1
      | .done list => exact hpost.1 ▸ hpost.2.1
  | cut hfails hproceeds hgrows hkept hbroken hsettled hpost =>
      exact .part hfails hproceeds hgrows hbroken.not_intact hsettled hpost.1

/-- The statements of a block are read alike in both readings. -/
theorem statementList_gathers (hr : r.Sound s) : Gathers s (statementList r true) :=
  .of_from (statementList_from hr)

/-- A braced block carries its statements. -/
theorem carries_block {span : Span} (h : (Outline.branch .block span (shown list)).Braced s.tokens) :
    Carries s (shown list) (shown (Block.mk span list)) := by
  have hshown : shown (Block.mk span list) = [.branch .block span (shown list)] := by
    rw [shown_block, Block.outline, Node.outlines_eq]
  rw [hshown]
  refine ⟨?_, fun hlist => List.forall_mem_singleton.mpr (Outline.settled_block h hlist)⟩
  rw [List.forall_mem_singleton]
  exact Outline.everywhere_mk.trans (and_iff_right (show NodeKind.block ≠ .errorNode by decide))

/-- **A block is braced.** -/
theorem block_gathers (hr : r.Sound s) : Gathers s (block r) := by
  refine fun c _ => .tokens fun hc => .mark trivial rfl fun hopen => ?_
  have hopens := (Cursor.advance_spans hc (hopen ▸ trivial : c.kind.Begins)).toOpens
  have hread := Cursor.advance_reads hc (by rw [hopen]; nofun)
  refine .bind (.within (fun _ _ => rfl) (statementList_from hr c.advance)) ?_
  rintro list c₂ ⟨fresh, inside, hinside, htiling⟩
  refine .mark trivial rfl fun hclose => .spanFrom (.pure (carries_block ?_) trivial)
  have hc₂ : c₂.tokens = s.tokens := (hread.trans hinside).tokens_eq.trans hc
  have hread₂ := Cursor.advance_reads hc₂ (by rw [hclose]; nofun)
  have hprevious : c₂.advance.previous = c₂.current := by simpa using (hread₂.last (by simp)).symm
  have hspans := (hopens.reach (s := s) (hread.tokens_eq.trans hc) (hinside.trans hread₂).reaches).spans
    (hread₂.tokens_eq.trans hc₂)
  have htokens : s.tokens = c.before.reverse ++ c.current :: (inside ++ c₂.current :: c₂.ahead) := by
    rw [← hc, Cursor.tokens, hread.rest, hinside.rest]
    rfl
  have hinside' : s.tokens = (c.before.reverse ++ [c.current]) ++ (inside ++ c₂.current :: c₂.ahead) := by
    simpa using htokens
  have hsegment := Script.segment hinside'
  exact ⟨_, _, _, _, _, htokens, hopen, hclose, hspans.start_eq, hprevious ▸ hspans.stop_eq,
    htiling.covers hsegment.1 hsegment.2⟩

end Grammar

end ShellFront
