import ShellFront.Proofs.Layout.Scripts

/-!
# How far readers get

A reader may be given tokens that break off anywhere, and begin anywhere among them. An end of input is put where
there is none, so they are a script all the same. From where it begins a reader only goes forwards, and not
beyond the end; each turn over statements reads something, and with recovery a script is read to its end.

## Contents
- `Script.brokenOff`, `Cursor.ofTokens_take`: tokens that break off.
- `Cursor.Reaches.index_le`, `Cursor.index_le_length`: places in a script.
- `Parse.Outcome`, what came of a run.
- `Grammar.statementTurn_gains`, `Grammar.statementList_reads`: lists of statements.
- `Rules.expression_reaches` and the like: rules go forwards.
-/

namespace ShellFront

open Outlined Parse
open scoped Layout

/-! ## Tokens that break off -/

/-- Where tokens break off, an end of input after the last one makes them a script. -/
def Script.brokenOff (s : Script) (count : Nat) : Script where
  body := s.body.take count
  last := Cursor.endAfter (s.body.take count).getLast?
  last_kind := rfl
  last_le := Int.le_refl _
  kinds := fun t ht => s.kinds t (List.mem_of_mem_take ht)
  nonempty := fun t ht => s.nonempty t (List.mem_of_mem_take ht)
  ordered := by
    have hordered := (List.pairwise_append.mp s.ordered).1.sublist (List.take_sublist count s.body)
    have hnonempty : ∀ t ∈ s.body.take count, t.span.start < t.span.stop := fun t ht =>
      s.nonempty t (List.mem_of_mem_take ht)
    generalize s.body.take count = ts at hordered hnonempty
    refine List.pairwise_append.mpr ⟨hordered, List.pairwise_singleton _ _, fun t ht u hu => ?_⟩
    obtain rfl := List.mem_singleton.mp hu
    obtain ⟨init, l, rfl⟩ := List.eq_nil_or_concat ts |>.resolve_left (List.ne_nil_of_mem ht)
    rw [List.concat_eq_append] at hordered hnonempty ht ⊢
    have hstop : (Cursor.endAfter (init ++ [l]).getLast?).span.start = l.span.stop := by
      rw [List.getLast?_concat]
      rfl
    rw [hstop]
    rcases List.mem_append.mp ht with ht | ht
    · have hle := (List.pairwise_append.mp hordered).2.2 t ht l (List.mem_singleton_self l)
      have hlt := hnonempty l (List.mem_append_right _ (List.mem_singleton_self l))
      omega
    · obtain rfl := List.mem_singleton.mp ht
      exact Int.le_refl _

/-- Where the end of the input stands among tokens, or is put if they have none. -/
def endIndex (tokens : List Token) : Nat := (tokens.takeWhile fun t => t.kind != .endOfInput).length

theorem endIndex_append {ts : List Token} (h : ∀ t ∈ ts, t.kind ≠ .endOfInput) (us : List Token) :
    endIndex (ts ++ us) = ts.length + endIndex us := by
  rw [endIndex, List.takeWhile_append_of_pos fun t ht => bne_iff_ne.mpr (h t ht), List.length_append]
  rfl

namespace Cursor

variable {s : Script} {c c' : Cursor} {ts : List Token}

/-- **Tokens that break off are a script**, of the same first tokens. -/
theorem ofTokens_take (s : Script) (count : Nat) :
    ∃ s' : Script, s'.body <+: s.body ∧ endIndex (s.tokens.take count) = s'.body.length ∧
      (ofTokens (s.tokens.take count)).before = [] ∧ (ofTokens (s.tokens.take count)).tokens = s'.tokens := by
  by_cases hwhole : s.body.length < count
  · refine ⟨s, List.prefix_refl _, ?_⟩
    rw [List.take_of_length_le (by rw [Script.tokens, List.length_append, List.length_singleton]; omega)]
    refine ⟨?_, ofTokens_script s⟩
    rw [Script.tokens, endIndex_append s.kinds, endIndex, List.takeWhile_cons_of_neg (by simp [s.last_kind])]
    rfl
  · have htake : s.tokens.take count = s.body.take count := List.take_append_of_le_length (by omega)
    have hkinds : ∀ t ∈ s.body.take count, t.kind ≠ .endOfInput := (s.brokenOff count).kinds
    have hend := endIndex_append hkinds []
    rw [List.append_nil] at hend
    rw [htake]
    refine ⟨s.brokenOff count, List.take_prefix count s.body, hend, ?_⟩
    show _ ∧ (ofTokens (s.body.take count)).tokens = s.body.take count ++ [endAfter (s.body.take count).getLast?]
    generalize s.body.take count = ts at hkinds
    cases ts with
    | nil => exact ⟨rfl, rfl⟩
    | cons t ts =>
        have hlast : (t :: ts).getLast? = some (ts.getLast?.getD t) := List.getLast?_cons
        rw [ofTokens, hlast, if_neg (hkinds _ (List.mem_of_getLast? hlast))]
        exact ⟨rfl, rfl⟩

/-- A reader that begins further on has the other tokens behind it. -/
theorem reaches_seek (n : Nat) (c : Cursor) : c.Reaches (seek n c) := by
  fun_induction seek n c with
  | case1 n before current t ts ih =>
      have hfirst : Reads ⟨before, current, t :: ts⟩ [current] ⟨current :: before, t, ts⟩ := ⟨rfl, rfl⟩
      exact hfirst.reaches.trans ih
  | case2 => exact .refl _

/-- With no watch on brackets, any place further on is in order. -/
theorem Reaches.strays (h : c.Reaches c') : c.Strays .nothing c' :=
  let ⟨ts, hread⟩ := h
  ⟨ts, [], hread, Watch.follow_nothing ts⟩

/-! ## Places -/

theorem Reads.index_eq (h : c.Reads ts c') : c'.index = c.index + ts.length := by
  rw [index, index, h.before, List.length_append, List.length_reverse, Nat.add_comm]

theorem Reaches.index_le (h : c.Reaches c') : c.index ≤ c'.index := by
  obtain ⟨ts, hread⟩ := h
  rw [hread.index_eq]
  exact Nat.le_add_right _ _

theorem Reads.index_lt (h : c.Reads ts c') (hne : ts ≠ []) : c.index < c'.index := by
  rw [h.index_eq]
  exact Nat.lt_add_of_pos_right (List.length_pos_iff.mpr hne)

/-- A script has one place more than it has tokens before the end of the input. -/
theorem index_le_length (hc : c.tokens = s.tokens) : c.index ≤ s.body.length := by
  have hlength := congrArg List.length hc
  simp only [tokens, rest, Script.tokens, List.length_append, List.length_reverse, List.length_cons,
    List.length_nil] at hlength
  rw [index]
  omega

theorem index_of_end (hc : c.tokens = s.tokens) (hend : c.kind = .endOfInput) : c.index = s.body.length := by
  have hahead : c.ahead = [] := by
    by_contra hne
    exact kind_ne_of_ahead hc hne hend
  have hlength := congrArg List.length hc
  simp only [tokens, rest, hahead, Script.tokens, List.length_append, List.length_reverse, List.length_cons,
    List.length_nil] at hlength
  rw [index]
  omega

end Cursor

/-! ## Outcomes -/

namespace Parse

variable {α : Type} {s : Script} {m : Parse α} {c : Cursor}

/-- What came of a run, apart from its log. -/
structure Outcome (α : Type) where
  result : Except SyntaxError α
  cursor : Cursor
  report : Report

/-- The outcome that a result is. -/
def Outcome.of : EStateM.Result SyntaxError State α → Outcome α
  | .ok a st => ⟨.ok a, st.cursor, st.report⟩
  | .error e st => ⟨.error e, st.cursor, st.report⟩

/-- The outcome of an action. -/
def outcome (m : Parse α) (ctx : Context) (st : State) : Outcome α := .of (m ctx st)

/-- A production goes forwards, whether it gives something or gives up. -/
theorem Forms.reaches [Outlined α] {K : TokenKind → Prop} (h : Forms s .nothing K m) (ctx : Context) {st : State}
    (hc : st.cursor.tokens = s.tokens) (hK : K st.cursor.kind) :
    st.cursor.Reaches (m.outcome ctx st).cursor := by
  have hlands := h st.cursor hc hK ctx st (fun _ => .inl rfl) rfl
  rw [outcome]
  generalize m ctx st = x at hlands
  match x with
  | .ok _ _ => exact hlands.trail.reaches
  | .error _ _ =>
      obtain ⟨_, _, hread, -⟩ := hlands
      exact hread.reaches

end Parse

namespace Grammar

variable {s : Script} {r : Rules} {inBlock : Bool} {statements : Array Node} {ctx : Context} {st st' : State}

/-! ## Statements -/

/-- After separators a statement is read just as it is without them. -/
theorem statement_skip (r : Rules) (ctx : Context) (st : State)
    (hstops : (st.cursor.skipWhile TokenKind.isSeparator).kind.isSeparator = false) :
    statement r ctx st = statement r ctx { st with cursor := st.cursor.skipWhile TokenKind.isSeparator } := by
  have hskip (st : State) : skipSeparators ctx st =
      .ok () { st with cursor := st.cursor.skipWhile TokenKind.isSeparator } := rfl
  rw [statement, bind_run, bind_run, hskip, hskip]
  dsimp only
  rw [Cursor.skipWhile_of_not hstops]

/-- A turn read something since `c₀`, unless it ended the list as it was. -/
def Gains (c₀ : Cursor) (statements : Array Node) (t : Turn (Array Node) (List Node)) (c : Cursor) : Prop :=
  t = .done statements.toList ∨ ∃ ts, ts ≠ [] ∧ c₀.Reads ts c

variable {c₀ start now c : Cursor} {e : SyntaxError} {kept : Array Node}

/-- Whatever was read before an error, recovery goes on from there. -/
theorem afterError_gains (hc : start.tokens = s.tokens) (hend : start.kind ≠ .endOfInput)
    (hstart : c₀.Reaches start) (hnow : start.Reaches now) (hdone : Gains c₀ statements (.done kept.toList) now) :
    Does s .nothing c₀ now (afterError inBlock kept start e) fun t c => Gains c₀ statements t c := by
  refine .mode fun mode _ => .ite (fun _ => ?_) fun _ => .ite (fun _ => ?_) fun _ => .pure hdone
  · refine .follow recover_does ?_
    rintro _ _ ⟨_, _, rfl, -⟩
    obtain ⟨ts, hread⟩ := hstart
    obtain ⟨us, hne, hskip, -⟩ := Cursor.resynchronize_reads hc hend hnow
    exact .pure (.inr ⟨ts ++ us, List.append_ne_nil_of_right_ne_nil ts hne, hread.trans hskip⟩)
  · exact .throw (hstart.trans hnow).strays

theorem afterStatement_gains {ts : List Token} (hc : c.tokens = s.tokens) (hne : ts ≠ [])
    (hread : c₀.Reads ts c) :
    Does s .nothing c₀ c (afterStatement inBlock kept) fun t c => Gains c₀ statements t c := by
  refine .here (.ite (fun _ => .pure (.inr ⟨ts, hne, hread⟩)) fun hnext => ?_)
  have hnext := Bool.or_eq_false_iff.mp (Bool.eq_false_iff.mpr hnext)
  refine .refuse fun e => afterError_gains hc ?_ hread.reaches (.refl c) (.inr ⟨ts, hne, hread⟩)
  intro hend
  rw [hend] at hnext
  exact absurd hnext.2 nofun

/-- **A turn over statements reads something, unless it ends the list as it is**: a statement if one can be read,
    and otherwise what recovery skips. -/
theorem statementTurn_gains (hr : r.Neat s .nothing) (hc : c.tokens = s.tokens) :
    Does s .nothing c c (statementTurn r inBlock statements) fun t c' => Gains c statements t c' := by
  obtain ⟨ts, hskip, -⟩ := c.skipWhile_reads TokenKind.isSeparator
  have hstart : (c.skipWhile TokenKind.isSeparator).tokens = s.tokens := hskip.tokens_eq.trans hc
  have hseparator := Cursor.kind_skipWhile (p := TokenKind.isSeparator) rfl hc
  refine .move (.here ?_)
  generalize c.skipWhile TokenKind.isSeparator = start at hskip hstart hseparator
  refine .ite (fun _ => .pure (.inl rfl)) fun hends => ?_
  refine .bind hskip.reaches.strays (Does.attempt (hr.statement start hstart hseparator)) fun x now h => ?_
  match x with
  | .error e =>
      obtain ⟨us, -, hread, -⟩ := h
      refine afterError_gains hstart (fun hend => hends ?_) hskip.reaches hread.reaches (.inl rfl)
      rw [hend]
      rfl
  | .ok node =>
      obtain ⟨o, -, hspans⟩ := h.spans
      obtain ⟨us, hne, hread, -⟩ := hspans.fills
      exact afterStatement_gains h.trail.tokens (List.append_ne_nil_of_right_ne_nil ts hne) (hskip.trans hread)

/-- The statements of a script are read whatever they are like, and to the end if errors are recovered from. -/
theorem statementList_reads (hr : r.Sound s) (ctx : Context) (hc : st.cursor.tokens = s.tokens)
    (hfuel : st.cursor.ahead.length ≤ r.fuel) :
    ∃ list st', statementList r false ctx st = .ok list st' ∧ st.cursor.Reaches st'.cursor ∧
      (ctx.mode.recovering = true → st'.cursor.kind = .endOfInput) := by
  have hruns := iterate_runs hr ctx (r.fuel + 1) (Nat.lt_succ_of_le hfuel) (ready_nil st.cursor) hc
  obtain ⟨list, st', hlenient, hended⟩ :=
    iterate_lenient hr ctx (r.fuel + 1) (Nat.lt_succ_of_le hfuel) (ready_nil st.cursor) hc
  obtain ⟨_, _, hread, -⟩ := hended.listed
  rw [statementList, Rules.loop]
  cases hmode : ctx.mode.recovering with
  | true =>
      have hsame : ctx.lenient = ctx := by rw [Context.lenient, ← hmode]
      rw [hsame] at hlenient
      exact ⟨list, st', hlenient, hread.reaches, fun _ => hended.kind⟩
  | false =>
      have hsame : ctx.strict = ctx := by rw [Context.strict, ← hmode]
      rw [hsame, hlenient] at hruns
      generalize iterate (statementTurn r false) (r.fuel + 1) #[] ctx st = x at hruns
      cases hruns with
      | whole hpass => exact ⟨_, _, rfl, hpass.reaches, fun h => absurd h Bool.false_ne_true⟩
      | cut hfails => exact ⟨_, _, rfl, hfails.reaches, fun h => absurd h Bool.false_ne_true⟩

end Grammar

/-! ## Rules -/

namespace Rules

variable {s : Script} {ctx : Context} {st : State}

theorem expression_reaches (n : Nat) (ctx : Context) (hc : st.cursor.tokens = s.tokens) :
    st.cursor.Reaches ((upTo n).expression.outcome ctx st).cursor :=
  (upTo_neat s .nothing n).expression.reaches ctx hc trivial

theorem pattern_reaches (n : Nat) (ctx : Context) (hc : st.cursor.tokens = s.tokens) :
    st.cursor.Reaches ((upTo n).pattern.outcome ctx st).cursor :=
  (upTo_neat s .nothing n).pattern.reaches ctx hc trivial

/-- A statement may have separators before it. -/
theorem statement_reaches (n : Nat) (ctx : Context) (hc : st.cursor.tokens = s.tokens) :
    st.cursor.Reaches ((upTo (n + 1)).statement.outcome ctx st).cursor := by
  obtain ⟨ts, hread, -⟩ := st.cursor.skipWhile_reads TokenKind.isSeparator
  have hstops := Cursor.kind_skipWhile (p := TokenKind.isSeparator) rfl hc
  let onward : State := { st with cursor := st.cursor.skipWhile TokenKind.isSeparator }
  have hskip : (upTo (n + 1)).statement ctx st = (upTo (n + 1)).statement ctx onward :=
    Grammar.statement_skip (upTo n) ctx st hstops
  have honward : onward.cursor.Reaches ((upTo (n + 1)).statement.outcome ctx onward).cursor :=
    (upTo_neat s .nothing (n + 1)).statement.reaches ctx (hread.tokens_eq.trans hc) hstops
  rw [outcome, hskip]
  exact hread.reaches.trans honward

end Rules

end ShellFront
