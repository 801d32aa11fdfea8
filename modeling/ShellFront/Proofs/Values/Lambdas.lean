import ShellFront.Proofs.Values.Outcomes
import ShellFront.Proofs.Written.Constructs

/-!
# Lambdas among arguments

Among the arguments of a command a bar begins a lambda or is a pipe, which is seen from the tokens after it. Both this
look ahead and the parser follow the tokens that a list of parameters is made of: every list that the parser takes is
such a list, and of these all are seen but two kinds. An empty list between two bars is taken for a pipe, and so is a
list that ends with a comma.

## Contents
- `HintTokens`, `ParameterTokens`: the tokens of parameters.
- `Cursor.parametersAhead_iff`: which of them are seen.
- `Grammar.parameter_reads`, `Grammar.parameterTurn_reads`, `Grammar.parameters_reads`: they are what the parser reads.
- `Grammar.lambdaHeader_reads` and `Grammar.lambdaAhead_iff`.
-/

namespace ShellFront

/-! ## Tokens of parameters -/

/-- Whether a kind of token can be the name of a parameter. -/
def TokenKind.namesParameter (kind : TokenKind) : Bool := kind == .variableName || kind == .identifier

/-- The tokens of a type hint, if there is one. -/
inductive HintTokens : List Token → Prop where
  | none : HintTokens []
  | type {colon type : Token} (hcolon : colon.kind = .symbol .colon) (htype : type.kind.isName = true) :
      HintTokens [colon, type]
  | optional {colon type question : Token} (hcolon : colon.kind = .symbol .colon) (htype : type.kind.isName = true)
      (hquestion : question.kind = .symbol .question) : HintTokens [colon, type, question]

/-- The tokens of parameters with commas between them; a comma may end them. -/
inductive ParameterTokens : List Token → Prop where
  | none : ParameterTokens []
  | last {name : Token} {hint : List Token} (hname : name.kind.namesParameter = true) (hhint : HintTokens hint) :
      ParameterTokens (name :: hint)
  | comma {name comma : Token} {hint more : List Token} (hname : name.kind.namesParameter = true)
      (hhint : HintTokens hint) (hcomma : comma.kind = .symbol .comma) (hmore : ParameterTokens more) :
      ParameterTokens (name :: hint ++ comma :: more)

/-- There are tokens, and the last of them is no comma. -/
def EndsPlainly (ts : List Token) : Prop := ∃ t ∈ ts.getLast?, t.kind ≠ .symbol .comma

namespace Cursor

variable {ts rest body : List Token} {bar : Token}

/-- A hint is passed over up to a mark that is in none. -/
theorem afterHint_append (h : HintTokens ts) (hcolon : headIs (.symbol .colon) rest = false)
    (hquestion : headIs (.symbol .question) rest = false) : afterHint (ts ++ rest) = rest := by
  cases h with
  | none => rw [List.nil_append, afterHint, hcolon, if_neg Bool.false_ne_true]
  | type hcolon htype =>
      rw [afterHint, if_pos (by simp [headIs, hcolon])]
      exact if_neg (by simp [hquestion])
  | optional hcolon htype hquestion =>
      rw [afterHint, if_pos (by simp [headIs, hcolon])]
      exact if_pos (by simp [headIs, hquestion])

/-- A parameter is passed over as well. -/
theorem parametersAhead_name {name : Token} {hint : List Token} (hname : name.kind.namesParameter = true)
    (hhint : HintTokens hint) (hcolon : headIs (.symbol .colon) rest = false)
    (hquestion : headIs (.symbol .question) rest = false) :
    parametersAhead (name :: hint ++ rest) =
      if headIs (.symbol .comma) rest then parametersAhead (rest.drop 1)
      else headIs (.symbol .pipe) rest && opensLambdaBody (rest.drop 1) := by
  rw [TokenKind.namesParameter] at hname
  rw [List.cons_append, parametersAhead, if_pos hname]
  dsimp only
  rw [afterHint_append hhint hcolon hquestion]

theorem endsPlainly_last {name : Token} {hint : List Token} (hname : name.kind.namesParameter = true)
    (hhint : HintTokens hint) : EndsPlainly (name :: hint) := by
  cases hhint with
  | none => exact ⟨name, rfl, fun h => by rw [h] at hname; contradiction⟩
  | @type _ type _ htype => exact ⟨type, rfl, fun h => by rw [h] at htype; contradiction⟩
  | @optional _ _ question _ _ hquestion => exact ⟨question, rfl, by rw [hquestion]; nofun⟩

theorem endsPlainly_comma {comma : Token} {more : List Token} (hcomma : comma.kind = .symbol .comma) :
    EndsPlainly (ts ++ comma :: more) ↔ EndsPlainly more := by
  cases more with
  | nil => simp [EndsPlainly, hcomma]
  | cons t more => simp [EndsPlainly, List.getLast?_append, List.getLast?_cons_cons]

/-- **Parameters are seen** if there are any and no comma ends them. -/
theorem parametersAhead_iff (h : ParameterTokens ts) (hbar : bar.kind = .symbol .pipe) :
    parametersAhead (ts ++ bar :: body) = true ↔ EndsPlainly ts ∧ opensLambdaBody body = true := by
  induction h with
  | none => simp [parametersAhead, hbar, EndsPlainly]
  | @last name hint hname hhint =>
      rw [parametersAhead_name hname hhint (by rw [headIs, hbar]; rfl) (by rw [headIs, hbar]; rfl)]
      simp [headIs, hbar, endsPlainly_last hname hhint]
  | @comma name comma hint more hname hhint hcomma hmore ih =>
      rw [List.append_assoc, parametersAhead_name hname hhint (by simp [headIs, hcomma]) (by simp [headIs, hcomma]),
        endsPlainly_comma hcomma, ← ih]
      simp [headIs, hcomma]

end Cursor

/-! ## What the parser reads -/

namespace Cursor

/-- Where a token of another kind comes next, the current one is read. -/
theorem advance_reads_of_kind {c : Cursor} (h : c.advance.kind ≠ c.kind) : c.Reads [c.current] c.advance := by
  have hend : c.kind ≠ .endOfInput := fun hend => h (by rw [advance, if_pos hend])
  obtain ⟨before, current, _ | ⟨t, ts⟩⟩ := c
  · exact absurd (congrArg Cursor.kind (advance_last rfl)) h
  · rw [advance, if_neg hend]
    exact ⟨rfl, rfl⟩

/-- What is left after a token from which more is read. -/
theorem ahead_of_reads {c c' : Cursor} {ts : List Token} {t : Token} (hend : c.kind ≠ .endOfInput)
    (h : c.advance.Reads (ts ++ [t]) c') : c.ahead = (ts ++ [t]) ++ c'.rest := by
  have hlt := h.length_lt (by simp)
  obtain ⟨before, current, _ | ⟨u, us⟩⟩ := c
  · rw [advance_last rfl] at hlt
    contradiction
  · rw [← h.rest, advance, if_neg hend]
    rfl

/-- Whether the token read last was read right after a comma. -/
def pastComma (c : Cursor) : Bool := c.before.tail.head?.any (·.kind == .symbol .comma)

theorem endsPlainly_iff {c c' : Cursor} {ts : List Token} {t : Token} (h : c.Reads (ts ++ [t]) c') :
    EndsPlainly ts ↔ ts ≠ [] ∧ c'.pastComma = false := by
  rw [pastComma, h.before, List.reverse_append, List.reverse_singleton, List.singleton_append, List.cons_append,
    List.tail_cons]
  rcases ts.eq_nil_or_concat with rfl | ⟨ts, u, rfl⟩
  · simp [EndsPlainly]
  · simp [EndsPlainly]

/-- What ends a parameter. -/
def EndsParameter (c : Cursor) : Prop := c.kind = .symbol .comma ∨ c.kind = .symbol .pipe

theorem EndsParameter.ne {c : Cursor} (h : c.EndsParameter) {kind : TokenKind} (hcomma : kind ≠ .symbol .comma)
    (hpipe : kind ≠ .symbol .pipe) : c.kind ≠ kind :=
  fun hkind => h.elim (fun h => hcomma (hkind ▸ h)) fun h => hpipe (hkind ▸ h)

end Cursor

namespace Grammar

open Parse Cursor

variable {r : Rules} {ctx : Context} {st : State} {c c' : Cursor}

theorem typeHint_reads {before : Cursor} (hcolon : before.kind = .symbol .colon) :
    Yields before.advance (fun _ c' => c'.EndsParameter → ∃ ts, HintTokens ts ∧ before.Reads ts c') typeHint := by
  refine .peek (.ite (fun _ => .fail) fun hname => .ite (fun _ => .fail) fun _ => .advance ?_)
  have hname : before.advance.current.kind.isName = true := by simpa using hname
  have hname : before.advance.kind.isName = true := hname
  have hne {kind : TokenKind} (hkind : kind.isName = false) : before.advance.kind ≠ kind := fun h => by
    rw [h, hkind] at hname
    contradiction
  have hfirst : before.Reads [before.current] before.advance :=
    advance_reads_of_kind (by rw [hcolon]; exact hne rfl)
  refine .accept (fun hquestion => .spanFrom fun _ => .pure fun hends => ?_) fun _ =>
    .spanFrom fun _ => .pure fun hends => ?_
  · have htype := advance_reads_of_kind (c := before.advance) (by rw [hquestion]; exact (hne rfl).symm)
    have hlast := advance_reads_of_kind (c := before.advance.advance) (by rw [hquestion]; exact hends.ne nofun nofun)
    exact ⟨_, .optional hcolon hname hquestion, (hfirst.trans htype).trans hlast⟩
  · have htype := advance_reads_of_kind (c := before.advance) fun h => by
      rcases hends with hends | hends <;> exact hne rfl (h ▸ hends)
    exact ⟨_, .type hcolon hname, hfirst.trans htype⟩

theorem typeHintAfter?_reads :
    Yields c (fun _ c' => c'.EndsParameter → ∃ ts, HintTokens ts ∧ c.Reads ts c') (typeHintAfter? .colon) :=
  .accept (fun hcolon => .bind (typeHint_reads hcolon) fun _ _ h => .pure h)
    fun _ => .pure fun _ => ⟨[], .none, .refl c⟩

theorem parameterName_reads :
    Yields c (fun _ c' => c.kind.namesParameter = true ∧ c' = c.advance) parameterName := by
  refine .peek ?_
  split
  · next h => exact .advance (.pure ⟨by rw [Cursor.kind, h]; rfl, rfl⟩)
  · next h => exact .advance (.pure ⟨by rw [Cursor.kind, h]; rfl, rfl⟩)
  · exact .fail

/-- What comes first when a hint is read. -/
theorem hint_begins {ts : List Token} (hts : HintTokens ts) (hread : c.Reads ts c') (hends : c'.EndsParameter) :
    c.kind = .symbol .colon ∨ c.EndsParameter := by
  cases hts with
  | none => exact .inr (hread.eq_of_nil ▸ hends)
  | type hcolon => exact .inl (hread.kind.trans hcolon)
  | optional hcolon => exact .inl (hread.kind.trans hcolon)

theorem namesParameter_ne {kind : TokenKind} (hname : c.kind.namesParameter = true)
    (hkind : kind.namesParameter = false) : c.kind ≠ kind := by
  intro h
  rw [h, hkind] at hname
  contradiction

/-- **A parameter is read from its tokens.** -/
theorem parameter_reads : Yields c (fun _ c' => c.kind.namesParameter = true ∧
    (c'.EndsParameter → ∃ hint, HintTokens hint ∧ c.Reads (c.current :: hint) c')) (parameter r false) := by
  refine .peek (.bind parameterName_reads ?_)
  rintro ⟨name, sigil⟩ _ ⟨hname, rfl⟩
  refine .bind typeHintAfter?_reads fun hint c₁ h => .bind (P := fun _ c₂ => c₂ = c₁) (.pure rfl) ?_
  rintro fallback _ rfl
  refine .spanFrom fun _ => .pure ⟨hname, fun hends => ?_⟩
  obtain ⟨ts, hts, hread⟩ := h hends
  have hnext : c.advance.kind ≠ c.kind := fun h => by
    rcases hint_begins hts hread hends with hcolon | hcomma | hpipe
    · exact namesParameter_ne hname rfl (h.symm.trans hcolon)
    · exact namesParameter_ne hname rfl (h.symm.trans hcomma)
    · exact namesParameter_ne hname rfl (h.symm.trans hpipe)
  exact ⟨ts, hts, (advance_reads_of_kind hnext).trans hread⟩

/-- What comes first when parameters are read up to a bar. -/
theorem parameters_begin {ts : List Token} (hts : ParameterTokens ts) (hread : c.Reads ts c')
    (hbar : c'.kind = .symbol .pipe) : c.kind = .symbol .pipe ∨ c.kind.namesParameter = true := by
  cases hts with
  | none => exact .inl (hread.eq_of_nil ▸ hbar)
  | last hname => exact .inr (hread.kind ▸ hname)
  | comma hname => exact .inr (hread.kind ▸ hname)

/-- What the turns of a list of parameters add to those that were read, and from which tokens. -/
def AddsParameters (items : Array (Parameter Node)) (c : Cursor) (params : List (Parameter Node)) (c' : Cursor) :
    Prop :=
  c'.kind = .symbol .pipe → ∃ added ts, params = items.toList ++ added ∧ (added = [] ↔ ts = []) ∧
    ParameterTokens ts ∧ c.Reads ts c'

/-- What one turn adds, if it is the last one or together with what the turns after it add. -/
def TurnAdds (items : Array (Parameter Node)) (c : Cursor) :
    Turn (Array (Parameter Node)) (List (Parameter Node)) → Cursor → Prop
  | .again items', c₁ => ∀ params c', AddsParameters items' c₁ params c' → AddsParameters items c params c'
  | .done params, c' => AddsParameters items c params c'

/-- **Each turn reads a parameter**, and the comma after it if another turn follows. -/
theorem parameterTurn_reads (items : Array (Parameter Node)) :
    Yields c (TurnAdds items c) (commaTurn (.symbol .pipe) (parameter r false) items) := by
  refine .check (.ite (fun _ => ?_) fun _ => .bind parameter_reads fun a c₁ ⟨hname, hhint⟩ => ?_)
  · exact .pure fun _ => ⟨[], [], (List.append_nil _).symm, by simp, .none, .refl c⟩
  refine .accept (fun hcomma => .pure fun params c' hadds hbar => ?_) fun _ => .pure fun hbar => ?_
  · obtain ⟨added, ts, rfl, -, hts, hread⟩ := hadds hbar
    obtain ⟨hint, hhint, hfirst⟩ := hhint (.inl hcomma)
    -- the comma is read, for what is behind it is none
    have hnext : c₁.advance.kind ≠ c₁.kind := fun h => by
      rw [hcomma] at h
      rcases parameters_begin hts hread hbar with hpipe | hname
      · rw [hpipe] at h
        contradiction
      · exact namesParameter_ne hname rfl h
    refine ⟨a :: added, _, ?_, by simp, .comma hname hhint hcomma hts,
      hfirst.trans ((advance_reads_of_kind hnext).trans hread)⟩
    rw [Array.toList_push, List.append_assoc, List.singleton_append]
  · obtain ⟨hint, hhint, hread⟩ := hhint (.inr hbar)
    exact ⟨[a], _, Array.toList_push, by simp, .last hname hhint, hread⟩

theorem parameterTurns_read (n : Nat) (items : Array (Parameter Node)) :
    Yields c (AddsParameters items c) (iterate (commaTurn (.symbol .pipe) (parameter r false)) n items) := by
  induction n generalizing c items with
  | zero => exact .fail
  | succ n ih =>
      refine .bind (parameterTurn_reads items) fun turn c₁ hturn => ?_
      cases turn with
      | again items' => exact (ih items').imp hturn
      | done params => exact .pure hturn

/-- **Parameters are read from their tokens**, and a bar after them. -/
theorem parameters_reads : Yields c (fun params c' => c'.kind ≠ .symbol .pipe → ∃ ts bar, bar.kind = .symbol .pipe ∧
    (params = [] ↔ ts = []) ∧ ParameterTokens ts ∧ c.Reads (ts ++ [bar]) c') (parameters r .pipe false) := by
  unfold parameters
  rw [Rules.commaList]
  refine .bind (parameterTurns_read _ #[]) fun params c₁ hadds => .expect fun hbar => .pure fun hnext => ?_
  obtain ⟨added, ts, rfl, hnil, hts, hread⟩ := hadds hbar
  exact ⟨ts, _, hbar, hnil, hts, hread.trans (advance_reads_of_kind (hbar ▸ hnext))⟩

/-! ## Lambdas -/

/-- Between bars a header reads parameters; two bars are all of it. -/
theorem lambdaHeader_reads : Yields c (fun (_, params) c' =>
    (c.kind = .symbol .pipe → c'.kind ≠ .symbol .pipe → ∃ ts bar, bar.kind = .symbol .pipe ∧
      (params = [] ↔ ts = []) ∧ ParameterTokens ts ∧ c.advance.Reads (ts ++ [bar]) c') ∧
    (c.kind ≠ .symbol .pipe → c' = c.advance)) (lambdaHeader r) := by
  refine .advance (.ite (fun h => ?_) fun h => ?_)
  · have hpipe : c.kind = .symbol .pipe := eq_of_beq h
    exact .bind parameters_reads fun params c' h => .pure ⟨fun _ => h, fun hno => absurd hpipe hno⟩
  · have hpipe : c.kind ≠ .symbol .pipe := fun hyes => h (beq_iff_eq.mpr hyes)
    exact .pure ⟨fun hyes => absurd hyes hpipe, fun _ => rfl⟩

/-- **Where a lambda is an argument.** If the header of a lambda is read, and an arrow or a brace comes next, then it is
    seen from its first token, unless bars are around nothing or around parameters that end with a comma. -/
theorem lambdaAhead_iff {start : Token} {params : List (Parameter Node)} {after : State} (mode : Mode)
    (hopens : st.cursor.kind = .symbol .pipe ∨ st.cursor.kind = .symbol .orOr)
    (hheader : lambdaHeader r ctx st = .ok (start, params) after)
    (hbody : after.cursor.kind = .symbol .arrow ∨ after.cursor.kind = .symbol .openBrace) :
    startsArgument mode st.cursor = st.cursor.lambdaAhead ∧
    (st.cursor.lambdaAhead = true ↔
      st.cursor.kind = .symbol .orOr ∨ (params ≠ [] ∧ after.cursor.pastComma = false)) := by
  obtain ⟨hpipes, hplain⟩ := lambdaHeader_reads ctx st _ after rfl hheader
  have hopensBody : opensLambdaBody after.cursor.rest = true := by
    rw [opensLambdaBody, Cursor.rest, headIs, headIs, Bool.or_eq_true, beq_iff_eq, beq_iff_eq]
    exact hbody
  have hne {s : Symbol} (harrow : s ≠ .arrow) (hbrace : s ≠ .openBrace) : after.cursor.kind ≠ .symbol s := fun h => by
    rcases hbody with hbody | hbody
    · exact harrow (TokenKind.symbol.inj (h.symm.trans hbody))
    · exact hbrace (TokenKind.symbol.inj (h.symm.trans hbody))
  rcases hopens with hpipe | horOr
  · refine ⟨by rw [startsArgument, hpipe], ?_⟩
    -- the look ahead goes over the tokens of the parameters, and stops where a comma is not followed by one
    obtain ⟨ts, bar, hbar, hnil, hts, hread⟩ := hpipes hpipe (hne (by decide) (by decide))
    rw [lambdaAhead, hpipe, ahead_of_reads (by rw [hpipe]; decide) hread, List.append_assoc]
    simp [parametersAhead_iff hts hbar, hopensBody, endsPlainly_iff hread, hnil]
  · refine ⟨by rw [startsArgument, horOr], iff_of_true ?_ (.inl horOr)⟩
    have hafter : after.cursor = st.cursor.advance := hplain (by rw [horOr]; decide)
    have hread : st.cursor.Reads [st.cursor.current] after.cursor := by
      rw [hafter]
      exact advance_reads_of_kind (by rw [← hafter, horOr]; exact hne (by decide) (by decide))
    rw [lambdaAhead, horOr, (List.cons.inj hread.rest).2]
    exact hopensBody

theorem ok_of_run {α : Type} {session : Session} {m : Parse α} (h : (session.run m).1.isOk = true) :
    ∃ a, m session.context session.state = .ok a (session.run m).2.state := by
  obtain ⟨a, after, hrun⟩ := ok_of_isOk h
  exact ⟨a, by rw [Session.run, hrun]⟩

/-- Parameters with a type hint and a comma are seen. -/
theorem lambdaAhead_two :
    let session := Session.start (tokenize "map |a: int?, b| -> int \x7b $a \x7d" "a").tokens 1 false (fun _ => false)
      .empty #[]
    let header := lambdaHeader (.upTo session.state.cursor.depth)
    ∃ start params, header session.context session.state = .ok (start, params) (session.run header).2.state ∧
      (session.run header).2.state.cursor.kind = .symbol .arrow ∧ params ≠ [] ∧
      startsArgument session.context.mode session.state.cursor = true := by
  intro session header
  have hpipe : session.state.cursor.kind = .symbol .pipe := by decide +kernel
  have hseen : session.state.cursor.lambdaAhead = true := by decide +kernel
  have harrow : (session.run header).2.state.cursor.kind = .symbol .arrow := by decide +kernel
  have hok : (session.run header).1.isOk = true := by decide +kernel
  obtain ⟨⟨start, params⟩, hheader⟩ := ok_of_run hok
  obtain ⟨hstarts, hiff⟩ := lambdaAhead_iff session.context.mode (.inl hpipe) hheader (.inl harrow)
  rcases hiff.mp hseen with horOr | ⟨hparams, -⟩
  · rw [hpipe] at horOr
    contradiction
  · exact ⟨start, params, hheader, harrow, hparams, hstarts.trans hseen⟩

/-- A comma at the end of its parameters hides a lambda from the command before it, though not from a binding. -/
theorem lambdaAhead_comma :
    let session := Session.start (tokenize "map |a,| \x7b $a \x7d" "a").tokens 1 false (fun _ => false) .empty #[]
    let header := lambdaHeader (.upTo session.state.cursor.depth)
    session.state.cursor.kind = .symbol .pipe ∧ (session.run header).1.isOk = true ∧
      (session.run header).2.state.cursor.kind = .symbol .openBrace ∧ session.state.cursor.lambdaAhead = false ∧
      (parse "map |a,| \x7b $a \x7d" "a" false fun _ => false).report.hasErrors = true ∧
      (parse "let f = |a,| \x7b $a \x7d" "a" false fun _ => false).report.hasErrors = false := by
  decide +kernel

end Grammar

end ShellFront
