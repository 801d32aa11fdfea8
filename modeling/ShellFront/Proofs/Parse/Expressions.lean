import ShellFront.Proofs.Parse.StatementLists

/-!
# Expressions

Each production of the grammar of expressions parses: both readings of it match, and what it gives spans
just the tokens read.

## Contents
- Literals, brackets, records and closures.
- Words, commands and their arguments.
- Braces in the place of a value.
- `primary_parses`, `access_parses`, `unary_parses`, `binary_parses`, `expression_parses`.
-/

namespace ShellFront.Grammar

open Outlined Parse

variable {s : Script} {r : Rules} (hr : r.Sound s) {c c₀ : Cursor}

/-! ## Literals and ranges -/

/-- The end of a range is one token. -/
theorem rangeEnd_parses (dots : Symbol) : Parses s (fun _ => True) (rangeEnd dots) := by
  refine fun c _ => .peek ?_
  split
  · next h =>
      refine .tokens fun hc => literal_from h rfl fun n => .pure (.parts fun p hp => by simp [hp]) ?_
      exact Cursor.advance_spans hc (by rw [Cursor.kind, h]; trivial)
  · next h => exact .alone h trivial (.parts fun p hp => by simp [hp]) rfl
  · exact .fail rfl

/-- A value with the end of a range after it spans both, and by itself it spans what it did. -/
theorem rangeFrom_spec {first : Node} : Spec s (c₀.Spans first.span) (shown first) (rangeFrom first)
    fun n c => c₀.Spans (Located.span n) c := by
  refine fun c hspans => .peek ?_
  dsimp only
  split
  · next h =>
      refine .take hspans.toOpens rfl ?_ (.cover (rangeEnd_parses _) fun last => ?_)
      · rcases (Bool.or_eq_true _ _).mp h with h | h <;> rw [Cursor.kind, eq_of_beq h] <;> trivial
      · exact .pure (.node rfl (by decide) (by simp)) fun c h => h
  · exact .pure (.parts (by simp)) hspans

/-! ## Brackets -/

include hr in
/-- A list spans its brackets and all between them. -/
theorem listLiteral_parses : Parses s (fun _ => True) (listLiteral r) :=
  fun c _ => .peek <| .bind (bracketed_opens hr c) fun elements =>
    .finish (fun span => .node rfl (by decide) (by simp)) fun _ => rfl

include hr in
/-- A set spans its keyword as well as its brackets. -/
theorem setLiteral_parses : Parses s TokenKind.Begins (setLiteral r) :=
  fun c hbegins => .opens rfl hbegins <| .bind (bracketed_gathers hr) fun elements =>
    .finish (fun span => .node rfl (by decide) (by simp)) fun _ => rfl

include hr in
/-- What was opened by a parenthesis goes on to the one that closes it. -/
theorem parenRest_spec {start : Span} {first : Node} :
    Spec s (c₀.Opens start) (shown first) (parenRest r start first)
      fun n c => c₀.Spans (Located.span n) c := by
  refine .ifAccept trivial ?_ ?_
  · refine .bind (commaValues_gathers hr trivial _) fun others => ?_
    exact .finish (fun span => .node rfl (by decide) (by simp)) fun _ => rfl
  · refine .bind (expect_gathers trivial rfl) fun _ => ?_
    exact .finish (fun span => .node rfl (by decide) (by simp)) fun _ => rfl

include hr in
/-- Parentheses around one expression, around the elements of a tuple, or around nothing. -/
theorem parenthesised_parses : Parses s TokenKind.Begins (parenthesised r) := by
  refine fun c hbegins => .opens rfl hbegins (.ifAccept trivial ?_ ?_)
  · exact .finish (fun span => .node rfl (by decide) (by simp [Node.outlines])) fun _ => rfl
  · exact .within (fun _ _ => rfl) (.bind hr.expression.gathers fun first => parenRest_spec hr)

include hr in
/-- A substitution spans its mark, the command and the parenthesis that closes it. -/
theorem commandSubstitution_parses : Parses s TokenKind.Begins (commandSubstitution r) := by
  refine fun c hbegins => .opens rfl hbegins ?_
  refine .bind (.within (fun _ _ => rfl) hr.expression.gathers) fun inner => ?_
  refine .bind (expectCloser_gathers _) fun _ => ?_
  exact .finish (fun span => .node rfl (by decide) (by simp)) fun _ => rfl

include hr in
theorem processSubstitution_parses (direction : Direction) :
    Parses s TokenKind.Begins (processSubstitution r direction) := by
  refine fun c hbegins => .opens rfl hbegins ?_
  refine .bind (.within (fun _ _ => rfl) hr.expression.gathers) fun inner => ?_
  refine .bind (expectCloser_gathers _) fun _ => ?_
  exact .finish (fun span => .node rfl (by decide) (by simp)) fun _ => rfl

/-! ## Records -/

theorem recordKey_gathers : Gathers s recordKey := by
  refine fun c _ => .peek ?_
  split
  · next h => exact .next h trivial (.give (.parts (by simp)))
  · next h => exact .next h trivial (.give (.parts (by simp)))
  · next h => exact .next h trivial (.give (.parts (by simp)))
  · exact .fail rfl

include hr in
/-- A field: its key, a colon and its value. -/
theorem recordField_gathers : Gathers s (recordField r) := by
  have hrest (start : Token) : Gathers s (do
      let key ← recordKey
      let _ ← expectAfter .recordKey
      skipNewlines
      let value ← r.expression
      return RecordField.mk (← spanFrom start.span) key value) := by
    refine .bind recordKey_gathers fun key => .bind (expectAfter_gathers _) fun _ => ?_
    refine .bind skipNewlines_gathers fun _ => .bind hr.expression.gathers fun value => ?_
    exact .spanFrom fun span => .give (.node rfl (by decide) fun p hp => by simp [hp])
  exact fun c _ => .peek (hrest _ c trivial)

/-- Between fields stand commas or line breaks. -/
theorem fieldSeparator_gathers (problem : Problem) (hproblem : problem.category = .grammar) :
    Gathers s (fieldSeparator problem) := by
  refine fun c _ => .check ((?_ : Gathers s _) c trivial)
  refine .bind skipNewlines_gathers fun _ => .ifAccept trivial skipNewlines_gathers ?_
  refine .ite (fun _ => .give (.parts (by simp))) fun _ => ?_
  exact .ifCheck (.give (.parts (by simp))) (.fail hproblem)

include hr in
/-- A record spans its braces and all between them. -/
theorem record_parses : Parses s (fun _ => True) (record r) := by
  refine fun c _ => .opensWith trivial rfl ?_
  refine .bind (.within (fun _ _ => rfl) ?_) fun fields => ?_
  · refine .bind skipNewlines_gathers fun _ => .bind (collect_gathers r ?_) fun fields => ?_
    · refine .ifCheck (.give (.parts (by simp))) (.bind (recordField_gathers hr) fun field => ?_)
      exact .bind (fieldSeparator_gathers _ rfl) fun _ => .give (.parts (by simp))
    · exact .bind (expectCloser_gathers _) fun _ => .give (.parts (by simp))
  · exact .finish (fun span => .node rfl (by decide) (by simp)) fun _ => rfl

include hr in
theorem recordLiteral_parses : Parses s (fun _ => True) (recordLiteral r) :=
  fun c _ => .bind (record_parses hr c trivial) fun value c' hspans =>
    .pure (.parts (by simp [Node.outline])) hspans

/-! ## Closures and lambdas -/

include hr in
/-- The parameters of a closure between bars, or two bars, or nothing. -/
theorem closureParameters_gathers : Gathers s (closureParameters r) := by
  refine .ifAccept trivial ?_ (.accept trivial fun b => .give (.parts (by simp)))
  exact .bind (parameters_gathers hr trivial _) fun params => .give (.parts (by simp))

/-- A closure carries its parameters and statements; its body need not be braced. -/
theorem carries_closure {span span' : Span} {params : List (Parameter Node)} {list : List Node}
    {explicitParams : Bool} :
    Carries s (shown params ++ shown list)
      (shown (Node.closure span params ⟨span', list⟩ explicitParams)) := by
  have hshown : shown (Node.closure span params ⟨span', list⟩ explicitParams) =
      [.mk .closure span [("explicit_params", .boolean explicitParams)]
        (shown params ++ [.branch .block span' (shown list)])] := by
    rw [shown_node, Node.outline, Block.outline, Parameter.outlines_eq, Node.outlines_eq]
  rw [hshown]
  constructor
  · simp [Outline.Intact, Outline.branch, Outline.everywhere_mk, Outline.kind, or_imp, forall_and]
  · rw [List.forall_mem_append, List.forall_mem_singleton]
    exact fun h => Outline.settled_closure h.1 h.2

include hr in
/-- A closure spans its braces, and so does its body. -/
theorem closure_parses : Parses s (fun _ => True) (closure r) := by
  refine fun c _ => .opensWith trivial rfl ?_
  refine .bind (closureParameters_gathers hr) fun (params, explicitParams) => ?_
  refine .bind (.within (fun _ _ => rfl) (statementList_gathers hr)) fun list => ?_
  refine .bind (expectCloser_gathers _) fun _ => ?_
  exact .finish (fun span => by simpa using carries_closure) fun _ => rfl

include hr in
/-- A lambda spans all from its first bar to the end of its block. -/
theorem lambda_parses : Parses s TokenKind.Begins (lambda r) := by
  rw [lambda_eq]
  refine fun c hbegins => .opens rfl hbegins (.join (fun _ => ?_) (fun _ => ?_) fun params => ?_)
  · exact parameters_gathers hr trivial _
  · exact .give (.parts (by simp))
  · refine .bind (typeHintAfter?_gathers trivial) fun returns => .bind (block_gathers hr) fun body => ?_
    refine .finish (fun span => .node rfl (by decide) fun p hp => ?_) fun _ => rfl
    cases returns <;> simp [hp, or_imp, forall_and]

/-! ## Words -/

/-- A dot and the part that is glued to it are two tokens that can be read over. -/
theorem dottedPart_from {part : TokenKind → Bool} (h : gluedPart c part = true)
    (hpart : part .invalid = false ∧ part .endOfInput = false ∧ part (.symbol .closeBrace) = false) :
    From s c [] dottedPart fun _ _ => True := by
  simp only [gluedPart, Bool.and_eq_true, beq_iff_eq] at h
  have hdot : c.kind ≠ .endOfInput := by rw [h.1.1.1]; nofun
  refine .advance h.1.1.1 trivial (.last (.next rfl ?_ (.give (.parts (by simp)))))
  rw [Cursor.kind, Cursor.current_advance hdot]
  exact (TokenKind.begins_of hpart h.2).solid

theorem callTouches_gathers (token : Token) : Gathers s (callTouches token) :=
  fun _ _ => .here (.pure (.parts (by simp)) trivial)

include hr in
/-- A call spans the name and the parentheses that touch it. -/
theorem callOf_spec {name : Token} :
    Spec s (c₀.Opens name.span) [] (callOf r name) fun n c => c₀.Spans (Located.span n) c := by
  refine .bind (callArguments_gathers hr) fun args => ?_
  exact .finish (fun span => .node rfl (by decide) fun p hp => by simp [hp]) fun _ => rfl

include hr in
/-- A word with the parts glued to it, or a call. -/
theorem bareWord_parses : Parses s TokenKind.Begins (bareWord r) := by
  refine fun c hbegins => .opens rfl hbegins (.bind (collect_gathers r ?_) fun parts => ?_)
  · refine fun c _ => .here ?_
    split
    · next h => exact .bind (dottedPart_from h ⟨rfl, rfl, rfl⟩) fun _ => .give (.parts (by simp))
    · exact .pure (.parts (by simp)) trivial
  · refine .bind (callTouches_gathers _) fun touches => .ite (fun _ => ?_) fun _ => ?_
    · simpa using callOf_spec hr
    · exact .finish (fun span => .parts fun p hp => by simp [hp]) fun _ => rfl

/-- The name of a command opens it. -/
theorem commandName_opens (c : Cursor) :
    From s c [] commandName fun name c' => c.Opens name.span c' := by
  refine .opensWith trivial rfl fun c' hopens => .here ?_
  split
  · next h =>
      refine .bind (.frame hopens (dottedPart_from h ⟨rfl, rfl, rfl⟩)) fun member c'' h => ?_
      exact .tokens fun hc => .spanFrom (.pure (.parts (by simp)) (h.1.spans hc).toOpens)
  · exact .read (fun _ => rfl) fun ctx => .pure (.parts (by simp)) hopens

/-- Whether a token can be glued to a path. -/
def isPathPart : TokenKind → Bool
  | .symbol .dot | .symbol .dotDot | .symbol .star => true
  | kind => kind.isWordPart

/-- A word of marks spans them and all that is glued to them. -/
theorem pathWord_parses : Parses s TokenKind.Begins (pathWord r) := by
  refine fun c hbegins => .opens rfl hbegins (.bind (collect_gathers r ?_) fun parts => ?_)
  · refine fun c _ => .here (.ite (fun h => ?_) fun _ => .pure (.parts (by simp)) trivial)
    have hfits : isPathPart c.kind = true := ((Bool.and_eq_true _ _).mp h).1
    exact .next rfl (TokenKind.begins_of ⟨rfl, rfl, rfl⟩ hfits).solid (.give (.parts (by simp)))
  · exact .finish (fun span => .parts fun p hp => by simp [hp]) fun _ => rfl

/-! ## Commands -/

include hr in
/-- The value of a flag, if one follows. -/
theorem flagValue_gathers (name : Token) : Gathers s (flagValue r name) := by
  have haccess : Gathers s (do return some (← r.access)) :=
    .bind hr.access.gathers fun value => .give (.parts (by simp))
  refine fun c _ => .peek ?_
  split
  · next h =>
      refine .ite (fun _ => .next h trivial ?_) fun _ => .pure (.parts (by simp)) trivial
      exact .bind hr.unary.gathers fun value => .give (.parts (by simp))
  · exact haccess c trivial
  · exact haccess c trivial
  · exact haccess c trivial
  · exact haccess c trivial
  · exact .ite (fun _ => .pure (.parts (by simp)) trivial) fun _ => haccess c trivial
  · exact .pure (.parts (by simp)) trivial

include hr in
/-- A long flag spans its value as well. -/
theorem longFlag_parses : Parses s TokenKind.Begins (longFlag r) :=
  fun c hbegins => .opens rfl hbegins <| .bind (flagValue_gathers hr _) fun value =>
    .finish (fun span => .node rfl (by decide) (by simp)) fun _ => rfl

include hr in
/-- An argument is a flag, a word of marks or an expression. -/
theorem argument_parses : Parses s (fun _ => True) (argument r) := by
  refine fun c _ => .peek ?_
  split
  · next h => exact longFlag_parses hr c (by rw [Cursor.kind, h]; trivial)
  · next h => exact .alone h trivial (.parts fun p hp => by simp [hp]) rfl
  · next h => exact pathWord_parses c (by rw [Cursor.kind, h]; trivial)
  · next h => exact pathWord_parses c (by rw [Cursor.kind, h]; trivial)
  · next h => exact pathWord_parses c (by rw [Cursor.kind, h]; trivial)
  · next h => exact pathWord_parses c (by rw [Cursor.kind, h]; trivial)
  · exact hr.binary _ c trivial

include hr in
/-- Arguments are read one by one, in a mode of their own. -/
theorem commandArguments_gathers : Gathers s (commandArguments r) := by
  refine .within (fun _ _ => rfl) (collect_gathers r fun c _ => ?_)
  refine .mode (fun _ => rfl) fun mode => .here ?_
  refine .ite (fun _ => ?_) fun _ => .pure (.parts (by simp)) trivial
  exact .bind (argument_parses hr c trivial) fun arg => .give (.parts (by simp))

include hr in
/-- A command spans its name and its arguments. -/
theorem commandStage_parses : Parses s (fun _ => True) (commandStage r) := by
  refine fun c _ => .bind (commandName_opens c) fun name => ?_
  refine .bind (commandArguments_gathers hr) fun args => ?_
  exact .finish (fun span => .node rfl (by decide) fun p hp => by simp [hp]) fun _ => rfl

/-- A pipe is read whole or not at all. -/
theorem pipe?_from (goesOn : Cursor → Bool) (c : Cursor) :
    From s c [] (pipe? goesOn) fun s? c' => s? = none → c' = c := by
  refine .here ?_
  split
  · next h =>
      refine .ite (fun _ => .next h trivial ?_) fun _ => .pure (.parts (by simp)) fun _ => rfl
      exact .bind skipNewlines_gathers fun _ =>
        .pure (.parts (by simp)) fun _ _ h => absurd h (Option.some_ne_none _)
  · exact .pure (.parts (by simp)) fun _ => rfl

/-- The last of some stages that are joined by pipes. -/
def lastStage {α : Type} (first : α) (others : List (Symbol × α)) : α :=
  (others.getLast?.map (fun (_, stage) => stage)).getD first

theorem lastStage_concat {α : Type} (first : α) (others : List (Symbol × α)) (other : Symbol × α) :
    lastStage first (others ++ [other]) = other.2 := by
  rw [lastStage, List.getLast?_concat]
  rfl

/-- The stages after the first one, and what they span together with it. -/
theorem stages_from {α : Type} [Outlined α] [Located α] {stage : Parse α}
    (hstage : Parses s (fun _ => True) stage) (goesOn : Cursor → Bool) {first : α}
    (hfirst : c₀.Spans (Located.span first) c) :
    From s c [] (r.collect do
        match ← pipe? goesOn with
        | some joint => return some (joint, ← stage)
        | none => return none) fun others c' =>
      c₀.Spans ((Located.span first).cover (Located.span (lastStage first others))) c' := by
  -- The first stage stays open, for the next stage to be covered together with it.
  refine .collect r (I := fun others c' => c₀.Opens (Located.span first) c' ∧
    c₀.Spans ((Located.span first).cover (Located.span (lastStage first others))) c') ?_ ?_
  · exact ⟨hfirst.toOpens, Cursor.spans_cover_self.mpr hfirst⟩
  · rintro others c' ⟨hopens, hspans⟩
    refine .bind (.frame hopens (pipe?_from goesOn c')) fun joint c'' h => ?_
    match joint with
    | none => exact .pure (.parts (by simp)) (h.2 rfl ▸ hspans)
    | some joint =>
        refine .tokens fun hc => ?_
        refine .bind (.frame h.1 (hstage c'' trivial)) fun next c₂ h₂ => ?_
        refine .pure (.parts (by simp)) ⟨h₂.1, ?_⟩
        rw [lastStage_concat]
        exact h.1.cover hc h₂.2

include hr in
/-- Commands that are piped into one another span all from the first to the last of them. -/
theorem commandExpression_parses : Parses s (fun _ => True) (commandExpression r) := by
  refine fun c _ => .bind (commandStage_parses hr c trivial) fun first c' hfirst => ?_
  refine .bind (stages_from (commandStage_parses hr) _ hfirst) fun others c'' hspans => ?_
  exact .pure (.node rfl (by decide) (by simp [shown_map_snd])) hspans

/-! ## Names -/

include hr in
/-- A name is read as a tuple, a call, a construction or a command, as the tokens after it tell. -/
theorem nameExpression_parses : Parses s (fun kind => kind = .identifier) (nameExpression r) := by
  refine fun c hname => .mode (fun _ => rfl) fun mode => .here ?_
  split
  · refine .opens hname trivial (.bind (bracketed_gathers hr) fun elements => ?_)
    exact .finish (fun span => .node rfl (by decide) (by simp)) fun _ => rfl
  · exact .opens hname trivial (callOf_spec hr)
  · refine .opens hname trivial (.bind (record_parses hr).gathers fun value => ?_)
    exact .finish (fun span => .node rfl (by decide) fun p hp => by simp [hp]) fun _ => rfl
  · exact commandExpression_parses hr c trivial

/-! ## Braces in the place of a value -/

include hr in
/-- An expansion spans its braces and the alternatives between them. -/
theorem braceExpansion_parses : Parses s (fun _ => True) (braceExpansion r) := by
  refine fun c _ => .opensWith trivial rfl (.bind (.within (fun _ _ => rfl) ?_) fun items => ?_)
  · refine loop_gathers r rfl fun items => .bind (argument_parses hr).gathers fun item => ?_
    exact .ifAccept trivial (.give (.parts (by simp))) (.give (.parts (by simp)))
  · refine .bind (expectCloser_gathers _) fun _ => ?_
    exact .finish (fun span => .node rfl (by decide) (by simp)) fun _ => rfl

include hr in
/-- A record that cannot be read is read again as a closure; if it is neither, its brace is blamed. -/
theorem recordOrClosure_parses : Parses s (fun kind => kind = .symbol .openBrace) (recordOrClosure r) := by
  refine fun c hbrace => .peek ?_
  refine .bind (.tentatively (recordLiteral_parses hr c trivial)) fun first c' h => ?_
  match first with
  | some node => exact .pure (.parts (by simp)) h
  | none =>
      -- Nothing was read, so the closure is tried from the same brace.
      subst h
      refine .note (.bind (.tentatively (closure_parses hr c' trivial)) fun second c'' h => ?_)
      match second with
      | some node => exact .pure (.parts (by simp)) h
      | none =>
          subst h
          exact .failAt (by rw [hbrace]; rfl) (by rw [hbrace]; nofun) fun _ => ⟨hbrace, rfl, rfl⟩

include hr in
/-- Whichever reading of a brace is chosen, it spans all that it reads. A reading that is taken back leaves nothing.
    -/
theorem braceValue_parses : Parses s (fun kind => kind = .symbol .openBrace) (braceValue r) := by
  refine fun c hbrace => .here (.ite (fun _ => recordLiteral_parses hr c trivial) fun _ => ?_)
  refine .ite (fun _ => closure_parses hr c trivial) fun _ => ?_
  split
  · exact braceExpansion_parses hr c trivial
  · exact closure_parses hr c trivial
  · exact recordOrClosure_parses hr c hbrace

/-! ## Primary expressions -/

include hr in
/-- A keyword stands for a value or for a word. -/
theorem keywordValue_parses (k : Keyword) :
    Parses s (fun kind => kind = .keyword k) (keywordValue r k) := by
  refine fun c hk => .here ?_
  have hword := bareWord_parses hr (s := s) c (hk ▸ trivial)
  dsimp only
  split
  · exact .alone hk trivial (.parts fun p hp => by simp [hp]) rfl
  · exact .alone hk trivial (.parts fun p hp => by simp [hp]) rfl
  · exact .alone hk trivial (.parts fun p hp => by simp [hp]) rfl
  · refine .ite (fun _ => setLiteral_parses hr c (hk ▸ trivial)) fun _ => ?_
    exact .mode (fun _ => rfl) fun mode => .ite (fun _ => hword) fun _ => .fail rfl
  · exact .mode (fun _ => rfl) fun mode => .ite (fun _ => hword) fun _ => .fail rfl

include hr in
/-- A symbol opens a value in brackets or braces, or a lambda. -/
theorem symbolValue_parses (sym : Symbol) :
    Parses s (fun kind => kind = .symbol sym) (symbolValue r sym) := by
  refine fun c hsym => ?_
  unfold symbolValue
  split
  · exact listLiteral_parses hr c trivial
  · exact parenthesised_parses hr c (hsym ▸ trivial)
  · exact commandSubstitution_parses hr c (hsym ▸ trivial)
  · exact processSubstitution_parses hr _ c (hsym ▸ trivial)
  · exact processSubstitution_parses hr _ c (hsym ▸ trivial)
  · exact .mode (fun _ => rfl) fun mode => .ite (fun _ => .fail rfl) fun _ => braceValue_parses hr c hsym
  · exact lambda_parses hr c (hsym ▸ trivial)
  · exact lambda_parses hr c (hsym ▸ trivial)
  · exact .fail rfl

include hr in
/-- An expression without operators, whichever token it begins with. -/
theorem primary_parses : Parses s (fun _ => True) (primary r) := by
  refine fun c _ => .peek ?_
  split
  · next h =>
      refine .tokens fun hc => literal_from h rfl fun n => .carry (.parts fun p hp => by simp [hp]) (rangeFrom_spec _ ?_)
      exact Cursor.advance_spans hc (by rw [Cursor.kind, h]; trivial)
  · next h => exact .alone h trivial (.parts fun p hp => by simp [hp]) rfl
  · next h => exact .alone h trivial (.parts fun p hp => by simp [hp]) rfl
  · next h =>
      refine .tokens fun hc => .advance h trivial ?_
      refine .carry (.parts fun p hp => by simp [hp]) (rangeFrom_spec _ ?_)
      exact Cursor.advance_spans hc (by rw [Cursor.kind, h]; trivial)
  · next h => exact .alone h trivial (.parts fun p hp => by simp [hp]) rfl
  · next h => exact .alone h trivial (.parts fun p hp => by simp [hp]) rfl
  · next h => exact .alone h trivial (.parts fun p hp => by simp [hp]) rfl
  · next h =>
      exact .mode (fun _ => rfl) fun mode =>
        .ite (fun _ => bareWord_parses hr c (by rw [Cursor.kind, h]; trivial))
          fun _ => nameExpression_parses hr c h
  · next h => exact keywordValue_parses hr _ c h
  · next h => exact symbolValue_parses hr _ c h
  · exact .fail rfl

include hr in
/-- Fields and methods extend what was read before them. -/
theorem access_parses : Parses s (fun _ => True) (access r) := by
  refine fun c _ => .bind (primary_parses hr c trivial) fun target c' hspans => ?_
  refine .loop r (I := fun (target : Node) c' => c.Spans target.span c') rfl hspans ?_
  intro target c' hspans
  refine .here (.ite (fun hglued => ?_) fun _ => .pure (.parts (by simp)) hspans)
  refine .bind (.frame hspans.toOpens (dottedPart_from hglued ⟨rfl, rfl, rfl⟩)) fun name c'' h => ?_
  refine Spec.bind (callTouches_gathers name) (fun touches => .ite (fun _ => ?_) fun _ => ?_) c'' h.1
  · refine .bind (callArguments_gathers hr) fun args c₂ hopens => .tokens fun hc => ?_
    exact .spanFrom (.pure (.node rfl (by decide) fun p hp => by simp [hp]) (hopens.spans hc))
  · refine fun c₂ hopens => .tokens fun hc => ?_
    exact .spanFrom (.pure (.node rfl (by decide) fun p hp => by simp [hp]) (hopens.spans hc))

/-! ## Operators -/

include hr in
/-- An operator before an operand spans both. -/
theorem unary_parses : Parses s (fun _ => True) (unary r) := by
  refine fun c _ => .peek ?_
  split
  · next operator h =>
      have hbegins : c.kind.Begins :=
        TokenKind.begins_of (p := fun kind => (UnaryOperator.ofToken? kind).isSome) ⟨rfl, rfl, rfl⟩
          (by rw [Cursor.kind, h]; rfl)
      refine .opens rfl hbegins (.cover hr.unary fun operand => ?_)
      exact .pure (.node rfl (by decide) (by simp)) fun c h => h
  · exact access_parses hr c trivial

/-- An operator is a token that can be read over. -/
theorem continuing?_solid {mode : Mode} {least : Nat} {operator : Operator}
    (h : continuing? mode least c = some operator) : c.kind.Solid := by
  refine (TokenKind.begins_of (p := fun kind => (Operator.ofToken? kind).isSome) ⟨rfl, rfl, rfl⟩ ?_).solid
  unfold continuing? at h
  split at h
  · next h' => rw [h']; rfl
  · contradiction

include hr in
/-- Each turn extends the left operand by an operator and its right operand. -/
theorem binary_parses (least : Nat) : Parses s (fun _ => True) (binary r least) := by
  refine fun c _ => .bind (unary_parses hr c trivial) fun left c' hspans => ?_
  refine .loop r (I := fun (left : Node) c' => c.Spans left.span c') rfl hspans ?_
  intro left c' hspans
  refine .mode (fun _ => rfl) fun mode => .here ?_
  split
  · next operator h =>
      refine .take hspans.toOpens rfl (continuing?_solid h) (.bind skipNewlines_gathers fun _ => ?_)
      refine .cover (hr.binary _) fun right => ?_
      exact .pure (.node rfl (by decide) (by simp)) fun c h => h
  · exact .pure (.parts (by simp)) hspans

include hr in
/-- A pipeline spans all from its first stage to its last one. -/
theorem pipeline_parses : Parses s (fun _ => True) (pipeline r) := by
  refine fun c _ => .bind (binary_parses hr 0 c trivial) fun first c' hfirst => ?_
  refine .bind (stages_from (hr.binary 0) _ hfirst) fun others c'' hspans => ?_
  unfold lastStage at hspans
  split
  · next h =>
      rw [h] at hspans
      have hnil := List.getLast?_eq_none_iff.mp h
      exact .pure (.parts (by simp [hnil])) (Cursor.spans_cover_self.mp hspans)
  · next last h =>
      rw [h] at hspans
      exact .pure (.node rfl (by decide) (by simp [shown_map_snd])) hspans

include hr in
theorem expression_parses : Parses s (fun _ => True) (expression r) := pipeline_parses hr

end ShellFront.Grammar
