import ShellFront.Proofs.Parse.Expressions

/-!
# Statements

Each production of the grammar of statements parses. A definition spans its decorators as well, so what its
production reads begins where the first of them does.

## Contents
- Bindings and control flow.
- `Leads`, and definitions after their decorators.
- Modules and jumps.
- `statement_parses`.
-/

namespace ShellFront.Grammar

open Outlined Parse

variable {s : Script} {r : Rules} (hr : r.Sound s) {c c₀ : Cursor}

/-! ## Bindings and assignments -/

include hr in
/-- What is assigned is read alike in both readings: a command, or an expression. -/
theorem assigned_parses : Parses s (fun _ => True) (assigned r) := by
  refine fun c _ => .here (.ite (fun h => ?_) fun _ => expression_parses hr c trivial)
  simp only [assignmentAhead, Bool.and_eq_true, beq_iff_eq] at h
  have hnext : c.advance.kind.Solid := by
    rw [Cursor.kind, Cursor.current_advance (by rw [h.1]; decide)]
    exact (TokenKind.begins_of (p := TokenKind.isAssignment) ⟨rfl, rfl, rfl⟩ h.2).solid
  refine .tokens fun hc => .advance h.1 trivial ?_
  refine .take (Cursor.advance_spans hc (h.1 ▸ trivial)).toOpens rfl hnext ?_
  refine .bind hr.assigned.gathers fun value => ?_
  exact .finish (fun span => .node rfl (by decide) fun p hp => by simp [hp]) fun _ => rfl

include hr in
/-- A binding spans all from its keyword to the end of its value. -/
theorem letBinding_parses (keyword : Keyword) : Parses s TokenKind.Begins (letBinding r keyword) := by
  refine fun c hbegins => .opens rfl hbegins (.bind (expect_gathers trivial rfl) fun name => ?_)
  refine .bind (expectAfter_gathers _) fun _ => .bind hr.assigned.gathers fun value => ?_
  exact .finish (fun span => .node rfl (by decide) fun p hp => by simp [hp]) fun _ => rfl

/-! ## Control flow -/

include hr in
/-- A condition is read in a mode of its own, and passes over whole tokens only. -/
theorem condition_gathers : Gathers s (condition r) := .within (fun _ _ => rfl) hr.expression.gathers

theorem acceptPastNewlines_gathers (k : Keyword) : Gathers s (acceptPastNewlines k) := by
  refine fun c _ => .here (.ite (fun h => ?_) fun _ => .pure (.parts (by simp)) trivial)
  refine .move (c.skipWhile_passes rfl) ?_
  exact .next (eq_of_beq h : (c.skipWhile _).kind = _) trivial (.give (.parts (by simp)))

include hr in
/-- A further branch is read with the line breaks before it, or nothing is. -/
theorem elseIf?_gathers : Gathers s (elseIf? r) := by
  refine .bind (acceptPastNewlines_gathers _) fun start => ?_
  split
  · refine .bind (condition_gathers hr) fun test => .bind (block_gathers hr) fun body => ?_
    exact .spanFrom fun span => .give (.node rfl (by decide) (by simp))
  · exact .give (.parts (by simp))

include hr in
/-- The last branch of a conditional, if there is one. -/
theorem elseBlock?_gathers : Gathers s (elseBlock? r) := by
  refine .bind (acceptPastNewlines_gathers _) fun start => ?_
  split
  · exact .bind (block_gathers hr) fun body => .give (.parts (by simp))
  · exact .give (.parts (by simp))

include hr in
/-- A conditional spans all from its keyword to the end of its last branch. -/
theorem conditional_parses : Parses s TokenKind.Begins (conditional r) := by
  refine fun c hbegins => .opens rfl hbegins (.bind (condition_gathers hr) fun test => ?_)
  refine .bind (block_gathers hr) fun body => ?_
  refine .bind (collect_gathers r (elseIf?_gathers hr)) fun elseIfs => ?_
  refine .bind (elseBlock?_gathers hr) fun elseBody => ?_
  exact .finish (fun span => .node rfl (by decide) (by simp)) fun _ => rfl

/-- The variable of a loop, with or without its sigil. -/
theorem loopVariable_gathers : Gathers s loopVariable := by
  refine fun c _ => .peek ?_
  split
  · next h => exact .next h trivial (.give (.parts (by simp)))
  · next h => exact .next h trivial (.give (.parts (by simp)))
  · exact .fail rfl

include hr in
/-- A `for` spans all from its keyword to the end of its body. -/
theorem forLoop_parses : Parses s TokenKind.Begins (forLoop r) := by
  refine fun c hbegins => .opens rfl hbegins (.bind loopVariable_gathers fun element => ?_)
  refine .bind (expectAfter_gathers _) fun _ => .bind (condition_gathers hr) fun iterable => ?_
  refine .bind (block_gathers hr) fun body => ?_
  exact .finish (fun span => .node rfl (by decide) fun p hp => by simp [hp]) fun _ => rfl

include hr in
/-- A `while` spans all from its keyword to the end of its body. -/
theorem whileLoop_parses : Parses s TokenKind.Begins (whileLoop r) := by
  refine fun c hbegins => .opens rfl hbegins (.bind (condition_gathers hr) fun test => ?_)
  refine .bind (block_gathers hr) fun body => ?_
  exact .finish (fun span => .node rfl (by decide) (by simp)) fun _ => rfl

include hr in
/-- A loop without a condition spans its keyword and its body. -/
theorem endlessLoop_parses : Parses s TokenKind.Begins (endlessLoop r) :=
  fun c hbegins => .opens rfl hbegins <| .bind (block_gathers hr) fun body =>
    .finish (fun span => .node rfl (by decide) (by simp)) fun _ => rfl

include hr in
/-- The guard of an arm, if there is one. -/
theorem guard?_gathers : Gathers s (guard? r) := by
  refine .ifAccept trivial ?_ (.give (.parts (by simp)))
  exact .bind hr.expression.gathers fun value => .give (.parts (by simp))

include hr in
/-- What an arm results in: a block, or an expression. -/
theorem armBody_gathers : Gathers s (armBody r) := by
  have hblock : Gathers s (do return ArmBody.block (← block r)) :=
    .bind (block_gathers hr) fun body => .give (.parts (by simp [ArmBody.outline]))
  have hvalue : Gathers s (do return ArmBody.value (← r.expression)) :=
    .bind hr.expression.gathers fun value => .give (.parts (by simp [ArmBody.outline]))
  exact fun c _ => .here (.ite (fun _ => hblock c trivial) fun _ => hvalue c trivial)

include hr in
/-- An arm, from its pattern to its result. -/
theorem matchArm_gathers : Gathers s (matchArm r) := by
  have hrest (start : Token) : Gathers s (do
      let shape ← r.pattern
      let guard ← guard? r
      let _ ← expectAfter .matchPattern
      skipNewlines
      let body ← armBody r
      return MatchArm.mk (← spanFrom start.span) shape guard body) := by
    refine .bind hr.pattern fun shape => .bind (guard?_gathers hr) fun guard => ?_
    refine .bind (expectAfter_gathers _) fun _ => .bind skipNewlines_gathers fun _ => ?_
    refine .bind (armBody_gathers hr) fun body => .spanFrom fun span => ?_
    exact .give (.node rfl (by decide) fun p hp => by simp [hp])
  exact fun c _ => .peek (hrest _ c trivial)

include hr in
/-- A further arm with what separates it from the next one, unless the arms are closed. -/
theorem matchArm?_gathers : Gathers s (matchArm? r) := by
  refine .bind skipSeparators_gathers fun _ => .ifCheck (.give (.parts (by simp))) ?_
  refine .bind (matchArm_gathers hr) fun arm => .ifAccept trivial (.give (.parts (by simp))) fun c _ => ?_
  exact .peek (.ite (fun _ => .pure (.parts (by simp)) trivial) fun _ => .fail rfl)

include hr in
/-- A `match` spans all from its keyword to the brace that closes its arms. -/
theorem matching_parses : Parses s TokenKind.Begins (matching r) := by
  refine fun c hbegins => .opens rfl hbegins (.bind (condition_gathers hr) fun subject => ?_)
  refine .bind (expectAfter_gathers _) fun _ => ?_
  refine .bind (.within (fun _ _ => rfl) (collect_gathers r (matchArm?_gathers hr))) fun arms => ?_
  refine .bind (expectCloser_gathers _) fun _ => ?_
  exact .finish (fun span => .node rfl (by decide) (by simp)) fun _ => rfl

/-- The name that a `catch` gives to the error, if it gives one. -/
theorem errorName?_gathers : Gathers s errorName? := by
  refine fun c _ => .peek ?_
  split
  · next h => exact .next h trivial (.give (.parts (by simp)))
  · next h => exact .next h trivial (.give (.parts (by simp)))
  · next h => exact .next h trivial (.give (.parts (by simp)))
  · exact .pure (.parts (by simp)) trivial

include hr in
/-- A `try` spans all from its keyword to the end of its handler. -/
theorem attemptCatch_parses : Parses s TokenKind.Begins (attemptCatch r) := by
  refine fun c hbegins => .opens rfl hbegins (.bind (block_gathers hr) fun body c' hopens => .here ?_)
  have hrest : Spec s (c.Opens c.current.span) (shown body) (do
      let _ ← expectAfter .tryBlock
      let errorName ← errorName?
      let handler ← block r
      return Node.attempt (← spanFrom c.current.span) body errorName handler)
      fun n c' => c.Spans (Located.span n) c' := by
    refine .bind (expectAfter_gathers _) fun _ => .bind errorName?_gathers fun errorName => ?_
    refine .bind (block_gathers hr) fun handler => ?_
    refine .finish (fun span => .node rfl (by decide) fun p hp => ?_) fun _ => rfl
    cases errorName <;> simp [hp, or_imp, forall_and]
  refine .ite (fun _ => ?_) fun _ => hrest c' hopens
  exact Spec.bind skipNewlines_gathers (fun _ => by simpa using hrest) c' hopens

/-! ## Decorators -/

include hr in
/-- The arguments of a decorator, if its name has a parenthesis after it. -/
theorem decoratorArguments_gathers (name : Token) : Gathers s (decoratorArguments r name) := by
  have hliteral : Gathers s (do return [← primary r]) :=
    .bind (primary_parses hr).gathers fun value => .give (.parts (by simp))
  refine .bind (callTouches_gathers name) fun touches => .ite (fun _ => ?_) fun _ => ?_
  · simpa using callArguments_gathers hr
  · refine fun c _ => .peek ?_
    split
    · exact .carry (.parts (by simp)) (hliteral c trivial)
    · exact .carry (.parts (by simp)) (hliteral c trivial)
    · exact .carry (.parts (by simp)) (hliteral c trivial)
    · exact .pure (.parts (by simp)) trivial

include hr in
/-- A decorator is read whole or not at all. -/
theorem decorator?_from (c : Cursor) : From s c [] (decorator? r) fun d? c' => match d? with
    | some d => c.Opens d.span c'
    | none => c' = c := by
  refine .ifCheck (fun h => ?_) fun _ => .pure (.parts (by simp)) rfl
  refine .opens h trivial (.bind (expect_gathers trivial rfl) fun name => ?_)
  refine .bind (decoratorArguments_gathers hr name) fun args c' hopens => .tokens fun hc => .spanFrom ?_
  refine .bind (.frame (hopens.spans hc).toOpens (skipNewlines_gathers c' trivial)) fun _ c'' h => ?_
  exact .pure (.node rfl (by decide) (by simp)) h.1

/-! ## Definitions -/

/-- Decorators **lead** from `c₀` to a definition: the first of them opened it, or there are none. -/
def Leads (c₀ : Cursor) (decorators : List (Decorator Node)) (c : Cursor) : Prop :=
  match decorators with
  | [] => c = c₀
  | d :: _ => c₀.Opens d.span c

/-- The keyword of a definition opens it, unless a decorator did. -/
theorem Leads.keyword {α : Type} [Outlined α] {decorators : List (Decorator Node)} {held : List Outline}
    {f : Token → Parse α} {Q : α → Cursor → Prop} (hleads : Leads c₀ decorators c) (hbegins : c.kind.Begins)
    (hf : Spec s (c₀.Opens (definitionStart decorators c.current)) held (f c.current) Q) :
    From s c held (advance >>= f) Q := by
  match decorators with
  | [] =>
      subst hleads
      exact .opens rfl hbegins hf
  | d :: _ => exact .take (P := c₀.Opens d.span) hleads rfl hbegins.solid hf

include hr in
/-- The parameters of a macro, which may be left out altogether. -/
theorem macroParameters_gathers : Gathers s (macroParameters r) := by
  refine .ifAccept trivial ?_ (.bind (collect_gathers r fun c _ => .peek ?_) fun params => ?_)
  · exact .bind (parameters_gathers hr trivial _) fun params => .give (.parts (by simp))
  · refine .ite (fun h => ?_) fun _ => .pure (.parts (by simp)) trivial
    refine .next (eq_of_beq h : c.kind = _) trivial ?_
    exact .give (.node rfl (by decide) (by simp [Node.outline?]))
  · exact .give (.parts (by simp))

theorem stringToken_gathers (problem : Problem) (hproblem : problem.category = .grammar) :
    Gathers s (stringToken problem) := by
  refine fun c _ => .peek ?_
  split
  · next h => exact .next h trivial (.give (.parts (by simp)))
  · exact .fail hproblem

section

variable {decorators : List (Decorator Node)} (hleads : Leads c₀ decorators c) (hbegins : c.kind.Begins)

include hr hleads hbegins

/-- A function goes on from its decorators and spans them as well. -/
theorem function_from : From s c (shown decorators) (function r decorators)
    fun f c' => c₀.Spans (Located.span f) c' := by
  refine hleads.keyword hbegins (.bind (ident_gathers _) fun name => ?_)
  refine .bind (expectAfter_gathers _) fun _ => ?_
  refine .bind (parameters_gathers hr trivial _) fun params => ?_
  refine .bind (typeHintAfter?_gathers trivial) fun returns => .bind (block_gathers hr) fun body => ?_
  refine .finish (fun span => .node rfl (by decide) fun p hp => ?_) fun _ => rfl
  cases returns <;> simp [hp, or_imp, forall_and]

omit hleads hbegins in
/-- A member of an object: a field or a method. -/
theorem objectMember_gathers : Gathers s (objectMember r) := by
  refine fun c _ => .peek ?_
  split
  · next h =>
      have hkeyword : c.kind.Begins := by rw [Cursor.kind, h]; trivial
      have hleads : Leads c [] c := rfl
      refine .bind (function_from hr hleads hkeyword) fun f c' _ => .pure ?_ trivial
      exact .parts fun p _ => by rw [show shown (Member.method f) = shown f from rfl, List.nil_append]
  · next h => exact .next h trivial (.give (.node rfl (by decide) fun p hp => by simp [hp]))
  · exact .fail rfl

/-- A macro goes on from its decorators and spans them as well. -/
theorem macroDefinition_from : From s c (shown decorators) (macroDefinition r decorators)
    fun n c' => c₀.Spans (Located.span n) c' := by
  refine hleads.keyword hbegins (.bind (ident_gathers _) fun name => ?_)
  refine .bind (macroParameters_gathers hr) fun (params, shellStyle) => ?_
  refine .bind (block_gathers hr) fun body => ?_
  refine .finish (fun span => .node rfl (by decide) fun p hp => ?_) fun _ => rfl
  simp [hp, or_imp, forall_and]

/-- An alias goes on from its decorators and spans them as well. -/
theorem aliasDefinition_from : From s c (shown decorators) (aliasDefinition r decorators)
    fun n c' => c₀.Spans (Located.span n) c' := by
  refine hleads.keyword hbegins (.bind (ident_gathers _) fun name => ?_)
  refine .bind (expectAfter_gathers _) fun _ => ?_
  refine .bind hr.expression.gathers fun value => ?_
  refine .finish (fun span => .node rfl (by decide) fun p hp => ?_) fun _ => rfl
  simp [hp, or_imp, forall_and]

/-- An object goes on from its decorators, up to the brace that closes its members. -/
theorem objectDefinition_from : From s c (shown decorators) (objectDefinition r decorators)
    fun n c' => c₀.Spans (Located.span n) c' := by
  refine hleads.keyword hbegins (.bind (ident_gathers _) fun name => ?_)
  refine .bind (expectAfter_gathers _) fun _ => ?_
  refine .bind (.within (fun _ _ => rfl) (.bind skipNewlines_gathers fun _ => collect_gathers r ?_))
    fun members => ?_
  · refine .ifCheck (.give (.parts (by simp))) (.bind (objectMember_gathers hr) fun member => ?_)
    exact .bind (fieldSeparator_gathers _ rfl) fun _ => .give (.parts (by simp))
  · refine .bind (expectCloser_gathers _) fun _ => ?_
    refine .finish (fun span => .node rfl (by decide) fun p hp => ?_) fun _ => rfl
    simp [hp, or_imp, forall_and]

omit hr in
/-- An enumeration goes on from its decorators, up to the brace that closes its variants. -/
theorem enumDefinition_from : From s c (shown decorators) (enumDefinition r decorators)
    fun n c' => c₀.Spans (Located.span n) c' := by
  refine hleads.keyword hbegins (.bind (ident_gathers _) fun name => ?_)
  refine .bind (expectAfter_gathers _) fun _ => ?_
  refine .bind skipNewlines_gathers fun _ => .bind (collect_gathers r ?_) fun variants => ?_
  · refine .ifCheck (.give (.parts (by simp))) (.bind (ident_gathers _) fun variant => ?_)
    exact .bind (fieldSeparator_gathers _ rfl) fun _ => .give (.parts (by simp))
  · refine .bind (expectCloser_gathers _) fun _ => ?_
    refine .finish (fun span => .node rfl (by decide) fun p hp => ?_) fun _ => rfl
    simp [hp, or_imp, forall_and]

/-- A test goes on from its decorators, up to the end of its block. -/
theorem testDefinition_from : From s c (shown decorators) (testDefinition r decorators)
    fun n c' => c₀.Spans (Located.span n) c' := by
  refine hleads.keyword hbegins (.bind (stringToken_gathers _ rfl) fun name => ?_)
  refine .bind (block_gathers hr) fun body => ?_
  refine .finish (fun span => .node rfl (by decide) fun p hp => ?_) fun _ => rfl
  simp [hp, or_imp, forall_and]

omit hbegins in
/-- Whichever definition follows, it spans its decorators as well. -/
theorem definition_from : From s c (shown decorators) (definition r decorators)
    fun n c' => c₀.Spans (Located.span n) c' := by
  have hbegins {k : Keyword} (h : c.current.kind = .keyword k) : c.kind.Begins := by
    rw [Cursor.kind, h]
    trivial
  refine .peek ?_
  split
  · next h =>
      refine .follow (function_from hr hleads (hbegins h)) fun f c' hspans => ?_
      exact .pure (.parts (by simp [Node.outline])) hspans
  · next h => exact macroDefinition_from hr hleads (hbegins h)
  · next h => exact aliasDefinition_from hr hleads (hbegins h)
  · next h => exact objectDefinition_from hr hleads (hbegins h)
  · next h => exact enumDefinition_from hleads (hbegins h)
  · next h => exact testDefinition_from hr hleads (hbegins h)
  · exact .fail rfl

end

include hr in
/-- Decorators and what they decorate are read as one. -/
theorem decorated_parses : Parses s (fun _ => True) (decorated r) := by
  refine fun c _ => .bind (.collect r (I := Leads c) (Q := Leads c) rfl fun decorators c' hleads => ?_)
    fun decorators c' hleads => definition_from hr hleads
  refine .imp (decorator?_from hr c') fun d? c'' hc hreach hpost => ?_
  match d?, decorators with
  | none, _ => exact hpost ▸ hleads
  | some d, [] => exact hleads ▸ hpost
  | some d, d₀ :: _ => exact Cursor.Opens.reach (s := s) hleads (hreach.tokens_eq ▸ hc) hreach

/-! ## Modules and jumps -/

variable (r) in
/-- A module is referred to by a path of names or by a file. -/
theorem moduleRef_gathers : Gathers s (moduleRef r) := by
  have hpath : Gathers s (do
      let first ← expect .identifier .modulePath
      let others ← r.collect pathSegment?
      return ModuleRef.path (← spanFrom first.span) (first.lexeme :: others)) := by
    refine .bind (expect_gathers trivial rfl) fun first => .bind (collect_gathers r ?_) fun others => ?_
    · refine .ifAccept trivial ?_ (.give (.parts (by simp)))
      exact .bind (expect_gathers trivial rfl) fun name => .give (.parts (by simp))
    · exact .spanFrom fun span => .give (.parts (by simp))
  refine fun c _ => .peek ?_
  split
  · next h => exact .next h trivial (.give (.parts (by simp)))
  · exact hpath c trivial

variable (r) in
theorem useModule_parses : Parses s TokenKind.Begins (useModule r) :=
  fun c hbegins => .opens rfl hbegins <| .bind (moduleRef_gathers r) fun ref =>
    .finish (fun span => .node rfl (by decide) fun p hp => by simp [hp]) fun _ => rfl

/-- The name after `as`, if there is one. -/
theorem rename?_gathers (what : Named) : Gathers s (rename? what) := by
  refine .ifAccept trivial ?_ (.give (.parts (by simp)))
  exact .bind (ident_gathers _) fun name => .give (.parts (by simp))

theorem importItem_gathers : Gathers s importItem :=
  .bind (ident_gathers _) fun name => .bind (rename?_gathers _) fun rename =>
    .spanFrom fun span => .give (.parts (by simp))

variable (r) in
/-- An import spans all from its keyword to the end of its last item. -/
theorem importFrom_parses : Parses s TokenKind.Begins (importFrom r) := by
  refine fun c hbegins => .opens rfl hbegins (.bind (moduleRef_gathers r) fun ref => ?_)
  refine .bind (expectAfter_gathers _) fun _ => .ifAccept trivial ?_ ?_
  · exact .finish (fun span => .node rfl (by decide) fun p hp => by simp [hp]) fun _ => rfl
  · refine .bind (loop_gathers r rfl fun items => .bind importItem_gathers fun item => ?_) fun items => ?_
    · exact .ifAccept trivial (.give (.parts (by simp))) (.give (.parts (by simp)))
    · exact .finish (fun span => .node rfl (by decide) fun p hp => by simp [hp]) fun _ => rfl

theorem sourceFile_parses : Parses s TokenKind.Begins sourceFile := by
  refine fun c hbegins => .opens rfl hbegins (.bind (stringToken_gathers _ rfl) fun path => ?_)
  refine .bind (rename?_gathers _) fun rename => ?_
  refine .finish (fun span => .node rfl (by decide) fun p hp => ?_) fun _ => rfl
  cases rename <;> simp [hp]

include hr in
/-- A `return` spans its keyword and its value, if it has one. -/
theorem returnJump_parses : Parses s TokenKind.Begins (returnJump r) := by
  have hrest (c₀ : Cursor) (start : Token) (value : Option Node) :
      Spec s (c₀.Opens start.span) (shown value) (do
        return Node.returnJump (← spanFrom start.span) value) fun n c => c₀.Spans (Located.span n) c :=
    .finish (fun span => .node rfl (by decide) (by simp)) fun _ => rfl
  refine fun c hbegins => .opens rfl hbegins fun c' hopens => .peek (.ite (fun _ => ?_) fun _ => ?_)
  · exact Spec.ret (hrest c c.current none) c' hopens
  · exact Spec.bind hr.assigned.gathers (fun value => .ret (by simpa using hrest c c.current (some value)))
      c' hopens

/-! ## Statements -/

include hr in
/-- A statement that begins with a keyword is read in the way of this keyword. -/
theorem keywordStatement_parses (k : Keyword) :
    Parses s (fun kind => kind = .keyword k) (keywordStatement r k) := by
  refine fun c hk => .here ?_
  have hbegins : c.kind.Begins := hk ▸ trivial
  have hdefinition := definition_from hr (show Leads c [] c from rfl)
  split
  · exact hdefinition
  · exact hdefinition
  · exact hdefinition
  · exact hdefinition
  · exact hdefinition
  · exact hdefinition
  · exact letBinding_parses hr _ c hbegins
  · exact letBinding_parses hr _ c hbegins
  · exact .ite (fun _ => letBinding_parses hr _ c hbegins) fun _ => expression_parses hr c trivial
  · exact conditional_parses hr c hbegins
  · exact forLoop_parses hr c hbegins
  · exact whileLoop_parses hr c hbegins
  · exact endlessLoop_parses hr c hbegins
  · exact matching_parses hr c hbegins
  · exact attemptCatch_parses hr c hbegins
  · exact useModule_parses r c hbegins
  · exact importFrom_parses r c hbegins
  · exact sourceFile_parses c hbegins
  · exact returnJump_parses hr c hbegins
  · exact .alone hk trivial (.parts fun p hp => by simp [hp]) rfl
  · exact .alone hk trivial (.parts fun p hp => by simp [hp]) rfl
  · exact expression_parses hr c trivial

include hr in
/-- **A statement spans the tokens read for it.** -/
theorem statement_parses : Parses s (fun kind => kind.isSeparator = false) (statement r) := by
  intro c hseparator
  refine .move (c.skipWhile_passes rfl) ?_
  rw [Cursor.skipWhile_of_not hseparator]
  refine .peek ?_
  split
  · exact decorated_parses hr c trivial
  · next h => exact keywordStatement_parses hr _ c h
  · exact assigned_parses hr c trivial
  · exact expression_parses hr c trivial

end ShellFront.Grammar
