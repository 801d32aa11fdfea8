import ShellFront.Proofs.Layout.Expressions
import ShellFront.Proofs.Parse.Statements

/-!
# How statements are laid out

Each production of the grammar of statements forms its node. A definition stands over its decorators as well,
so what its production forms begins where the first of them does.

## Contents
- Bindings and control flow.
- Definitions after their decorators.
- Modules and jumps.
- `statement_forms`.
-/

namespace ShellFront.Grammar

open Outlined Parse
open scoped Layout

variable {s : Script} {w : Watch} {r : Rules} (hr : r.Neat s w) {c c₀ : Cursor} {firm : Bool}
  {held : List Outline} {start : Span}

/-- A name is formed by its one token. -/
theorem ident_forms (what : Named) : Forms s w (fun _ => True) (ident what) := by
  refine fun c hc _ => .expect (.refl c) fun hname => .pure ?_
  exact Cursor.formed_leaf hc (by rw [hname]; rfl) (Ident.outline_leaf ⟨_, c.current.lexeme⟩)

/-- So is a string. -/
theorem stringToken_forms (problem : Problem) : Forms s w (fun _ => True) (stringToken problem) := by
  refine fun c hc _ => .peek ?_
  split
  · next style h =>
      exact .alone hc (by rw [Cursor.kind, h]; rfl)
        (StringLiteral.outline_leaf ⟨_, c.current.payload, style⟩) rfl
  · exact .fail (.refl c)

/-! ## Bindings and assignments -/

/-- The sign of an assignment is no bracket. -/
theorem inert_of_isAssignment {kind : TokenKind} (h : kind.isAssignment = true) : kind.isInert = true := by
  cases kind with
  | symbol sym => cases sym <;> first | rfl | contradiction
  | _ => contradiction

include hr in
/-- An assignment covers its target and the value; without a sign of assignment there is just the expression. -/
theorem assigned_forms : Forms s w (fun _ => True) (assigned r) := by
  refine fun c hc _ => .here (.ite (fun h => ?_) fun _ => expression_forms hr c hc trivial)
  simp only [assignmentAhead, Bool.and_eq_true, beq_iff_eq] at h
  obtain ⟨htarget, hoperator⟩ := h
  have hinert : c.advance.kind.isInert = true := by
    rw [Cursor.kind, Cursor.current_advance (by rw [htarget]; decide)]
    exact inert_of_isAssignment hoperator
  have htrail := (Cursor.Trail.nil (w := w) hc).leaf (by rw [htarget]; rfl)
    (Ident.variableOutline_leaf ⟨c.current.span, c.current.payload⟩)
  have hopens := (Cursor.advance_spans hc (htarget ▸ trivial : c.kind.Begins)).toOpens
  refine .advance (.next htrail hopens rfl hinert (.node hr.assigned fun value => ?_))
  exact .finish (fun _ => rfl) (by decide) rfl (by simp)

include hr in
/-- The keyword begins the binding, and the value ends it. -/
theorem letBinding_forms (keyword : Keyword) :
    Forms s w (fun kind => kind.isSturdy = true) (letBinding r keyword) := by
  refine fun c hc hkind => .opens hc hkind ?_
  refine .leaf (fun t => (Ident.mk t.span t.lexeme).outline) rfl
    (fun t => Ident.outline_leaf ⟨t.span, t.lexeme⟩) fun name => ?_
  refine .mark rfl fun _ => .node hr.assigned fun value => ?_
  exact .finish (fun _ => rfl) (by decide) rfl (by simp)

/-! ## Control flow -/

include hr in
/-- A condition is an expression, read in the mode of headers. -/
theorem condition_forms : Forms s w (fun _ => True) (condition r) := .within (fun _ h => h) hr.expression

/-- Line breaks are skipped only before the keyword that is looked for. -/
theorem acceptPastNewlines_does {α : Type} {k : Keyword} {f : Option Token → Parse α}
    {Q : α → Cursor → Prop} (hc : c.tokens = s.tokens) (hno : Does s w c c (f none) Q)
    (hyes : ∀ c', c.Trail s w false [] [] c' → c'.kind = .keyword k →
      Does s w c c'.advance (f (some c'.current)) Q) :
    Does s w c c (acceptPastNewlines k >>= f) Q := by
  rw [acceptPastNewlines, bind_assoc]
  refine .here ?_
  split
  · next h =>
      simp only [bind_assoc, pure_bind]
      have hskip := (Cursor.Trail.nil (w := w) hc).skip (p := (· == .newline))
        fun kind hkind => by rw [eq_of_beq hkind]; rfl
      exact .move (.advance (hyes _ hskip (eq_of_beq h)))
  · exact .ret hno

include hr in
/-- What follows `else` is laid, if it is there at all. -/
theorem elseIf?_lays : Lays s w true (elseIf? r) := by
  refine fun c hc => acceptPastNewlines_does hc (.pure (.nil hc)) fun c' htrail h => ?_
  have hinert : c'.kind.isInert = true := by rw [h]; rfl
  have hkeyword := (Cursor.Trail.nil (w := w) htrail.tokens).inert hinert
  have hopens := (Cursor.advance_spans htrail.tokens (TokenKind.begins_of_inert hinert)).toOpens
  have hrest : Does s w c' c'.advance (do
      let test ← condition r
      let body ← block r
      return some (ElseIf.mk (← spanFrom c'.current.span) test body))
      fun clause c'' => c'.Formed s w (shown clause) c'' := by
    refine Goes.node (condition_forms hr) (fun test => .node (block_forms hr) fun body => ?_) _ hkeyword hopens
    exact .finish (fun _ => rfl) (by decide) rfl (by simp)
  exact .precede htrail.strays (.imp hrest fun _ _ hformed => htrail.node hformed)

include hr in
theorem elseBlock?_lays : Lays s w true (elseBlock? r) := by
  refine fun c hc => acceptPastNewlines_does hc (.pure (.nil hc)) fun c' htrail h => ?_
  have hkeyword := htrail.inert (by rw [h]; rfl)
  refine .bind hkeyword.strays (block_forms hr _ hkeyword.tokens trivial) fun body c'' hformed => .pure ?_
  simpa using hkeyword.node hformed

include hr in
theorem conditional_forms : Forms s w (fun kind => kind.isSturdy = true) (conditional r) := by
  refine fun c hc hkind => .opens hc hkind (.node (condition_forms hr) fun test => ?_)
  refine .node (block_forms hr) fun body => .bind (.collect r true (elseIf?_lays hr)) fun elseIfs => ?_
  exact .bind (elseBlock?_lays hr) fun elseBody => .finish (fun _ => rfl) (by decide) rfl (by simp)

/-- The variable of a loop is one token, with a dollar sign or without. -/
theorem loopVariable_forms : Forms s w (fun _ => True) loopVariable := by
  refine fun c hc _ => .peek ?_
  split
  · next h =>
      exact .alone hc (by rw [Cursor.kind, h]; rfl)
        (LoopVariable.outline_leaf ⟨_, c.current.payload, true⟩) rfl
  · next h =>
      exact .alone hc (by rw [Cursor.kind, h]; rfl)
        (LoopVariable.outline_leaf ⟨_, c.current.lexeme, false⟩) rfl
  · exact .fail (.refl c)

include hr in
theorem forLoop_forms : Forms s w (fun kind => kind.isSturdy = true) (forLoop r) := by
  refine fun c hc hkind => .opens hc hkind (.node loopVariable_forms fun element => .mark rfl fun _ => ?_)
  refine .node (condition_forms hr) fun iterable => .node (block_forms hr) fun body => ?_
  exact .finish (fun _ => rfl) (by decide) rfl (by simp)

include hr in
theorem whileLoop_forms : Forms s w (fun kind => kind.isSturdy = true) (whileLoop r) := by
  refine fun c hc hkind => .opens hc hkind (.node (condition_forms hr) fun test => ?_)
  exact .node (block_forms hr) fun body => .finish (fun _ => rfl) (by decide) rfl (by simp)

include hr in
theorem endlessLoop_forms : Forms s w (fun kind => kind.isSturdy = true) (endlessLoop r) :=
  fun _ hc hkind => .opens hc hkind <| .node (block_forms hr) fun body =>
    .finish (fun _ => rfl) (by decide) rfl (by simp)

include hr in
/-- A guard is laid when the keyword of it is there. -/
theorem guard?_lays : Lays s w true (guard? r) := by
  refine .of_goes fun c₀ => .ifAccept rfl ?_ (.give (by simp) id)
  exact .node hr.expression fun value => .give (by simp) id

include hr in
/-- The body of an arm is a block or an expression. -/
theorem armBody_forms : Forms s w (fun _ => True) (armBody r) := by
  refine fun c hc _ => .here (.ite (fun _ => ?_) fun _ => ?_)
  · exact .bind (.refl c) (block_forms hr c hc trivial) fun body c' hformed => .pure hformed
  · exact .bind (.refl c) (hr.expression c hc trivial) fun value c' hformed => .pure hformed

include hr in
theorem matchArm_forms : Forms s w (fun _ => True) (matchArm r) := by
  refine fun c hc _ => .peek (.follow (hr.pattern c hc trivial) fun shape c' hformed => ?_)
  refine Goes.bind (guard?_lays hr) (fun guard => .mark rfl fun _ => ?_) c' hformed.trail hformed.opens_current
  refine .bind skipNewlines_lays fun _ => .node (armBody_forms hr) fun body => ?_
  exact .finish (fun _ => rfl) (by decide) rfl (by simp)

include hr in
/-- An arm or nothing, with the separators after it. -/
theorem matchArm?_lays : Lays s w false (matchArm? r) := by
  refine .of_goes fun c₀ => .bind skipSeparators_lays fun _ => .ifCheck (.give (by simp) nofun) ?_
  refine .node (matchArm_forms hr) fun arm => .ifAccept rfl (.give (by simp) nofun) ?_
  refine fun c htrail _ => .peek (.ite (fun _ => ?_) fun _ => .fail htrail.strays)
  have hloose : c₀.Trail s w false [] _ c := htrail.weaken nofun
  exact .pure (by simpa using hloose)

include hr in
theorem matching_forms : Forms s w (fun kind => kind.isSturdy = true) (matching r) := by
  refine fun c hc hkind => .opens hc hkind (.node (condition_forms hr) fun subject => .opener rfl fun _ => ?_)
  refine .bind (.within (fun _ h => h) (.collect r false (matchArm?_lays hr))) fun arms => ?_
  exact .closer rfl fun _ => .finish (fun _ => rfl) (by decide) rfl (by simp)

/-- The name of the error is one token, if there is one. -/
theorem errorName?_lays : Lays s w true errorName? := by
  have hnamed {c : Cursor} {x : Ident} (hc : c.tokens = s.tokens) (hkind : c.kind.isSturdy = true)
      (hx : x.span = c.current.span) : Does s w c c (do
        let _ ← advance
        return some x) fun name c' => c.Trail s w true [] (shown name) c' := by
    refine .imp (.alone hc hkind ?_ rfl) fun _ _ hformed => hformed.trail
    exact hx ▸ x.outline_leaf
  refine fun c hc => .peek ?_
  split
  · next h => exact hnamed hc (by rw [Cursor.kind, h]; rfl) rfl
  · next h => exact hnamed hc (by rw [Cursor.kind, h]; rfl) rfl
  · next h => exact hnamed hc (by rw [Cursor.kind, h]; rfl) rfl
  · exact .pure (.nil hc)

include hr in
theorem attemptCatch_forms : Forms s w (fun kind => kind.isSturdy = true) (attemptCatch r) := by
  refine fun c hc hkind => .opens hc hkind (.node (block_forms hr) fun body c' htrail hopens => .here ?_)
  have hrest : Goes s w c (c.Opens c.current.span) false [] (shown body) (do
      let _ ← expectAfter .tryBlock
      let errorName ← errorName?
      let handler ← block r
      return Node.attempt (← spanFrom c.current.span) body errorName handler)
      fun n c' => c.Formed s w (shown n) c' := by
    refine .mark rfl fun _ => .bind errorName?_lays fun errorName => .node (block_forms hr) fun handler => ?_
    exact .finish (fun _ => rfl) (by decide) rfl (by simp)
  refine .ite (fun _ => ?_) fun _ => hrest c' (htrail.weaken nofun) hopens
  exact Goes.bind skipNewlines_lays (fun _ => by simpa using hrest) c' htrail hopens

/-! ## Decorators -/

include hr in
/-- Only parentheses that touch the name hold arguments. -/
theorem decoratorArguments_lays (name : Token) : Lays s w true (decoratorArguments r name) := by
  have hliteral : Lays s w true (do return [← primary r]) :=
    .of_goes fun c₀ => .node (primary_forms hr) fun value => .give (by simp) id
  refine .of_goes fun c₀ => .bind (callTouches_lays name) fun touches => .ite (fun _ => ?_) fun _ => ?_
  · exact .last (.bind (callArguments_lays hr) fun args => .give (by simp) id)
  · refine fun c htrail _ => .peek ?_
    split
    · exact .precede htrail.strays (.imp (hliteral c htrail.tokens) fun _ _ h => by simpa using htrail.append h)
    · exact .precede htrail.strays (.imp (hliteral c htrail.tokens) fun _ _ h => by simpa using htrail.append h)
    · exact .precede htrail.strays (.imp (hliteral c htrail.tokens) fun _ _ h => by simpa using htrail.append h)
    · exact .pure (by simpa using htrail)

include hr in
/-- A decorator is read whole or not at all. -/
theorem decorator?_does (hc : c.tokens = s.tokens) : Does s w c c (decorator? r) fun d? c' => match d? with
    | some d => c.Trail s w false [] (shown d) c' ∧ c.Opens d.span c'
    | none => c' = c := by
  refine .ifCheck (fun h => .opens hc (by rw [h]; rfl) ?_) fun _ => .pure rfl
  refine .mark rfl fun name => .bind (decoratorArguments_lays hr name) fun args c' htrail hopens => .spanFrom ?_
  -- the decorator ends before the line breaks after it
  have hspans := hopens.spans htrail.tokens
  have hformed : c.Formed s w (shown (Decorator.mk (c.current.span.cover c'.previous.span) name.lexeme args)) c' :=
    htrail.formedAs hspans rfl (by decide) (by simp)
  refine .bind htrail.strays (skipNewlines_lays c' htrail.tokens) fun _ c'' h => .pure ⟨?_, ?_⟩
  · simpa using hformed.trail.append h
  · exact hspans.toOpens.reach htrail.tokens h.reaches

/-! ## Definitions -/

/-- The keyword of a definition opens it, unless a decorator did. -/
theorem Leads.does {α : Type} {decorators : List (Decorator Node)} {f : Token → Parse α}
    {Q : α → Cursor → Prop} (hleads : Leads c₀ decorators c) (htrail : c₀.Trail s w firm [] held c)
    (hkind : c.kind.isSturdy = true)
    (hf : Goes s w c₀ (c₀.Opens (definitionStart decorators c.current)) true [] held (f c.current) Q) :
    Does s w c₀ c (advance >>= f) Q := by
  have hinert := TokenKind.inert_of_sturdy hkind
  have hkeyword := htrail.inert hinert
  rw [TokenKind.firm_of_sturdy hkind] at hkeyword
  refine .advance (hf _ hkeyword ?_)
  match decorators with
  | [] =>
      subst hleads
      exact (Cursor.advance_spans htrail.tokens (TokenKind.begins_of_inert hinert)).toOpens
  | d :: _ =>
      have hopens : c₀.Opens d.span c := hleads
      exact Stable.advance (s := s) htrail.tokens (TokenKind.ne_endOfInput_of_inert hinert) hopens

/-- A parameter in the way of the shell, or nothing where the list of them ends. -/
theorem shellParameter?_lays : Lays s w true shellParameter? := by
  refine fun c hc => .peek (.ite (fun h => ?_) fun _ => .pure (.nil hc))
  have hkind : c.kind.isSturdy = true := by
    rw [show c.kind = .variableName from eq_of_beq h]
    rfl
  refine .imp (.alone hc hkind (o := .mk .parameter c.current.span _ []) (Outline.leaf_mk (by decide)) rfl) ?_
  exact fun _ _ hformed => hformed.trail

include hr in
theorem macroParameters_lays : Lays s w true (macroParameters r) := by
  refine .of_goes fun c₀ => .acceptOpener rfl ?_ ?_
  · exact .group (parameters_goes hr true) fun params => .give (by simp) id
  · exact .bind (.collect r true shellParameter?_lays) fun params => .give (by simp) id

section

variable {decorators : List (Decorator Node)} (hleads : Leads c₀ decorators c)
  (htrail : c₀.Trail s w firm [] (shown decorators) c) (hkind : c.kind.isSturdy = true)

include hr hleads htrail hkind

/-- The node covers the decorators too, so what is formed begins where the first of them does. -/
theorem function_does : Does s w c₀ c (function r decorators) fun f c' => c₀.Formed s w (shown f) c' := by
  refine hleads.does htrail hkind (.node (ident_forms _) fun name => .opener rfl fun _ => ?_)
  refine .group (parameters_goes hr true) fun params => .bind (typeHintAfter?_lays rfl) fun returns => ?_
  exact .node (block_forms hr) fun body => .finish (fun _ => rfl) (by decide) rfl (by simp)

omit hleads htrail hkind in
/-- A member is a method or the name of a field. -/
theorem objectMember_forms : Forms s w (fun _ => True) (objectMember r) := by
  refine fun c hc _ => .peek ?_
  split
  · next h =>
      have hkind : c.kind.isSturdy = true := by rw [Cursor.kind, h]; rfl
      have hleads : Leads c [] c := rfl
      exact .bind (.refl c) (function_does hr hleads (.nil hc) hkind) fun f c' hformed => .pure hformed
  · next h =>
      have hkind : c.kind.isSturdy = true := by rw [Cursor.kind, h]; rfl
      -- the name of a field has the place of the field
      have hname := Cursor.formed_leaf (w := w) hc hkind (Ident.outline_leaf ⟨c.current.span, c.current.lexeme⟩)
      exact .advance (.pure (hname.trail.formedAs hname.spans_of rfl (by decide) rfl))
  · exact .fail (.refl c)

/-- As `function_does`: what is formed begins with the decorators. -/
theorem macroDefinition_does :
    Does s w c₀ c (macroDefinition r decorators) fun n c' => c₀.Formed s w (shown n) c' := by
  refine hleads.does htrail hkind (.node (ident_forms _) fun name => ?_)
  refine .bind (macroParameters_lays hr) fun (params, shellStyle) => .node (block_forms hr) fun body => ?_
  exact .finish (fun _ => rfl) (by decide) rfl (by simp)

theorem aliasDefinition_does :
    Does s w c₀ c (aliasDefinition r decorators) fun n c' => c₀.Formed s w (shown n) c' := by
  refine hleads.does htrail hkind (.node (ident_forms _) fun name => .mark rfl fun _ => ?_)
  exact .node hr.expression fun value => .finish (fun _ => rfl) (by decide) rfl (by simp)

theorem objectDefinition_does :
    Does s w c₀ c (objectDefinition r decorators) fun n c' => c₀.Formed s w (shown n) c' := by
  have hmembers : Lays s w false (do
      skipNewlines
      r.collect do
        if ← check (.symbol .closeBrace) then return none
        else
          let member ← objectMember r
          fieldSeparator (.between .objectMembers)
          return some member) := by
    refine .of_goes fun c₀ => .bind skipNewlines_lays fun _ => .last (.bind (.collect r false ?_) fun members => ?_)
    · refine .of_goes fun c₀ => .ifCheck (.give (by simp) nofun) (.node (objectMember_forms hr) fun member => ?_)
      exact .bind (fieldSeparator_lays _) fun _ => .give (by simp) nofun
    · exact .give (by simp) nofun
  refine hleads.does htrail hkind (.node (ident_forms _) fun name => .opener rfl fun _ => ?_)
  refine .bind (.within (fun _ h => h) hmembers) fun members => .closer rfl fun _ => ?_
  exact .finish (fun _ => rfl) (by decide) rfl (by simp)

omit hr in
theorem enumDefinition_does :
    Does s w c₀ c (enumDefinition r decorators) fun n c' => c₀.Formed s w (shown n) c' := by
  have hvariant : Lays s w false (do
      if ← check (.symbol .closeBrace) then return none
      else
        let variant ← ident .variant
        fieldSeparator (.between .enumVariants)
        return some variant) := by
    refine .of_goes fun c₀ => .ifCheck (.give (by simp) nofun) (.node (ident_forms _) fun variant => ?_)
    exact .bind (fieldSeparator_lays _) fun _ => .give (by simp) nofun
  refine hleads.does htrail hkind (.node (ident_forms _) fun name => .opener rfl fun _ => ?_)
  refine .bind skipNewlines_lays fun _ => .bind (.collect r false hvariant) fun variants => ?_
  exact .closer rfl fun _ => .finish (fun _ => rfl) (by decide) rfl (by simp)

theorem testDefinition_does :
    Does s w c₀ c (testDefinition r decorators) fun n c' => c₀.Formed s w (shown n) c' := by
  refine hleads.does htrail hkind (.node (stringToken_forms _) fun name => .node (block_forms hr) fun body => ?_)
  exact .finish (fun _ => rfl) (by decide) rfl (by simp)

omit hkind in
/-- **A definition stands over its decorators and all that follows them.** -/
theorem definition_does :
    Does s w c₀ c (definition r decorators) fun n c' => c₀.Formed s w (shown n) c' := by
  have hkind {k : Keyword} (h : c.current.kind = .keyword k) : c.kind.isSturdy = true := by
    rw [Cursor.kind, h]
    rfl
  refine .peek ?_
  split
  · next h => exact .follow (function_does hr hleads htrail (hkind h)) fun f c' hformed => .pure hformed
  · next h => exact macroDefinition_does hr hleads htrail (hkind h)
  · next h => exact aliasDefinition_does hr hleads htrail (hkind h)
  · next h => exact objectDefinition_does hr hleads htrail (hkind h)
  · next h => exact enumDefinition_does hleads htrail (hkind h)
  · next h => exact testDefinition_does hr hleads htrail (hkind h)
  · exact .fail htrail.strays

end

include hr in
/-- The decorators are laid first; the definition that has to follow covers them. -/
theorem decorated_forms : Forms s w (fun _ => True) (decorated r) := by
  intro c hc _
  let Led (decorators : List (Decorator Node)) (c' : Cursor) : Prop :=
    Leads c decorators c' ∧ c.Trail s w false [] (shown decorators) c'
  have hnone : Led [] c := ⟨rfl, (Cursor.Trail.nil hc).weaken nofun⟩
  refine .follow (.collect r (I := Led) (Q := Led) (fun _ _ h => h.2.strays) ?_ hnone)
    fun decorators c' ⟨hleads, htrail⟩ => definition_does hr hleads htrail
  rintro decorators c' ⟨hleads, htrail⟩
  refine .precede htrail.strays (.imp (decorator?_does hr htrail.tokens) fun d? c'' hpost => ?_)
  match d?, decorators with
  | none, _ =>
      subst hpost
      exact ⟨hleads, htrail⟩
  | some d, [] =>
      subst hleads
      exact ⟨hpost.2, by simpa using htrail.append hpost.1⟩
  | some d, d₀ :: _ =>
      exact ⟨Cursor.Opens.reach (s := s) hleads htrail.tokens hpost.1.reaches, by simpa using htrail.append hpost.1⟩

/-! ## Modules and jumps -/

variable (r) in
/-- A module is named by a path of names or by a string. -/
theorem moduleRef_forms : Forms s w (fun _ => True) (moduleRef r) := by
  refine fun c hc _ => .peek ?_
  split
  · next style h =>
      exact .alone hc (by rw [Cursor.kind, h]; rfl)
        (StringLiteral.outline_leaf ⟨_, c.current.payload, style⟩) rfl
  · refine .expect (.refl c) fun hname => ?_
    have hkind : c.kind.isSturdy = true := by rw [hname]; rfl
    have hfirst := Cursor.formed_leaf (w := w) hc hkind (Ident.outline_leaf ⟨c.current.span, c.current.lexeme⟩)
    refine Goes.bind (.collect r true ?_) (fun others => ?_) _ hfirst.trail.drop hfirst.spans_of.toOpens
    · refine .of_goes fun c₀ => .ifAccept rfl (.mark rfl fun name => ?_) (.give (by simp) id)
      exact .give (by simp) fun _ => rfl
    · exact .finish (fun _ => rfl) (by decide) rfl (by simp)

variable (r) in
theorem useModule_forms : Forms s w (fun kind => kind.isSturdy = true) (useModule r) :=
  fun _ hc hkind => .opens hc hkind <| .node (moduleRef_forms r) fun ref =>
    .finish (fun _ => rfl) (by decide) rfl (by simp)

/-- A new name after `as`, or nothing. -/
theorem rename?_lays (what : Named) : Lays s w true (rename? what) := by
  refine .of_goes fun c₀ => .ifAccept rfl ?_ (.give (by simp) id)
  exact .node (ident_forms _) fun name => .give (by simp) id

theorem importItem_forms : Forms s w (fun _ => True) importItem := by
  refine fun c hc _ => .follow (ident_forms _ c hc trivial) fun name c' hformed => ?_
  have hspans : c.Spans name.outline.span c' := hformed.spans_of
  refine Goes.bind (rename?_lays _) (fun rename => ?_) c' hformed.trail hspans.toOpens
  exact .finish (fun _ => rfl) (by decide) rfl (by simp)

variable (r) in
/-- A star stands for all names; without it the items are laid between their commas. -/
theorem importFrom_forms : Forms s w (fun kind => kind.isSturdy = true) (importFrom r) := by
  refine fun c hc hkind => .opens hc hkind (.node (moduleRef_forms r) fun ref => .mark rfl fun _ => ?_)
  refine .ifAccept rfl (.finish (fun _ => rfl) (by decide) rfl (by simp)) ?_
  refine .bind (.loop r true rfl fun c₀ items => .node importItem_forms fun item => ?_) fun items => ?_
  · exact .ifAccept rfl (.give (by simp) fun _ => rfl) (.give (by simp) id)
  · exact .finish (fun _ => rfl) (by decide) rfl (by simp)

theorem sourceFile_forms : Forms s w (fun kind => kind.isSturdy = true) sourceFile := by
  refine fun c hc hkind => .opens hc hkind (.node (stringToken_forms _) fun path => ?_)
  refine .bind (rename?_lays _) fun rename => ?_
  exact .finish (fun _ => rfl) (by decide) rfl (by simp)

include hr in
/-- The value of a return is laid when something follows on the line. -/
theorem returnJump_forms : Forms s w (fun kind => kind.isSturdy = true) (returnJump r) := by
  have hrest (c₀ : Cursor) (start : Token) (value : Option Node) :
      Goes s w c₀ (c₀.Opens start.span) true [] (shown value) (do
        return Node.returnJump (← spanFrom start.span) value) fun n c => c₀.Formed s w (shown n) c :=
    .finish (fun _ => rfl) (by decide) rfl (by simp)
  refine fun c hc hkind => .opens hc hkind fun c' htrail hopens => .peek (.ite (fun _ => ?_) fun _ => ?_)
  · exact Goes.ret (hrest c c.current none) c' htrail hopens
  · refine Goes.node hr.assigned (fun value => .ret ?_) c' htrail hopens
    simpa using hrest c c.current (some value)

/-! ## Statements -/

include hr in
/-- Each keyword that begins a statement begins a node that is formed. -/
theorem keywordStatement_forms (k : Keyword) :
    Forms s w (fun kind => kind = .keyword k) (keywordStatement r k) := by
  refine fun c hc hk => .here ?_
  have hkind : c.kind.isSturdy = true := by rw [hk]; rfl
  have hdefinition := definition_does hr (show Leads c [] c from rfl) (.nil hc)
  split
  · exact hdefinition
  · exact hdefinition
  · exact hdefinition
  · exact hdefinition
  · exact hdefinition
  · exact hdefinition
  · exact letBinding_forms hr _ c hc hkind
  · exact letBinding_forms hr _ c hc hkind
  · exact .ite (fun _ => letBinding_forms hr _ c hc hkind) fun _ => expression_forms hr c hc trivial
  · exact conditional_forms hr c hc hkind
  · exact forLoop_forms hr c hc hkind
  · exact whileLoop_forms hr c hc hkind
  · exact endlessLoop_forms hr c hc hkind
  · exact matching_forms hr c hc hkind
  · exact attemptCatch_forms hr c hc hkind
  · exact useModule_forms r c hc hkind
  · exact importFrom_forms r c hc hkind
  · exact sourceFile_forms c hc hkind
  · exact returnJump_forms hr c hc hkind
  · exact .alone hc hkind (Outline.leaf_mk (by decide)) rfl
  · exact .alone hc hkind (Outline.leaf_mk (by decide)) rfl
  · exact expression_forms hr c hc trivial

include hr in
/-- **A statement forms one node of all tokens that it reads.** -/
theorem statement_forms : Forms s w (fun kind => kind.isSeparator = false) (statement r) := by
  intro c hc hseparator
  refine .move ?_
  rw [Cursor.skipWhile_of_not hseparator]
  refine .peek ?_
  split
  · exact decorated_forms hr c hc trivial
  · next h => exact keywordStatement_forms hr _ c hc h
  · exact assigned_forms hr c hc trivial
  · exact expression_forms hr c hc trivial

end ShellFront.Grammar
