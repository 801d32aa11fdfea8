import ShellFront.Parse.Statement
import ShellFront.Proofs.Layout.Actions

/-!
# How parts are laid out

Lists of expressions, parameters and patterns. What the rules that the grammar refers to form is collected in
`Rules.Neat`.

## Contents
- `Rules.Neat`.
- Lists of expressions, type hints and parameters.
- Patterns.
-/

namespace ShellFront

open Outlined Parse
open scoped Layout

/-- What each of the rules forms. -/
structure Rules.Neat (s : Script) (w : Watch) (r : Rules) : Prop where
  expression : Forms s w (fun _ => True) r.expression
  binary : ∀ least, Forms s w (fun _ => True) (r.binary least)
  unary : Forms s w (fun _ => True) r.unary
  access : Forms s w (fun _ => True) r.access
  statement : Forms s w (fun kind => kind.isSeparator = false) r.statement
  assigned : Forms s w (fun _ => True) r.assigned
  pattern : Forms s w (fun _ => True) r.pattern

namespace Grammar

variable {s : Script} {w : Watch} {r : Rules} (hr : r.Neat s w) {c c₀ : Cursor} {P : Cursor → Prop}
  {firm : Bool} {stack : List Symbol} {held : List Outline}

/-! ## Lists of expressions -/

include hr in
theorem commaValues_goes [Stable s P] {opener closer : Symbol} (hpartner : opener.partner? = some closer)
    (inside : Sequence) : Goes s w c₀ P firm (opener :: stack) held (commaValues r closer inside)
      fun values c => c₀.Trail s w true stack (held ++ shown values) c ∧ P c := by
  refine .bind (.within (fun _ h => h) (.commaList r _ hr.expression.lays)) fun values => ?_
  exact .closer hpartner fun _ c htrail hP => .pure ⟨htrail, hP⟩

include hr in
/-- A list in square brackets opens with its bracket. -/
theorem bracketed_does (hc : c.tokens = s.tokens) : Does s w c c (bracketed r) fun elements c' =>
    c.Trail s w true [] (shown elements) c' ∧ c.Opens c.current.span c' :=
  .opensWith hc rfl (commaValues_goes hr rfl _)

include hr in
theorem bracketed_lays : Lays s w true (bracketed r) :=
  fun _ hc => .imp (bracketed_does hr hc) fun _ _ h => h.1

include hr in
theorem callArguments_lays : Lays s w true (callArguments r) :=
  .of_goes fun _ => .opener rfl fun _ => .imp (commaValues_goes hr rfl _) fun _ _ h => h.1

/-! ## Parameters -/

theorem sturdy_of_isName {kind : TokenKind} (h : kind.isName = true) : kind.isSturdy = true := by
  cases kind with
  | identifier | keyword => rfl
  | _ => contradiction

theorem typeHint_forms : Forms s w (fun _ => True) typeHint := by
  refine fun c hc _ => .peek ?_
  split
  · exact .fail (.refl c)
  split
  · exact .fail (.refl c)
  next hname _ =>
  have hkind : c.kind.isSturdy = true := sturdy_of_isName (by simpa [Cursor.kind] using hname)
  refine .opens hc hkind (.accept rfl ?_ ?_)
  · exact .finish (fun _ => rfl) (by decide) rfl fun _ => rfl
  · exact .finish (fun _ => rfl) (by decide) rfl fun _ => rfl

/-- The mark before a type hint may call for more; the hint is what it calls for. -/
theorem typeHintAfter?_lays {mark : Symbol} (hmark : (TokenKind.symbol mark).isInert = true) :
    Lays s w true (typeHintAfter? mark) := by
  refine .of_goes fun c₀ => .ifAccept hmark ?_ (.give (by simp) id)
  exact .node typeHint_forms fun hint => .give (by simp) id

theorem parameterName_does (hc : c.tokens = s.tokens) : Does s w c c parameterName fun _ c' =>
    c.Trail s w true [] [] c' ∧ c.Opens c.current.span c' := by
  refine .peek ?_
  split
  · next h =>
      refine .opens hc (by rw [Cursor.kind, h]; rfl) fun c' htrail hopens => ?_
      exact .pure ⟨htrail, hopens⟩
  · next h =>
      refine .opens hc (by rw [Cursor.kind, h]; rfl) fun c' htrail hopens => ?_
      exact .pure ⟨htrail, hopens⟩
  · exact .fail (.refl c)

include hr in
theorem fallback?_lays (allowed : Bool) : Lays s w true (fallback? r allowed) := by
  refine .of_goes fun c₀ => .ite (fun _ => ?_) fun _ => .give (by simp) id
  refine .ifAccept rfl ?_ (.give (by simp) id)
  exact .node (.within (fun _ h => h) hr.expression) fun value => .give (by simp) id

include hr in
theorem parameter_forms (fallbacks : Bool) : Forms s w (fun _ => True) (parameter r fallbacks) := by
  refine fun c hc _ => .peek (.follow (parameterName_does hc) fun _ c' h => ?_)
  refine Goes.bind (typeHintAfter?_lays rfl) (fun hint => ?_) c' h.1 h.2
  refine .bind (fallback?_lays hr fallbacks) fun fallback => ?_
  exact .finish (fun _ => rfl) (by decide) rfl (by simp)

include hr in
/-- Parameters between parentheses. -/
theorem parameters_goes [Stable s P] (fallbacks : Bool) :
    Goes s w c₀ P firm (.openParen :: stack) held (parameters r .closeParen fallbacks)
      fun params c => c₀.Trail s w true stack (held ++ shown params) c ∧ P c := by
  refine .bind (.commaList r _ (parameter_forms hr fallbacks).lays) fun params => ?_
  exact .closer rfl fun _ c htrail hP => .pure ⟨htrail, hP⟩

include hr in
/-- Parameters up to a bar. -/
theorem barParameters_lays (fallbacks : Bool) : Lays s w false (parameters r .pipe fallbacks) := by
  refine .of_goes fun c₀ => .bind (.commaList r _ (parameter_forms hr fallbacks).lays) fun params => ?_
  exact .mark rfl fun _ => .give (by simp) nofun

/-! ## Patterns -/

/-- A number that was read is not read again. -/
theorem integerLiteral_does {token : Token} {radix : Radix} {negative : Bool} :
    Does s w c c (integerLiteral token radix negative) fun _ c' => c' = c := by
  unfold integerLiteral
  split
  · exact .pure rfl
  · exact .failAt (.refl c)

theorem numberLiteral_does {token : Token} {negative : Bool} :
    Does s w c c (numberLiteral token negative) fun _ c' => c' = c := by
  unfold numberLiteral
  split
  · exact integerLiteral_does
  · exact .pure rfl

theorem sturdy_of_isNumber {kind : TokenKind} (h : kind.isNumber = true) : kind.isSturdy = true := by
  cases kind with
  | integer | float => rfl
  | _ => contradiction

/-- A literal has the place of its pattern. -/
theorem formed_literal {span : Span} {value : Literal} (h : c₀.Trail s w true [] [] c)
    (hspans : c₀.Spans span c) : c₀.Formed s w (shown (Pattern.literal span value)) c := by
  have hvalue : c₀.Formed s w [value.outline span] c := by
    cases value <;> exact h.formed hspans (by decide)
  exact hvalue.trail.formed hspans (by decide)

/-- A number that ends a pattern. -/
theorem number_does {start : Span} {negative : Bool} (htrail : c₀.Trail s w firm [] [] c)
    (hnumber : c.kind.isNumber = true) (hopens : c₀.Opens start c.advance) :
    Does s w c₀ c (do
        let token ← advance
        let value ← numberLiteral token negative
        return Pattern.literal (start.cover token.span) value) fun p c' => c₀.Formed s w (shown p) c' := by
  have hsturdy := sturdy_of_isNumber hnumber
  have hinert := TokenKind.inert_of_sturdy hsturdy
  have hnext := htrail.inert hinert
  rw [TokenKind.firm_of_sturdy hsturdy] at hnext
  have hspans := hopens.spans hnext.tokens
  rw [Cursor.advance_previous htrail.tokens (TokenKind.ne_endOfInput_of_inert hinert)] at hspans
  refine .advance (.bind hnext.strays numberLiteral_does fun value c' h => .pure ?_)
  rw [h]
  exact formed_literal hnext hspans

/-- A number as a pattern, perhaps with a minus sign before it. -/
theorem numberPattern_does {negative : Bool} (hc : c.tokens = s.tokens)
    (hminus : negative = true → c.kind = .symbol .minus)
    (hnumber : (if negative then c.next.kind else c.kind).isNumber = true) :
    Does s w c c (numberPattern negative) fun p c' => c.Formed s w (shown p) c' := by
  refine .peek ?_
  cases negative with
  | false =>
      have hinert := TokenKind.inert_of_sturdy (sturdy_of_isNumber hnumber)
      exact number_does (.nil hc) hnumber (Cursor.advance_spans hc (TokenKind.begins_of_inert hinert)).toOpens
  | true =>
      have hkind := hminus rfl
      have hsturdy : c.kind.isSturdy = true := by rw [hkind]; rfl
      have hnext : c.advance.kind.isNumber = true := by
        rw [Cursor.kind, Cursor.current_advance (by rw [hkind]; decide)]
        exact hnumber
      have hend := TokenKind.ne_endOfInput_of_inert (TokenKind.inert_of_sturdy (sturdy_of_isNumber hnext))
      have hinert := TokenKind.inert_of_sturdy hsturdy
      have htrail := (Cursor.Trail.nil (w := w) hc).inert hinert
      have hspans := Cursor.advance_spans hc (TokenKind.begins_of_inert hinert)
      have hopens := hspans.toOpens.reach htrail.tokens (Cursor.advance_reads htrail.tokens hend).reaches
      exact .advance (number_does htrail hnext hopens)

/-- A literal of one token as a pattern. -/
theorem literalPattern_does {value : Literal} (hc : c.tokens = s.tokens) (hkind : c.kind.isSturdy = true) :
    Does s w c c (do
        let _ ← advance
        return Pattern.literal c.current.span value) fun p c' => c.Formed s w (shown p) c' := by
  have hinert := TokenKind.inert_of_sturdy hkind
  have htrail := (Cursor.Trail.nil (w := w) hc).inert hinert
  rw [TokenKind.firm_of_sturdy hkind] at htrail
  exact .advance (.pure (formed_literal htrail (Cursor.advance_spans hc (TokenKind.begins_of_inert hinert))))

theorem fieldBinding_forms : Forms s w (fun _ => True) fieldBinding := by
  refine fun c hc _ => .peek ?_
  split
  · next h => exact .alone hc (by rw [Cursor.kind, h]; rfl) (Ident.variableOutline_leaf ⟨_, c.current.payload⟩) rfl
  · next h =>
      split
      · exact .alone hc (by rw [Cursor.kind, h]; rfl) (Outline.leaf_mk (by decide)) rfl
      · exact .fail (.refl c)
  · exact .fail (.refl c)

theorem patternField_forms : Forms s w (fun _ => True) patternField := by
  refine fun c hc _ => .peek ?_
  split
  · exact .fail (.refl c)
  next hname =>
  have hrest (binding : Option FieldBinding) : Goes s w c (c.Opens c.current.span) true []
      ([(Ident.mk c.current.span c.current.lexeme).outline] ++ shown binding) (do
        let span ← spanFrom c.current.span
        return PatternField.mk span ⟨c.current.span, c.current.lexeme⟩ binding)
      fun f c' => c.Formed s w (shown f) c' :=
    .finish (fun _ => rfl) (by decide) rfl (by simp)
  have hkind : c.kind.isSturdy = true := sturdy_of_isName (by simpa [Cursor.kind] using hname)
  refine .opensLeaf hc hkind (Ident.outline_leaf ⟨_, c.current.lexeme⟩) ?_
  refine .ifAccept rfl ?_ (.ret (hrest none))
  exact .node fieldBinding_forms fun binding => .ret (by simpa using hrest (some binding))

variable (r) in
theorem recordPattern_forms : Forms s w (fun _ => True) (recordPattern r) := by
  refine fun c hc _ => .opensWith hc rfl (.bind skipNewlines_lays fun _ => ?_)
  refine .bind (.loop r false rfl fun c₀ fields => ?_) fun fields => ?_
  · refine .ifCheck (.give (by simp) nofun) ?_
    refine .node patternField_forms fun field => .bind skipNewlines_lays fun _ => ?_
    refine .ifAccept rfl ?_ (.give (by simp) nofun)
    exact .bind skipNewlines_lays fun _ => .give (by simp) nofun
  · exact .closer rfl fun _ => .finish (fun _ => rfl) (by decide) rfl (by simp)

theorem restPattern_does (hc : c.tokens = s.tokens) (h : c.kind = .symbol .ellipsis) :
    Does s w c c restPattern fun p c' => c.Formed s w (shown p) c' := by
  refine .opens hc (by rw [h]; rfl) fun c' htrail hopens => .peek ?_
  split
  · next h => exact .next htrail hopens h rfl (.finish (fun _ => rfl) (by decide) rfl fun _ => rfl)
  · next h => exact .next htrail hopens h rfl (.finish (fun _ => rfl) (by decide) rfl fun _ => rfl)
  · exact .fail htrail.strays

include hr in
theorem listElement_lays (restSeen : Bool) : Lays s w true (listElement r restSeen) := by
  refine fun c hc => .peek ?_
  split
  · next h =>
      refine .bind (.refl c) (restPattern_does hc (eq_of_beq h)) fun rest c' hformed => ?_
      refine .ite (fun _ => .failAt hformed.trail.strays) fun _ => .pure ?_
      simpa using hformed.trail
  · refine .bind (.refl c) (hr.pattern c hc trivial) fun element c' hformed => .pure ?_
    simpa using hformed.trail

include hr in
theorem listPattern_forms : Forms s w (fun _ => True) (listPattern r) := by
  refine fun c hc _ => .opensWith hc rfl ?_
  refine .bind (.loop r true rfl fun c₀ (elements, restSeen) => ?_) fun elements => ?_
  · refine .ifCheck (.give (by simp) id) (.bind (listElement_lays hr restSeen) fun (element, restSeen) => ?_)
    exact .ifAccept rfl (.give (by simp) fun _ => rfl) (.give (by simp) id)
  · exact .closer rfl fun _ => .finish (fun _ => rfl) (by decide) rfl (by simp)

variable (r) in
theorem namePattern_does (hc : c.tokens = s.tokens) (h : c.kind = .identifier) :
    Does s w c c (namePattern r) fun p c' => c.Formed s w (shown p) c' := by
  have hsturdy : c.kind.isSturdy = true := by rw [h]; rfl
  have hname := (Cursor.Trail.nil (w := w) hc).leaf (TokenKind.inert_of_sturdy hsturdy)
    (Ident.outline_leaf ⟨c.current.span, c.current.lexeme⟩)
  have hopens := (Cursor.advance_spans hc (h ▸ trivial : c.kind.Begins)).toOpens
  refine .here (.advance (.ite (fun _ => .pure ?_) fun _ => .ite (fun _ => ?_) fun _ => .pure ?_))
  · exact Cursor.formed_leaf hc hsturdy (Outline.leaf_mk (by decide))
  · refine Goes.node (recordPattern_forms r) (fun record => ?_) c.advance hname hopens
    exact .finish (fun _ => rfl) (by decide) rfl (by simp)
  · exact Cursor.formed_leaf hc hsturdy (Outline.leaf_mk (by decide))

include hr in
theorem pattern_forms : Forms s w (fun _ => True) (pattern r) := by
  refine fun c hc _ => .here ?_
  dsimp only
  split
  · next h =>
      split
      · next h' => exact numberPattern_does hc (fun _ => h) h'
      · exact .fail (.refl c)
  · next h => exact numberPattern_does hc nofun (by rw [Cursor.kind, h]; rfl)
  · next h => exact numberPattern_does hc nofun (by rw [Cursor.kind, h]; rfl)
  · next h => exact literalPattern_does hc (by rw [Cursor.kind, h]; rfl)
  · next h => exact literalPattern_does hc (by rw [Cursor.kind, h]; rfl)
  · next h => exact literalPattern_does hc (by rw [Cursor.kind, h]; rfl)
  · next h => exact literalPattern_does hc (by rw [Cursor.kind, h]; rfl)
  · next h => exact namePattern_does r hc h
  · next h => exact .alone hc (by rw [Cursor.kind, h]; rfl) (Outline.leaf_mk (by decide)) rfl
  · refine .bind (.refl c) (recordPattern_forms r c hc trivial) fun record c' hformed => .pure hformed
  · exact listPattern_forms hr c hc trivial
  · exact .fail (.refl c)

end Grammar

end ShellFront
