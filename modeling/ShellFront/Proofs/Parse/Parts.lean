import ShellFront.Parse.Statement
import ShellFront.Proofs.Parse.Actions

/-!
# Lists, parameters and patterns

The parts of the grammar that hold no statements of their own gather: both readings of them match from
anywhere. What is known of the rules that the grammar refers to is collected in `Rules.Sound`.

## Contents
- `Rules.Sound`.
- Lists of expressions, type hints and parameters.
- Patterns.
-/

namespace ShellFront

open Outlined Parse

/-- What each of the rules promises about its readings. -/
structure Rules.Sound (s : Script) (r : Rules) : Prop where
  expression : Parses s (fun _ => True) r.expression
  binary : ∀ least, Parses s (fun _ => True) (r.binary least)
  unary : Parses s (fun _ => True) r.unary
  access : Parses s (fun _ => True) r.access
  statement : Parses s (fun kind => kind.isSeparator = false) r.statement
  assigned : Parses s (fun _ => True) r.assigned
  pattern : Gathers s r.pattern

namespace Grammar

variable {s : Script} {r : Rules} (hr : r.Sound s) {c₀ : Cursor}

/-! ## Lists of expressions -/

include hr in
/-- Expressions between commas, up to a closer. -/
theorem commaValues_gathers {closer : Symbol} (hcloser : (TokenKind.symbol closer).Solid)
    (inside : Sequence) : Gathers s (commaValues r closer inside) := by
  refine .bind (.within (fun _ _ => rfl) (commaList_gathers r _ hr.expression.gathers)) fun values => ?_
  refine .bind (expect_gathers hcloser rfl) fun _ => ?_
  exact .give (.parts (by simp))

include hr in
/-- A list in square brackets opens with its bracket. -/
theorem bracketed_opens (c : Cursor) :
    From s c [] (bracketed r) fun _ c' => c.Opens c.current.span c' :=
  .opensWith trivial rfl (.stay (commaValues_gathers hr trivial _))

include hr in
/-- Expressions between brackets. -/
theorem bracketed_gathers : Gathers s (bracketed r) :=
  .of_from (bracketed_opens hr)

include hr in
/-- Expressions between parentheses. -/
theorem callArguments_gathers : Gathers s (callArguments r) :=
  .bind (expect_gathers trivial rfl) fun _ => commaValues_gathers hr trivial _

/-! ## Parameters -/

/-- What can be a name can begin something. -/
theorem isName_begins {kind : TokenKind} (h : ¬ (!kind.isName) = true) : kind.Begins :=
  TokenKind.begins_of (p := TokenKind.isName) ⟨rfl, rfl, rfl⟩ (by simpa using h)

/-- A type is a name, perhaps with a question mark. -/
theorem typeHint_gathers : Gathers s typeHint := by
  refine fun c _ => .peek ?_
  split
  · exact .fail rfl
  split
  · exact .fail rfl
  next hname _ =>
  refine .next rfl (isName_begins hname).solid ?_
  refine .accept trivial fun optional => ?_
  exact .spanFrom fun span => .give (.parts (by simp))

/-- A type after its mark, if the mark stands there. -/
theorem typeHintAfter?_gathers {mark : Symbol} (hmark : (TokenKind.symbol mark).Solid) :
    Gathers s (typeHintAfter? mark) := by
  refine .ifAccept hmark ?_ (.give (.parts (by simp)))
  exact .bind typeHint_gathers fun hint => .give (.parts (by simp))

/-- The name of a parameter, with or without its sigil. -/
theorem parameterName_gathers : Gathers s parameterName := by
  refine fun c _ => .peek ?_
  split
  · next h => exact .next h trivial (.give (.parts (by simp)))
  · next h => exact .next h trivial (.give (.parts (by simp)))
  · exact .fail rfl

include hr in
/-- What a parameter falls back to, if that is given and allowed here. -/
theorem fallback?_gathers (allowed : Bool) : Gathers s (fallback? r allowed) := by
  refine .ite (fun _ => ?_) fun _ => .give (.parts (by simp))
  refine .ifAccept trivial ?_ (.give (.parts (by simp)))
  refine .bind (.within (fun _ _ => rfl) hr.expression.gathers) fun value => ?_
  exact .give (.parts (by simp))

include hr in
/-- A parameter: its name, its type and what it falls back to. -/
theorem parameter_gathers (fallbacks : Bool) : Gathers s (parameter r fallbacks) := by
  refine fun c _ => .peek ?_
  refine (Spec.bind parameterName_gathers fun (name, sigil) => ?_ : Gathers s _) c trivial
  refine .bind (typeHintAfter?_gathers trivial) fun hint => ?_
  refine .bind (fallback?_gathers hr fallbacks) fun fallback => ?_
  refine .spanFrom fun span => .give (.node rfl (by decide) fun p hp => ?_)
  cases hint <;> simp [hp]

include hr in
/-- Parameters up to a closer. -/
theorem parameters_gathers {closer : Symbol} (hcloser : (TokenKind.symbol closer).Solid)
    (fallbacks : Bool) : Gathers s (parameters r closer fallbacks) := by
  refine .bind (commaList_gathers r _ (parameter_gathers hr fallbacks)) fun params => ?_
  refine .bind (expect_gathers hcloser rfl) fun _ => ?_
  exact .give (.parts (by simp))

/-! ## Patterns -/

/-- The literal of the current token, which is read first. One that has no value is blamed. -/
theorem literal_from {α : Type} [Outlined α] {c : Cursor} {held : List Outline} {Q : α → Cursor → Prop} {radix : Radix}
    {negative : Bool} {f : Token → Parse α} {next : Literal → Parse α} (h : c.kind = .integer radix)
    (hf : f c.current = integerLiteral c.current radix negative >>= next)
    (hnext : ∀ value, From s c.advance held (next value) Q) : From s c held (advance >>= f) Q := by
  rw [integerLiteral] at hf
  split at hf
  · exact .advance h trivial (by rw [hf, pure_bind]; exact hnext _)
  · have hread : From s c [] advance fun t _ => t = c.current := .last (.advance h trivial (.pure (.parts (by simp)) rfl))
    have hfail : ∀ t, t = c.current → ∀ ctx st, f t ctx st = failAt c.current .invalidInteger ctx st := by
      rintro t rfl ctx st
      rw [hf, bind_run, failAt_run, failAt_run]
    exact .blame (by rw [h]; rfl) (by rw [h]; nofun) hread (fun _ => rfl) (fun t _ => hfail t) rfl

/-- A number as a pattern, perhaps with a minus sign before it. -/
theorem numberPattern_from {c : Cursor} {negative : Bool} (hminus : negative = true → c.kind.Solid)
    (hnumber : (if negative then c.next.kind else c.kind).isNumber = true) :
    From s c [] (numberPattern negative) fun _ _ => True := by
  have hrest {c' : Cursor} (start : Token) (h : c'.kind.isNumber = true) :
      From s c' [] (do
        let token ← advance
        let value ← numberLiteral token negative
        return Pattern.literal (start.span.cover token.span) value) fun _ _ => True := by
    rw [Cursor.kind] at h
    cases hkind : c'.current.kind with
    | integer radix =>
        have hnumber : numberLiteral c'.current negative = integerLiteral c'.current radix negative := by
          rw [numberLiteral, hkind]
        exact literal_from hkind (congrArg (· >>= _) hnumber) fun value => .pure (.parts (by simp)) trivial
    | float =>
        refine .advance hkind trivial ?_
        rw [numberLiteral, hkind]
        exact .pure (.parts (by simp)) trivial
    | _ =>
        rw [hkind] at h
        contradiction
  refine .peek ?_
  cases negative with
  | false => exact hrest c.current hnumber
  | true =>
      have hnext := Cursor.current_advance (hminus rfl).ne_endOfInput
      exact .advance rfl (hminus rfl) (hrest c.current (by rw [Cursor.kind, hnext]; exact hnumber))

/-- What a field is bound to: a variable, or nothing. -/
theorem fieldBinding_gathers : Gathers s fieldBinding := by
  refine fun c _ => .peek ?_
  split
  · next h => exact .next h trivial (.give (.parts (by simp)))
  · next h =>
      split
      · exact .next h trivial (.give (.parts (by simp)))
      · exact .fail rfl
  · exact .fail rfl

/-- A field of a pattern, with what it is bound to. -/
theorem patternField_gathers : Gathers s patternField := by
  refine fun c _ => .peek ?_
  split
  · exact .fail rfl
  next hname =>
  have hrest (binding : Option FieldBinding) : Gathers s (do
      let span ← spanFrom c.current.span
      return PatternField.mk span ⟨c.current.span, c.current.lexeme⟩ binding) :=
    .spanFrom fun span => .give (.parts (by simp))
  refine .next rfl (isName_begins hname).solid (.ifAccept trivial ?_ (.ret (hrest none)))
  exact .bind fieldBinding_gathers fun binding => .ret (by simpa using hrest (some binding))

variable (r) in
/-- The fields of a pattern between braces. -/
theorem recordPattern_gathers : Gathers s (recordPattern r) := by
  refine .bind (expect_gathers trivial rfl) fun start => ?_
  refine .bind skipNewlines_gathers fun _ => ?_
  refine .bind (loop_gathers r rfl fun fields => ?_) fun fields => ?_
  · refine .ifCheck (.give (.parts (by simp))) ?_
    refine .bind patternField_gathers fun field => .bind skipNewlines_gathers fun _ => ?_
    refine .ifAccept trivial ?_ (.give (.parts (by simp)))
    exact .bind skipNewlines_gathers fun _ => .give (.parts (by simp))
  · refine .bind (expect_gathers trivial rfl) fun _ => ?_
    exact .spanFrom fun span => .give (.parts (by simp))

/-- What is left of a list, after its dots. -/
theorem restPattern_from {c : Cursor} (h : c.kind = .symbol .ellipsis) :
    From s c [] restPattern fun _ _ => True := by
  refine .next h trivial fun c' _ => .peek ?_
  split
  · next h => exact .next h trivial (.spanFrom fun span => .give (.parts (by simp)))
  · next h => exact .next h trivial (.spanFrom fun span => .give (.parts (by simp)))
  · exact .fail rfl

/-- A rest element is read alike in all modes. -/
theorem restPattern_steady (ctx ctx' : Context) : restPattern ctx = restPattern ctx' := by
  funext st
  rw [restPattern, bind_run, bind_run]
  simp only [Parse.advance]
  rw [bind_run, bind_run]
  simp only [Parse.peek]
  cases st.cursor.advance.current.kind <;> rfl

include hr in
/-- An element of a list pattern. What is left may be bound once. -/
theorem listElement_gathers (restSeen : Bool) : Gathers s (listElement r restSeen) := by
  refine fun c _ => .peek ?_
  split
  · next h =>
      have h : c.current.kind = .symbol .ellipsis := eq_of_beq h
      split
      · exact .blame (by rw [Cursor.kind, h]; rfl) (by rw [Cursor.kind, h]; decide) (restPattern_from h)
          (fun ctx => restPattern_steady _ _) (fun _ _ _ _ _ => rfl) rfl
      · exact .bind (restPattern_from h) fun rest c' _ => .pure (.parts (by simp)) trivial
  · exact (Spec.bind hr.pattern fun element => .give (.parts (by simp)) : Gathers s _) c trivial

include hr in
/-- The elements of a list pattern between brackets. -/
theorem listPattern_gathers : Gathers s (listPattern r) := by
  refine .bind (expect_gathers trivial rfl) fun start => ?_
  refine .bind (loop_gathers r rfl fun (elements, restSeen) => ?_) fun elements => ?_
  · refine .ifCheck (.give (.parts (by simp))) ?_
    refine .bind (listElement_gathers hr restSeen) fun (element, restSeen) => ?_
    exact .ifAccept trivial (.give (.parts (by simp))) (.give (.parts (by simp)))
  · refine .bind (expect_gathers trivial rfl) fun _ => ?_
    exact .spanFrom fun span => .give (.parts (by simp))

variable (r) in
/-- A name binds by itself, and has a type before a record pattern. -/
theorem namePattern_from {c : Cursor} (h : c.kind = .identifier) :
    From s c [] (namePattern r) fun _ _ => True := by
  refine .here (.next h trivial ?_)
  refine .ite (fun _ => .give (.parts (by simp))) fun _ => ?_
  refine .ite (fun _ => ?_) fun _ => .give (.parts (by simp))
  refine .bind (recordPattern_gathers r) fun record => ?_
  exact .spanFrom fun span => .give (.parts (by simp))

include hr in
/-- A pattern, whichever token it begins with. -/
theorem pattern_gathers : Gathers s (pattern r) := by
  refine fun c _ => .here ?_
  dsimp only
  split
  · next h =>
      split
      · next h' => exact numberPattern_from (fun _ => by rw [Cursor.kind, h]; trivial) h'
      · exact .fail rfl
  · next h => exact numberPattern_from (by simp) (by simp [Cursor.kind, h, TokenKind.isNumber])
  · next h => exact numberPattern_from (by simp) (by simp [Cursor.kind, h, TokenKind.isNumber])
  · next h => exact .next h trivial (.give (.parts (by simp)))
  · next h => exact .next h trivial (.give (.parts (by simp)))
  · next h => exact .next h trivial (.give (.parts (by simp)))
  · next h => exact .next h trivial (.give (.parts (by simp)))
  · next h => exact namePattern_from r h
  · next h => exact .next h trivial (.give (.parts (by simp)))
  · exact (Spec.bind (recordPattern_gathers r) fun record => .give (.parts (by simp)) : Gathers s _)
      c trivial
  · exact listPattern_gathers hr c trivial
  · exact .fail rfl

end Grammar

end ShellFront
