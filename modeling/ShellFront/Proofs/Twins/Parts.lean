import ShellFront.Proofs.Layout.Parts
import ShellFront.Proofs.Twins.Loops
import ShellFront.Proofs.Twins.Lookahead

/-!
# How the readings of parts tally

Lists of expressions, parameters and patterns. What is known of the rules that the grammar refers to is collected
in `Rules.Twins`.

## Contents
- `Rules.Twins`.
- Lists of expressions, type hints and parameters.
- Patterns.
-/

namespace ShellFront

open Outlined Parse
open scoped Layout

/-- The rules that two readers follow: what they read tallies. -/
structure Rules.Twins (b : Seam) (r r' : Rules) : Prop where
  neat : ∀ w, r.Neat b.script w
  fuel : r.fuel ≤ r'.fuel
  expression : Mirrors b (r.fuel - 1) (fun _ => True) r.expression r'.expression
  binary : ∀ least, Mirrors b (r.fuel - 1) (fun _ => True) (r.binary least) (r'.binary least)
  unary : Mirrors b (r.fuel - 1) (fun _ => True) r.unary r'.unary
  access : Mirrors b (r.fuel - 1) (fun _ => True) r.access r'.access
  statement : Mirrors b (r.fuel - 1) (fun kind => kind.isSeparator = false) r.statement r'.statement
  assigned : Mirrors b (r.fuel - 1) (fun _ => True) r.assigned r'.assigned
  pattern : Mirrors b (r.fuel - 1) (fun _ => True) r.pattern r'.pattern

namespace Grammar

variable {b : Seam} {r r' : Rules} (hr : r.Twins b r') {c : Cursor}

/-- A sturdy token is a mark. -/
theorem isMark_of_sturdy {kind : TokenKind} (h : kind.isSturdy = true) : kind.isMark = true := by
  refine TokenKind.isMark_iff.mpr ⟨?_, ?_⟩ <;> (rintro rfl; contradiction)

/-! ## Lists of expressions -/

include hr in
/-- Expressions between commas. The closer has to come, so there is no cut among them. -/
theorem commaValues_keeps {closer : Symbol} (inside : Sequence) : ∀ n read, Continues b r n read
    (commaValues r closer inside) (commaValues r' closer inside) (fun _ => False) fun _ c => c.ahead.length < n := by
  intro n read
  refine .part (.within (fun _ h => h) (.commaList hr.fuel rfl hr.expression)) fun values values' hvalues => ?_
  exact .mark rfl rfl fun _ _ _ => .took hvalues

include hr in
/-- Expressions between brackets. -/
theorem bracketed_mirrors : Mirrors b r.fuel (fun _ => True) (bracketed r) (bracketed r') :=
  .of_tallies fun _ hc _ => .expect hc rfl rfl fun _ _ _ => commaValues_keeps hr _ _ _

include hr in
/-- Expressions between parentheses. -/
theorem callArguments_mirrors : Mirrors b r.fuel (fun _ => True) (callArguments r) (callArguments r') :=
  .of_tallies fun _ hc _ => .expect hc rfl rfl fun _ _ _ => commaValues_keeps hr _ _ _

/-! ## Parameters -/

/-- A type is a name, and perhaps a question mark. -/
theorem typeHint_mirrors : Mirrors b r.fuel (fun _ => True) typeHint typeHint := by
  refine .of_forms typeHint_forms fun c hc hin _ => .peek hc.meets hin fun t' ht => ?_
  rw [ht.kind, ht.lexeme]
  refine .ite (fun _ => .fail hc.meets rfl) fun hname => .ite (fun _ => .fail hc.meets rfl) fun _ => ?_
  have hmark : c.kind.isMark = true := by
    refine TokenKind.isMark_iff.mpr ⟨fun h => hname ?_, fun h => hname ?_⟩ <;> (rw [Cursor.kind] at h; rw [h]; rfl)
  refine .opens hc hmark fun _ _ => .accept rfl ?_ ?_
  · exact .finish ht.place fun span span' hspan => by simp_all [Seam.Like, Viewable.view]
  · exact .finish ht.place fun span span' hspan => by simp_all [Seam.Like, Viewable.view]

/-- A type hint is there for both readers or for neither. -/
theorem typeHintAfter?_keeps {mark : Symbol} :
    Keeps b r (typeHintAfter? mark) (typeHintAfter? mark) fun _ => False :=
  fun _ => .ifAccept rfl (.node typeHint_mirrors.inner fun _ _ h => .give (congrArg some h)) (.give rfl)

/-- The name of a parameter is one token. -/
theorem parameterName_tallies (hc : b.Fresh r c) (hin : b.Inside c) :
    Tallies b c parameterName parameterName (fun _ => False) fun _ c' => c'.ahead.length < c.ahead.length := by
  refine .peek hc.meets hin fun t' ht => ?_
  rw [ht.kind, ht.payload, ht.lexeme]
  split
  · next h => exact .opens hc (by rw [Cursor.kind, h]; rfl) fun _ _ => .took rfl
  · next h => exact .opens hc (by rw [Cursor.kind, h]; rfl) fun _ _ => .took rfl
  · exact .fail hc.meets rfl

include hr in
/-- What a parameter falls back to, behind the sign for it. -/
theorem fallback?_keeps (allowed : Bool) :
    Keeps b r (fallback? r allowed) (fallback? r' allowed) fun _ => False := by
  refine fun n => .ite (fun _ => ?_) fun _ => .give rfl
  refine .ifAccept rfl ?_ (.give rfl)
  exact .node (.within (fun _ h => h) hr.expression) fun _ _ h => .give (congrArg some h)

include hr in
/-- A parameter with its type and what it falls back to. -/
theorem parameter_mirrors (fallbacks : Bool) :
    Mirrors b r.fuel (fun _ => True) (parameter r fallbacks) (parameter r' fallbacks) := by
  refine .of_forms (parameter_forms (hr.neat _) fallbacks) fun c hc hin _ => .peek hc.meets hin fun t' ht => ?_
  refine .first hc (parameterName_tallies hc hin) fun (name, sigil) (name', sigil') hname => ?_
  refine .part typeHintAfter?_keeps fun hint hint' hhint => ?_
  refine .part (fallback?_keeps hr fallbacks) fun fallback fallback' hfallback => ?_
  exact .finish ht.place fun span span' hspan => by simp_all [Seam.Like, Viewable.view]

include hr in
/-- Parameters up to a closer. -/
theorem parameters_keeps {closer : Symbol} (fallbacks : Bool) : ∀ n read, Continues b r n read
    (parameters r closer fallbacks) (parameters r' closer fallbacks) (fun _ => False)
      fun _ c => c.ahead.length < n := by
  refine fun n read => .part (.commaList hr.fuel rfl (parameter_mirrors hr fallbacks).inner) fun _ _ h => ?_
  exact .mark rfl rfl fun _ _ _ => .took h

/-! ## Patterns -/

/-- Tokens that are alike stand for the same integer, or for none. -/
theorem integerLiteral_tallies {token token' : Token} {radix : Radix} {negative : Bool} (hc : b.Meets c)
    (htoken : b.Like token token') : Tallies b c (integerLiteral token radix negative)
      (integerLiteral token' radix negative) (fun _ => False) fun _ c' => c' = c := by
  rw [integerLiteral, integerLiteral, htoken.lexeme]
  split
  · exact .pure hc rfl rfl
  · exact .failAt hc htoken rfl

/-- The same for a number of either kind. -/
theorem numberLiteral_tallies {token token' : Token} {negative : Bool} (hc : b.Meets c)
    (htoken : b.Like token token') : Tallies b c (numberLiteral token negative)
      (numberLiteral token' negative) (fun _ => False) fun _ c' => c' = c := by
  rw [numberLiteral, numberLiteral, floatLiteral, floatLiteral, htoken.kind, htoken.lexeme]
  split
  · exact integerLiteral_tallies hc htoken
  · exact .pure hc rfl rfl

/-- A number that ends a pattern. -/
theorem number_tallies {start start' : Span} {negative : Bool} (hstart : b.Like start start')
    (hc : b.Fresh r c) (hmark : c.kind.isMark = true) :
    Tallies b c (do
        let token ← advance
        let value ← numberLiteral token negative
        return Pattern.literal (start.cover token.span) value)
      (do
        let token ← advance
        let value ← numberLiteral token negative
        return Pattern.literal (start'.cover token.span) value) (fun _ => False) fun _ _ => True := by
  refine .opens hc hmark fun t' ht c₁ hc₁ => ?_
  refine .bind (numberLiteral_tallies hc₁.meets ht) fun value value' c₂ hvalue hc₂ _ _ => .pure hc₂ ?_ trivial
  have hspan := hstart.covers ht.place
  simp_all [Seam.Like, Viewable.view]

/-- A number as a pattern, perhaps with a minus sign before it. -/
theorem numberPattern_tallies {negative : Bool} (hc : b.Fresh r c) (hmark : c.kind.isMark = true)
    (hnext : negative = true → c.next.kind.isNumber = true) :
    Tallies b c (numberPattern negative) (numberPattern negative) (fun _ => False) fun _ _ => True := by
  have hend := (TokenKind.isMark_iff.mp hmark).2
  refine .peek hc.meets (Seam.inside_of_kind hc.meets.tokens hend) fun t' ht => ?_
  cases negative with
  | false => exact number_tallies ht.place hc hmark
  | true =>
      have hkind : c.advance.kind.isNumber = true := by
        rw [Cursor.kind, Cursor.current_advance hend]
        exact hnext rfl
      have hlt := (Cursor.advance_reads hc.meets.tokens hend).length_lt (by simp)
      have hpast := hc.past (hc.meets.advance_mark hmark) hlt
      exact .advance hc.meets hmark (number_tallies ht.place hpast.fresh (isMark_of_sturdy (sturdy_of_isNumber hkind)))

/-- What a field is bound to is one token. -/
theorem fieldBinding_mirrors : Mirrors b r.fuel (fun _ => True) fieldBinding fieldBinding := by
  refine .of_forms fieldBinding_forms fun c hc hin _ => .peek hc.meets hin fun t' ht => ?_
  rw [ht.kind, ht.payload, ht.lexeme]
  split
  · next h =>
      refine .opens hc (by rw [Cursor.kind, h]; rfl) fun _ _ => .give ?_
      simp_all [Seam.Like, Viewable.view]
  · next h =>
      refine .ite (fun _ => ?_) fun _ => .fail hc.meets rfl
      refine .opens hc (by rw [Cursor.kind, h]; rfl) fun _ _ => .give ?_
      simp_all [Seam.Like, Viewable.view]
  · exact .fail hc.meets rfl

/-- A field of a pattern, with what it is bound to. -/
theorem patternField_mirrors : Mirrors b r.fuel (fun _ => True) patternField patternField := by
  refine .of_forms patternField_forms fun c hc hin _ => .peek hc.meets hin fun t' ht => ?_
  rw [ht.kind]
  refine .ite (fun _ => .fail hc.meets rfl) fun hname => ?_
  have hname : c.kind.isName = true := by simpa [Cursor.kind] using hname
  refine .opens hc (isMark_of_sturdy (sturdy_of_isName hname)) fun _ _ => .ifAccept rfl ?_ (.ret ?_)
  · refine .node fieldBinding_mirrors.inner fun binding binding' hbinding => .ret ?_
    exact .finish ht.place fun span span' hspan => by simp_all [Seam.Like, Viewable.view]
  · exact .finish ht.place fun span span' hspan => by simp_all [Seam.Like, Viewable.view]

include hr in
/-- The fields of a pattern between braces. -/
theorem recordPattern_mirrors : Mirrors b r.fuel (fun _ => True) (recordPattern r) (recordPattern r') := by
  refine .of_forms (recordPattern_forms r) fun c hc hin _ => .expect hc rfl rfl fun _ t' ht => ?_
  -- past a cut, neither a field nor the closing brace comes
  have hfade (fields : Array PatternField) : Fades b (Turn.Loose True fun _ => True) (do
      if ← check (.symbol .closeBrace) then return .done fields.toList
      else
        let field ← patternField
        skipNewlines
        if ← accept (.symbol .comma) then
          skipNewlines
          return .again (fields.push field)
        else return .done (fields.push field).toList) :=
    .check rfl (.node patternField_forms)
  refine .skipNewlines (.bind (.iterate hfade _ _) fun _ _ => .mark rfl) ?_
  refine .loosely (.loop (A := True) hr.fuel (Parse.like_empty) (fun _ => hfade) fun n fields fields' hfields => ?_)
    (fun _ _ => .mark rfl) fun fields fields' hfields => .mark rfl rfl fun _ _ _ => ?_
  · refine .ifCheck rfl (.done (like_toList hfields)) (.node patternField_mirrors.inner fun field field' hfield => ?_)
    refine .skipNewlines (.accept rfl (.pure trivial)) (.ifAccept rfl ?_ (.done (like_toList (like_push hfields hfield))))
    exact .skipNewlines (.pure trivial) (.again (like_push hfields hfield))
  · exact .finish ht.place fun span span' hspan => by simp_all [Seam.Like, Viewable.view]

/-- What is left of a list: dots, and perhaps a name. -/
theorem restPattern_tallies (hc : b.Fresh r c) (hmark : c.kind.isMark = true) :
    Tallies b c restPattern restPattern (fun _ => False) fun _ c' => c'.ahead.length < c.ahead.length := by
  refine .opens hc hmark fun t' ht c₁ hc₁ => .glance hc₁.meets (fun u' hu => ?_) fun u' hu hu' => ?_
  · rw [hu.kind, hu.payload, hu.lexeme]
    split
    · next h =>
        refine .next hc₁ (by rw [Cursor.kind, h]; rfl) fun _ _ => ?_
        exact .closing ht.place fun span span' hspan => by simp_all [Seam.Like, Viewable.view]
    · next h =>
        refine .next hc₁ (by rw [Cursor.kind, h]; rfl) fun _ _ => ?_
        exact .closing ht.place fun span span' hspan => by simp_all [Seam.Like, Viewable.view]
    · exact .fail hc₁.meets rfl
  · rw [hu, hu']
    exact .fail hc₁.meets rfl

include hr in
/-- An element of a list pattern. -/
theorem listElement_mirrors (restSeen : Bool) :
    Mirrors b (r.fuel - 1) (fun _ => True) (listElement r restSeen) (listElement r' restSeen) := by
  intro c hc hfuel _
  have hpattern : Tallies b c (do return (← r.pattern, restSeen)) (do return (← r'.pattern, restSeen))
      (fun _ => False) fun _ c' => c'.ahead.length < c.ahead.length :=
    .bind (hr.pattern c hc hfuel trivial) fun p p' c₁ hp hc₁ _ hlt => .pure hc₁ (congrArg (·, restSeen) hp) hlt
  refine .glance hc (fun t' ht => ?_) fun t' ht ht' => ?_
  · rw [ht.kind]
    refine .ite (fun h => ?_) fun _ => hpattern
    have hmark : c.kind.isMark = true := by rw [Cursor.kind, eq_of_beq h]; rfl
    refine .bind (restPattern_tallies (r := r) ⟨hc, by omega⟩ hmark) fun p p' c₁ hp hc₁ _ hlt => ?_
    exact .ite (fun _ => .failAt hc₁ ht rfl) fun _ => .pure hc₁ (congrArg (·, true) hp) hlt
  · rw [ht, ht']
    exact hpattern

include hr in
/-- The elements of a list pattern between brackets. -/
theorem listPattern_mirrors : Mirrors b r.fuel (fun _ => True) (listPattern r) (listPattern r') := by
  refine .of_forms (listPattern_forms (hr.neat _)) fun c hc hin _ => .expect hc rfl rfl fun _ t' ht => ?_
  have hnone : b.Like ((#[], false) : Array Pattern × Bool) (#[], false) := congrArg (·, false) like_empty
  refine .part (.loop (A := False) hr.fuel hnone (fun h => h.elim) ?_) fun elements elements' helements => ?_
  · rintro n ⟨elements, seen⟩ ⟨elements', seen'⟩ hlike
    obtain ⟨helements, rfl⟩ := Prod.mk.inj hlike
    refine .ifCheck rfl (.done (like_toList helements)) (.node (listElement_mirrors hr seen) ?_)
    rintro ⟨element, seen⟩ ⟨element', seen'⟩ hlike
    obtain ⟨helement, rfl⟩ := Prod.mk.inj hlike
    refine .ifAccept rfl (.again ?_) (.done (like_toList (like_push helements helement)))
    exact congrArg (·, seen) (like_push helements helement)
  · refine .mark rfl rfl fun _ _ _ => .finish ht.place fun span span' hspan => ?_
    simp_all [Seam.Like, Viewable.view]

include hr in
/-- A name, perhaps with a record pattern after it. -/
theorem namePattern_tallies (hc : b.Fresh r c) (h : c.kind = .identifier) :
    Tallies b c (namePattern r) (namePattern r') (fun _ => False) fun _ _ => True := by
  have hmark : c.kind.isMark = true := by rw [h]; rfl
  have hend := (TokenKind.isMark_iff.mp hmark).2
  have hlike := (Seam.inside_of_kind hc.meets.tokens hend).current hc.meets.tokens
  have hbrace := Seam.next_agrees (p := (· == .symbol .openBrace)) hc.meets hmark rfl
  refine .here (.opens hc hmark fun _ _ => ?_)
  rw [hlike.lexeme, hbrace]
  refine .ite (fun _ => .give ?_) fun _ => .ite (fun _ => ?_) fun _ => .give ?_
  · simp_all [Seam.Like, Viewable.view]
  · refine .node (recordPattern_mirrors hr).inner fun record record' hrecord => ?_
    exact .finish hlike.place fun span span' hspan => by simp_all [Seam.Like, Viewable.view]
  · simp_all [Seam.Like, Viewable.view]

include hr in
/-- A pattern, by its first token. -/
theorem pattern_mirrors : Mirrors b r.fuel (fun _ => True) (pattern r) (pattern r') := by
  refine .of_forms (pattern_forms (hr.neat _)) fun c hc hin _ => .here ?_
  have hlike := hin.current hc.meets.tokens
  dsimp only
  rw [hlike.kind, hlike.payload]
  have hliteral {value value' : Literal} (hmark : c.kind.isMark = true) (hvalue : value = value') :
      Tallies b c (do
        let _ ← advance
        return Pattern.literal c.current.span value)
      (do
        let _ ← advance
        return Pattern.literal (b.image c).current.span value') (fun _ => False) fun _ _ => True := by
    refine .opens hc hmark fun _ _ => .give ?_
    simp_all [Seam.Like, Viewable.view]
  split
  · next h =>
      have hmark : c.kind.isMark = true := by rw [Cursor.kind, h]; rfl
      -- a minus sign looks whether a number follows, and finds the same in both readings
      rw [Seam.next_agrees (p := TokenKind.isNumber) hc.meets hmark rfl]
      exact .ite (fun hnext => numberPattern_tallies hc hmark fun _ => hnext) fun _ => .fail hc.meets rfl
  · next h => exact numberPattern_tallies hc (by rw [Cursor.kind, h]; rfl) fun h => absurd h Bool.false_ne_true
  · next h => exact numberPattern_tallies hc (by rw [Cursor.kind, h]; rfl) fun h => absurd h Bool.false_ne_true
  · next h => exact hliteral (by rw [Cursor.kind, h]; rfl) rfl
  · next h => exact hliteral (by rw [Cursor.kind, h]; rfl) rfl
  · next h => exact hliteral (by rw [Cursor.kind, h]; rfl) rfl
  · next h => exact hliteral (by rw [Cursor.kind, h]; rfl) rfl
  · next h => exact namePattern_tallies hr hc h
  · next h =>
      refine .opens hc (by rw [Cursor.kind, h]; rfl) fun _ _ => .give ?_
      simp_all [Seam.Like, Viewable.view]
  · refine .node hc trivial (recordPattern_mirrors hr) fun record record' hrecord => .give ?_
    simp_all [Seam.Like, Viewable.view]
  · exact .imp (listPattern_mirrors hr c hc.meets hc.fuel trivial) fun _ _ _ => trivial
  · exact .fail hc.meets rfl

end Grammar

end ShellFront
