import ShellFront.Proofs.Layout.Statements
import ShellFront.Proofs.Twins.Expressions

/-!
# How statements tally

Each kind of statement, read in a script and in its twin. Only three of them look past line breaks for a keyword:
the branches of a conditional, which are not what follows a cut, and the handler of errors, without which the
statement is not complete.

## Contents
- Bindings and control flow.
- Decorators and definitions.
- Modules and jumps.
- `statement_mirrors`.
-/

namespace ShellFront.Grammar

open Outlined Parse
open scoped Layout

variable {b : Seam} {r r' : Rules} (hr : r.Twins b r') {c : Cursor} {n : Nat} {read : Bool}

/-- A name is read where it stands, in both readings or in none. -/
theorem ident_mirrors (what : Named) : Mirrors b r.fuel (fun _ => True) (ident what) (ident what) := by
  refine .of_forms (ident_forms what) fun c hc hin _ => .expect hc rfl rfl fun _ t' ht => .give ?_
  simp_all [Seam.Like, Viewable.view]

/-- So is a string. -/
theorem stringToken_mirrors (problem : Problem) (hshallow : problem.isShallow = true) :
    Mirrors b r.fuel (fun _ => True) (stringToken problem) (stringToken problem) := by
  refine .of_forms (stringToken_forms problem) fun c hc hin _ => .peek hc.meets hin fun t' ht => ?_
  rw [ht.kind, ht.payload]
  split
  · next h =>
      refine .opens hc (by rw [Cursor.kind, h]; rfl) fun _ _ => .give ?_
      simp_all [Seam.Like, Viewable.view]
  · exact .fail hc.meets hshallow

/-! ## Bindings and assignments -/

/-- The end of a script is no sign of an assignment. -/
theorem isMark_of_isAssignment {kind : TokenKind} (h : kind.isAssignment = true) : kind.isMark = true := by
  refine TokenKind.isMark_iff.mpr ⟨?_, ?_⟩ <;> (rintro rfl; contradiction)

include hr in
/-- The look for an assignment goes one token ahead; it sees the same as long as the first token is a variable. -/
theorem assigned_mirrors : Mirrors b r.fuel (fun _ => True) (assigned r) (assigned r') := by
  refine .of_forms (assigned_forms (hr.neat _)) fun c hc hin _ => .here ?_
  rw [Seam.assignmentAhead_image hc.meets]
  refine .ite (fun hahead => ?_) fun _ => (expression_mirrors hr).tallies hc.meets hc.fuel trivial
  simp only [assignmentAhead, Bool.and_eq_true, beq_iff_eq] at hahead
  have hmark : c.kind.isMark = true := by rw [hahead.1]; rfl
  have hend := (TokenKind.isMark_iff.mp hmark).2
  have ht := hin.current hc.meets.tokens
  have hlt := (Cursor.advance_reads hc.meets.tokens hend).length_lt (by simp)
  have hpast := hc.past (hc.meets.advance_mark hmark) hlt
  have hoperator : c.advance.kind.isMark = true := by
    rw [Cursor.kind, Cursor.current_advance hend]
    exact isMark_of_isAssignment hahead.2
  refine .advance hc.meets hmark (.next hpast hoperator fun o' ho => .node hr.assigned fun value value' hvalue => ?_)
  have hsame : assignmentOperator o' = assignmentOperator c.advance.current := by
    rw [assignmentOperator, assignmentOperator, ho.kind]
  rw [hsame, ht.payload]
  have hplace := ht.place
  exact .finish ht.place fun span span' hspan => by simp_all [Seam.Like, Viewable.view]

include hr in
/-- A binding needs a name and a sign before its value, so it cannot end at a cut. -/
theorem letBinding_mirrors (keyword : Keyword) :
    Mirrors b r.fuel (fun kind => kind.isSturdy = true) (letBinding r keyword) (letBinding r' keyword) := by
  refine .of_forms (letBinding_forms (hr.neat _) keyword) fun c hc hin hkind => ?_
  refine .opens hc (isMark_of_sturdy hkind) fun t' ht => ?_
  rw [ht.lexeme]
  refine .mark rfl rfl fun name name' hname => .mark rfl rfl fun _ _ _ => .node hr.assigned fun value value' hvalue => ?_
  have hplace := hname.place
  have hlexeme := hname.lexeme
  exact .finish ht.place fun span span' hspan => by simp_all [Seam.Like, Viewable.view]

/-! ## Control flow -/

include hr in
theorem condition_mirrors : Mirrors b (r.fuel - 1) (fun _ => True) (condition r) (condition r') :=
  .within (fun _ h => h) hr.expression

/-- **A keyword past line breaks is there for both readers or for neither.** At a cut, it is not. -/
theorem acceptPastNewlines_continues {α : Type} [Viewable α] {k : Keyword} {f f' : Option Token → Parse α}
    {L : α → Prop} {Q : α → Cursor → Prop} (hk : k = .elifKw ∨ k = .elseKw)
    (hno : Continues b r n read (f none) (f' none) L Q)
    (hyes : ∀ t t', b.Like t t' → Continues b r n true (f (some t)) (f' (some t')) L Q) :
    Continues b r n read (acceptPastNewlines k >>= f) (acceptPastNewlines k >>= f') L Q := by
  intro c hc
  rw [acceptPastNewlines, bind_assoc, bind_assoc]
  refine .here ?_
  rcases Seam.skipWhile_inside_or_spent hc.meets.tokens with hin | hspent
  · rw [hin.significant hc.meets.tokens]
    split
    · next h =>
        simp only [bind_assoc, pure_bind]
        have hle := Cursor.length_ahead_skipWhile (· == .newline) c
        have hskipped := hc.meets.skipWhile hin
        refine .move hskipped hle (Seam.image_skipWhile hc.meets.tokens hin) ?_
        have hmark : (c.skipWhile (· == .newline)).kind.isMark = true := by
          have h : (c.skipWhile (· == .newline)).kind = .keyword k := eq_of_beq h
          rw [h]
          rfl
        exact .next (hc.further hskipped hle) hmark fun t' ht => hyes _ _ ht
    · exact .ret (hno c hc)
  · -- only line breaks are left of the script; what follows it begins with neither keyword
    have hnone : ¬ (c.significant.kind == .keyword k) = true := by
      rw [hspent.significant, beq_iff_eq]
      exact TokenKind.noConfusion
    have hnone' : ¬ ((b.image c).significant.kind == .keyword k) = true := by
      obtain ⟨helif, helse⟩ := hspent.clear
      rw [beq_iff_eq]
      rcases hk with rfl | rfl
      · exact helif
      · exact helse
    rw [if_neg hnone, if_neg hnone']
    exact .ret (hno c hc)

include hr in
/-- A further branch is looked for behind line breaks. No other script begins with one, so it is not found past a
    cut. -/
theorem elseIf?_continues :
    Continues b r n false (elseIf? r) (elseIf? r') (Loose False False) (Takes n) := by
  refine acceptPastNewlines_continues (.inl rfl) .noItem fun t t' ht => ?_
  refine .node (condition_mirrors hr) fun test test' htest => .node (block_mirrors hr).inner fun body body' hbody => ?_
  exact .spanFrom ht.place fun span span' hspan => .item (by simp_all [Seam.Like, Viewable.view])

include hr in
/-- So is the last branch. -/
theorem elseBlock?_keeps : Keeps b r (elseBlock? r) (elseBlock? r') fun _ => False := by
  refine fun n => acceptPastNewlines_continues (.inr rfl) (.give rfl) fun _ _ _ => ?_
  exact .node (block_mirrors hr).inner fun body body' hbody => .give (like_some hbody)

include hr in
/-- A conditional with all its branches. -/
theorem conditional_mirrors :
    Mirrors b r.fuel (fun kind => kind.isSturdy = true) (conditional r) (conditional r') := by
  refine .of_forms (conditional_forms (hr.neat _)) fun c hc hin hkind => ?_
  refine .opens hc (isMark_of_sturdy hkind) fun t' ht => .node (condition_mirrors hr) fun test test' htest => ?_
  refine .node (block_mirrors hr).inner fun body body' hbody => ?_
  refine .part (.collect (A := False) hr.fuel (fun h => h.elim) fun n => elseIf?_continues hr) ?_
  refine fun elseIfs elseIfs' helseIfs => .part (elseBlock?_keeps hr) fun elseBody elseBody' helseBody => ?_
  exact .finish ht.place fun span span' hspan => by simp_all [Seam.Like, Viewable.view]

/-- The variable of a loop is one token. -/
theorem loopVariable_mirrors : Mirrors b r.fuel (fun _ => True) loopVariable loopVariable := by
  refine .of_forms loopVariable_forms fun c hc hin _ => .peek hc.meets hin fun t' ht => ?_
  rw [ht.kind, ht.payload, ht.lexeme]
  split
  · next h =>
      refine .opens hc (by rw [Cursor.kind, h]; rfl) fun _ _ => .give ?_
      simp_all [Seam.Like, Viewable.view]
  · next h =>
      refine .opens hc (by rw [Cursor.kind, h]; rfl) fun _ _ => .give ?_
      simp_all [Seam.Like, Viewable.view]
  · exact .fail hc.meets rfl

include hr in
/-- A `for` has its body between braces, and the other parts before it. -/
theorem forLoop_mirrors : Mirrors b r.fuel (fun kind => kind.isSturdy = true) (forLoop r) (forLoop r') := by
  refine .of_forms (forLoop_forms (hr.neat _)) fun c hc hin hkind => ?_
  refine .opens hc (isMark_of_sturdy hkind) fun t' ht => .node loopVariable_mirrors.inner fun element element' helement => ?_
  refine .mark rfl rfl fun _ _ _ => .node (condition_mirrors hr) fun iterable iterable' hiterable => ?_
  refine .node (block_mirrors hr).inner fun body body' hbody => ?_
  exact .finish ht.place fun span span' hspan => by simp_all [Seam.Like, Viewable.view]

include hr in
/-- So has a `while`. -/
theorem whileLoop_mirrors :
    Mirrors b r.fuel (fun kind => kind.isSturdy = true) (whileLoop r) (whileLoop r') := by
  refine .of_forms (whileLoop_forms (hr.neat _)) fun c hc hin hkind => ?_
  refine .opens hc (isMark_of_sturdy hkind) fun t' ht => .node (condition_mirrors hr) fun test test' htest => ?_
  refine .node (block_mirrors hr).inner fun body body' hbody => ?_
  exact .finish ht.place fun span span' hspan => by simp_all [Seam.Like, Viewable.view]

include hr in
theorem endlessLoop_mirrors :
    Mirrors b r.fuel (fun kind => kind.isSturdy = true) (endlessLoop r) (endlessLoop r') := by
  refine .of_forms (endlessLoop_forms (hr.neat _)) fun c hc hin hkind => ?_
  refine .opens hc (isMark_of_sturdy hkind) fun t' ht => .node (block_mirrors hr).inner fun body body' hbody => ?_
  exact .finish ht.place fun span span' hspan => by simp_all [Seam.Like, Viewable.view]

include hr in
/-- The guard of an arm, if the mark for it stands there. -/
theorem guard?_keeps : Keeps b r (guard? r) (guard? r') fun _ => False :=
  fun _ => .ifAccept rfl (.node hr.expression fun _ _ hvalue => .give (like_some hvalue)) (.give rfl)

include hr in
/-- What an arm results in begins with a brace or is an expression. -/
theorem armBody_mirrors : Mirrors b (r.fuel - 1) (fun _ => True) (armBody r) (armBody r') := by
  refine .of_forms_lt (armBody_forms (hr.neat _)) fun c hc hfuel hin _ => .here ?_
  have hsame : ((b.image c).kind == .symbol .openBrace && !Cursor.recordShaped (b.image c).ahead) =
      (c.kind == .symbol .openBrace && !Cursor.recordShaped c.ahead) := by
    rw [hin.kind hc.tokens]
    cases h : c.kind == .symbol .openBrace with
    | false => rfl
    | true => rw [Seam.recordShaped_image hc (eq_of_beq h)]
  rw [hsame]
  refine .ite (fun _ => ?_) fun _ => ?_
  · refine .bind ((block_mirrors hr).inner c hc hfuel trivial) fun body body' c₁ hbody hc₁ _ _ => ?_
    exact .pure hc₁ (congrArg ArmBody.block hbody) trivial
  · refine .bind (hr.expression c hc hfuel trivial) fun value value' c₁ hvalue hc₁ _ _ => ?_
    exact .pure hc₁ (congrArg ArmBody.value hvalue) trivial

include hr in
theorem matchArm_mirrors : Mirrors b (r.fuel - 1) (fun _ => True) (matchArm r) (matchArm r') := by
  refine .of_forms_lt (matchArm_forms (hr.neat _)) fun c hc hfuel hin _ => .peek hc hin fun t' ht => ?_
  have hfresh : b.Fresh r c := ⟨hc, by omega⟩
  refine .first hfresh (hr.pattern c hc hfuel trivial) fun shape shape' hshape => ?_
  refine .part (guard?_keeps hr) fun guard guard' hguard => .mark rfl rfl fun _ _ _ => ?_
  refine .skipNewlines (.node (armBody_forms (hr.neat _))) (.node (armBody_mirrors hr) fun body body' hbody => ?_)
  exact .finish ht.place fun span span' hspan => by simp_all [Seam.Like, Viewable.view]

include hr in
/-- A further arm. The brace that closes the arms stands in the script, so there is no cut among them. -/
theorem matchArm?_continues :
    Continues b r n false (matchArm? r) (matchArm? r') (Loose False False) (Takes n) := by
  refine .skipSeparators (.check rfl (.node (matchArm_forms (hr.neat _)))) (.ifCheck rfl .noItem ?_)
  refine .node (matchArm_mirrors hr) fun arm arm' harm => .ifAccept rfl (.item harm) fun c hc => ?_
  by_cases hin : b.Inside c
  · refine .peek hc.meets hin fun t' ht => ?_
    rw [ht.kind]
    exact .ite (fun _ => Continues.item harm c hc) fun _ => .fail hc.meets rfl
  · refine .of_fades (hc.meets.lost hin) (.peek fun t ht => ?_)
    rw [ht]
    exact .fail

include hr in
/-- A `match` with all its arms. -/
theorem matching_mirrors : Mirrors b r.fuel (fun kind => kind.isSturdy = true) (matching r) (matching r') := by
  refine .of_forms (matching_forms (hr.neat _)) fun c hc hin hkind => ?_
  refine .opens hc (isMark_of_sturdy hkind) fun t' ht => .node (condition_mirrors hr) fun subject subject' hsubject => ?_
  refine .mark rfl rfl fun _ _ _ => .part (.within (fun _ h => h) (.collect (A := False) hr.fuel (fun h => h.elim)
    fun n => matchArm?_continues hr)) fun arms arms' harms => .mark rfl rfl fun _ _ _ => ?_
  exact .finish ht.place fun span span' hspan => by simp_all [Seam.Like, Viewable.view]

/-- The name of an error, if it stands there. -/
theorem errorName?_keeps : Keeps b r errorName? errorName? fun _ => False := by
  refine fun n c hc => .glance hc.meets (fun t' ht => ?_) fun t' ht ht' => ?_
  · rw [ht.kind, ht.payload, ht.lexeme]
    split
    · next h =>
        refine .next hc (by rw [Cursor.kind, h]; rfl) fun _ _ => .give ?_
        simp_all [Seam.Like, Viewable.view]
    · next h =>
        refine .next hc (by rw [Cursor.kind, h]; rfl) fun _ _ => .give ?_
        simp_all [Seam.Like, Viewable.view]
    · next h =>
        refine .next hc (by rw [Cursor.kind, h]; rfl) fun _ _ => .give ?_
        simp_all [Seam.Like, Viewable.view]
    · exact .pure hc.meets rfl trivial
  · rw [ht, ht']
    exact .pure hc.meets rfl trivial

include hr in
theorem attemptCatch_mirrors :
    Mirrors b r.fuel (fun kind => kind.isSturdy = true) (attemptCatch r) (attemptCatch r') := by
  refine .of_forms (attemptCatch_forms (hr.neat _)) fun c hc hin hkind => ?_
  refine .opens hc (isMark_of_sturdy hkind) fun t' ht => .node (block_mirrors hr).inner fun body body' hbody => ?_
  have hrest (n : Nat) : Continues b r n true (do
        let _ ← expectAfter .tryBlock
        let errorName ← errorName?
        let handler ← block r
        return Node.attempt (← spanFrom c.current.span) body errorName handler)
      (do
        let _ ← expectAfter .tryBlock
        let errorName ← errorName?
        let handler ← block r'
        return Node.attempt (← spanFrom t'.span) body' errorName handler) (fun _ => False) fun _ _ => True := by
    refine .mark rfl rfl fun _ _ _ => .part errorName?_keeps fun errorName errorName' herror => ?_
    refine .node (block_mirrors hr).inner fun handler handler' hhandler => ?_
    exact .finish ht.place fun span span' hspan => by simp_all [Seam.Like, Viewable.view]
  intro c₁ hc₁
  refine .here ?_
  rcases Seam.skipWhile_inside_or_spent hc₁.meets.tokens with hin₁ | hspent
  · rw [hin₁.significant hc₁.meets.tokens]
    exact .ite (fun _ => Continues.skipNewlines (.mark rfl) (hrest _) c₁ hc₁) fun _ => hrest _ c₁ hc₁
  · -- without a handler, the script alone is not complete
    have hnone : ¬ (c₁.significant.kind == .keyword .catchKw) = true := by
      rw [hspent.significant, beq_iff_eq]
      exact TokenKind.noConfusion
    rw [if_neg hnone]
    exact .mark_spent hspent rfl

/-! ## Decorators -/

include hr in
/-- The arguments of a decorator whose name was just read. -/
theorem decoratorArguments_tallies (hc : b.Past r n read c) :
    Tallies b c (decoratorArguments r c.previous) (decoratorArguments r' (b.image c).previous) (fun _ => False)
      fun _ _ => True := by
  have hliteral : Tallies b c (do return [← primary r]) (do return [← primary r']) (fun _ => False) fun _ _ => True :=
    .bind ((primary_mirrors hr).inner c hc.meets (by have := hc.fuel; omega) trivial) fun value value' c₁ hvalue hc₁ _ _ =>
      .pure hc₁ (congrArg (fun v => [v]) hvalue) trivial
  refine callTouches_tallies hc.meets hc.begun fun touches => .ite (fun _ => ?_) fun _ => ?_
  · exact .imp ((callArguments_mirrors hr).inner c hc.meets (by have := hc.fuel; omega) trivial) fun _ _ _ => trivial
  · refine .glance hc.meets (fun t' ht => ?_) fun t' ht ht' => ?_
    · rw [ht.kind]
      split
      · exact hliteral
      · exact hliteral
      · exact hliteral
      · exact .pure hc.meets rfl trivial
    · rw [ht, ht']
      exact .pure hc.meets rfl trivial

include hr in
/-- A decorator, after which line breaks may lead to a cut. -/
theorem decorator?_some (hc : b.Fresh r c) (hkind : c.kind = .symbol .atSign) :
    Tallies b c (decorator? r) (decorator? r') (Loose True True)
      fun d? c' => d?.isSome = true ∧ c'.ahead.length < c.ahead.length := by
  refine .check hc.meets rfl ?_
  rw [beq_of_eq hkind]
  refine .opens hc (by rw [hkind]; rfl) fun t' ht c₁ hc₁ => .demand hc₁.meets rfl rfl fun hname => ?_
  have hmark : c₁.kind.isMark = true := by rw [hname]; rfl
  have hend := (TokenKind.isMark_iff.mp hmark).2
  have hlike := (Seam.inside_of_kind hc₁.meets.tokens hend).current hc₁.meets.tokens
  have hlt := (Cursor.advance_reads hc₁.meets.tokens hend).length_lt (by simp)
  have hc₂ := hc₁.further_lt (hc₁.meets.advance_mark hmark) hlt
  rw [← Cursor.advance_previous hc₁.meets.tokens hend, ← Seam.previous_image_advance hc₁.meets.tokens hend] at hlike ⊢
  refine .bind (decoratorArguments_tallies hr hc₂) fun args args' c₃ hargs hc₃ hle _ => ?_
  refine Continues.spanFrom ht.place (fun span span' hspan => ?_) c₃ (hc₂.further hc₃ hle)
  refine .skipNewlines (.pure trivial) fun c₄ hc₄ => .pure hc₄.meets ?_ ⟨rfl, hc₄.lt rfl⟩
  have hlexeme := hlike.lexeme
  simp_all [Seam.Like, Viewable.view]

include hr in
/-- A further decorator with the line breaks after it, which may go on past a cut. -/
theorem decorator?_continues :
    Continues b r n false (decorator? r) (decorator? r') (Loose True True) (Takes n) := by
  intro c hc
  by_cases hkind : c.kind = .symbol .atSign
  · refine .imp (decorator?_some hr hc.fresh hkind) fun d? c' ⟨_, hlt⟩ => ?_
    match d? with
    | some d => exact Nat.lt_of_lt_of_le hlt hc.le
    | none => trivial
  · refine .check hc.meets rfl ?_
    rw [beq_eq_false_iff_ne.mpr hkind]
    exact .pure hc.meets rfl trivial

/-- Past a cut no decorator is given by the reader of the script alone. -/
theorem decorator?_fades : Fades b (Loose True True) (decorator? r) := .check rfl (.pure trivial)

/-! ## Definitions -/

/-- A definition begins with its first decorator or with its keyword, in both readings alike. -/
theorem definitionStart_like {decorators decorators' : List (Decorator Node)} {t t' : Token}
    (h : b.Like decorators decorators') (ht : b.Like t t') :
    b.Like (definitionStart decorators t) (definitionStart decorators' t') := by
  have h : decorators.map (Decorator.view b.left) = decorators'.map (Decorator.view b.right) := h
  cases decorators with
  | nil =>
      obtain rfl := List.map_eq_nil_iff.mp h.symm
      exact ht.place
  | cons d ds =>
      obtain ⟨d', ds', rfl, hd, -⟩ := List.map_eq_cons_iff.mp h.symm
      cases d
      cases d'
      exact congrArg Decorator.span hd.symm

/-- A parameter of a macro without parentheses. -/
theorem shellParameter?_continues :
    Continues b r n false shellParameter? shellParameter? (Loose False False) (Takes n) := by
  refine fun c hc => .look ?_
  rw [show ((b.image c).current.kind == .variableName) = (c.current.kind == .variableName) from
    hc.meets.agrees (p := (· == .variableName)) rfl]
  refine .ite (fun h => ?_) fun _ => .pure hc.meets rfl trivial
  have hmark : c.kind.isMark = true := by rw [Cursor.kind, eq_of_beq h]; rfl
  have hlike := (Seam.inside_of_kind hc.meets.tokens (TokenKind.isMark_iff.mp hmark).2).current hc.meets.tokens
  refine .next hc hmark fun _ _ => .item ?_
  have hplace := hlike.place
  have hpayload := hlike.payload
  simp_all [Seam.Like, Viewable.view]

include hr in
/-- The parameters of a macro, in either form or left out. -/
theorem macroParameters_keeps : Keeps b r (macroParameters r) (macroParameters r') fun _ => False := by
  refine fun n => .ifAccept rfl ?_ ?_
  · refine .part (fun n c hc => .imp (parameters_keeps hr _ _ _ c hc) fun _ _ _ => trivial) fun params params' h => ?_
    exact .give (congrArg (·, false) h)
  · refine .part (.collect (A := False) hr.fuel (fun h => h.elim) fun n => shellParameter?_continues) ?_
    exact fun params params' h => .give (congrArg (·, true) h)

section

variable {decorators decorators' : List (Decorator Node)} (hdecorators : b.Like decorators decorators')
  (hc : b.Fresh r c) (hmark : c.kind.isMark = true)

include hr hdecorators hc hmark

/-- A function after its decorators. -/
theorem function_tallies : Tallies b c (function r decorators) (function r' decorators') (fun _ => False)
    fun _ _ => True := by
  refine .opens hc hmark fun t' ht => ?_
  have hstart := definitionStart_like hdecorators ht
  refine .node (ident_mirrors _).inner fun name name' hname => .mark rfl rfl fun _ _ _ => ?_
  refine .part (fun n c hc => .imp (parameters_keeps hr _ _ _ c hc) fun _ _ _ => trivial) fun params params' hparams => ?_
  refine .part typeHintAfter?_keeps fun returns returns' hreturns => ?_
  refine .node (block_mirrors hr).inner fun body body' hbody => ?_
  exact .finish hstart fun span span' hspan => by simp_all [Seam.Like, Viewable.view]

/-- A macro after its decorators. -/
theorem macroDefinition_tallies : Tallies b c (macroDefinition r decorators) (macroDefinition r' decorators')
    (fun _ => False) fun _ _ => True := by
  refine .opens hc hmark fun t' ht => ?_
  have hstart := definitionStart_like hdecorators ht
  refine .node (ident_mirrors _).inner fun name name' hname => .part (macroParameters_keeps hr) ?_
  rintro ⟨params, shellStyle⟩ ⟨params', shellStyle'⟩ hlike
  obtain ⟨hparams, rfl⟩ := Prod.mk.inj hlike
  refine .node (block_mirrors hr).inner fun body body' hbody => ?_
  exact .finish hstart fun span span' hspan => by simp_all [Seam.Like, Viewable.view]

/-- An alias after its decorators. -/
theorem aliasDefinition_tallies : Tallies b c (aliasDefinition r decorators) (aliasDefinition r' decorators')
    (fun _ => False) fun _ _ => True := by
  refine .opens hc hmark fun t' ht => ?_
  have hstart := definitionStart_like hdecorators ht
  refine .node (ident_mirrors _).inner fun name name' hname => .mark rfl rfl fun _ _ _ => ?_
  refine .node hr.expression fun value value' hvalue => ?_
  exact .finish hstart fun span span' hspan => by simp_all [Seam.Like, Viewable.view]

omit hdecorators hc hmark in
/-- A member of an object: a method has a keyword, a field is a name. -/
theorem objectMember_mirrors : Mirrors b r.fuel (fun _ => True) (objectMember r) (objectMember r') := by
  refine .of_forms (objectMember_forms (hr.neat _)) fun c hc hin _ => .peek hc.meets hin fun t' ht => ?_
  rw [ht.kind, ht.lexeme]
  split
  · next h =>
      have hmark : c.kind.isMark = true := by rw [Cursor.kind, h]; rfl
      have hbare : b.Like ([] : List (Decorator Node)) [] := rfl
      refine .bind (function_tallies hr hbare hc hmark) ?_
      exact fun f f' c₁ hf hc₁ _ _ => .pure hc₁ (congrArg Member.method hf) trivial
  · next h =>
      refine .opens hc (by rw [Cursor.kind, h]; rfl) fun _ _ => .give ?_
      simp_all [Seam.Like, Viewable.view]
  · exact .fail hc.meets rfl

/-- An object after its decorators. Its members are between braces, with no cut among them. -/
theorem objectDefinition_tallies : Tallies b c (objectDefinition r decorators) (objectDefinition r' decorators')
    (fun _ => False) fun _ _ => True := by
  refine .opens hc hmark fun t' ht => ?_
  have hstart := definitionStart_like hdecorators ht
  have hforms := objectMember_forms (hr.neat .nothing)
  refine .node (ident_mirrors _).inner fun name name' hname => .mark rfl rfl fun _ _ _ => ?_
  refine .loosely (L := fun _ => True) (.within (fun _ h => h) fun n => ?_) (fun _ _ => .mark rfl) ?_
  · refine .skipNewlines (bracedItems_fade hforms) ?_
    exact bracedItems_keep hr.fuel hforms (objectMember_mirrors hr).inner rfl n
  · refine fun members members' hmembers => .mark rfl rfl fun _ _ _ => ?_
    exact .finish hstart fun span span' hspan => by simp_all [Seam.Like, Viewable.view]

/-- An enumeration after its decorators. -/
theorem enumDefinition_tallies : Tallies b c (enumDefinition r decorators) (enumDefinition r' decorators')
    (fun _ => False) fun _ _ => True := by
  refine .opens hc hmark fun t' ht => ?_
  have hstart := definitionStart_like hdecorators ht
  have hforms := ident_forms (s := b.script) (w := .nothing) .variant
  refine .node (ident_mirrors _).inner fun name name' hname => .mark rfl rfl fun _ _ _ => ?_
  refine .skipNewlines (.bind (bracedItems_fade hforms) fun _ _ => .mark rfl) ?_
  refine .loosely (bracedItems_keep hr.fuel hforms (ident_mirrors _).inner rfl) (fun _ _ => .mark rfl) ?_
  refine fun variants variants' hvariants => .mark rfl rfl fun _ _ _ => ?_
  exact .finish hstart fun span span' hspan => by simp_all [Seam.Like, Viewable.view]

/-- A test after its decorators. -/
theorem testDefinition_tallies : Tallies b c (testDefinition r decorators) (testDefinition r' decorators')
    (fun _ => False) fun _ _ => True := by
  refine .opens hc hmark fun t' ht => ?_
  have hstart := definitionStart_like hdecorators ht
  refine .node (stringToken_mirrors _ rfl).inner fun name name' hname => ?_
  refine .node (block_mirrors hr).inner fun body body' hbody => ?_
  exact .finish hstart fun span span' hspan => by simp_all [Seam.Like, Viewable.view]

omit hmark in
/-- **A definition, after decorators that are alike.** -/
theorem definition_tallies : Tallies b c (definition r decorators) (definition r' decorators') (fun _ => False)
    fun _ _ => True := by
  have hmark {k : Keyword} (h : c.current.kind = .keyword k) : c.kind.isMark = true := by
    rw [Cursor.kind, h]
    rfl
  refine .glance hc.meets (fun t' ht => ?_) fun t' ht ht' => ?_
  · rw [ht.kind]
    split
    · next h =>
        refine .bind (function_tallies hr hdecorators hc (hmark h)) ?_
        exact fun f f' c₁ hf hc₁ _ _ => .pure hc₁ (congrArg Node.functionDefinition hf) trivial
    · next h => exact macroDefinition_tallies hr hdecorators hc (hmark h)
    · next h => exact aliasDefinition_tallies hr hdecorators hc (hmark h)
    · next h => exact objectDefinition_tallies hr hdecorators hc (hmark h)
    · next h => exact enumDefinition_tallies hr hdecorators hc (hmark h)
    · next h => exact testDefinition_tallies hr hdecorators hc (hmark h)
    · exact .fail hc.meets rfl
  · rw [ht, ht']
    exact .fail hc.meets rfl

end

/-- Decorators with nothing after them are an error, so that the reader gives up at a cut. -/
theorem definition_fades {decorators : List (Decorator Node)} :
    Fades b (fun _ => False) (definition r decorators) := by
  refine .peek fun t ht => ?_
  rw [ht]
  exact .fail

include hr in
/-- Decorators, then the definition. Only between them there may be a cut. -/
theorem decorated_mirrors :
    Mirrors b r.fuel (fun kind => kind = .symbol .atSign) (decorated r) (decorated r') := by
  refine .of_forms (fun c hc _ => decorated_forms (hr.neat _) c hc trivial) fun c hc hin hkind => ?_
  refine .loosely (.collect hr.fuel hc (fun _ => decorator?_fades) (decorator?_some hr hc hkind)
    fun n => decorator?_continues hr) (fun _ _ => definition_fades) fun decorators decorators' c₁ hlike hc₁ hle _ => ?_
  exact definition_tallies hr hlike ⟨hc₁, Nat.lt_of_le_of_lt hle hc.fuel⟩

/-! ## Modules and jumps -/

/-- A further name of a path, behind its mark. -/
theorem pathSegment?_continues :
    Continues b r n false pathSegment? pathSegment? (Loose False False) (Takes n) := by
  refine .ifAccept rfl (.mark rfl rfl fun t t' ht => ?_) .noItem
  rw [ht.lexeme]
  exact .item rfl

include hr in
/-- A module is a file or a path. -/
theorem moduleRef_mirrors : Mirrors b r.fuel (fun _ => True) (moduleRef r) (moduleRef r') := by
  refine .of_forms (moduleRef_forms r) fun c hc hin _ => .peek hc.meets hin fun t' ht => ?_
  rw [ht.kind, ht.payload]
  split
  · next h =>
      refine .opens hc (by rw [Cursor.kind, h]; rfl) fun _ _ => .give ?_
      simp_all [Seam.Like, Viewable.view]
  · refine .expect hc rfl rfl fun _ u' hu => ?_
    rw [hu.lexeme]
    refine .part (.collect (A := False) hr.fuel (fun h => h.elim) fun n => pathSegment?_continues) ?_
    intro others others' hothers
    exact .finish hu.place fun span span' hspan => by simp_all [Seam.Like, Viewable.view]

include hr in
theorem useModule_mirrors :
    Mirrors b r.fuel (fun kind => kind.isSturdy = true) (useModule r) (useModule r') := by
  refine .of_forms (useModule_forms r) fun c hc hin hkind => .opens hc (isMark_of_sturdy hkind) fun t' ht => ?_
  refine .node (moduleRef_mirrors hr).inner fun ref ref' href => ?_
  exact .finish ht.place fun span span' hspan => by simp_all [Seam.Like, Viewable.view]

/-- The name after `as`. -/
theorem rename?_keeps (what : Named) : Keeps b r (rename? what) (rename? what) fun _ => False :=
  fun _ => .ifAccept rfl (.node (ident_mirrors what).inner fun _ _ h => .give (like_some h)) (.give rfl)

theorem importItem_mirrors : Mirrors b r.fuel (fun _ => True) importItem importItem := by
  refine .of_forms importItem_forms fun c hc hin _ => .node hc trivial (ident_mirrors _) fun name name' hname => ?_
  have hplace : b.Like name.span name'.span := congrArg Ident.span hname
  refine .part (rename?_keeps _) fun rename rename' hrename => ?_
  exact .finish hplace fun span span' hspan => by simp_all [Seam.Like, Viewable.view]

include hr in
/-- An import from a module with all its items. -/
theorem importFrom_mirrors :
    Mirrors b r.fuel (fun kind => kind.isSturdy = true) (importFrom r) (importFrom r') := by
  refine .of_forms (importFrom_forms r) fun c hc hin hkind => .opens hc (isMark_of_sturdy hkind) fun t' ht => ?_
  refine .node (moduleRef_mirrors hr).inner fun ref ref' href => .mark rfl rfl fun _ _ _ => .ifAccept rfl ?_ ?_
  · exact .finish ht.place fun span span' hspan => by simp_all [Seam.Like, Viewable.view]
  · refine .part (.loop (A := False) hr.fuel like_empty (fun h => h.elim) fun n items items' hitems => ?_) ?_
    · refine .node importItem_mirrors.inner fun item item' hitem => .ifAccept rfl ?_ ?_
      · exact .again (like_push hitems hitem)
      · exact .done (like_toList (like_push hitems hitem))
    · refine fun items items' hitems => .finish ht.place fun span span' hspan => ?_
      simp_all [Seam.Like, Viewable.view]

theorem sourceFile_mirrors :
    Mirrors b r.fuel (fun kind => kind.isSturdy = true) sourceFile sourceFile := by
  refine .of_forms sourceFile_forms fun c hc hin hkind => .opens hc (isMark_of_sturdy hkind) fun t' ht => ?_
  refine .node (stringToken_mirrors _ rfl).inner fun path path' hpath => ?_
  refine .part (rename?_keeps _) fun rename rename' hrename => ?_
  exact .finish ht.place fun span span' hspan => by simp_all [Seam.Like, Viewable.view]

include hr in
/-- A `return` looks whether its statement ends here. At a cut it does in both readings. -/
theorem returnJump_mirrors :
    Mirrors b r.fuel (fun kind => kind.isSturdy = true) (returnJump r) (returnJump r') := by
  refine .of_forms (returnJump_forms (hr.neat _)) fun c hc hin hkind => ?_
  refine .opens hc (isMark_of_sturdy hkind) fun t' ht c₁ hc₁ => .look ?_
  rw [show ((b.image c₁).current.kind.isTerminator || (b.image c₁).current.kind == .symbol .closeBrace) =
      (c₁.current.kind.isTerminator || c₁.current.kind == .symbol .closeBrace) from
    hc₁.meets.agrees (p := fun kind => kind.isTerminator || kind == .symbol .closeBrace) rfl]
  refine .ite (fun _ => .ret ?_) fun _ => ?_
  · refine Continues.finish ht.place (fun span span' hspan => ?_) c₁ hc₁
    simp_all [Seam.Like, Viewable.view]
  · refine Continues.node hr.assigned (fun value value' hvalue => .ret ?_) c₁ hc₁
    exact .finish ht.place fun span span' hspan => by simp_all [Seam.Like, Viewable.view]

/-! ## Statements -/

include hr in
/-- A statement that a keyword begins. -/
theorem keywordStatement_mirrors (k : Keyword) :
    Mirrors b r.fuel (fun kind => kind = .keyword k) (keywordStatement r k) (keywordStatement r' k) := by
  refine .of_forms (keywordStatement_forms (hr.neat _) k) fun c hc hin hk => .here ?_
  have hsturdy : c.kind.isSturdy = true := by rw [hk]; rfl
  have hmark := isMark_of_sturdy hsturdy
  have ht := hin.current hc.meets.tokens
  have hbare : b.Like ([] : List (Decorator Node)) [] := rfl
  have hdefinition := definition_tallies hr hbare hc
  have hlet (keyword : Keyword) := (letBinding_mirrors hr keyword).tallies hc.meets hc.fuel hsturdy
  have hexpression := (expression_mirrors hr).tallies hc.meets hc.fuel trivial
  rw [Seam.next_agrees (p := (· == .identifier)) hc.meets hmark rfl]
  split
  · exact hdefinition
  · exact hdefinition
  · exact hdefinition
  · exact hdefinition
  · exact hdefinition
  · exact hdefinition
  · exact hlet _
  · exact hlet _
  · exact .ite (fun _ => hlet _) fun _ => hexpression
  · exact (conditional_mirrors hr).tallies hc.meets hc.fuel hsturdy
  · exact (forLoop_mirrors hr).tallies hc.meets hc.fuel hsturdy
  · exact (whileLoop_mirrors hr).tallies hc.meets hc.fuel hsturdy
  · exact (endlessLoop_mirrors hr).tallies hc.meets hc.fuel hsturdy
  · exact (matching_mirrors hr).tallies hc.meets hc.fuel hsturdy
  · exact (attemptCatch_mirrors hr).tallies hc.meets hc.fuel hsturdy
  · exact (useModule_mirrors hr).tallies hc.meets hc.fuel hsturdy
  · exact (importFrom_mirrors hr).tallies hc.meets hc.fuel hsturdy
  · exact sourceFile_mirrors.tallies hc.meets hc.fuel hsturdy
  · exact (returnJump_mirrors hr).tallies hc.meets hc.fuel hsturdy
  · refine .opens hc hmark fun _ _ => .give ?_
    simp_all [Seam.Like, Viewable.view]
  · refine .opens hc hmark fun _ _ => .give ?_
    simp_all [Seam.Like, Viewable.view]
  · exact hexpression

include hr in
/-- **A statement of a script tallies with that of its twin.** -/
theorem statement_mirrors :
    Mirrors b r.fuel (fun kind => kind.isSeparator = false) (statement r) (statement r') := by
  refine .of_forms (statement_forms (hr.neat _)) fun c hc hin hseparator => ?_
  have hstays : c.skipWhile TokenKind.isSeparator = c := Cursor.skipWhile_of_not hseparator
  have hstays' : (b.image c).skipWhile TokenKind.isSeparator = b.image c := by
    refine Cursor.skipWhile_of_not ?_
    rw [hin.kind hc.meets.tokens]
    exact hseparator
  refine .move (by rw [hstays]; exact hc.meets) (by rw [hstays]) (by rw [hstays, hstays']) ?_
  rw [hstays]
  refine .peek hc.meets hin fun t' ht => ?_
  rw [ht.kind]
  split
  · next h => exact (decorated_mirrors hr).tallies hc.meets hc.fuel h
  · next h => exact (keywordStatement_mirrors hr _).tallies hc.meets hc.fuel h
  · exact (assigned_mirrors hr).tallies hc.meets hc.fuel trivial
  · exact (expression_mirrors hr).tallies hc.meets hc.fuel trivial

end ShellFront.Grammar
