import ShellFront.Proofs.Twins.Words

/-!
# How expressions tally

Each production of expressions, read in a script and in its twin. The questions that productions ask about what
is ahead have the same answers in both; what is left is to go through the parts one after the other. Where a tentative
reading of braces gives up, their closer is still ahead, so it has not come to a cut.

## Contents
- Names and braces in the place of a value.
- `primary_mirrors`, `access_mirrors`, `unary_mirrors`, `binary_mirrors`, `expression_mirrors`.
-/

namespace ShellFront.Grammar

open Outlined Parse
open scoped Layout

variable {b : Seam} {r r' : Rules} (hr : r.Twins b r') {c : Cursor} {n : Nat} {read : Bool}

/-! ## Names -/

include hr in
/-- What a name stands for is told by the tokens after it, which say the same in both readings. -/
theorem nameExpression_mirrors :
    Mirrors b r.fuel (fun kind => kind = .identifier) (nameExpression r) (nameExpression r') := by
  refine .of_forms (nameExpression_forms (hr.neat _)) fun c hc hin hname => .mode fun mode _ => .here ?_
  have hmark : c.kind.isMark = true := by rw [hname]; rfl
  rw [Seam.nameUse_image mode hc.meets hname]
  cases nameUse mode c with
  | tuple =>
      refine .opens hc hmark fun t' ht => ?_
      refine .node (bracketed_mirrors hr).inner fun elements elements' helements => ?_
      exact .finish ht.place fun span span' hspan => by simp_all [Seam.Like, Viewable.view]
  | call => exact .opens hc hmark fun t' ht => callOf_continues hr ht
  | construction =>
      refine .opens hc hmark fun t' ht => .node (record_mirrors hr).inner fun value value' hvalue => ?_
      exact .finish ht.place fun span span' hspan => by simp_all [Seam.Like, Viewable.view]
  | command => exact (commandExpression_mirrors hr).tallies hc.meets hc.fuel trivial

/-! ## Braces in the place of a value -/

include hr in
/-- An expansion between its braces. -/
theorem braceExpansion_mirrors :
    Mirrors b r.fuel (fun _ => True) (braceExpansion r) (braceExpansion r') := by
  refine .of_forms (braceExpansion_forms (hr.neat _)) fun c hc hin _ => .expect hc rfl rfl fun _ t' ht => ?_
  refine .part (.within (fun _ h => h) (.loop (A := False) hr.fuel like_empty (fun h => h.elim) ?_)) ?_
  · refine fun n items items' hitems => .node (argument_mirrors hr) fun item item' hitem => ?_
    exact .ifAccept rfl (.again (like_push hitems hitem)) (.done (like_toList (like_push hitems hitem)))
  · refine fun items items' hitems => .mark rfl rfl fun _ _ _ => .finish ht.place fun span span' hspan => ?_
    simp_all [Seam.Like, Viewable.view]

/-! ### Tentative readings -/

/-- Before a cut, what gives up between braces is not done with them. -/
theorem not_spent (hc : c.tokens = b.script.tokens) (hopen : c.kind = .symbol .openBrace) {c₁ : Cursor}
    (h : Cursor.Strays .all c.advance c₁) : ¬ b.Spent c₁ := by
  intro hspent
  obtain ⟨inside, closer, zs, hahead, -, hcloser, hinside, -⟩ := Seam.exists_partner hspent.cut hc hopen
  obtain ⟨ts, stack, hread, hfollow⟩ := h
  have hend : c.kind ≠ .endOfInput := by rw [hopen]; nofun
  have hrest := hread.rest
  rw [← Cursor.ahead_eq_rest hend (Seam.ahead_ne_nil hc hend), hahead] at hrest
  -- the closing brace of the script is still ahead: to have passed it would leave the brackets out of order
  have hmem : closer ∈ c₁.rest := by
    rcases List.append_eq_append_iff.mp hrest with ⟨more, rfl, hmore⟩ | ⟨more, hmore, hmore'⟩
    · cases more with
      | nil =>
          rw [List.nil_append] at hmore
          rw [← hmore]
          exact List.mem_cons_self
      | cons t more =>
          rw [List.cons_append, List.cons.injEq] at hmore
          rw [Watch.follow_append_of hinside, ← hmore.1, Watch.follow_closeBrace rfl hcloser] at hfollow
          contradiction
    · rw [hmore']
      exact List.mem_append_right _ List.mem_cons_self
  exact Seam.skipWhile_inside hspent.tokens (fun _ => ⟨closer, hmem, by rw [hcloser]; rfl⟩) hspent.cut hspent.skipped

/-- A reading that begins with a brace and gives up has not come to a cut. -/
theorem braced_not_spent {α : Type} {problem : Problem} {f : Token → Parse α} {Q : α → Cursor → Prop}
    (hc : c.tokens = b.script.tokens) (hopen : c.kind = .symbol .openBrace)
    (hf : Does b.script .all c.advance c.advance (f c.current) Q) :
    ∀ ctx st e st', ctx.mode.recovering = false → st.cursor = c →
      (expect (.symbol .openBrace) problem >>= f) ctx st = .error e st' → ¬ b.Spent st'.cursor := by
  intro ctx st e st' hmode hst hrun
  subst hst
  have hdoes := hf ctx { st with cursor := st.cursor.advance } (fun h => by rw [hmode] at h; contradiction) rfl
  have hcheck : (st.cursor.kind == .symbol .openBrace) = true := beq_of_eq hopen
  rw [expect, bind_assoc, bind_run] at hrun
  simp only [check, hcheck, if_true] at hrun
  rw [bind_run] at hrun
  simp only [advance] at hrun
  rw [hrun] at hdoes
  exact not_spent hc hopen hdoes

include hr in
/-- Where a record that is only tried is given up, this is not because of a cut: its closing brace would have to
    come first. -/
theorem record_not_spent (hc : c.tokens = b.script.tokens) (hopen : c.kind = .symbol .openBrace) :
    ∀ ctx st e st', ctx.mode.recovering = false → st.cursor = c → record r ctx st = .error e st' →
      ¬ b.Spent st'.cursor := by
  have hc₁ := (Cursor.advance_reads hc (by rw [hopen]; nofun)).tokens_eq.trans hc
  refine braced_not_spent hc hopen (Q := fun _ _ => True) ?_
  refine .bind (R := fun _ _ => True) (.refl _) (.within (fun _ h => h) ?_) fun fields c₂ _ => .spanFrom (.pure trivial)
  refine .bind (.refl _) (skipNewlines_lays _ hc₁) fun _ c₂ h => ?_
  refine .bind h.strays (Lays.collect r false (recordItem_lays (hr.neat _)) c₂ h.tokens) fun fields c₃ h' => ?_
  exact .expect (h.append h').strays fun _ => .pure trivial

include hr in
/-- The same for a record as a value, -/
theorem recordLiteral_not_spent (hc : c.tokens = b.script.tokens) (hopen : c.kind = .symbol .openBrace) :
    ∀ ctx st e st', ctx.mode.recovering = false → st.cursor = c → recordLiteral r ctx st = .error e st' →
      ¬ b.Spent st'.cursor := by
  intro ctx st e st' hmode hst hrun
  rw [recordLiteral, bind_run] at hrun
  cases hrecord : record r ctx st with
  | ok value st₁ =>
      rw [hrecord] at hrun
      contradiction
  | error e₁ st₁ =>
      rw [hrecord] at hrun
      obtain ⟨rfl, rfl⟩ := EStateM.Result.error.inj hrun
      exact record_not_spent hr hc hopen ctx st e₁ st₁ hmode hst hrecord

include hr in
/-- and for a closure. -/
theorem closure_not_spent (hc : c.tokens = b.script.tokens) (hopen : c.kind = .symbol .openBrace) :
    ∀ ctx st e st', ctx.mode.recovering = false → st.cursor = c → closure r ctx st = .error e st' →
      ¬ b.Spent st'.cursor := by
  have hc₁ := (Cursor.advance_reads hc (by rw [hopen]; nofun)).tokens_eq.trans hc
  refine braced_not_spent hc hopen (Q := fun _ _ => True) ?_
  refine .bind (.refl _) (closureParameters_lays (hr.neat _) _ hc₁) fun params c₂ h => ?_
  refine .bind h.strays (.within (fun _ h => h) (statementList_lays (hr.neat _) c₂ h.tokens)) fun list c₃ h' => ?_
  exact .expect (h.append h').strays fun _ => .spanFrom (.pure trivial)

include hr in
/-- A brace that may be a record or a closure is the same for both readers. -/
theorem recordOrClosure_tallies (hc : b.Fresh r c) (hopen : c.kind = .symbol .openBrace) :
    Tallies b c (recordOrClosure r) (recordOrClosure r') (fun _ => False) fun _ _ => True := by
  have hin := Seam.inside_of_kind hc.meets.tokens (c := c) (by rw [hopen]; nofun)
  refine .peek hc.meets hin fun t' ht => ?_
  refine .tentatively (recordLiteral_mirrors hr c hc.meets hc.fuel trivial)
    (recordLiteral_not_spent hr hc.meets.tokens hopen) (fun node node' c₁ hnode hc₁ _ _ => .pure hc₁ hnode trivial) ?_
  refine .note (.tentatively (closure_mirrors hr c hc.meets hc.fuel trivial)
    (closure_not_spent hr hc.meets.tokens hopen) (fun node node' c₁ hnode hc₁ _ _ => .pure hc₁ hnode trivial) ?_)
  exact .failAt hc.meets ht rfl

include hr in
/-- A brace is read in the way that the tokens inside it tell. Readings that are taken back fail in both readings.
    -/
theorem braceValue_tallies (hc : b.Fresh r c) (hopen : c.kind = .symbol .openBrace) :
    Tallies b c (braceValue r) (braceValue r') (fun _ => False) fun _ _ => True := by
  refine .here ?_
  rw [Seam.recordShaped_image hc.meets hopen, Seam.barAhead_image hc.meets hopen,
    Seam.braceShape_image hc.meets hopen]
  refine .ite (fun _ => (recordLiteral_mirrors hr).tallies hc.meets hc.fuel trivial) fun _ => ?_
  refine .ite (fun _ => (closure_mirrors hr).tallies hc.meets hc.fuel trivial) fun _ => ?_
  cases Cursor.braceShape c.ahead with
  | expansion => exact (braceExpansion_mirrors hr).tallies hc.meets hc.fuel trivial
  | other => exact (closure_mirrors hr).tallies hc.meets hc.fuel trivial
  | colon => exact recordOrClosure_tallies hr hc hopen

/-! ## Primary expressions -/

include hr in
/-- A keyword in the place of a value. -/
theorem keywordValue_mirrors (k : Keyword) :
    Mirrors b r.fuel (fun kind => kind = .keyword k) (keywordValue r k) (keywordValue r' k) := by
  refine .of_forms (keywordValue_forms (hr.neat _) k) fun c hc hin hk => .here ?_
  have hsturdy : c.kind.isSturdy = true := by rw [hk]; rfl
  have hmark := isMark_of_sturdy hsturdy
  have ht := hin.current hc.meets.tokens
  have hword : Tallies b c (bareWord r) (bareWord r') (fun _ => False) fun _ _ => True :=
    (bareWord_mirrors hr).tallies hc.meets hc.fuel hsturdy
  have hliteral (value : Literal) : Tallies b c
      (do let _ ← advance; return Node.literal c.current.span value)
      (do let _ ← advance; return Node.literal (b.image c).current.span value) (fun _ => False) fun _ _ => True := by
    refine .opens hc hmark fun _ _ => .give ?_
    simp_all [Seam.Like, Viewable.view]
  dsimp only
  rw [Seam.next_agrees (p := (· == .symbol .openBracket)) hc.meets hmark rfl]
  split
  · exact hliteral _
  · exact hliteral _
  · exact hliteral _
  · refine .ite (fun _ => (setLiteral_mirrors hr).tallies hc.meets hc.fuel hsturdy) fun _ => ?_
    exact .mode fun mode _ => .ite (fun _ => hword) fun _ => .fail hc.meets rfl
  · exact .mode fun mode _ => .ite (fun _ => hword) fun _ => .fail hc.meets rfl

include hr in
/-- A symbol in the place of a value. -/
theorem symbolValue_mirrors (sym : Symbol) :
    Mirrors b r.fuel (fun kind => kind = .symbol sym) (symbolValue r sym) (symbolValue r' sym) := by
  refine .of_forms (symbolValue_forms (hr.neat _) sym) fun c hc hin hsym => ?_
  unfold symbolValue
  split
  · exact (listLiteral_mirrors hr).tallies hc.meets hc.fuel trivial
  · exact (parenthesised_mirrors hr).tallies hc.meets hc.fuel hsym
  · exact (commandSubstitution_mirrors hr).tallies hc.meets hc.fuel hsym
  · exact (processSubstitution_mirrors hr rfl _).tallies hc.meets hc.fuel hsym
  · exact (processSubstitution_mirrors hr rfl _).tallies hc.meets hc.fuel hsym
  · exact .mode fun mode _ => .ite (fun _ => .fail hc.meets rfl) fun _ => braceValue_tallies hr hc hsym
  · exact (lambda_mirrors hr).tallies hc.meets hc.fuel (.inl hsym)
  · exact (lambda_mirrors hr).tallies hc.meets hc.fuel (.inr hsym)
  · exact .fail hc.meets rfl

include hr in
/-- An expression without operators, by its first token. -/
theorem primary_mirrors : Mirrors b r.fuel (fun _ => True) (primary r) (primary r') := by
  refine .of_forms (primary_forms (hr.neat _)) fun c hc hin _ => .peek hc.meets hin fun t' ht => ?_
  -- most values are one token
  have hleaf {make make' : Node} (hmark : c.kind.isMark = true) (hmake : b.Like make make') :
      Tallies b c (do let _ ← advance; return make) (do let _ ← advance; return make') (fun _ => False)
        fun _ _ => True :=
    .opens hc hmark fun _ _ => .give hmake
  rw [ht.kind, ht.payload, ht.lexeme]
  split
  · next h =>
      refine .opens hc (by rw [Cursor.kind, h]; rfl) fun _ _ c₁ hc₁ => ?_
      refine .bind (integerLiteral_tallies hc₁.meets ht) fun value value' c₂ hvalue hc₂ hle _ => ?_
      refine rangeFrom_continues ?_ c₂ (hc₁.further hc₂ hle)
      simp_all [Seam.Like, Viewable.view]
  · next h =>
      refine hleaf (by rw [Cursor.kind, h]; rfl) ?_
      have hfloat : floatLiteral t' false = floatLiteral c.current false := by
        rw [floatLiteral, floatLiteral, ht.lexeme]
      rw [hfloat]
      simp_all [Seam.Like, Viewable.view]
  · next h => exact hleaf (by rw [Cursor.kind, h]; rfl) (by simp_all [Seam.Like, Viewable.view])
  · next h =>
      refine .opens hc (by rw [Cursor.kind, h]; rfl) fun _ _ => rangeFrom_continues ?_
      simp_all [Seam.Like, Viewable.view]
  · next h => exact hleaf (by rw [Cursor.kind, h]; rfl) (by simp_all [Seam.Like, Viewable.view])
  · next h => exact hleaf (by rw [Cursor.kind, h]; rfl) (by simp_all [Seam.Like, Viewable.view])
  · next h => exact hleaf (by rw [Cursor.kind, h]; rfl) (by simp_all [Seam.Like, Viewable.view])
  · next h =>
      exact .mode fun mode _ =>
        .ite (fun _ => (bareWord_mirrors hr).tallies hc.meets hc.fuel (by rw [Cursor.kind, h]; rfl))
          fun _ => (nameExpression_mirrors hr).tallies hc.meets hc.fuel h
  · next h => exact (keywordValue_mirrors hr _).tallies hc.meets hc.fuel h
  · next h => exact (symbolValue_mirrors hr _).tallies hc.meets hc.fuel h
  · exact .fail hc.meets rfl

include hr in
/-- Fields and methods are glued to what is before them, so none follows past a cut. -/
theorem access_mirrors : Mirrors b r.fuel (fun _ => True) (access r) (access r') := by
  refine .of_forms (access_forms (hr.neat _)) fun c hc hin _ => ?_
  refine .node hc trivial (primary_mirrors hr) fun target target' htarget => .last ?_
  refine .part (.loop (A := False) hr.fuel htarget (fun h => h.elim) ?_) fun node node' hnode => .give hnode
  intro n target target' htarget c hc
  refine .here ?_
  rw [Seam.gluedPart_image hc.meets hc.begun rfl rfl]
  refine .ite (fun hglued => ?_) fun _ => .pure hc.meets (congrArg Turn.done htarget) trivial
  refine dottedPart_tallies hc.meets rfl rfl hglued fun hc₂ hlt hname hprevious hprevious' => ?_
  have hpast := hc.further_lt hc₂ hlt
  rw [hprevious, hprevious'] at hname ⊢
  refine callTouches_tallies hc₂ hpast.begun fun touches => .ite (fun _ => ?_) fun _ => ?_
  · refine Continues.node (callArguments_mirrors hr).inner (fun args args' hargs => ?_) _ hpast
    refine .spanFrom htarget.node fun span span' hspan => .again ?_
    simp_all [Seam.Like, Viewable.view]
  · refine Continues.spanFrom htarget.node (fun span span' hspan => .again ?_) _ hpast
    simp_all [Seam.Like, Viewable.view]

/-! ## Operators -/

include hr in
theorem unary_mirrors : Mirrors b r.fuel (fun _ => True) (unary r) (unary r') := by
  refine .of_forms (unary_forms (hr.neat _)) fun c hc hin _ => .peek hc.meets hin fun t' ht => ?_
  rw [ht.kind]
  split
  · next operator h =>
      refine .opens hc (isMark_of_sturdy (sturdy_of_unary h)) fun _ _ => .node hr.unary fun operand operand' hoperand => ?_
      refine .give ?_
      have hspan := ht.place.covers hoperand.node
      simp_all [Seam.Like, Viewable.view]
  · exact (access_mirrors hr).tallies hc.meets hc.fuel trivial

/-- An operator is no line break and no end. -/
theorem isMark_of_continuing {mode : Mode} {least : Nat} {operator : Operator}
    (h : continuing? mode least c = some operator) : c.kind.isMark = true := by
  unfold continuing? at h
  split at h
  · next h' =>
      unfold Operator.ofToken? at h'
      split at h' <;> first | (next hkind => rw [hkind]; rfl) | contradiction
  · contradiction

include hr in
/-- An operator goes on with an expression in both readings or in none; after it, line breaks may be skipped. -/
theorem binary_mirrors (least : Nat) : Mirrors b r.fuel (fun _ => True) (binary r least) (binary r' least) := by
  refine .of_forms (binary_forms (hr.neat _) least) fun c hc hin _ => ?_
  refine .node hc trivial (unary_mirrors hr) fun left left' hleft => .last ?_
  refine .part (.loop (A := False) hr.fuel hleft (fun h => h.elim) ?_) fun node node' hnode => .give hnode
  intro n left left' hleft c hc
  refine .mode fun mode _ => .here ?_
  rw [Seam.continuing?_image mode least hc.meets hc.begun]
  split
  · next operator h =>
      refine .next hc (isMark_of_continuing h) fun _ _ => .skipNewlines (.node ((hr.neat _).binary _)) ?_
      refine .node (hr.binary _) fun right right' hright => .again ?_
      have hspan := hleft.node.covers hright.node
      simp_all [Seam.Like, Viewable.view]
  · exact .pure hc.meets (congrArg Turn.done hleft) trivial

include hr in
/-- Pipes go on with an expression likewise. -/
theorem pipeline_mirrors : Mirrors b r.fuel (fun _ => True) (pipeline r) (pipeline r') := by
  refine .of_forms (pipeline_forms (hr.neat _)) fun c hc hin _ => ?_
  refine .node hc trivial (binary_mirrors hr 0) fun first first' hfirst => ?_
  refine .part (stages_keeps hr.fuel ((hr.neat _).binary 0) (hr.binary 0) fun _ _ _ => rfl) fun others others' hothers => ?_
  obtain ⟨hstages, hsymbols⟩ := stages_like hothers
  obtain ⟨⟨_, last⟩, ⟨_, last'⟩, ha, ha', hlike⟩ | ⟨ha, ha'⟩ := option_cases_like (getLast_like hothers)
  · rw [ha, ha', hsymbols]
    have hlast : b.Like last last' := congrArg Prod.snd hlike
    have hspan := hfirst.node.covers hlast.node
    refine .give ?_
    simp_all [Seam.Like, Viewable.view]
  · rw [ha, ha']
    exact .give hfirst

include hr in
theorem expression_mirrors : Mirrors b r.fuel (fun _ => True) (expression r) (expression r') :=
  pipeline_mirrors hr

end ShellFront.Grammar
