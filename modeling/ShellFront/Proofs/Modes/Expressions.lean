import ShellFront.Proofs.Modes.Kept

/-!
# Expressions in each mode

The productions for expressions, from the arguments of commands, where the mode is changed, up to pipelines. Each one
keeps the mode it is run in.

## Contents
- `Grammar.argument_keeps`, `Grammar.KeepsStage`, `Grammar.commandExpression_keeps`, `Grammar.braceExpansion_curly`.
- `Grammar.primary_takes`, `Grammar.access_keeps`.
- `Grammar.unary_keeps`, `Grammar.binary_keeps`, `Grammar.pipeline_keeps`, `Grammar.condition_heads`.
-/

namespace ShellFront

open Outline Parse

namespace Grammar

variable {mode : Mode} {r : Rules} [hr : r.Keep] {ctx : Context} {c : Cursor}

/-! ## Arguments -/

/-- What a flag is given keeps the mode. -/
theorem flagValue_keeps (name : Token) :
    Yields c (fun n? _ => ∀ n, n? = some n → n.Keeps ctx.mode) (under ctx (flagValue r name)) := by
  have hnone (c : Cursor) : Yields c (fun n? _ => ∀ n, n? = some n → n.Keeps ctx.mode)
      (under ctx (pure (none : Option Node))) := .pure fun _ hn => by contradiction
  have hvalue (m : Parse Node) (hm : Leaves (fun mode n => n.Keeps mode) m) (c : Cursor) :
      Yields c (fun n? _ => ∀ n, n? = some n → n.Keeps ctx.mode) (under ctx (m >>= fun n => pure (some n))) := by
    refine .bindIn (hm ctx c) fun n c₁ hn => .pure ?_
    rintro _ ⟨rfl⟩
    exact hn
  refine .skipIn fun token c₁ => ?_
  split
  · split
    · exact .skipIn fun _ c₂ => hvalue r.unary hr.unary c₂
    · exact hnone c₁
  · exact hvalue r.access hr.access c₁
  · exact hvalue r.access hr.access c₁
  · exact hvalue r.access hr.access c₁
  · exact hvalue r.access hr.access c₁
  · split
    · exact hnone c₁
    · exact hvalue r.access hr.access c₁
  · exact hnone c₁

theorem longFlag_keeps : Leaves (fun mode n => n.Keeps mode) (longFlag r) := fun _ _ =>
  .skipIn fun name _ => .bindIn (flagValue_keeps name) fun _ _ hvalue => .skipIn fun _ _ => .pure (.flag hvalue)

/-- **An argument keeps the mode.** -/
theorem argument_keeps : Leaves (fun mode n => n.Keeps mode) (argument r) := by
  have hpath : Leaves (fun mode n => n.Keeps mode) (pathWord r) := pathWord_steady.imp fun mode _ h => h mode
  refine .last fun token => ?_
  split
  · exact longFlag_keeps
  · exact .last fun _ => .pure fun _ => .flag fun _ hn => by contradiction
  · exact hpath
  · exact hpath
  · exact hpath
  · exact hpath
  · exact hr.binary _

theorem commandArguments_keep :
    Yields c (fun ns _ => ∀ n ∈ ns, n.Keeps ctx.mode.arguments) (under ctx (commandArguments r)) := by
  rw [commandArguments, under_within, under_collect]
  refine .collect fun c₁ => .modeIn (.hereIn ?_)
  split
  · refine .bindIn (argument_keeps _ _) fun n _ hn => .pure ?_
    rintro _ ⟨rfl⟩
    exact hn
  · exact .pure fun _ hn => by contradiction

/-- A command with its arguments. Its arguments are read without braces where it is. -/
structure KeepsStage (mode : Mode) (stage : CommandStage Node) : Prop where
  obeys : Obeys stage
  braceless : mode.braceless = true → ∀ c ∈ CommandStage.outlines [stage], c.Braceless

omit hr in
theorem KeepsStage.of_keeps {span : Span} {name : CommandName} {args : List Node}
    (h : ∀ n ∈ args, n.Keeps mode.arguments) : KeepsStage mode ⟨span, name, args⟩ := by
  have hkind : name.outline.kind.isBare = true ∧ name.outline.unbracketed = [] := by
    simp only [CommandName.outline, CommandName.kind, Outline.kind]
    split <;> exact ⟨rfl, rfl⟩
  have hchildren {p : Outline → Prop} (hname : p name.outline) (hargs : ∀ n ∈ args, p n.outline) :
      ∀ c ∈ name.outline :: Node.outlines args, p c := by
    rw [Node.outlines_eq, Outlined.shown_nodes]
    exact List.forall_mem_cons.mpr ⟨hname, List.forall_mem_map.mpr hargs⟩
  have hname : name.outline.Suits ⟨true, true, false⟩ := .of_closed hkind.1 hkind.2
  refine ⟨.single rfl (proper_arguments (.inl rfl) ?_ ?_), fun hbraceless => ?_⟩
  · exact hchildren (hname.commandless rfl) fun n hn => (h n hn).suits.commandless rfl
  · exact hchildren name.outline_proper.obeyed fun n hn => (h n hn).obeyed
  · refine List.forall_mem_singleton.mpr (braceless_iff.mpr ⟨rfl, ?_⟩)
    exact hchildren (hname.braceless rfl) fun n hn => (h n hn).suits.braceless hbraceless

theorem commandStage_stage : Yields c (fun stage _ => KeepsStage ctx.mode stage) (under ctx (commandStage r)) :=
  .skipIn fun _ _ => .bindIn commandArguments_keep fun _ _ hargs => .skipIn fun _ _ => .pure (.of_keeps hargs)

omit hr in
/-- Commands, where names are commands. -/
theorem keeps_command {span : Span} {stages : List (CommandStage Node)} {operators : List Symbol}
    (hwords : mode.words = false) (h : ∀ stage ∈ stages, KeepsStage mode stage) :
    (Node.command span stages operators).Keeps mode := by
  have := Obeys.of_forall fun stage hstage => (h stage hstage).obeys
  refine .of_obeys ⟨fun hnot => by rw [hwords] at hnot; contradiction, fun hbraceless => braceless_iff.mpr ⟨rfl, ?_⟩⟩
  show ∀ c ∈ CommandStage.outlines stages, c.Braceless
  rw [CommandStage.outlines_eq]
  exact List.forall_mem_flatMap.mpr fun stage hstage => (h stage hstage).braceless hbraceless

theorem commandExpression_keeps (hwords : ctx.mode.words = false) :
    Yields c (fun n _ => n.Keeps ctx.mode) (under ctx (commandExpression r)) := by
  refine .bindIn commandStage_stage fun first c₁ hfirst => ?_
  refine .bindIn (P := fun others _ => ∀ p ∈ others, KeepsStage ctx.mode p.2) ?_ fun others c₂ hothers => .pure ?_
  · rw [under_collect]
    refine .collect (P := fun p : Symbol × CommandStage Node => KeepsStage ctx.mode p.2) fun c₂ => ?_
    refine .skipIn fun joint c₃ => ?_
    cases joint with
    | none => exact .pure fun p hp => by contradiction
    | some s =>
        refine .bindIn commandStage_stage fun stage c₄ hstage => .pure ?_
        rintro _ ⟨rfl⟩
        exact hstage
  · exact keeps_command hwords (List.forall_mem_cons.mpr ⟨hfirst, List.forall_mem_map.mpr hothers⟩)

/-- The items of a brace expansion are arguments. -/
theorem braceExpansion_curly : Curly (braceExpansion r) := by
  intro ctx c
  refine .skipIn fun start c₁ => ?_
  refine .bindIn (P := fun ns _ => ∀ n ∈ ns, n.Keeps ctx.mode.alternatives) ?_ fun items c₂ hitems => ?_
  · rw [under_within, under_loop]
    refine .loop (I := fun ns _ => ∀ n ∈ ns.toList, n.Keeps ctx.mode.alternatives) (fun ns c₂ hns => ?_) (by simp)
    refine .bindIn (argument_keeps { ctx with mode := ctx.mode.alternatives } c₂) fun item _ hitem => ?_
    refine .skipIn fun comma _ => ?_
    split
    · exact .pure (forall_mem_push hns hitem)
    · exact .pure (forall_mem_push hns hitem)
  · refine .skipIn fun _ _ => .skipIn fun span _ => .pure ⟨.single rfl (proper_arguments (.inr rfl) ?_ ?_), rfl⟩
    · rw [Node.outlines_eq, Outlined.shown_nodes]
      exact List.forall_mem_map.mpr fun n hn => (hitems n hn).suits.commandless rfl
    · rw [Node.outlines_eq, Outlined.shown_nodes]
      exact List.forall_mem_map.mpr fun n hn => (hitems n hn).obeyed

/-! ## Names and braces -/

omit hr in
/-- Where braces end the head of a statement, no object is constructed. -/
theorem braceless_of_construction (h : nameUse mode c = .construction) : mode.braceless = false := by
  unfold nameUse at h
  split at h
  · contradiction
  · split at h
    · contradiction
    · split at h
      · next hall =>
          simp only [Bool.and_eq_true, Bool.not_eq_true'] at hall
          exact hall.1.2
      · contradiction

/-- **A name where names are commands.** -/
theorem nameExpression_keeps (hwords : ctx.mode.words = false) :
    Yields c (fun n _ => n.Keeps ctx.mode) (under ctx (nameExpression r)) := by
  refine .modeIn (.hereIn ?_)
  split
  · exact .skipIn fun _ _ => .bindIn Obeying.yields fun elements _ _ => .skipIn fun span _ =>
      .pure (.of_obeys (.of_closed rfl rfl))
  · exact .skipIn fun name c₁ => (callOf_steady name ctx c₁).imp fun n _ hn => hn ctx.mode
  · next huse =>
      refine .skipIn fun _ _ => .bindIn Obeying.yields fun value _ _ => .skipIn fun _ _ => .pure ?_
      exact .free hwords (braceless_of_construction huse)
  · exact commandExpression_keeps hwords

theorem braceValue_curly : Curly (braceValue r) := by
  refine .last fun c => .ite recordLiteral_curly (.ite closure_curly ?_)
  split
  · exact braceExpansion_curly
  · exact closure_curly
  · refine .last fun start => .tentatively recordLiteral_curly (.last fun _ => ?_) fun _ => rfl
    exact .tentatively closure_curly .failAt fun _ => rfl

theorem symbolValue_takes (s : Symbol) : Yields c (TakesMembers ctx.mode) (under ctx (symbolValue r s)) := by
  unfold symbolValue
  split
  · exact .of_steady listLiteral_steady
  · exact .of_steady parenthesised_steady
  · exact .of_steady commandSubstitution_steady
  · exact .of_steady (processSubstitution_steady _)
  · exact .of_steady (processSubstitution_steady _)
  · refine .modeIn ?_
    split
    · exact Yields.fail.under
    · next hbraceless =>
        refine (braceValue_curly ctx c).imp fun n _ hn => ?_
        have := hn.obeys
        exact ⟨.curly (by simpa using hbraceless) hn.curly, .inl (Obeys.node n).wordless⟩
  · exact .of_steady lambda_steady
  · exact .of_steady lambda_steady
  · exact Yields.fail.under

theorem keywordValue_takes (k : Keyword) : Yields c (TakesMembers ctx.mode) (under ctx (keywordValue r k)) := by
  refine .hereIn ?_
  dsimp only
  split
  · exact .of_steady (.last fun _ => .pure fun _ => .literal)
  · exact .of_steady (.last fun _ => .pure fun _ => .literal)
  · exact .of_steady (.last fun _ => .pure fun _ => .literal)
  · split
    · exact .of_steady setLiteral_steady
    · refine .modeIn ?_
      split
      · next hwords => exact bareWord_takes hwords
      · exact Yields.fail.under
  · refine .modeIn ?_
    split
    · next hword => exact bareWord_takes (Bool.and_eq_true_iff.mp hword).2
    · exact Yields.fail.under

/-! ## Operands -/

/-- **A primary expression keeps the mode**, and a word among them takes no members. -/
theorem primary_takes : Yields c (TakesMembers ctx.mode) (under ctx (primary r)) := by
  refine .peekIn ?_
  split
  · exact .of_steady (.last fun _ => .last fun value => rangeFrom_steady .literal)
  · exact .of_steady (.last fun _ => .pure fun _ => .literal)
  · exact .of_steady (.last fun _ => .pure fun _ => .literal)
  · exact .of_steady (.last fun _ => rangeFrom_steady (.closed rfl rfl))
  · exact .of_steady (.last fun _ => .pure fun _ => .closed rfl rfl)
  · exact .of_steady (.last fun _ => .pure fun _ => .closed rfl rfl)
  · exact .of_steady (.last fun _ => .pure fun _ => .closed rfl rfl)
  · refine .modeIn ?_
    split
    · next hwords => exact bareWord_takes hwords
    · next hnot =>
        have hwords : ctx.mode.words = false := by simpa using hnot
        exact (nameExpression_keeps hwords).imp fun n _ hn => ⟨hn, .inl (hn.wordless hwords)⟩
  · exact keywordValue_takes _
  · exact symbolValue_takes _
  · exact Yields.fail.under

/-- A field or a method is glued to what is no word. -/
theorem accessTurn_takes {target : Node} (h : TakesMembers ctx.mode target c) :
    Yields c (Turn.Holds (TakesMembers ctx.mode) fun n _ => n.Keeps ctx.mode) (under ctx (accessTurn r target)) := by
  obtain ⟨hkeeps, hwordless⟩ := h
  refine .hereIn ?_
  split
  · next hglued =>
      have hwordless : target.outline.Wordless := hwordless.resolve_right (by simp [hglued])
      refine .skipIn fun name c₁ => .skipIn fun touches c₂ => ?_
      split
      · refine .bindIn Obeying.yields fun args c₃ _ => .skipIn fun span c₄ => .pure ?_
        exact ⟨.methodCall _ hkeeps hwordless, .inl (wordless_of_solid rfl)⟩
      · exact .skipIn fun span c₃ => .pure ⟨.fieldAccess _ hkeeps hwordless, .inl (wordless_of_solid rfl)⟩
  · exact .pure hkeeps

theorem access_keeps : Leaves (fun mode n => n.Keeps mode) (access r) := by
  intro ctx c
  rw [access]
  refine .bindIn primary_takes fun target c₁ htarget => ?_
  rw [under_loop]
  exact .loop (fun n c₂ hn => accessTurn_takes hn) htarget

theorem unary_keeps : Leaves (fun mode n => n.Keeps mode) (unary r) := by
  refine fun ctx c => .skipIn fun token c₁ => ?_
  split
  · exact .skipIn fun _ c₂ => .bindIn (hr.unary ctx c₂) fun operand _ hoperand => .pure (.unary hoperand)
  · exact access_keeps ctx c₁

/-! ## Operators and pipes -/

theorem binary_keeps (least : Nat) : Leaves (fun mode n => n.Keeps mode) (binary r least) := by
  intro ctx c
  refine .bindIn (unary_keeps ctx c) fun left c₁ hleft => ?_
  rw [under_loop]
  refine .loop (I := fun n _ => n.Keeps ctx.mode) (fun n c₂ hn => .modeIn (.hereIn ?_)) hleft
  split
  · refine .skipIn fun _ _ => .skipIn fun _ c₃ => .bindIn (hr.binary _ ctx c₃) fun right _ hright => ?_
    exact .pure (.binary hn hright)
  · exact .pure hn

/-- **A pipeline, where names are commands.** -/
theorem pipeline_keeps (hwords : ctx.mode.words = false) :
    Yields c (fun n _ => n.Keeps ctx.mode) (under ctx (pipeline r)) := by
  refine .bindIn (binary_keeps 0 ctx c) fun first c₁ hfirst => ?_
  refine .bindIn (P := fun others _ => ∀ p ∈ others, p.2.Keeps ctx.mode) ?_ fun others c₂ hothers => ?_
  · rw [under_collect]
    refine .collect (P := fun p : Symbol × Node => p.2.Keeps ctx.mode) fun c₂ => .skipIn fun joint c₃ => ?_
    cases joint with
    | none => exact .pure fun p hp => by contradiction
    | some s =>
        refine .bindIn (hr.binary 0 ctx c₃) fun n c₄ hn => .pure ?_
        rintro _ ⟨rfl⟩
        exact hn
  · split
    · exact .pure hfirst
    · exact .pure (.pipeline hwords (List.forall_mem_cons.mpr ⟨hfirst, List.forall_mem_map.mpr hothers⟩))

/-- **The head of a statement** shows no braces. -/
theorem condition_heads : Yields c (fun n _ => Obeys n ∧ Heads n) (under ctx (condition r)) := by
  rw [condition, under_within]
  exact (hr.expression _ c rfl).imp fun n _ hn => ⟨hn.obeys rfl, ⟨hn.suits.braceless rfl⟩⟩

end Grammar

end ShellFront
