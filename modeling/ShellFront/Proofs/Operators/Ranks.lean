import ShellFront.Proofs.Operators.Building

/-!
# Precedence in every tree

Operators are ranked by precedence in every tree that is read, and pipes stand apart from them.

## Contents
- `Grammar.unary_operand`, `Grammar.binaryTurn_left`, `Grammar.binary_term`: the loop over operators.
- `Grammar.IsStage`: the stages of a pipeline.
- `Rules.upTo_builds`, `parse_ranked`, `parse_pipesApart`.
-/

namespace ShellFront

open Outlined Outline Parse

namespace Grammar

-- long productions are put together from more parts than the search for an instance takes in by default
set_option synthInstance.maxSize 1024

variable {r : Rules} [hr : r.Builds] {ctx : Context} {c : Cursor}

theorem unary_operand : Yields c (fun n _ => Fits n ∧ n.IsOperand ctx.mode) (under ctx (unary r)) := by
  refine .skipIn fun token c₁ => ?_
  split
  · refine .skipIn fun _ c₂ => .bindIn ((Builds.fits c₂).under.and (hr.operand ctx c₂)) ?_
    rintro n _ ⟨hfits, hn⟩
    refine .pure ⟨.unary hn.ne_binary hn.ne_pipeline, ?_, ?_, fun hwords => guarded_unary (hn.guarded hwords)⟩
    · simp [Node.outline, Outline.kind]
    · simp [Node.outline, Outline.kind]
  · exact (Builds.fits c₁).under.and access_operand

/-! ## Operators -/

omit hr in
theorem continuing?_eq_some {mode : Mode} {least : Nat} {o : Operator} : continuing? mode least c = some o ↔
    Operator.ofToken? c.kind = some o ∧ least ≤ o.precedence ∧ (mode.words && startsNegative c) = false := by
  unfold continuing?
  cases Operator.ofToken? c.kind with
  | none => simp
  | some o' =>
      simp only [Option.ite_none_left_eq_some, Option.some.injEq, Bool.or_eq_true, decide_eq_true_eq, not_or,
        Nat.not_lt, Bool.not_eq_true]
      exact ⟨fun ⟨h, ho⟩ => ho ▸ ⟨rfl, h⟩, fun ⟨ho, h⟩ => ho.symm ▸ ⟨h, rfl⟩⟩

omit hr in
/-- Where no operator of some precedence goes on, one that does has less. -/
theorem continuing?_lt {mode : Mode} {least most : Nat} {o : Operator} (h : continuing? mode least c = some o)
    (hends : continuing? mode most c = none) : o.precedence < most := by
  obtain ⟨htoken, -, hapart⟩ := continuing?_eq_some.mp h
  by_contra hle
  have := continuing?_eq_some.mpr ⟨htoken, Nat.not_lt.mp hle, hapart⟩
  rw [hends] at this
  contradiction

/-- What is joined so far. An operator that goes on takes it in. -/
structure IsLeft (mode : Mode) (least : Nat) (n : Node) (c : Cursor) : Prop where
  fits : Fits n
  binds : n.outline.BindsFrom least
  ne_pipeline : n.outline.kind ≠ .pipeline
  guarded : mode.words = true → n.outline.Guarded
  next : ∀ o, continuing? mode least c = some o → n.outline.BindsFrom o.precedence

/-- **A turn joins one operand more.** -/
theorem binaryTurn_left {least : Nat} {left : Node} (h : IsLeft ctx.mode least left c) :
    Yields c (Turn.Holds (IsLeft ctx.mode least) fun n c => Fits n ∧ n.IsTerm ctx.mode least c)
      (under ctx (binaryTurn r least left)) := by
  refine .modeIn (.hereIn ?_)
  split
  · next o ho =>
      refine .skipIn fun _ _ => .skipIn fun _ c₁ => ?_
      refine .bindIn ((Builds.fits c₁).under.and (hr.term _ ctx c₁)) ?_
      rintro right c₂ ⟨hfits, hright⟩
      have := h.fits
      refine .pure ?_
      exact {
        fits := .binary (h.next o ho) hright.binds h.ne_pipeline hright.ne_pipeline
        binds := bindsFrom_binary (continuing?_eq_some.mp ho).2.1
        ne_pipeline := by simp [Node.outline, Outline.kind]
        guarded := fun hwords => guarded_binary (h.guarded hwords) (hright.guarded hwords)
        -- the right operand took in every operator that binds tighter than this one
        next := fun o' ho' => bindsFrom_binary (Nat.le_of_lt_succ (continuing?_lt ho' hright.ends)) }
  · next ho => exact .pure ⟨h.fits, h.binds, h.ne_pipeline, h.guarded, ho⟩

/-- **Operands are joined by precedence.** -/
theorem binary_term (least : Nat) :
    Yields c (fun n c => Fits n ∧ n.IsTerm ctx.mode least c) (under ctx (binary r least)) := by
  refine .bindIn unary_operand fun left c₁ ⟨hfits, hleft⟩ => ?_
  rw [under_loop]
  have hbinds (n : Nat) : left.outline.BindsFrom n := bindsFrom_of_kind hleft.ne_binary
  refine .loop (fun n c₂ hn => binaryTurn_left hn) ?_
  exact ⟨hfits, hbinds _, hleft.ne_pipeline, hleft.guarded, fun o _ => hbinds _⟩

variable (r)

instance : Builds (unary r) where
  fits := fun _ => .of_under fun _ => unary_operand.imp fun _ _ h => h.1

instance (least : Nat) : Builds (binary r least) where
  fits := fun _ => .of_under fun _ => (binary_term least).imp fun _ _ h => h.1

/-! ## Pipelines -/

/-- What may be a stage of a pipeline. -/
structure IsStage (n : Node) : Prop where
  fits : Fits n
  ne_pipeline : n.outline.kind ≠ .pipeline

omit hr in
theorem fits_stages {ns : List Node} (h : ∀ n ∈ ns, IsStage n) : Fits ns := .of_forall fun n hn => (h n hn).fits

theorem binary_stage : Yields c (fun n _ => IsStage n) (binary r 0) :=
  .of_under fun _ => (binary_term 0).imp fun _ _ h => ⟨h.1, h.2.ne_pipeline⟩

theorem rules_stage : Yields c (fun n _ => IsStage n) (r.binary 0) :=
  .of_under fun ctx => ((Builds.fits c).under.and (hr.term 0 ctx c)).imp fun _ _ h => ⟨h.1, h.2.ne_pipeline⟩

instance : Builds (pipeline r) where
  fits := fun c => by
    refine .bind (binary_stage r) fun first c₁ hfirst => ?_
    refine .bind (.collect (P := fun p => IsStage p.2) fun c₂ => ?_) fun others c₂ hothers => ?_
    · refine .skip fun joint c₃ => ?_
      cases joint with
      | none => exact .pure nofun
      | some s =>
          refine .bind (rules_stage r) fun n c₄ hn => .pure ?_
          rintro _ ⟨rfl⟩
          exact hn
    · have hstages : ∀ n ∈ first :: others.map (·.2), IsStage n :=
        List.forall_mem_cons.mpr ⟨hfirst, List.forall_mem_map.mpr hothers⟩
      split
      · exact .pure hfirst.fits
      · next last hlast =>
          have := fits_stages hstages
          refine .pure (.pipeline ?_ (by simp) fun n hn => (hstages n hn).ne_pipeline)
          have hsome : others ≠ [] := by
            rintro rfl
            contradiction
          have := List.length_pos_iff.mpr hsome
          rw [List.length_cons, List.length_map]
          omega

instance : Builds (expression r) := inferInstanceAs (Builds (pipeline r))

/-! ## Statements -/

instance : Builds (assignment r) := by
  unfold assignment
  infer_instance

instance : Builds (assigned r) := by
  unfold assigned
  infer_instance

instance (keyword : Keyword) : Builds (letBinding r keyword) := by
  unfold letBinding
  infer_instance

instance : Builds (condition r) := by
  unfold condition
  infer_instance

instance : Builds (elseIf? r) := by
  refine @Builds.bind _ _ _ _ _ _ _ fun token => ?_
  obtain ⟨_ | token, _⟩ := token <;> infer_instance

instance : Builds (elseBlock? r) := by
  refine @Builds.bind _ _ _ _ _ _ _ fun token => ?_
  obtain ⟨_ | token, _⟩ := token <;> infer_instance

instance : Builds (conditional r) := by
  unfold conditional
  infer_instance

instance : Builds (forLoop r) := by
  unfold forLoop
  infer_instance

instance : Builds (whileLoop r) := by
  unfold whileLoop
  infer_instance

instance : Builds (endlessLoop r) := by
  unfold endlessLoop
  infer_instance

instance : Builds (guard? r) := by
  unfold guard?
  infer_instance

instance : Builds (armBody r) := by
  unfold armBody
  infer_instance

instance : Builds (matchArm r) := by
  unfold matchArm
  infer_instance

instance : Builds (matchArm? r) := by
  unfold matchArm?
  infer_instance

instance : Builds (matching r) := by
  unfold matching
  infer_instance

instance : Builds (attemptCatch r) := by
  unfold attemptCatch
  dsimp only
  infer_instance

/-! ## Definitions -/

instance (name : Token) : Builds (decoratorArguments r name) := by
  refine @Builds.bind _ _ _ _ _ _ _ fun touches => @Builds.ite _ _ _ _ _ _ _ ?_
  refine @Builds.bind _ _ _ _ _ _ _ fun token => ?_
  split <;> infer_instance

instance : Builds (decorator? r) := by
  unfold decorator?
  infer_instance

variable (decorators : List (Decorator Node)) [Fits decorators]

instance : Builds (function r decorators) := by
  unfold function
  infer_instance

instance : Builds shellParameter? := by
  unfold shellParameter?
  infer_instance

instance : Builds (macroParameters r) := by
  unfold macroParameters
  infer_instance

instance : Builds (macroDefinition r decorators) := by
  unfold macroDefinition
  infer_instance

instance : Builds (aliasDefinition r decorators) := by
  unfold aliasDefinition
  infer_instance

instance : Builds (objectMember r) := by
  refine @Builds.bind _ _ _ _ _ _ _ fun token => ?_
  split <;> infer_instance

instance : Builds (objectDefinition r decorators) := by
  unfold objectDefinition
  infer_instance

instance : Builds (enumDefinition r decorators) := by
  unfold enumDefinition
  infer_instance

instance : Builds (testDefinition r decorators) := by
  unfold testDefinition
  infer_instance

instance : Builds (definition r decorators) := by
  refine @Builds.bind _ _ _ _ _ _ _ fun token => ?_
  split <;> infer_instance

instance : Builds (decorated r) := by
  unfold decorated
  infer_instance

/-! ## Modules, jumps, and all statements -/

instance : Builds (useModule r) := by
  unfold useModule
  infer_instance

instance (items : Array ImportItem) [Fits items] : Builds (importTurn items) := by
  unfold importTurn
  infer_instance

instance : Builds (importFrom r) := by
  unfold importFrom
  infer_instance

instance : Builds sourceFile := by
  unfold sourceFile
  infer_instance

instance : Builds (returnJump r) := by
  unfold returnJump
  dsimp only
  infer_instance

instance (k : Keyword) : Builds (keywordStatement r k) := by
  refine @Builds.bind _ _ _ _ _ _ _ fun c => ?_
  split <;> infer_instance

instance : Builds (statement r) := by
  refine @Builds.bind _ _ _ _ _ _ _ fun _ => @Builds.bind _ _ _ _ _ _ _ fun token => ?_
  split <;> infer_instance

end Grammar

namespace Rules

instance exhausted_builds : exhausted.Builds where
  expression := inferInstanceAs (Parse.Builds (fail .tooDeep))
  binary := fun _ => inferInstanceAs (Parse.Builds (fail .tooDeep))
  unary := inferInstanceAs (Parse.Builds (fail .tooDeep))
  access := inferInstanceAs (Parse.Builds (fail .tooDeep))
  statement := inferInstanceAs (Parse.Builds (fail .tooDeep))
  assigned := inferInstanceAs (Parse.Builds (fail .tooDeep))
  term := fun _ _ _ => Yields.fail.under
  operand := fun _ _ => Yields.fail.under
  accessed := fun _ _ => Yields.fail.under

/-- **The rules build fitting trees to every depth.** -/
instance upTo_builds (n : Nat) : (upTo n).Builds := by
  induction n with
  | zero => exact exhausted_builds
  | succ n ih =>
      exact {
        expression := inferInstanceAs (Parse.Builds (Grammar.expression (upTo n)))
        binary := fun least => inferInstanceAs (Parse.Builds (Grammar.binary (upTo n) least))
        unary := inferInstanceAs (Parse.Builds (Grammar.unary (upTo n)))
        access := inferInstanceAs (Parse.Builds (Grammar.access (upTo n)))
        statement := inferInstanceAs (Parse.Builds (Grammar.statement (upTo n)))
        assigned := inferInstanceAs (Parse.Builds (Grammar.assigned (upTo n)))
        term := fun least _ _ => (Grammar.binary_term least).imp fun _ _ h => h.2
        operand := fun _ _ => Grammar.unary_operand.imp fun _ _ h => h.2
        accessed := fun _ _ => Grammar.access_operand }

end Rules

/-! ## Scripts -/

theorem Parse.program_fits (file : Option String) (c : Cursor) :
    Yields c (fun p _ => Fits p.statements) (Parse.program file) := by
  refine .skip fun c₀ c₁ => .bind (P := fun list _ => Fits list) ?_ fun statements c₂ h => .pure h
  exact fun ctx st list st' _ hrun =>
    Builds.fits_of_ok (m := Grammar.statementList (.upTo st.cursor.depth) false) hrun

/-- Every node of a tree that is read fits. -/
theorem parse_fitting (source file : String) (failFast : Bool) (isBuiltin : String → Bool) :
    (parse source file failFast isBuiltin).program.outline.Everywhere Fitting := by
  have hfits : Fits (parse source file failFast isBuiltin).program.statements := by
    unfold parse Session.run
    dsimp only
    cases hrun : Parse.program (some file) _ _ with
    | ok program st => exact Parse.program_fits (some file) _ _ _ program st rfl hrun
    | error e st => exact (inferInstance : Fits ([] : List Node))
  exact fitting_loose rfl (by simp)

/-- **Operators are ranked by precedence in every tree**, in both modes. -/
theorem parse_ranked (source file : String) (failFast : Bool) (isBuiltin : String → Bool) :
    ∀ t ∈ (parse source file failFast isBuiltin).program.outline.walk, t.Ranked := by
  rw [walk_eq_preorder]
  exact fun t ht => (parse_fitting source file failFast isBuiltin t ht).ranked

/-- Operators that group to the left, with one that binds tighter between them. -/
theorem parse_ranked_sum :
    ∃ t ∈ (parse "$a - $b * 2 - $c | sort" "a" true fun _ => false).program.outline.walk,
      t.kind = .binaryOp ∧ t.children.map Outline.kind = [.binaryOp, .variableName] ∧ t.Ranked := by
  obtain ⟨t, ht, hkind, hchildren⟩ :
      ∃ t ∈ (parse "$a - $b * 2 - $c | sort" "a" true fun _ => false).program.outline.walk,
        t.kind = .binaryOp ∧ t.children.map Outline.kind = [.binaryOp, .variableName] := by
    rw [walk_eq_preorder]
    decide +kernel
  exact ⟨t, ht, hkind, hchildren, parse_ranked _ _ _ _ t ht⟩

/-- **Pipes stand apart from operators in every tree**, in both modes. -/
theorem parse_pipesApart (source file : String) (failFast : Bool) (isBuiltin : String → Bool) :
    ∀ t ∈ (parse source file failFast isBuiltin).program.outline.walk, t.PipesApart := by
  rw [walk_eq_preorder]
  exact fun t ht => (parse_fitting source file failFast isBuiltin t ht).pipes

/-- Among the arguments of a command names are words, and the pipe comes after them. -/
theorem parse_pipesApart_words :
    ∃ t ∈ (parse "echo a == b | sort" "a" true fun _ => false).program.outline.walk,
      t.kind = .commandStage ∧ t.children.map Outline.kind = [.commandName, .binaryOp] ∧
        ∀ c ∈ t.children, c.Guarded := by
  obtain ⟨t, ht, hkind, hchildren⟩ :
      ∃ t ∈ (parse "echo a == b | sort" "a" true fun _ => false).program.outline.walk,
        t.kind = .commandStage ∧ t.children.map Outline.kind = [.commandName, .binaryOp] := by
    rw [walk_eq_preorder]
    decide +kernel
  exact ⟨t, ht, hkind, hchildren, (parse_pipesApart _ _ _ _ t ht).arguments (.inl hkind)⟩

/-- Where a command is itself the operand, a pipe comes under an operator without brackets: in `not a | b` the operand
    is `a` with all that it is piped into. -/
theorem parse_pipe_under_not :
    ∃ t ∈ (parse "not a | b" "a" false fun _ => false).program.outline.walk, t.kind = .unaryOp ∧
      ∃ c ∈ t.children, c.kind = .commandExpression ∧ c.children.length = 2 := by
  rw [walk_eq_preorder]
  decide +kernel

end ShellFront
