import ShellFront.Proofs.Operators.Operands
import ShellFront.Proofs.Parse.StatementLists

/-!
# Actions that build fitting trees

An action **builds** when everything it gives fits. For most productions that is so because it is so for their parts,
and instances put the parts together. What stands among the arguments of a command has to be guarded as well.

## Contents
- `Parse.Builds`, with instances for the actions that all others are made of.
- `Node.IsTerm`, `Rules.Builds`: what is known of the rules.
- `Grammar.argument_guarded`.
- An instance for each production up to `Grammar.access`.
-/

namespace ShellFront

open Outline

namespace Parse

variable {α β γ : Type} {m : Parse α} {f : α → Parse β} {ctx : Context}

/-! ## Actions that build -/

open Outlined

/-- Everything that the action gives fits. -/
class Builds [Outlined α] (m : Parse α) : Prop where
  fits : ∀ c, Yields c (fun a _ => Fits a) m

namespace Builds

variable [Outlined α] [Outlined β] [Outlined γ]

theorem fits_of_ok [hm : Builds m] {st st' : State} {a : α} (hrun : m ctx st = .ok a st') : Fits a :=
  hm.fits _ ctx st a st' rfl hrun

instance (priority := low) blank [Blank α] (m : Parse α) : Builds m where
  fits := fun _ => Yields.any.imp fun _ _ _ => inferInstance

instance pure (a : α) [Fits a] : Builds (Pure.pure a : Parse α) := ⟨fun _ => .pure ‹_›⟩

instance bind [hm : Builds m] [hf : ∀ a : { a : α // Fits a }, Builds (f a.1)] : Builds (m >>= f) where
  fits := fun c => .bind (hm.fits c) fun a c₁ ha => (hf ⟨a, ha⟩).fits c₁

instance ite {b : Prop} [Decidable b] {m' : Parse α} [hm : Builds m] [hm' : Builds m'] :
    Builds (if b then m else m') where
  fits := fun c => .ite (fun _ => hm.fits c) fun _ => hm'.fits c

instance (change : Mode → Mode) [hm : Builds m] : Builds (within change m) where
  fits := fun c _ st a st' hst hrun => hm.fits c _ st a st' hst hrun

instance (problem : Problem) : Builds (fail problem : Parse α) := ⟨fun _ => .fail⟩

instance (token : Token) (problem : Problem) : Builds (failAt token problem : Parse α) := ⟨fun _ => .failAt⟩

instance (e : SyntaxError) : Builds (throw e : Parse α) where
  fits := fun _ _ _ _ _ _ hrun => by contradiction

instance [hm : Builds m] : Builds (Grammar.tentatively m) where
  fits := fun c => .of_under fun ctx => (Yields.tentatively (hm.fits c).under).imp fun a? _ ha => by
    cases a? with
    | none => infer_instance
    | some a =>
        have := ha a rfl
        infer_instance

instance loop (r : Rules) (b : β) [hb : Fits b] {turn : β → Parse (Turn β γ)}
    [hturn : ∀ b : { b : β // Fits b }, Builds (turn b.1)] : Builds (r.loop b turn) where
  fits := fun c => by
    refine .loop (I := fun b _ => Fits b) (fun b c₁ hb => ?_) hb
    refine ((hturn ⟨b, hb⟩).fits c₁).imp fun t _ ht => ?_
    cases t with
    | again b => exact ⟨ht.all⟩
    | done g => exact ⟨ht.all⟩

instance {item : Parse (Option α)} [Builds item] (items : Array α) [Fits items] : Builds (collectTurn item items) := by
  refine @bind _ _ _ _ _ _ _ fun a? => ?_
  obtain ⟨_ | a, ha⟩ := a?
  · infer_instance
  · have := ha.of_some
    infer_instance

instance (closer : TokenKind) {item : Parse α} [Builds item] (items : Array α) [Fits items] :
    Builds (commaTurn closer item items) := by
  unfold commaTurn
  infer_instance

instance collect (r : Rules) {item : Parse (Option α)} [Builds item] : Builds (r.collect item) := by
  unfold Rules.collect
  infer_instance

instance commaList (r : Rules) (closer : TokenKind) {item : Parse α} [Builds item] :
    Builds (r.commaList closer item) := by
  unfold Rules.commaList
  infer_instance

end Builds

end Parse

open Parse

/-! ## The rules -/

/-- Operands joined by operators of at least some precedence, up to a place where no such operator goes on. -/
structure Node.IsTerm (mode : Mode) (least : Nat) (n : Node) (c : Cursor) : Prop where
  binds : n.outline.BindsFrom least
  ne_pipeline : n.outline.kind ≠ .pipeline
  guarded : mode.words = true → n.outline.Guarded
  ends : Grammar.continuing? mode least c = none

/-- What the rules of the grammar build. -/
class Rules.Builds (r : Rules) : Prop where
  expression : Parse.Builds r.expression
  binary : ∀ least, Parse.Builds (r.binary least)
  unary : Parse.Builds r.unary
  access : Parse.Builds r.access
  statement : Parse.Builds r.statement
  assigned : Parse.Builds r.assigned
  term : ∀ least ctx c, Yields c (fun n c => n.IsTerm ctx.mode least c) (under ctx (r.binary least))
  operand : ∀ ctx c, Yields c (fun n _ => n.IsOperand ctx.mode) (under ctx r.unary)
  accessed : ∀ ctx c, Yields c (fun n _ => n.IsOperand ctx.mode) (under ctx r.access)

attribute [instance] Rules.Builds.expression Rules.Builds.binary Rules.Builds.unary Rules.Builds.access
  Rules.Builds.statement Rules.Builds.assigned

namespace Grammar

-- long productions are put together from more parts than the search for an instance takes in by default
set_option synthInstance.maxSize 512

variable (r : Rules) [hr : r.Builds]

/-! ## Lists, parameters, blocks -/

instance (closer : Symbol) (inside : Sequence) : Builds (commaValues r closer inside) := by
  unfold commaValues
  infer_instance

instance : Builds (bracketed r) := by
  unfold bracketed
  infer_instance

instance : Builds (callArguments r) := by
  unfold callArguments
  infer_instance

instance (allowed : Bool) : Builds (fallback? r allowed) := by
  unfold fallback?
  dsimp only
  infer_instance

instance (fallbacks : Bool) : Builds (parameter r fallbacks) := by
  unfold parameter
  infer_instance

instance (closer : Symbol) (fallbacks : Bool) : Builds (parameters r closer fallbacks) := by
  unfold parameters
  infer_instance

instance (start : Cursor) (e : SyntaxError) : Builds (recover start e) := by
  unfold recover
  infer_instance

instance (inBlock : Bool) (statements : Array Node) [Fits statements] (start : Cursor) (e : SyntaxError) :
    Builds (afterError inBlock statements start e) := by
  unfold afterError
  infer_instance

instance (inBlock : Bool) (statements : Array Node) [Fits statements] : Builds (afterStatement inBlock statements) := by
  unfold afterStatement
  infer_instance

instance (inBlock : Bool) (statements : Array Node) [Fits statements] :
    Builds (statementTurn r inBlock statements) where
  fits := fun c ctx st t st' _ hrun => by
    rw [statementTurn_run] at hrun
    dsimp only at hrun
    split at hrun
    · obtain ⟨rfl, rfl⟩ := EStateM.Result.ok.inj hrun
      infer_instance
    · split at hrun
      · exact Builds.fits_of_ok hrun
      · next node _ hnode =>
          have := Builds.fits_of_ok hnode
          exact Builds.fits_of_ok hrun

instance (inBlock : Bool) : Builds (statementList r inBlock) := by
  rw [statementList]
  infer_instance

instance : Builds (block r) := by
  unfold block
  infer_instance

/-! ## Literals, ranges, brackets -/

instance (dots : Symbol) : Builds (rangeEnd dots) := by
  refine @Builds.bind _ _ _ _ _ _ _ fun token => ?_
  split <;> infer_instance

instance (first : Node) [Fits first] : Builds (rangeFrom first) := by
  unfold rangeFrom
  dsimp only
  infer_instance

instance : Builds (listLiteral r) := by
  unfold listLiteral
  infer_instance

instance : Builds (setLiteral r) := by
  unfold setLiteral
  infer_instance

instance (start : Span) (first : Node) [Fits first] : Builds (parenRest r start first) := by
  unfold parenRest
  infer_instance

instance : Builds (parenthesised r) := by
  unfold parenthesised
  infer_instance

instance : Builds (commandSubstitution r) := by
  unfold commandSubstitution
  infer_instance

instance (direction : Direction) : Builds (processSubstitution r direction) := by
  unfold processSubstitution
  infer_instance

/-! ## Records and closures -/

omit hr in
instance {α : Type} [Outlined α] {part : Parse α} [Builds part] (problem : Problem) : Builds (bracedItem part problem) := by
  unfold bracedItem
  infer_instance

instance : Builds (recordField r) := by
  unfold recordField
  infer_instance

instance : Builds (fieldItem r) := inferInstanceAs (Builds (bracedItem _ _))

instance : Builds (record r) := by
  unfold record
  infer_instance

instance : Builds (recordLiteral r) := by
  unfold recordLiteral
  infer_instance

instance : Builds (closureParameters r) := by
  unfold closureParameters
  infer_instance

instance : Builds (closure r) := by
  unfold closure
  infer_instance

instance : Builds (lambda r) := by
  rw [lambda_eq]
  infer_instance

/-! ## Words and commands -/

instance (name : Token) : Builds (callOf r name) := by
  unfold callOf
  infer_instance

instance : Builds (bareWord r) := by
  unfold bareWord
  infer_instance

instance : Builds (pathWord r) := by
  unfold pathWord
  infer_instance

instance (name : Token) : Builds (flagValue r name) := by
  refine @Builds.bind _ _ _ _ _ _ _ fun token => ?_
  split <;> infer_instance

instance : Builds (longFlag r) := by
  unfold longFlag
  infer_instance

instance : Builds (argument r) := by
  refine @Builds.bind _ _ _ _ _ _ _ fun token => ?_
  split <;> infer_instance

instance : Builds (argument? r) := by
  unfold argument?
  infer_instance

instance : Builds (commandArguments r) := by
  unfold commandArguments
  infer_instance

/-! ## Arguments are guarded -/

variable {r} {ctx : Context} {c : Cursor}

/-- Among words, what a flag is given shows no command and no pipe. -/
theorem flagValue_guarded (hwords : ctx.mode.words = true) (name : Token) :
    Yields c (fun n? _ => ∀ n, n? = some n → n.outline.Guarded) (under ctx (flagValue r name)) := by
  have hnone (c : Cursor) : Yields c (fun n? _ => ∀ n, n? = some n → n.outline.Guarded)
      (under ctx (pure (none : Option Node))) := .pure (by simp)
  have hvalue (m : Parse Node) (hm : ∀ c, Yields c (fun n _ => n.IsOperand ctx.mode) (under ctx m)) (c : Cursor) :
      Yields c (fun n? _ => ∀ n, n? = some n → n.outline.Guarded) (under ctx (m >>= fun n => pure (some n))) := by
    refine .bind (hm c) fun n c₁ hn => .pure ?_
    rintro _ ⟨rfl⟩
    exact hn.guarded hwords
  refine .skipIn fun token c₁ => ?_
  split
  · split
    · exact .skipIn fun _ c₂ => hvalue r.unary (hr.operand ctx) c₂
    · exact hnone c₁
  · exact hvalue r.access (hr.accessed ctx) c₁
  · exact hvalue r.access (hr.accessed ctx) c₁
  · exact hvalue r.access (hr.accessed ctx) c₁
  · exact hvalue r.access (hr.accessed ctx) c₁
  · split
    · exact hnone c₁
    · exact hvalue r.access (hr.accessed ctx) c₁
  · exact hnone c₁

theorem longFlag_guarded (hwords : ctx.mode.words = true) :
    Yields c (fun n _ => n.outline.Guarded) (under ctx (longFlag r)) := by
  refine .skipIn fun name c₁ => .bindIn (flagValue_guarded hwords name) fun value c₂ hvalue => .skipIn fun span _ => ?_
  exact .pure (guarded_flag hvalue)

/-- **Among words, an argument shows no command and no pipe.** -/
theorem argument_guarded (hwords : ctx.mode.words = true) :
    Yields c (fun n _ => n.outline.Guarded) (under ctx (argument r)) := by
  refine .skipIn fun token c₁ => ?_
  split
  · exact longFlag_guarded hwords
  · exact .skipIn fun _ _ => .pure (guarded_flag nofun)
  · exact (pathWord_single c₁).under.imp fun _ _ => guarded_of_single
  · exact (pathWord_single c₁).under.imp fun _ _ => guarded_of_single
  · exact (pathWord_single c₁).under.imp fun _ _ => guarded_of_single
  · exact (pathWord_single c₁).under.imp fun _ _ => guarded_of_single
  · exact (hr.term _ ctx c₁).imp fun _ _ hterm => hterm.guarded hwords

theorem commandArguments_guarded : Yields c (fun ns _ => ∀ n ∈ ns, n.outline.Guarded) (commandArguments r) := by
  refine .of_under fun ctx => ?_
  rw [commandArguments, under_within, under_collect]
  refine .collect fun c₁ => .modeIn (.hereIn ?_)
  split
  · refine .bindIn (argument_guarded rfl) fun n _ hn => .pure ?_
    rintro _ ⟨rfl⟩
    exact hn
  · exact .pure (by simp)

instance : Builds (commandStage r) where
  fits := fun c => by
    refine .skip fun name c₁ => .bind ((Builds.fits c₁).and commandArguments_guarded) fun args _ hargs => ?_
    have := hargs.1
    exact .skip fun span _ => .pure (.stage hargs.2)

instance : Builds (braceExpansion r) where
  fits := fun c => by
    refine .skip fun start c₁ => ?_
    refine .bind (P := fun ns _ => Fits ns ∧ ∀ n ∈ ns, n.outline.Guarded) ?_ fun items _ hitems => ?_
    · refine .of_under fun ctx => ?_
      rw [under_within, under_loop]
      refine .loop (I := fun ns _ => Fits ns ∧ ∀ n ∈ ns.toList, n.outline.Guarded) (fun ns c₂ hns => ?_)
        ⟨inferInstance, by simp⟩
      refine .bindIn ((Builds.fits c₂).under.and (argument_guarded rfl)) fun item _ hitem => .skipIn fun comma _ => ?_
      have := hns.1
      have := hitem.1
      split
      · exact .pure ⟨inferInstanceAs (Fits (ns.push item)), forall_mem_push hns.2 hitem.2⟩
      · exact .pure ⟨inferInstanceAs (Fits (ns.push item).toList), forall_mem_push hns.2 hitem.2⟩
    · have := hitems.1
      exact .skip fun _ _ => .skip fun span _ => .pure (.expansion hitems.2)

instance : Builds (foldedStage r) := by
  refine @Builds.bind _ _ _ _ _ _ _ fun joint => ?_
  obtain ⟨_ | s, _⟩ := joint <;> infer_instance

instance : Builds (commandExpression r) := by
  refine @Builds.bind _ _ _ _ _ _ _ fun first => @Builds.bind _ _ _ _ _ _ _ fun others => ?_
  exact ⟨fun _ => .pure (.command (by simp))⟩

instance : Builds (nameExpression r) := by
  refine @Builds.bind _ _ _ _ _ _ _ fun mode => @Builds.bind _ _ _ _ _ _ _ fun c => ?_
  split <;> infer_instance

/-! ## Values -/

instance : Builds (recordOrClosure r) := by
  refine @Builds.bind _ _ _ _ _ _ _ fun start => @Builds.bind _ _ _ _ _ _ _ fun first => ?_
  obtain ⟨_ | node, hfirst⟩ := first
  · refine @Builds.bind _ _ _ _ _ _ _ fun _ => @Builds.bind _ _ _ _ _ _ _ fun second => ?_
    obtain ⟨_ | node, hsecond⟩ := second
    · infer_instance
    · have := hsecond.of_some
      infer_instance
  · have := hfirst.of_some
    infer_instance

instance : Builds (braceValue r) := by
  refine @Builds.bind _ _ _ _ _ _ _ fun c => @Builds.ite _ _ _ _ _ _ _ (@Builds.ite _ _ _ _ _ _ _ ?_)
  split <;> infer_instance

instance (k : Keyword) : Builds (keywordValue r k) := by
  refine @Builds.bind _ _ _ _ _ _ _ fun c => ?_
  dsimp only
  split <;> infer_instance

instance (s : Symbol) : Builds (symbolValue r s) := by
  unfold symbolValue
  split <;> infer_instance

instance : Builds (primary r) := by
  refine @Builds.bind _ _ _ _ _ _ _ fun token => ?_
  split <;> infer_instance

instance (target : Node) [Fits target] (name : Token) : Builds (memberTurn r target name) := by
  unfold memberTurn
  dsimp only
  infer_instance

instance (target : Node) [Fits target] : Builds (accessTurn r target) := by
  unfold accessTurn
  infer_instance

instance : Builds (access r) := by
  rw [access]
  infer_instance

end Grammar

end ShellFront
