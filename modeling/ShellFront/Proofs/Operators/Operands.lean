import ShellFront.Proofs.Operators.Fitting
import ShellFront.Proofs.Values.Gives
import ShellFront.Proofs.Values.Outcomes

/-!
# Operands

What may stand beside an operator without brackets: no operator that takes two operands, and no pipeline. Where names
are plain words, no command either. This can be told from the kind of node that a production gives.

## Contents
- `Node.IsOperand`.
- `Grammar.Single` and the productions that give neither operators nor pipes.
- `Grammar.TakesCommand`, with `Grammar.primary_command` and `Grammar.primary_single`.
- `Grammar.primary_operand`, `Grammar.access_operand`.
-/

namespace ShellFront

open Outline Parse

/-! ## Operands -/

/-- What an operator takes in without brackets: nothing that an operator joins, and no pipeline. Where names are words,
    no command and no pipe shows in it. -/
structure Node.IsOperand (mode : Mode) (n : Node) : Prop where
  ne_binary : n.outline.kind ≠ .binaryOp
  ne_pipeline : n.outline.kind ≠ .pipeline
  guarded : mode.words = true → n.outline.Guarded

/-- What no operator makes is an operand in every mode. -/
theorem Node.IsOperand.of_single {mode : Mode} {n : Node} (h : n.outline.kind.isSingle = true) : n.IsOperand mode where
  ne_binary := fun hkind => by rw [hkind] at h; contradiction
  ne_pipeline := fun hkind => by rw [hkind] at h; contradiction
  guarded := fun _ => guarded_of_single h

namespace Grammar

variable {α : Type} {r : Rules} {ctx : Context} {c : Cursor}

/-! ## Nodes without operators -/

/-- Whatever the action gives is made without operators and pipes, and is no flag. -/
def Single (m : Parse Node) : Prop := ∀ c, Yields c (fun n _ => n.outline.kind.isSingle = true) m

namespace Single

variable {m m' : Parse Node} {f : α → Parse Node}

/-- Only the last of two actions leaves a node. -/
theorem last {k : Parse α} (hf : ∀ a, Single (f a)) : Single (k >>= f) := fun _ => .skip fun a c₁ => hf a c₁

theorem pure {n : Node} (h : n.outline.kind.isSingle = true) : Single (Pure.pure n) := fun _ => .pure h

theorem fail {problem : Problem} : Single (Parse.fail problem) := fun _ => .fail

theorem failAt {token : Token} {problem : Problem} : Single (Parse.failAt token problem) := fun _ => .failAt

/-- Both ways leave a single node. -/
theorem ite {b : Prop} [Decidable b] (h : Single m) (h' : Single m') : Single (if b then m else m') :=
  fun c => .ite (fun _ => h c) fun _ => h' c

theorem within {change : Mode → Mode} (h : Single m) : Single (Parse.within change m) :=
  fun c _ st n st' hst hrun => h c _ st n st' hst hrun

/-- An attempt gives what it attempts, if it gives anything. -/
theorem tentatively {f : Option Node → Parse Node} (h : Single m) (hf : Single (f none))
    (hf' : ∀ n, f (some n) = Pure.pure n) : Single (Grammar.tentatively m >>= f) := by
  refine fun c => .of_under fun ctx => .bindIn (.tentatively (h c).under) fun n? c₁ hn => ?_
  cases n? with
  | none => exact (hf c₁).under
  | some n =>
      rw [hf']
      exact .pure (hn n rfl)

end Single

theorem rangeFrom_single {first : Node} (h : first.outline.kind.isSingle = true) : Single (rangeFrom first) :=
  .last fun _ => .ite (.last fun _ => .last fun _ => .pure rfl) (.pure h)

/-- Parentheses hide all operators inside. -/
theorem parenthesised_single : Single (parenthesised r) := by
  refine .last fun start => .last fun closes => .ite (.last fun _ => .pure rfl) (.within (.last fun first => ?_))
  refine .last fun comma => .ite ?_ ?_
  · exact .last fun _ => .last fun _ => .pure rfl
  · exact .last fun _ => .last fun _ => .pure rfl

theorem recordLiteral_single : Single (recordLiteral r) := .last fun fields => .pure (by cases fields; rfl)

theorem closure_single : Single (closure r) := by
  refine .last fun _ => .last fun (_, _) => ?_
  exact .last fun _ => .last fun _ => .last fun _ => .pure rfl

theorem lambda_single : Single (lambda r) := by
  have hrest (start : Token) (params : List (Parameter Node)) : Single (do
      let returns ← typeHintAfter? .arrow
      let body ← block r
      return .lambda (← spanFrom start.span) params returns body) :=
    .last fun _ => .last fun _ => .last fun _ => .pure rfl
  rw [lambda_eq]
  exact .last fun start => .ite (.last fun params => hrest start params) (.last fun params => hrest start params)

theorem callOf_single (name : Token) : Single (callOf r name) := .last fun _ => .last fun _ => .pure rfl

/-- A word is made without operators, and so is the call that it may turn out to be. -/
theorem bareWord_single : Single (bareWord r) := by
  have hword (start : Token) (parts : List Token) : Single (do
      return .word (← spanFrom start.span) (parts.foldl (fun text part => text ++ "." ++ part.lexeme) start.lexeme)) :=
    .last fun _ => .pure rfl
  exact .last fun start => .last fun parts => .last fun _ => .ite (callOf_single start) (hword start parts)

theorem braceExpansion_single : Single (braceExpansion r) :=
  .last fun _ => .last fun _ => .last fun _ => .last fun _ => .pure rfl

/-- Whatever the braces turn out to hold. -/
theorem braceValue_single : Single (braceValue r) := by
  refine .last fun c => .ite recordLiteral_single (.ite closure_single ?_)
  split
  · exact braceExpansion_single
  · exact closure_single
  · refine .last fun start => .tentatively recordLiteral_single (.last fun _ => ?_) fun _ => rfl
    exact .tentatively closure_single .failAt fun _ => rfl

theorem keywordValue_single (k : Keyword) : Single (keywordValue r k) := by
  refine .last fun c => ?_
  dsimp only
  split
  · exact .last fun _ => .pure rfl
  · exact .last fun _ => .pure rfl
  · exact .last fun _ => .pure rfl
  · refine .ite (.last fun _ => .last fun _ => .last fun _ => .pure rfl) (.last fun _ => ?_)
    exact .ite bareWord_single .fail
  · exact .last fun _ => .ite bareWord_single .fail

theorem symbolValue_single (s : Symbol) : Single (symbolValue r s) := by
  unfold symbolValue
  split
  · exact .last fun _ => .last fun _ => .last fun _ => .pure rfl
  · exact parenthesised_single
  · exact .last fun _ => .last fun _ => .last fun _ => .last fun _ => .pure rfl
  · exact .last fun _ => .last fun _ => .last fun _ => .last fun _ => .pure rfl
  · exact .last fun _ => .last fun _ => .last fun _ => .last fun _ => .pure rfl
  · exact .last fun _ => .ite .fail braceValue_single
  · exact lambda_single
  · exact lambda_single
  · exact .fail

theorem pathWord_single : Single (pathWord r) := .last fun _ => .last fun _ => .last fun _ => .pure rfl

/-! ## Productions that give operands -/

/-- A command gives a command, however many stages it has. -/
theorem commandExpression_kind :
    Yields c (fun n _ => n.outline.kind = .commandExpression) (commandExpression r) :=
  .skip fun _ _ => .skip fun _ _ => .pure rfl

/-- A name that is no word and stands for a command. -/
def TakesCommand (mode : Mode) (c : Cursor) : Prop :=
  c.kind = .identifier ∧ mode.words = false ∧ nameUse mode c = .command

/-- Out of the words mode a name is not a word. -/
theorem primary_name {st : State} (hname : st.cursor.kind = .identifier) (hwords : ctx.mode.words = false) :
    primary r ctx st = nameExpression r ctx st := by
  have hname : st.cursor.current.kind = .identifier := hname
  simp only [primary, bind_run, peek, Parse.mode, hname, hwords, Bool.false_eq_true, if_false]

/-- What takes a command reads one. -/
theorem primary_command {st : State} (h : TakesCommand ctx.mode st.cursor) :
    primary r ctx st = commandExpression r ctx st := by
  rw [primary_name h.1 h.2.1]
  simp only [nameExpression, bind_run, Parse.mode, here, h.2.2]

/-- What is not a command is made without operators and pipes. -/
theorem primary_single (h : ¬ TakesCommand ctx.mode c) :
    Yields c (fun n _ => n.outline.kind.isSingle = true) (under ctx (primary r)) := by
  have hsingle {m : Parse Node} (hm : Single m) : Yields c (fun n _ => n.outline.kind.isSingle = true) (under ctx m) :=
    (hm c).under
  refine .peekIn ?_
  split
  · exact hsingle (.last fun _ => .last fun value => rangeFrom_single (by cases value <;> rfl))
  · exact hsingle (.last fun _ => .pure rfl)
  · exact hsingle (.last fun _ => .pure rfl)
  · exact hsingle (.last fun _ => rangeFrom_single rfl)
  · exact hsingle (.last fun _ => .pure rfl)
  · exact hsingle (.last fun _ => .pure rfl)
  · exact hsingle (.last fun _ => .pure rfl)
  · next hname =>
      refine .modeIn ?_
      split
      · exact hsingle bareWord_single
      · next hwords =>
          refine .modeIn (.hereIn ?_)
          split
          · exact hsingle (.last fun _ => .last fun _ => .last fun _ => .pure rfl)
          · exact hsingle (.last fun name => callOf_single name)
          · exact hsingle (.last fun _ => .last fun _ => .last fun _ => .pure rfl)
          · next huse => exact absurd ⟨hname, by simpa using hwords, huse⟩ h
  · exact hsingle (keywordValue_single _)
  · exact hsingle (symbolValue_single _)
  · exact hsingle .fail

/-- A value is an operand of the mode it is read in. -/
theorem primary_operand : Yields c (fun n _ => n.IsOperand ctx.mode) (under ctx (primary r)) := by
  by_cases h : TakesCommand ctx.mode c
  · intro _ st n st' hst hrun
    have hrun : primary r ctx st = .ok n st' := hrun
    rw [primary_command (hst ▸ h)] at hrun
    have hkind := commandExpression_kind ctx st n st' hst hrun
    exact ⟨by rw [hkind]; decide, by rw [hkind]; decide, fun hwords => by rw [h.2.1] at hwords; contradiction⟩
  · exact (primary_single h).imp fun _ _ => .of_single

/-- A field or a method of an operand is an operand again. -/
theorem accessTurn_operand {target : Node} {mode : Mode} (h : target.IsOperand mode) :
    Yields c (Turn.Holds (fun n _ => n.IsOperand mode) fun n _ => n.IsOperand mode) (accessTurn r target) := by
  refine .skip fun c₀ c₁ => .ite (fun _ => .skip fun name c₂ => .skip fun touches c₃ => ?_) fun _ => .pure h
  refine .ite (fun _ => .skip fun args c₄ => ?_) fun _ => ?_
  · exact .skip fun _ _ => .pure (.of_single rfl)
  · exact .skip fun _ _ => .pure (.of_single rfl)

/-- Fields and methods make no operators either. -/
theorem access_operand : Yields c (fun n _ => n.IsOperand ctx.mode) (under ctx (access r)) := by
  refine .bindIn primary_operand fun target c₁ htarget => ?_
  rw [under_loop]
  exact .loop (fun n c₂ hn => (accessTurn_operand hn).under) htarget

end Grammar

end ShellFront
