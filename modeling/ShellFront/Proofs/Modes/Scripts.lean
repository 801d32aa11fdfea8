import ShellFront.Parse.Program
import ShellFront.Proofs.Modes.Expressions

/-!
# The modes are obeyed in every tree

Statements are read where names are commands, and what they give obeys. Only what stands in their heads is read in a
mode of its own.

## Contents
- An instance for each statement.
- `Rules.upTo_keep`: the rules keep the modes to every depth.
- `parse_modesObeyed`.
-/

namespace ShellFront

open Outline Parse

namespace Grammar

-- long productions are put together from more parts than the search for an instance takes in by default
set_option synthInstance.maxSize 1024

variable {mode : Mode} (r : Rules) [hr : r.Keep]

instance [hmode : mode.Wordless] : Obeying mode (expression r) where
  obeys := fun _ _ => (pipeline_keeps hmode.words_eq).imp fun _ _ h => h.obeys hmode.words_eq

instance (n : { n : Node // Obeys n ∧ Heads n }) : Obeys n.1 := n.2.1

instance (n : { n : Node // Obeys n ∧ Heads n }) : Heads n.1 := n.2.2

/-- A condition is passed on together with what is known of it. -/
instance {α : Type} [Outlined α] {f : Node → Parse α}
    [hf : ∀ n : { n : Node // Obeys n ∧ Heads n }, Obeying mode (f n.1)] : Obeying mode (condition r >>= f) where
  obeys := fun isBuiltin _ => .bindIn condition_heads fun n c₁ hn => (hf ⟨n, hn⟩).obeys isBuiltin c₁

/-! ## Bindings and control flow -/

instance [mode.Wordless] : Obeying mode (assignment r) := by
  unfold assignment
  infer_instance

instance [mode.Wordless] : Obeying mode (assigned r) := by
  unfold assigned
  infer_instance

instance (keyword : Keyword) [mode.Wordless] : Obeying mode (letBinding r keyword) := by
  unfold letBinding
  infer_instance

instance : Obeying mode (elseIf? r) := by
  refine @Obeying.bind _ _ _ _ _ _ _ _ fun token => ?_
  obtain ⟨_ | token, _⟩ := token <;> infer_instance

instance : Obeying mode (elseBlock? r) := by
  refine @Obeying.bind _ _ _ _ _ _ _ _ fun token => ?_
  obtain ⟨_ | token, _⟩ := token <;> infer_instance

instance : Obeying mode (conditional r) := by
  unfold conditional
  infer_instance

instance : Obeying mode (forLoop r) := by
  unfold forLoop
  infer_instance

instance : Obeying mode (whileLoop r) := by
  unfold whileLoop
  infer_instance

instance : Obeying mode (endlessLoop r) := by
  unfold endlessLoop
  infer_instance

instance [mode.Wordless] : Obeying mode (guard? r) := by
  unfold guard?
  infer_instance

instance [mode.Wordless] : Obeying mode (armBody r) := by
  unfold armBody
  infer_instance

instance [mode.Wordless] : Obeying mode (matchArm r) := by
  unfold matchArm
  infer_instance

instance [mode.Wordless] : Obeying mode (matchArm? r) := by
  unfold matchArm?
  infer_instance

instance : Obeying mode (matching r) := by
  unfold matching
  infer_instance

instance : Obeying mode (attemptCatch r) := by
  unfold attemptCatch
  dsimp only
  infer_instance

/-! ## Definitions -/

instance [hmode : mode.Wordless] : Obeying mode (primary r) where
  obeys := fun _ _ => primary_takes.imp fun _ _ h => h.1.obeys hmode.words_eq

instance (name : Token) [mode.Wordless] : Obeying mode (decoratorArguments r name) := by
  refine @Obeying.bind _ _ _ _ _ _ _ _ fun touches => @Obeying.ite _ _ _ _ _ _ _ _ ?_
  refine @Obeying.bind _ _ _ _ _ _ _ _ fun token => ?_
  split <;> infer_instance

instance [mode.Wordless] : Obeying mode (decorator? r) := by
  unfold decorator?
  infer_instance

variable (decorators : List (Decorator Node)) [Obeys decorators]

instance : Obeying mode (function r decorators) := by
  unfold function
  infer_instance

instance : Obeying mode shellParameter? := by
  unfold shellParameter?
  infer_instance

instance : Obeying mode (macroParameters r) := by
  unfold macroParameters
  infer_instance

instance : Obeying mode (macroDefinition r decorators) := by
  unfold macroDefinition
  infer_instance

instance [mode.Wordless] : Obeying mode (aliasDefinition r decorators) := by
  unfold aliasDefinition
  infer_instance

instance : Obeying mode (objectMember r) := by
  refine @Obeying.bind _ _ _ _ _ _ _ _ fun token => ?_
  split <;> infer_instance

instance : Obeying mode (objectDefinition r decorators) := by
  unfold objectDefinition
  infer_instance

instance : Obeying mode (enumDefinition r decorators) := by
  unfold enumDefinition
  infer_instance

instance : Obeying mode (testDefinition r decorators) := by
  unfold testDefinition
  infer_instance

instance [mode.Wordless] : Obeying mode (definition r decorators) := by
  refine @Obeying.bind _ _ _ _ _ _ _ _ fun token => ?_
  split <;> infer_instance

instance [mode.Wordless] : Obeying mode (decorated r) := by
  unfold decorated
  infer_instance

/-! ## Modules, jumps, and all statements -/

instance : Obeying mode (useModule r) := by
  unfold useModule
  infer_instance

instance (items : Array ImportItem) [Obeys items] : Obeying mode (importTurn items) := by
  unfold importTurn
  infer_instance

instance : Obeying mode (importFrom r) := by
  unfold importFrom
  infer_instance

instance : Obeying mode sourceFile := by
  unfold sourceFile
  infer_instance

instance [mode.Wordless] : Obeying mode (returnJump r) := by
  unfold returnJump
  dsimp only
  infer_instance

instance (k : Keyword) [mode.Wordless] : Obeying mode (keywordStatement r k) := by
  refine @Obeying.bind _ _ _ _ _ _ _ _ fun c => ?_
  split <;> infer_instance

instance [mode.Wordless] : Obeying mode (statement r) := by
  refine @Obeying.bind _ _ _ _ _ _ _ _ fun _ => @Obeying.bind _ _ _ _ _ _ _ _ fun token => ?_
  split <;> infer_instance

end Grammar

namespace Rules

instance exhausted_keep : exhausted.Keep where
  expression := fun _ _ _ => Yields.fail.under
  binary := fun _ => .fail
  unary := .fail
  access := .fail
  statement := fun mode => inferInstanceAs (Obeying mode (fail .tooDeep))
  assigned := fun mode => inferInstanceAs (Obeying mode (fail .tooDeep))

/-- **The rules keep the modes to every depth.** -/
instance upTo_keep (n : Nat) : (upTo n).Keep := by
  induction n with
  | zero => exact exhausted_keep
  | succ n ih =>
      exact {
        expression := fun _ _ => Grammar.pipeline_keeps
        binary := Grammar.binary_keeps
        unary := Grammar.unary_keeps
        access := Grammar.access_keeps
        statement := fun mode => inferInstanceAs (Obeying mode (Grammar.statement (upTo n)))
        assigned := fun mode => inferInstanceAs (Obeying mode (Grammar.assigned (upTo n))) }

end Rules

/-! ## Scripts -/

theorem Parse.program_obeys (recovering : Bool) (isBuiltin : String → Bool) (file : Option String) (c : Cursor) :
    Yields c (fun p _ => Obeys p.statements) (under ⟨.top recovering, isBuiltin⟩ (Parse.program file)) := by
  refine .skipIn fun c₀ c₁ => .bindIn (P := fun list _ => Obeys list) ?_ fun statements c₂ h => .pure h
  exact fun _ st list st' _ hrun =>
    Obeying.obeys_of_ok (m := Grammar.statementList (.upTo st.cursor.depth) false) hrun

/-- **The modes are obeyed in every tree**, whether errors are recovered from or not: what stands in the head of a
    statement has braces only inside of brackets, arguments of commands have commands only inside of brackets or
    braces, and words stand only there. -/
theorem parse_modesObeyed (source file : String) (failFast : Bool) (isBuiltin : String → Bool) :
    ∀ t ∈ (parse source file failFast isBuiltin).program.outline.walk, t.ModesObeyed := by
  have hobeys : Obeys (parse source file failFast isBuiltin).program.statements := by
    unfold parse Session.run
    dsimp only
    cases hrun : Parse.program (some file) _ _ with
    | ok program st =>
        exact Parse.program_obeys (!failFast) isBuiltin (some file) _ ⟨.top false, isBuiltin⟩ _ program st rfl hrun
    | error e st => exact (inferInstance : Obeys ([] : List Node))
  have hprogram : (parse source file failFast isBuiltin).program.outline.Proper :=
    proper_mk rfl rfl (by simp [Outline.values, Outline.kind, Outline.children]) (by simp)
  rw [walk_eq_preorder]
  exact hprogram.obeyed

/-- In parentheses the head of a loop takes braces again, with words between them. -/
theorem parse_modesObeyed_while :
    ∃ t ∈ (parse "while (\x7ba,b\x7d) \x7b echo c \x7d" "a" true fun _ => false).program.outline.walk,
      (preorders t.heads).map Outline.kind = [.parenExpr, .braceExpansion, .identifier, .identifier] ∧
        t.ModesObeyed := by
  obtain ⟨t, ht, hheads⟩ :
      ∃ t ∈ (parse "while (\x7ba,b\x7d) \x7b echo c \x7d" "a" true fun _ => false).program.outline.walk,
        (preorders t.heads).map Outline.kind = [.parenExpr, .braceExpansion, .identifier, .identifier] := by
    rw [walk_eq_preorder]
    decide +kernel
  exact ⟨t, ht, hheads, parse_modesObeyed _ _ _ _ t ht⟩

end ShellFront
