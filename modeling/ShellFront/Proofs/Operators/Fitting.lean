import ShellFront.Proofs.Parse.Actions

/-!
# Trees in which operators fit

What the children of a node may be when operators, pipes or the arguments of a command make the node. The operands of
an operator bind at least as tightly as it does, no pipeline is the operand of an operator or a stage of another one,
and in the arguments of a command nothing is piped outside of brackets. All other kinds of nodes are **loose**: they
take any children.

## Contents
- `Outline.Exposes`, `Outline.Guarded`: what shows outside of brackets.
- `Outline.BindsFrom`, `Outline.Ranked`, `Outline.PipesApart`, `Outline.Fitting`.
- `Fits`: everything that a value stands for fits, with an instance for each loose node.
-/

namespace ShellFront

/-- Whether a node of some kind takes any children. -/
def NodeKind.isLoose : NodeKind → Bool
  | .binaryOp | .unaryOp | .pipeline | .commandExpression | .commandStage | .braceExpansion => false
  | _ => true

/-- Whether a node of some kind is made without operators and pipes, and is no flag. -/
def NodeKind.isSingle : NodeKind → Bool
  | .binaryOp | .unaryOp | .pipeline | .commandExpression | .flag => false
  | _ => true

/-- No two operators are written alike, so the attribute of a node tells which one made it. -/
theorem Operator.text_injective {o o' : Operator} (h : o.text = o'.text) : o = o' := by
  revert h
  cases o <;> cases o' <;> decide

namespace Outline

/-! ## Commands and pipes outside of brackets -/

/-- Down through operators and the values of flags one comes from a node to another one. -/
inductive Exposes : Outline → Outline → Prop where
  | self (t : Outline) : Exposes t t
  | through {t child u : Outline} (hkind : t.kind = .binaryOp ∨ t.kind = .unaryOp ∨ t.kind = .flag)
      (hchild : child ∈ t.children) (h : Exposes child u) : Exposes t u

/-- A **guarded** node exposes no command and no pipeline. -/
def Guarded (t : Outline) : Prop := ∀ u, t.Exposes u → u.kind ≠ .commandExpression ∧ u.kind ≠ .pipeline

/-- A node that is neither a command nor a pipeline is guarded as soon as its children are. -/
theorem guarded_of_children {t : Outline} (hself : t.kind ≠ .commandExpression ∧ t.kind ≠ .pipeline)
    (hchildren : ∀ c ∈ t.children, c.Guarded) : t.Guarded := by
  intro u h
  cases h with
  | self => exact hself
  | through _ hchild h => exact hchildren _ hchild u h

/-- A node that is not made with an operator exposes only itself. -/
theorem guarded_of_single {t : Outline} (h : t.kind.isSingle = true) : t.Guarded := by
  intro u hu
  cases hu with
  | self => constructor <;> intro hkind <;> rw [hkind] at h <;> contradiction
  | through hkind => rcases hkind with hkind | hkind | hkind <;> rw [hkind] at h <;> contradiction

theorem guarded_binary {span : Span} {operator : Operator} {left right : Node} (hleft : left.outline.Guarded)
    (hright : right.outline.Guarded) : (Node.binary span operator left right).outline.Guarded :=
  guarded_of_children ⟨nofun, nofun⟩ (by simp [Node.outline, Outline.children, hleft, hright])

theorem guarded_unary {span : Span} {operator : UnaryOperator} {operand : Node} (h : operand.outline.Guarded) :
    (Node.unary span operator operand).outline.Guarded :=
  guarded_of_children ⟨nofun, nofun⟩ (by simp [Node.outline, Outline.children, h])

/-- A flag is as guarded as the value that is glued to it. -/
theorem guarded_flag {span : Span} {name : String} {long : Bool} {value : Option Node}
    (h : ∀ n, value = some n → n.outline.Guarded) : (Node.flag span name long value).outline.Guarded := by
  refine guarded_of_children ⟨nofun, nofun⟩ ?_
  cases value with
  | none => simp [Node.outline, Outline.children]
  | some n => simp [Node.outline, Outline.children, h n rfl]

/-! ## Operators and pipes -/

/-- If an operator makes the node, it has at least some precedence. -/
def BindsFrom (least : Nat) (t : Outline) : Prop :=
  ∀ operator : Operator, t.kind = .binaryOp → t.attributes = [("op", .text operator.text)] →
    least ≤ operator.precedence

/-- What no operator makes binds as tightly as one likes. -/
theorem bindsFrom_of_kind {least : Nat} {t : Outline} (h : t.kind ≠ .binaryOp) : t.BindsFrom least :=
  fun _ hkind => absurd hkind h

/-- What an operator makes binds as tightly as that operator. -/
theorem bindsFrom_binary {least : Nat} {span : Span} {operator : Operator} {left right : Node}
    (h : least ≤ operator.precedence) : (Node.binary span operator left right).outline.BindsFrom least := by
  intro o _ hattributes
  have htext : operator.text = o.text := by simpa [Node.outline, attributes] using hattributes
  exact Operator.text_injective htext ▸ h

/-- One operator fewer than there are children joins the children. -/
def IsChain (t : Outline) : Prop :=
  ∃ operators, t.attributes = [("operators", .texts operators)] ∧ t.children.length = operators.length + 1

/-- **Operators are ranked by precedence**: they group to the left, and pipelines stay flat below everything. -/
structure Ranked (t : Outline) : Prop where
  binary : t.kind = .binaryOp → ∃ (operator : Operator) (left right : Outline),
    t.attributes = [("op", .text operator.text)] ∧ t.children = [left, right] ∧
      left.BindsFrom operator.precedence ∧ right.BindsFrom (operator.precedence + 1) ∧
      left.kind ≠ .pipeline ∧ right.kind ≠ .pipeline
  unary : t.kind = .unaryOp → ∃ operand, t.children = [operand] ∧ operand.kind ≠ .binaryOp ∧ operand.kind ≠ .pipeline
  pipeline : t.kind = .pipeline → t.IsChain ∧ 2 ≤ t.children.length ∧ ∀ stage ∈ t.children, stage.kind ≠ .pipeline
  command : t.kind = .commandExpression →
    t.IsChain ∧ 1 ≤ t.children.length ∧ ∀ stage ∈ t.children, stage.kind = .commandStage

/-- **Pipes stand apart from operators**: no operand is a pipeline, and where a command takes in operators with its
    arguments, or a brace expansion with its items, they take in no command and no pipe. -/
structure PipesApart (t : Outline) : Prop where
  operators : t.kind = .binaryOp ∨ t.kind = .unaryOp → ∀ c ∈ t.children, c.kind ≠ .pipeline
  arguments : t.kind = .commandStage ∨ t.kind = .braceExpansion → ∀ c ∈ t.children, c.Guarded

/-- All that is asked of one node. -/
structure Fitting (t : Outline) : Prop where
  ranked : t.Ranked
  pipes : t.PipesApart

/-- All that is asked of a fitting node is asked of operators, pipelines, commands and braces. -/
theorem Fitting.of_loose {t : Outline} (h : t.kind.isLoose = true) : t.Fitting := by
  refine ⟨⟨?_, ?_, ?_, ?_⟩, ⟨?_, ?_⟩⟩
  case refine_5 | refine_6 => rintro (hkind | hkind) <;> rw [hkind] at h <;> contradiction
  all_goals intro hkind; rw [hkind] at h; contradiction

/-- Where arguments or items stand, only they matter. -/
theorem Fitting.of_guarded {t : Outline} (hkind : t.kind = .commandStage ∨ t.kind = .braceExpansion)
    (h : ∀ c ∈ t.children, c.Guarded) : t.Fitting := by
  have hne {kind : NodeKind} (hstage : kind ≠ .commandStage) (hexpansion : kind ≠ .braceExpansion) : t.kind ≠ kind := by
    rintro rfl
    exact hkind.elim hstage hexpansion
  refine ⟨⟨?_, ?_, ?_, ?_⟩, ⟨?_, fun _ => h⟩⟩
  case refine_5 => rintro (hother | hother) <;> exact absurd hother (hne (by decide) (by decide))
  all_goals exact fun hother => absurd hother (hne (by decide) (by decide))

/-- A loose node fits everywhere when all its children do. -/
theorem fitting_loose {kind : NodeKind} {span : Span} {attributes : List (String × Attribute)}
    {children : List Outline} (hkind : kind.isLoose = true) (hchildren : ∀ c ∈ children, c.Everywhere Fitting) :
    (mk kind span attributes children).Everywhere Fitting :=
  everywhere_mk.mpr ⟨.of_loose hkind, hchildren⟩

/-- Details fit: none of them is made by operators, pipes or arguments. -/
@[simp] theorem Detailed.fitting {t : Outline} (h : t.Detailed) : t.Everywhere Fitting := by
  refine h.imp fun u hu => .of_loose ?_
  cases hkind : u.kind <;> rw [hkind] at hu <;> first | rfl | contradiction

end Outline

/-! ## Values -/

open Outline Outlined

/-- Values of the type stand for nothing. -/
class Blank (α : Type) [Outlined α] : Prop where
  shown_eq : ∀ a : α, shown a = []

namespace Blank

variable {γ : Type}

instance plain : @Blank γ Outlined.plain := @Blank.mk γ Outlined.plain fun _ => rfl
instance option : @Blank (Option γ) (@instOption γ Outlined.plain) :=
  @Blank.mk _ (@instOption γ Outlined.plain) (by simp)

end Blank

/-- Everything that a value stands for fits. -/
class Fits {α : Type} [Outlined α] (a : α) : Prop where
  all : ∀ o ∈ shown a, o.Everywhere Fitting

namespace Fits

variable {α β : Type} [Outlined α] [Outlined β]

@[simp] theorem all_shown (a : α) [h : Fits a] : (∀ o, o ∈ shown a → o.Everywhere Fitting) = True := eq_true h.all

/-- What stands for nothing fits. -/
instance (priority := low) blank [h : Blank α] (a : α) : Fits a := ⟨by simp [h.shown_eq]⟩

instance nil : Fits ([] : List α) := ⟨by simp⟩
instance emptyArray : Fits (#[] : Array α) := ⟨by simp⟩
instance none : Fits (none : Option α) := ⟨by simp⟩
instance cons (a : α) (as : List α) [Fits a] [Fits as] : Fits (a :: as) := ⟨by simp [or_imp, forall_and]⟩
instance push (as : Array α) (a : α) [Fits as] [Fits a] : Fits (as.push a) := ⟨by simp [or_imp, forall_and]⟩
instance toList (as : Array α) [Fits as] : Fits as.toList := ⟨by simp⟩
instance some (a : α) [Fits a] : Fits (some a) := ⟨by simp⟩
instance pair (a : α) (b : β) [Fits a] [Fits b] : Fits (a, b) := ⟨by simp [or_imp, forall_and]⟩
instance fst (p : α × β) [h : Fits p] : Fits p.1 := ⟨fun o ho => h.all o (List.mem_append_left _ ho)⟩
instance again (a : α) [Fits a] : Fits (.again a : Parse.Turn α β) := ⟨by simp⟩
instance done (b : β) [Fits b] : Fits (.done b : Parse.Turn α β) := ⟨by simp⟩

/-- A list fits when each of its members does. -/
theorem of_forall {as : List α} (h : ∀ a ∈ as, Fits a) : Fits as where
  all := fun o ho => by
    obtain ⟨a, ha, hoa⟩ := List.mem_flatMap.mp ho
    exact (h a ha).all o hoa

theorem of_some {a : α} (h : Fits (Option.some a)) : Fits a := ⟨by simpa using h.all⟩

/-- A value that is known to fit is passed on together with that. -/
instance val (a : { a : α // Fits a }) : Fits a.1 := a.2

/-- A value that shows one loose node fits when what the node has below it does. -/
theorem loose {a : α} {kind : NodeKind} {span : Span} {attributes : List (String × Attribute)}
    {children : List Outline} (hshown : shown a = [.mk kind span attributes children])
    (hkind : kind.isLoose = true) (hchildren : ∀ c ∈ children, c.Everywhere Fitting) : Fits a where
  all := by
    rw [hshown, List.forall_mem_singleton]
    exact fitting_loose hkind hchildren

@[simp] theorem node (n : Node) [h : Fits n] : n.outline.Everywhere Fitting := h.all _ (List.mem_singleton_self _)

@[simp] theorem block (b : Block Node) [h : Fits b] : (Block.outline b).Everywhere Fitting :=
  h.all _ (List.mem_singleton_self _)

@[simp] theorem record (r : Record Node) [h : Fits r] : (Record.outline r).Everywhere Fitting :=
  h.all _ (List.mem_singleton_self _)

@[simp] theorem function (f : Function Node) [h : Fits f] : (Function.outline f).Everywhere Fitting :=
  h.all _ (List.mem_singleton_self _)

@[simp] theorem armBody (b : ArmBody Node) [h : Fits b] : (ArmBody.outline b).Everywhere Fitting :=
  h.all _ (List.mem_singleton_self _)

section

variable (span : Span) (n first last : Node) (ns : List Node) (n? : Option Node) (x : Ident) (x? : Option Ident)
  (text : String) (flag : Bool) (hint : Option TypeHint) (r : Record Node) (f : Function Node) (b b' : Block Node)
  (params : List (Parameter Node)) (ds : List (Decorator Node))

/-! ### Parts -/

instance [Fits ns] : Fits (Block.mk span ns) := .loose rfl rfl (by simp)

instance [Fits n?] : Fits (Parameter.mk span text flag hint n?) := .loose rfl rfl (by cases hint <;> simp)

instance [Fits ns] : Fits (Decorator.mk span text ns) := .loose rfl rfl (by simp)

instance (key : RecordKey) [Fits n] : Fits (RecordField.mk span key n) := .loose rfl rfl (by simp)

instance (fields : List (RecordField Node)) [Fits fields] : Fits (Record.mk span fields) := .loose rfl rfl (by simp)

instance [Fits n] [Fits b] : Fits (ElseIf.mk span n b) := .loose rfl rfl (by simp)

instance [Fits b] : Fits (ArmBody.block b) := ⟨by simp [ArmBody.outline]⟩

instance [Fits n] : Fits (ArmBody.value n) := ⟨by simp [ArmBody.outline]⟩

instance (pattern : Pattern) (body : ArmBody Node) [Fits n?] [Fits body] : Fits (MatchArm.mk span pattern n? body) :=
  .loose rfl rfl (by simp [or_imp, forall_and])

instance [Fits params] [Fits b] [Fits ds] : Fits (Function.mk span x params hint b ds) :=
  .loose rfl rfl (by cases hint <;> simp [or_imp, forall_and])

instance : Fits (Member.field x : Member Node) := .loose rfl rfl (by simp)

instance [Fits f] : Fits (Member.method f) := ⟨by simp [shown, Member.outlines]⟩

/-! ### Expressions -/

instance (value : Literal) : Fits (Node.literal span value) := ⟨by simp [Node.outline]⟩
instance : Fits (Node.word span text) := .loose rfl rfl (by simp)
instance : Fits (Node.variableUse span text) := .loose rfl rfl (by simp)
instance : Fits (Node.environmentUse span text) := .loose rfl rfl (by simp)
instance : Fits (Node.specialUse span text) := .loose rfl rfl (by simp)
instance : Fits (Node.path span text) := .loose rfl rfl (by simp)
instance [Fits n?] : Fits (Node.flag span text flag n?) := .loose rfl rfl (by simp)
instance [Fits first] [Fits last] : Fits (Node.range span first last flag) := .loose rfl rfl (by simp)
instance [Fits n] : Fits (Node.paren span n) := .loose rfl rfl (by simp)
instance [Fits n] : Fits (Node.fieldAccess span n x) := .loose rfl rfl (by simp)
instance [Fits n] [Fits ns] : Fits (Node.methodCall span n x ns) := .loose rfl rfl (by simp)
instance [Fits ns] : Fits (Node.call span x ns) := .loose rfl rfl (by simp)
instance [Fits ns] : Fits (Node.list span ns) := .loose rfl rfl (by simp)
instance [Fits ns] : Fits (Node.tuple span ns) := .loose rfl rfl (by simp)
instance [Fits ns] : Fits (Node.set span ns) := .loose rfl rfl (by simp)
instance [Fits r] : Fits (Node.record r) := ⟨by simp [Node.outline]⟩
instance [Fits r] : Fits (Node.construction span x r) := .loose rfl rfl (by simp)
instance [Fits n] : Fits (Node.commandSubstitution span n) := .loose rfl rfl (by simp)

instance (direction : Direction) [Fits n] : Fits (Node.processSubstitution span direction n) :=
  .loose rfl rfl (by simp)

instance [Fits params] [Fits b] : Fits (Node.closure span params b flag) :=
  .loose rfl rfl (by simp [or_imp, forall_and])

instance [Fits params] [Fits b] : Fits (Node.lambda span params hint b) :=
  .loose rfl rfl (by cases hint <;> simp [or_imp, forall_and])

/-! ### Statements -/

instance (keyword : Keyword) [Fits n] : Fits (Node.binding span keyword x n) := .loose rfl rfl (by simp)

instance (operator : Symbol) [Fits n] : Fits (Node.assignment span x operator n) := .loose rfl rfl (by simp)

instance (elseIfs : List (ElseIf Node)) (elseBody : Option (Block Node)) [Fits n] [Fits b] [Fits elseIfs]
    [Fits elseBody] : Fits (Node.conditional span n b elseIfs elseBody) :=
  .loose rfl rfl (by simp [or_imp, forall_and])

instance (element : LoopVariable) [Fits n] [Fits b] : Fits (Node.forLoop span element n b) :=
  .loose rfl rfl (by simp)

instance [Fits n] [Fits b] : Fits (Node.whileLoop span n b) := .loose rfl rfl (by simp)

instance [Fits b] : Fits (Node.endlessLoop span b) := .loose rfl rfl (by simp)

instance (arms : List (MatchArm Node)) [Fits n] [Fits arms] : Fits (Node.matching span n arms) :=
  .loose rfl rfl (by simp)

instance [Fits b] [Fits b'] : Fits (Node.attempt span b x? b') := .loose rfl rfl (by cases x? <;> simp)

instance [Fits f] : Fits (Node.functionDefinition f) := ⟨by simp [Node.outline]⟩

instance [Fits params] [Fits b] [Fits ds] : Fits (Node.macroDefinition span x params b flag ds) :=
  .loose rfl rfl (by simp [or_imp, forall_and])

instance [Fits n] [Fits ds] : Fits (Node.aliasDefinition span x n ds) := .loose rfl rfl (by simp [or_imp, forall_and])

instance (members : List (Member Node)) [Fits members] [Fits ds] : Fits (Node.objectDefinition span x members ds) :=
  .loose rfl rfl (by simp [or_imp, forall_and])

instance (variants : List Ident) [Fits ds] : Fits (Node.enumDefinition span x variants ds) :=
  .loose rfl rfl (by simp [or_imp, forall_and])

instance (name : StringLiteral) [Fits b] [Fits ds] : Fits (Node.testDefinition span name b ds) :=
  .loose rfl rfl (by simp [or_imp, forall_and])

instance (ref : ModuleRef) : Fits (Node.useModule span ref) := .loose rfl rfl (by simp)

instance (ref : ModuleRef) (items : List ImportItem) : Fits (Node.importFrom span ref items flag) :=
  .loose rfl rfl (by simp)

instance (path : StringLiteral) : Fits (Node.sourceFile span path x?) := .loose rfl rfl (by cases x? <;> simp)

instance [Fits n?] : Fits (Node.returnJump span n?) := .loose rfl rfl (by simp)

instance : Fits (Node.breakJump span) := .loose rfl rfl (by simp)

instance : Fits (Node.continueJump span) := .loose rfl rfl (by simp)

instance (message : String) : Fits (Node.broken span message text) := .loose rfl rfl (by simp)

/-! ### Operators, pipes and arguments -/

/-- Marks that stand with values do not matter. -/
instance values {γ : Type} (as : List (γ × α)) [h : @Fits _ (@instList _ (@instProd γ α Outlined.plain _)) as] :
    Fits (as.map (·.2)) := ⟨by rw [shown_map_snd]; exact h.all⟩

variable {span n first last ns}

/-- The grammar of precedences, seen from the tree: the left operand binds at least as tightly as the operator, the
    right one more tightly, and neither is a pipeline. -/
theorem binary {operator : Operator} [Fits first] [Fits last] (hfirst : first.outline.BindsFrom operator.precedence)
    (hlast : last.outline.BindsFrom (operator.precedence + 1)) (hfirst' : first.outline.kind ≠ .pipeline)
    (hlast' : last.outline.kind ≠ .pipeline) : Fits (Node.binary span operator first last) where
  all := by
    rw [shown_node, List.forall_mem_singleton, Node.outline, everywhere_mk]
    refine ⟨⟨⟨fun _ => ?_, nofun, nofun, nofun⟩, ⟨fun _ => ?_, by simp [Outline.kind]⟩⟩, by simp⟩
    · exact ⟨operator, _, _, rfl, rfl, hfirst, hlast, hfirst', hlast'⟩
    · exact List.forall_mem_cons.mpr ⟨hfirst', List.forall_mem_singleton.mpr hlast'⟩

/-- The operand of a unary operator is neither made by a binary one nor a pipeline. -/
theorem unary {operator : UnaryOperator} [Fits n] (h : n.outline.kind ≠ .binaryOp) (h' : n.outline.kind ≠ .pipeline) :
    Fits (Node.unary span operator n) where
  all := by
    rw [shown_node, List.forall_mem_singleton, Node.outline, everywhere_mk]
    refine ⟨⟨⟨nofun, fun _ => ⟨_, rfl, h, h'⟩, nofun, nofun⟩, ⟨fun _ => ?_, by simp [Outline.kind]⟩⟩, by simp⟩
    exact List.forall_mem_singleton.mpr h'

/-- A pipeline has two stages or more, one operator fewer, and no pipeline among its stages. -/
theorem pipeline {operators : List Symbol} [Fits ns] (hcount : 2 ≤ ns.length)
    (hjoined : ns.length = operators.length + 1) (hns : ∀ m ∈ ns, m.outline.kind ≠ .pipeline) :
    Fits (Node.pipeline span ns operators) where
  all := by
    rw [shown_node, List.forall_mem_singleton, Node.outline, everywhere_mk, Node.outlines_eq]
    refine ⟨⟨⟨nofun, nofun, fun _ => ?_, nofun⟩, ⟨by simp [Outline.kind], by simp [Outline.kind]⟩⟩, by simp⟩
    rw [shown_nodes]
    refine ⟨⟨_, rfl, ?_⟩, ?_, List.forall_mem_map.mpr hns⟩
    · rw [Outline.children, List.length_map, List.length_map, hjoined]
    · rwa [Outline.children, List.length_map]

/-- Each stage of a command shows as one branch over the name and its arguments. -/
theorem shown_stages (stages : List (CommandStage Node)) :
    shown stages = stages.map fun c => .branch .commandStage c.span (c.name.outline :: Node.outlines c.args) := by
  induction stages with
  | nil => rfl
  | cons c cs ih => rw [shown_cons, ih]; rfl

/-- A command has one operator fewer than stages. -/
theorem command {stages : List (CommandStage Node)} {operators : List Symbol} [Fits stages]
    (hjoined : stages.length = operators.length + 1) : Fits (Node.command span stages operators) where
  all := by
    rw [shown_node, List.forall_mem_singleton, Node.outline, everywhere_mk, CommandStage.outlines_eq]
    refine ⟨⟨⟨nofun, nofun, nofun, fun _ => ?_⟩, ⟨by simp [Outline.kind], by simp [Outline.kind]⟩⟩, by simp⟩
    rw [shown_stages]
    refine ⟨⟨_, rfl, ?_⟩, ?_, List.forall_mem_map.mpr fun _ _ => rfl⟩
    · rw [Outline.children, List.length_map, List.length_map, hjoined]
    · rw [Outline.children, List.length_map, hjoined]
      exact Nat.le_add_left _ _

/-- The arguments of a command show no command and no pipe. -/
theorem stage {name : CommandName} [Fits ns] (h : ∀ m ∈ ns, m.outline.Guarded) :
    Fits (CommandStage.mk span name ns) where
  all := by
    have hname : name.outline.Guarded :=
      guarded_of_single (by rw [CommandName.outline, Outline.kind, CommandName.kind]; split <;> rfl)
    show ∀ o ∈ [Outline.branch .commandStage span (name.outline :: Node.outlines ns)], _
    rw [List.forall_mem_singleton, Outline.branch, everywhere_mk, Node.outlines_eq]
    refine ⟨.of_guarded (.inl rfl) ?_, by simp⟩
    rw [Outline.children, shown_nodes, List.forall_mem_cons, List.forall_mem_map]
    exact ⟨hname, h⟩

/-- Neither do the items of a brace expansion. -/
theorem expansion [Fits ns] (h : ∀ m ∈ ns, m.outline.Guarded) : Fits (Node.expansion span ns) where
  all := by
    rw [shown_node, List.forall_mem_singleton, Node.outline, Outline.branch, everywhere_mk, Node.outlines_eq]
    refine ⟨.of_guarded (.inr rfl) ?_, by simp⟩
    rw [Outline.children, shown_nodes]
    exact List.forall_mem_map.mpr h

end

end Fits

end ShellFront
