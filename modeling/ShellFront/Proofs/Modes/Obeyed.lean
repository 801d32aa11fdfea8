import ShellFront.Proofs.Operators.Fitting
import ShellFront.Parse.Basic

/-!
# Trees that obey the modes

What a mode of reading leaves behind in a tree. In the head of a statement no value has braces, among the arguments of
a command there is no other command, and a name is a word only there. Brackets take the modes back, so all of this is
about what stands **outside** of them: one comes to it from a node without passing into its brackets.

## Contents
- `Outline.Reaches`, and the children that stand outside: `unbracketed`, `unbraced`, `operands`, `values`, `heads`.
- `Outline.Braceless`, `Outline.Commandless`, `Outline.Wordless`, and `Outline.ModesObeyed`.
- `Obeys`: what is read where names are commands, with an instance for each node.
- `Node.Keeps`: what is read in a mode.
-/

namespace ShellFront

/-! ## Kinds -/

namespace NodeKind

/-- Whether a value of some kind has braces. -/
def isBraced : NodeKind → Bool
  | recordLiteral | closure | braceExpansion | objectConstruction => true
  | _ => false

/-- Whether a node of some kind is neither a command nor a value with braces. -/
def isBare : NodeKind → Bool
  | recordLiteral | closure | braceExpansion | objectConstruction | commandExpression => false
  | _ => true

/-- Whether a node of some kind has braces around everything. -/
def isCurly : NodeKind → Bool
  | recordLiteral | closure | braceExpansion => true
  | _ => false

/-- Whether names that are read for a node of some kind may be words. -/
def takesWords : NodeKind → Bool
  | commandStage | flag | braceExpansion | binaryOp | unaryOp => true
  | _ => false

/-- Whether a node of some kind is neither a name nor made by an operator. -/
def isSolid : NodeKind → Bool
  | identifier | binaryOp | unaryOp => false
  | _ => true

theorem bare_iff {kind : NodeKind} : kind.isBare = true ↔ kind.isBraced = false ∧ kind ≠ .commandExpression := by
  cases kind <;> decide

/-- Whether a node of some kind has no head and takes no arguments. -/
def isOrdinary : NodeKind → Bool
  | ifStatement | elifClause | whileStatement | matchStatement | forStatement | commandStage | braceExpansion => false
  | _ => true

end NodeKind

namespace Outline

/-! ## Outside of brackets -/

/-- From a node one comes down to another one, each time by some of the children. -/
inductive Reaches (below : Outline → List Outline) : Outline → Outline → Prop where
  | self (t : Outline) : Reaches below t t
  | down {t c u : Outline} (hchild : c ∈ below t) (h : Reaches below c u) : Reaches below t u

/-- The children of a node that stand outside of its brackets. A call has its arguments inside, and a lambda its
    body. -/
def unbracketed (t : Outline) : List Outline :=
  match t.kind with
  | .parenExpr | .tupleLiteral | .listLiteral | .setLiteral | .commandSubstitution | .processSubstitution => []
  | .call => t.children.take 1
  | .methodCall => t.children.take 2
  | .lambdaExpr => t.children.dropLast
  | _ => t.children

/-- The children of a node that stand outside of its brackets and its braces. -/
def unbraced (t : Outline) : List Outline :=
  match t.kind with
  | .recordLiteral | .closure | .braceExpansion => []
  | _ => t.unbracketed

/-- What an operator joins. -/
def operands (t : Outline) : List Outline :=
  match t.kind with
  | .binaryOp | .unaryOp => t.children
  | _ => []

/-- The children of a node that stand in the place of an expression. Names that a node declares, and names of fields,
    keys, callees, methods and types, do not. -/
def values (t : Outline) : List Outline :=
  match t.kind with
  | .fieldAccess => t.children.take 1
  | .methodCall => t.children.eraseIdx 1
  | .call | .recordField | .objectConstruction | .letStatement | .forStatement => t.children.drop 1
  | .aliasDefinition => t.children.drop (t.children.length - 1)
  | .tryStatement | .functionDefinition | .macroDefinition | .objectDefinition | .objectField | .enumDefinition
  | .testDefinition | .importItem | .fromImport | .sourceStatement | .typedRecordPattern | .patternField => []
  | _ => t.children

/-- The expression in the head of a statement: a condition, what a loop goes over, or what is matched. -/
def heads (t : Outline) : List Outline :=
  match t.kind with
  | .ifStatement | .elifClause | .whileStatement | .matchStatement => t.children.take 1
  | .forStatement => (t.children.drop 1).take 1
  | _ => []

/-! ## What the modes leave behind -/

/-- No value outside of brackets has braces. -/
def Braceless (t : Outline) : Prop := ∀ u, Reaches unbracketed t u → u.kind.isBraced = false

/-- No command stands outside of brackets and braces. -/
def Commandless (t : Outline) : Prop := ∀ u, Reaches unbraced t u → u.kind ≠ .commandExpression

/-- Neither the node nor what its operators join is a name. -/
def Wordless (t : Outline) : Prop := ∀ u, Reaches operands t u → u.kind ≠ .identifier

/-- **The modes are obeyed** at a node. -/
structure ModesObeyed (t : Outline) : Prop where
  /-- What stands in the head of a statement has braces only inside of brackets. -/
  heads : ∀ c ∈ t.heads, c.Braceless
  /-- Arguments of commands and items of brace expansions have commands only inside of brackets or braces. -/
  arguments : t.kind = .commandStage ∨ t.kind = .braceExpansion → ∀ c ∈ t.children, c.Commandless
  /-- Words, perhaps under operators, are arguments of commands, values of flags or items of brace expansions. -/
  words : t.kind.takesWords = false → ∀ c ∈ t.values, c.Wordless

section

variable {below : Outline → List Outline} {p : Outline → Prop} {t : Outline}

/-- What holds of all that one reaches holds of the node, and of all that one reaches from its children. -/
theorem forall_reaches_iff : (∀ u, Reaches below t u → p u) ↔ p t ∧ ∀ c ∈ below t, ∀ u, Reaches below c u → p u := by
  constructor
  · exact fun h => ⟨h t (.self t), fun c hc u hu => h u (.down hc hu)⟩
  · rintro ⟨hself, hbelow⟩ u (_ | ⟨hc, hu⟩)
    · exact hself
    · exact hbelow _ hc u hu

/-- The unfolding of `Braceless`, one level down. -/
theorem braceless_iff : t.Braceless ↔ t.kind.isBraced = false ∧ ∀ c ∈ t.unbracketed, c.Braceless := forall_reaches_iff

theorem commandless_iff : t.Commandless ↔ t.kind ≠ .commandExpression ∧ ∀ c ∈ t.unbraced, c.Commandless :=
  forall_reaches_iff

theorem wordless_iff : t.Wordless ↔ t.kind ≠ .identifier ∧ ∀ c ∈ t.operands, c.Wordless := forall_reaches_iff

end

/-- What is outside of the braces as well is outside of the brackets. -/
theorem unbraced_subset (t : Outline) : t.unbraced ⊆ t.unbracketed := by
  unfold unbraced
  split
  · exact List.nil_subset _
  · exact List.nil_subset _
  · exact List.nil_subset _
  · exact List.Subset.refl _

/-- What has braces around everything shows no command. -/
theorem commandless_of_curly {t : Outline} (h : t.kind.isCurly = true) : t.Commandless := by
  refine commandless_iff.mpr ⟨fun hkind => by rw [hkind] at h; contradiction, ?_⟩
  unfold unbraced
  split
  · exact List.forall_mem_nil _
  · exact List.forall_mem_nil _
  · exact List.forall_mem_nil _
  · next hrecord hclosure hexpansion =>
      unfold NodeKind.isCurly at h
      split at h <;> contradiction

/-- What may hold words is itself none, and its operands are all that is left. -/
theorem wordless_of_operands {t : Outline} (h : t.kind.takesWords = true) (hoperands : ∀ c ∈ t.operands, c.Wordless) :
    t.Wordless :=
  wordless_iff.mpr ⟨fun hkind => by rw [hkind] at h; contradiction, hoperands⟩

/-- A solid node has no operands. -/
theorem wordless_of_solid {t : Outline} (h : t.kind.isSolid = true) : t.Wordless := by
  refine wordless_iff.mpr ⟨fun hkind => by rw [hkind] at h; contradiction, ?_⟩
  unfold operands
  split
  · next hkind => rw [hkind] at h; contradiction
  · next hkind => rw [hkind] at h; contradiction
  · exact List.forall_mem_nil _

/-- A **proper** tree obeys the modes everywhere and is no word: so is what is read where names are commands. -/
structure Proper (t : Outline) : Prop where
  obeyed : t.Everywhere ModesObeyed
  wordless : t.Wordless

attribute [simp] Proper.obeyed Proper.wordless

section

variable {kind : NodeKind} {span : Span} {attributes : List (String × Attribute)} {children : List Outline}

/-- Without heads and arguments, only what stands in the place of an expression matters. -/
theorem obeyed_mk (hkind : kind.isOrdinary = true)
    (hvalues : kind.takesWords = true ∨ ∀ c ∈ (mk kind span attributes children).values, c.Wordless)
    (hchildren : ∀ c ∈ children, c.Everywhere ModesObeyed) :
    (mk kind span attributes children).Everywhere ModesObeyed := by
  refine everywhere_mk.mpr ⟨⟨?_, ?_, fun hwords => hvalues.resolve_left ?_⟩, hchildren⟩
  · have hheads : (mk kind span attributes children).heads = [] := by
      cases kind <;> first | rfl | contradiction
    rw [hheads]
    exact List.forall_mem_nil _
  · rintro (hother | hother) <;> rw [show kind = _ from hother] at hkind <;> contradiction
  · rw [show kind.takesWords = false from hwords]
    exact Bool.false_ne_true

/-- A node without head and arguments is proper when its values are no words. -/
theorem proper_mk (hkind : kind.isOrdinary = true) (hsolid : kind.isSolid = true)
    (hvalues : ∀ c ∈ (mk kind span attributes children).values, c.Wordless)
    (hchildren : ∀ c ∈ children, c.Everywhere ModesObeyed) : (mk kind span attributes children).Proper :=
  ⟨obeyed_mk hkind (.inr hvalues) hchildren, wordless_of_solid hsolid⟩

/-- A node without children has no values either. -/
theorem obeyed_leaf (hkind : kind.isOrdinary = true) : (mk kind span attributes []).Everywhere ModesObeyed := by
  refine obeyed_mk hkind (.inr ?_) (List.forall_mem_nil _)
  have hvalues : (mk kind span attributes []).values = [] := by cases kind <;> rfl
  rw [hvalues]
  exact List.forall_mem_nil _

theorem proper_leaf (hkind : kind.isOrdinary = true) (hsolid : kind.isSolid = true) :
    (mk kind span attributes []).Proper := ⟨obeyed_leaf hkind, wordless_of_solid hsolid⟩

/-- A statement with something in its head. -/
theorem proper_head (hhead : kind.isSolid = true ∧ kind.takesWords = false)
    (hheads : ∀ c ∈ (mk kind span attributes children).heads, c.Braceless)
    (hvalues : ∀ c ∈ (mk kind span attributes children).values, c.Wordless)
    (hchildren : ∀ c ∈ children, c.Everywhere ModesObeyed) : (mk kind span attributes children).Proper := by
  refine ⟨everywhere_mk.mpr ⟨⟨hheads, ?_, fun _ => hvalues⟩, hchildren⟩, wordless_of_solid hhead.1⟩
  have hwords : kind.takesWords = false := hhead.2
  rintro (hkind | hkind) <;> rw [show kind = _ from hkind] at hwords <;> contradiction

/-- A command with its arguments, or a brace expansion with its items. -/
theorem proper_arguments (hkind : kind = .commandStage ∨ kind = .braceExpansion)
    (harguments : ∀ c ∈ children, c.Commandless) (hchildren : ∀ c ∈ children, c.Everywhere ModesObeyed) :
    (mk kind span attributes children).Proper := by
  refine ⟨everywhere_mk.mpr ⟨⟨?_, fun _ => harguments, ?_⟩, hchildren⟩, wordless_of_solid ?_⟩
  · rcases hkind with rfl | rfl <;> exact List.forall_mem_nil _
  · rcases hkind with rfl | rfl <;> intro hwords <;> contradiction
  · rcases hkind with rfl | rfl <;> rfl

end

end Outline

open Outline Outlined

/-! ## Leaves and patterns -/

/-- A name obeys the modes although it is a word: that is for the node above to say. -/
@[simp] theorem Ident.outline_obeyed (x : Ident) : x.outline.Everywhere ModesObeyed := obeyed_leaf rfl

@[simp] theorem RecordKey.outline_obeyed (k : RecordKey) : k.outline.Everywhere ModesObeyed := by
  cases k <;> exact obeyed_leaf rfl

/-- The same holds of the variable of a loop, which may be written without a dollar sign. -/
@[simp] theorem LoopVariable.outline_obeyed (x : LoopVariable) : x.outline.Everywhere ModesObeyed :=
  obeyed_leaf (by unfold LoopVariable.kind; split <;> rfl)

@[simp] theorem Ident.variableOutline_proper (x : Ident) : x.variableOutline.Proper := proper_leaf rfl rfl

@[simp] theorem Literal.outline_proper (value : Literal) (span : Span) : (value.outline span).Proper := by
  cases value <;> exact proper_leaf rfl rfl

@[simp] theorem StringLiteral.outline_proper (s : StringLiteral) : s.outline.Proper := proper_leaf rfl rfl

@[simp] theorem TypeHint.outline_proper (t : TypeHint) : t.outline.Proper := proper_leaf rfl rfl

@[simp] theorem CommandName.outline_proper (c : CommandName) : c.outline.Proper :=
  proper_leaf (by unfold CommandName.kind; split <;> rfl) (by unfold CommandName.kind; split <;> rfl)

@[simp] theorem ModuleRef.outline_proper (m : ModuleRef) : m.outline.Proper := by
  cases m <;> exact proper_leaf rfl rfl

@[simp] theorem FieldBinding.outline_proper (b : FieldBinding) : b.outline.Proper := by
  cases b <;> exact proper_leaf rfl rfl

/-- The names of an imported item stand in no expression. -/
@[simp] theorem ImportItem.outline_proper (item : ImportItem) : item.outline.Proper :=
  proper_mk rfl rfl (List.forall_mem_nil _) (by simp)

/-- Nor do the names that a pattern binds. -/
@[simp] theorem PatternField.outline_proper (f : PatternField) : f.outline.Proper :=
  proper_mk rfl rfl (List.forall_mem_nil _) (by simp)

@[simp] theorem RecordPattern.outline_proper (r : RecordPattern) : r.outline.Proper :=
  proper_mk rfl rfl (by simp [Outline.values, Outline.kind, children]) (by simp)

mutual

@[simp] theorem Pattern.outline_proper : ∀ p : Pattern, p.outline.Proper
  | .literal _ _ => proper_mk rfl rfl (by simp [Outline.values, Outline.kind, children]) (by simp)
  | .wildcard _ | .binding _ _ _ | .rest _ _ _ => proper_leaf rfl rfl
  | .record r => r.outline_proper
  | .typedRecord _ _ _ => proper_mk rfl rfl (List.forall_mem_nil _) (by simp)
  | .list _ elements => proper_mk rfl rfl (fun c hc => (Pattern.outlines_proper elements c hc).wordless)
      fun c hc => (Pattern.outlines_proper elements c hc).obeyed

theorem Pattern.outlines_proper : ∀ ps : List Pattern, ∀ c ∈ Pattern.outlines ps, c.Proper
  | [] => by simp [Pattern.outlines]
  | p :: ps => List.forall_mem_cons.mpr ⟨p.outline_proper, Pattern.outlines_proper ps⟩

end

/-! ## Values -/

/-- Everything that a value stands for is proper. -/
class Obeys {α : Type} [Outlined α] (a : α) : Prop where
  all : ∀ o ∈ shown a, o.Proper

/-- What stands in the head of a statement: no braces outside of brackets. -/
class Heads (n : Node) : Prop where
  braceless : n.outline.Braceless

namespace Obeys

variable {α β : Type} [Outlined α] [Outlined β]

@[simp] theorem all_shown (a : α) [h : Obeys a] : (∀ o, o ∈ shown a → o.Proper) = True := eq_true h.all

@[simp] theorem all_obeyed (a : α) [h : Obeys a] : (∀ o, o ∈ shown a → o.Everywhere ModesObeyed) = True :=
  eq_true fun o ho => (h.all o ho).obeyed

@[simp] theorem all_wordless (a : α) [h : Obeys a] : (∀ o, o ∈ shown a → o.Wordless) = True :=
  eq_true fun o ho => (h.all o ho).wordless

/-- What stands for nothing obeys. -/
instance (priority := low) blank [h : Blank α] (a : α) : Obeys a := ⟨by simp [h.shown_eq]⟩

instance nil : Obeys ([] : List α) := ⟨by simp⟩
instance emptyArray : Obeys (#[] : Array α) := ⟨by simp⟩
instance none : Obeys (none : Option α) := ⟨by simp⟩
instance cons (a : α) (as : List α) [Obeys a] [Obeys as] : Obeys (a :: as) := ⟨by simp [or_imp, forall_and]⟩
instance push (as : Array α) (a : α) [Obeys as] [Obeys a] : Obeys (as.push a) := ⟨by simp [or_imp, forall_and]⟩
instance toList (as : Array α) [Obeys as] : Obeys as.toList := ⟨by simp⟩
instance some (a : α) [Obeys a] : Obeys (some a) := ⟨by simp⟩
instance pair (a : α) (b : β) [Obeys a] [Obeys b] : Obeys (a, b) := ⟨by simp [or_imp, forall_and]⟩
instance fst (p : α × β) [h : Obeys p] : Obeys p.1 := ⟨fun o ho => h.all o (List.mem_append_left _ ho)⟩
instance again (a : α) [Obeys a] : Obeys (.again a : Parse.Turn α β) := ⟨by simp⟩
instance done (b : β) [Obeys b] : Obeys (.done b : Parse.Turn α β) := ⟨by simp⟩

/-- The members of a list obey, so the list does. -/
theorem of_forall {as : List α} (h : ∀ a ∈ as, Obeys a) : Obeys as where
  all := fun o ho => by
    obtain ⟨a, ha, hoa⟩ := List.mem_flatMap.mp ho
    exact (h a ha).all o hoa

theorem of_some {a : α} (h : Obeys (Option.some a)) : Obeys a := ⟨by simpa using h.all⟩

/-- A value that is known to obey is passed on together with that. -/
instance val (a : { a : α // Obeys a }) : Obeys a.1 := a.2

/-- A value that shows one proper node. -/
theorem single {a : α} {t : Outline} (hshown : shown a = [t]) (h : t.Proper) : Obeys a where
  all := by
    rw [hshown, List.forall_mem_singleton]
    exact h

/-- The outline of a node that obeys is proper. -/
@[simp] theorem node (n : Node) [h : Obeys n] : n.outline.Proper := h.all _ (List.mem_singleton_self _)

@[simp] theorem block (b : Block Node) [h : Obeys b] : (Block.outline b).Proper :=
  h.all _ (List.mem_singleton_self _)

@[simp] theorem record (r : Record Node) [h : Obeys r] : (Record.outline r).Proper :=
  h.all _ (List.mem_singleton_self _)

@[simp] theorem function (f : Function Node) [h : Obeys f] : (Function.outline f).Proper :=
  h.all _ (List.mem_singleton_self _)

@[simp] theorem armBody (b : ArmBody Node) [h : Obeys b] : (ArmBody.outline b).Proper :=
  h.all _ (List.mem_singleton_self _)

section

variable (span : Span) (n first last : Node) (ns : List Node) (n? : Option Node) (x : Ident) (x? : Option Ident)
  (text : String) (flag : Bool) (hint : Option TypeHint) (r : Record Node) (f : Function Node) (b b' : Block Node)
  (params : List (Parameter Node)) (ds : List (Decorator Node))

attribute [local simp] Outline.values Outline.heads Outline.kind Outline.children Outline.branch

/-! ### Parts -/

instance [Obeys ns] : Obeys (Block.mk span ns) := .single rfl (proper_mk rfl rfl (by simp) (by simp))

instance [Obeys n?] : Obeys (Parameter.mk span text flag hint n?) :=
  .single rfl (proper_mk rfl rfl (by cases hint <;> simp) (by cases hint <;> simp))

instance [Obeys ns] : Obeys (Decorator.mk span text ns) := .single rfl (proper_mk rfl rfl (by simp) (by simp))

instance (key : RecordKey) [Obeys n] : Obeys (RecordField.mk span key n) :=
  .single rfl (proper_mk rfl rfl (by simp) (by simp))

instance (fields : List (RecordField Node)) [Obeys fields] : Obeys (Record.mk span fields) :=
  .single rfl (proper_mk rfl rfl (by simp) (by simp))

instance [Obeys n] [hn : Heads n] [Obeys b] : Obeys (ElseIf.mk span n b) :=
  .single rfl (proper_head ⟨rfl, rfl⟩ (by simp [hn.braceless]) (by simp) (by simp))

instance [Obeys b] : Obeys (ArmBody.block b) := ⟨by simp [ArmBody.outline]⟩

instance [Obeys n] : Obeys (ArmBody.value n) := ⟨by simp [ArmBody.outline]⟩

instance (pattern : Pattern) (body : ArmBody Node) [Obeys n?] [Obeys body] :
    Obeys (MatchArm.mk span pattern n? body) :=
  .single rfl (proper_mk rfl rfl (by simp [or_imp, forall_and]) (by simp [or_imp, forall_and]))

instance [Obeys params] [Obeys b] [Obeys ds] : Obeys (Function.mk span x params hint b ds) :=
  .single rfl (proper_mk rfl rfl (by simp) (by cases hint <;> simp [or_imp, forall_and]))

instance : Obeys (Member.field x : Member Node) := .single rfl (proper_mk rfl rfl (by simp) (by simp))

instance [Obeys f] : Obeys (Member.method f) := ⟨by simp [shown, Member.outlines]⟩

/-! ### Expressions -/

instance (value : Literal) : Obeys (Node.literal span value) := ⟨by simp [Node.outline]⟩
instance : Obeys (Node.variableUse span text) := .single rfl (proper_leaf rfl rfl)
instance : Obeys (Node.environmentUse span text) := .single rfl (proper_leaf rfl rfl)
instance : Obeys (Node.specialUse span text) := .single rfl (proper_leaf rfl rfl)
instance : Obeys (Node.path span text) := .single rfl (proper_leaf rfl rfl)

instance [Obeys first] [Obeys last] : Obeys (Node.range span first last flag) :=
  .single rfl (proper_mk rfl rfl (by simp) (by simp))

instance [Obeys n] : Obeys (Node.paren span n) := .single rfl (proper_mk rfl rfl (by simp) (by simp))

instance [Obeys n] : Obeys (Node.fieldAccess span n x) := .single rfl (proper_mk rfl rfl (by simp) (by simp))

instance [Obeys n] [Obeys ns] : Obeys (Node.methodCall span n x ns) :=
  .single rfl (proper_mk rfl rfl (by simp) (by simp))

instance [Obeys ns] : Obeys (Node.call span x ns) := .single rfl (proper_mk rfl rfl (by simp) (by simp))
instance [Obeys ns] : Obeys (Node.list span ns) := .single rfl (proper_mk rfl rfl (by simp) (by simp))
instance [Obeys ns] : Obeys (Node.tuple span ns) := .single rfl (proper_mk rfl rfl (by simp) (by simp))
instance [Obeys ns] : Obeys (Node.set span ns) := .single rfl (proper_mk rfl rfl (by simp) (by simp))
instance [Obeys r] : Obeys (Node.record r) := ⟨by simp [Node.outline]⟩
instance [Obeys r] : Obeys (Node.construction span x r) := .single rfl (proper_mk rfl rfl (by simp) (by simp))

instance [Obeys n] : Obeys (Node.commandSubstitution span n) := .single rfl (proper_mk rfl rfl (by simp) (by simp))

instance (direction : Direction) [Obeys n] : Obeys (Node.processSubstitution span direction n) :=
  .single rfl (proper_mk rfl rfl (by simp) (by simp))

instance [Obeys params] [Obeys b] : Obeys (Node.closure span params b flag) :=
  .single rfl (proper_mk rfl rfl (by simp [or_imp, forall_and]) (by simp [or_imp, forall_and]))

instance [Obeys params] [Obeys b] : Obeys (Node.lambda span params hint b) :=
  .single rfl (proper_mk rfl rfl (by cases hint <;> simp [or_imp, forall_and])
    (by cases hint <;> simp [or_imp, forall_and]))

instance [Obeys ns] (operators : List Symbol) : Obeys (Node.pipeline span ns operators) :=
  .single rfl (proper_mk rfl rfl (by simp) (by simp))

instance (stages : List (CommandStage Node)) [Obeys stages] (operators : List Symbol) :
    Obeys (Node.command span stages operators) := .single rfl (proper_mk rfl rfl (by simp) (by simp))

/-! ### Statements -/

instance (keyword : Keyword) [Obeys n] : Obeys (Node.binding span keyword x n) :=
  .single rfl (proper_mk rfl rfl (by simp) (by simp))

instance (operator : Symbol) [Obeys n] : Obeys (Node.assignment span x operator n) :=
  .single rfl (proper_mk rfl rfl (by simp) (by simp))

instance (elseIfs : List (ElseIf Node)) (elseBody : Option (Block Node)) [Obeys n] [hn : Heads n] [Obeys b]
    [Obeys elseIfs] [Obeys elseBody] : Obeys (Node.conditional span n b elseIfs elseBody) :=
  .single rfl (proper_head ⟨rfl, rfl⟩ (by simp [hn.braceless]) (by simp [or_imp, forall_and])
    (by simp [or_imp, forall_and]))

instance (element : LoopVariable) [Obeys n] [hn : Heads n] [Obeys b] : Obeys (Node.forLoop span element n b) :=
  .single rfl (proper_head ⟨rfl, rfl⟩ (by simp [hn.braceless]) (by simp) (by simp))

instance [Obeys n] [hn : Heads n] [Obeys b] : Obeys (Node.whileLoop span n b) :=
  .single rfl (proper_head ⟨rfl, rfl⟩ (by simp [hn.braceless]) (by simp) (by simp))

instance [Obeys b] : Obeys (Node.endlessLoop span b) := .single rfl (proper_mk rfl rfl (by simp) (by simp))

instance (arms : List (MatchArm Node)) [Obeys n] [hn : Heads n] [Obeys arms] : Obeys (Node.matching span n arms) :=
  .single rfl (proper_head ⟨rfl, rfl⟩ (by simp [hn.braceless]) (by simp) (by simp))

instance [Obeys b] [Obeys b'] : Obeys (Node.attempt span b x? b') :=
  .single rfl (proper_mk rfl rfl (by simp) (by cases x? <;> simp))

instance [Obeys f] : Obeys (Node.functionDefinition f) := ⟨by simp [Node.outline]⟩

instance [Obeys params] [Obeys b] [Obeys ds] : Obeys (Node.macroDefinition span x params b flag ds) :=
  .single rfl (proper_mk rfl rfl (by simp) (by simp [or_imp, forall_and]))

instance [Obeys n] [Obeys ds] : Obeys (Node.aliasDefinition span x n ds) :=
  .single rfl (proper_mk rfl rfl (by simp) (by simp [or_imp, forall_and]))

instance (members : List (Member Node)) [Obeys members] [Obeys ds] :
    Obeys (Node.objectDefinition span x members ds) :=
  .single rfl (proper_mk rfl rfl (by simp) (by simp [or_imp, forall_and]))

instance (variants : List Ident) [Obeys ds] : Obeys (Node.enumDefinition span x variants ds) :=
  .single rfl (proper_mk rfl rfl (by simp) (by simp [or_imp, forall_and]))

instance (name : StringLiteral) [Obeys b] [Obeys ds] : Obeys (Node.testDefinition span name b ds) :=
  .single rfl (proper_mk rfl rfl (by simp) (by simp [or_imp, forall_and]))

instance (ref : ModuleRef) : Obeys (Node.useModule span ref) := .single rfl (proper_mk rfl rfl (by simp) (by simp))

instance (ref : ModuleRef) (items : List ImportItem) : Obeys (Node.importFrom span ref items flag) :=
  .single rfl (proper_mk rfl rfl (by simp) (by simp))

instance (path : StringLiteral) : Obeys (Node.sourceFile span path x?) :=
  .single rfl (proper_mk rfl rfl (by simp) (by cases x? <;> simp))

instance [Obeys n?] : Obeys (Node.returnJump span n?) := .single rfl (proper_mk rfl rfl (by simp) (by simp))

instance : Obeys (Node.breakJump span) := .single rfl (proper_leaf rfl rfl)

instance : Obeys (Node.continueJump span) := .single rfl (proper_leaf rfl rfl)

instance (message : String) : Obeys (Node.broken span message text) := .single rfl (proper_leaf rfl rfl)

/-- Marks that stand with values do not matter. -/
instance values {γ : Type} (as : List (γ × α)) [h : @Obeys _ (@instList _ (@instProd γ α Outlined.plain _)) as] :
    Obeys (as.map (·.2)) := ⟨by rw [shown_map_snd]; exact h.all⟩

end

end Obeys

end ShellFront
