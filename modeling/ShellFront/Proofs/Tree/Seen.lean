import ShellFront.Proofs.Tree.Outlined
import ShellFront.Proofs.Twins.Views

/-!
# Outlines of trees that are seen

A view sees a tree part by part, and so the outline of the tree that is seen is, node for node, the outline of the tree:
places are seen elsewhere, commands may be labelled anew, and the text of statements that could not be read may differ.
The constructs are gone through one by one only here; whatever a view does to a tree can then be read off its outline.

## Contents
- `Seen` and how it is put together.
- `Node.view_seen`, with one theorem for each part of a tree.
-/

namespace ShellFront

/-! ## Outlines, node for node -/

/-- Whether nodes of a kind are names of commands. -/
def NodeKind.namesCommand : NodeKind → Bool
  | commandName | builtinCommand => true
  | _ => false

/-- Trees are **seen** as others: node for node they are the same, but for what the view shows otherwise. -/
inductive Seen (g : View) : List Outline → List Outline → Prop
  | nil : Seen g [] []
  | append {ts us ts' us' : List Outline} (h : Seen g ts us) (h' : Seen g ts' us') : Seen g (ts ++ ts') (us ++ us')
  | command (c : CommandName) : Seen g [c.outline] [(c.view g).outline]
  | broken (span : Span) (message text : String) :
      Seen g [(Node.broken span message text).outline] [(Node.broken (g.span span) message (g.text text)).outline]
  /-- The parameters of closures may be seen without fallback values. -/
  | bare (p : Parameter Node) (hbare : g.bare = true) :
      Seen g (Parameter.outlines [p]) (Parameter.outlines [(p.view g).bare])
  | node {kind : NodeKind} {span : Span} {attributes : List (String × Attribute)} {ts us : List Outline}
      (h : Seen g ts us) (hkind : kind.namesCommand = false) :
      Seen g [.mk kind span attributes ts] [.mk kind (g.span span) attributes us]

namespace Seen

variable {g : View} {kind : NodeKind} {span : Span} {attributes : List (String × Attribute)}

theorem leaf (hkind : kind.namesCommand = false) :
    Seen g [.mk kind span attributes []] [.mk kind (g.span span) attributes []] := nil.node hkind

/-- Parts of one type are seen one by one. -/
theorem list {α : Type} {f : α → α} {outline : α → Outline} (h : ∀ a, Seen g [outline a] [outline (f a)])
    (as : List α) : Seen g (as.map outline) ((as.map f).map outline) := by
  induction as with
  | nil => exact nil
  | cons a as ih => exact (h a).append ih

theorem option {α : Type} {f : α → α} {outline : α → Outline} (h : ∀ a, Seen g [outline a] [outline (f a)])
    (a : Option α) : Seen g (a.map outline).toList ((a.map f).map outline).toList := by
  cases a with
  | none => exact nil
  | some a => exact h a

end Seen

section

variable (g : View)

/-! ## Leaves and patterns -/

theorem Ident.view_seen (x : Ident) : Seen g [x.outline] [(x.view g).outline] := .leaf rfl

theorem StringLiteral.view_seen (s : StringLiteral) : Seen g [s.outline] [(s.view g).outline] := .leaf rfl

theorem Literal.seen (span : Span) (value : Literal) :
    Seen g [value.outline span] [value.outline (g.span span)] := by
  cases value <;> exact .leaf rfl

theorem TypeHint.view_seen (t : TypeHint) : Seen g [t.outline] [(t.view g).outline] := .leaf rfl

theorem TypeHint.option_seen (t : Option TypeHint) :
    Seen g (t.map TypeHint.outline).toList ((t.map (TypeHint.view g)).map TypeHint.outline).toList :=
  .option (fun t => t.view_seen g) t

theorem Ident.option_seen (x : Option Ident) :
    Seen g (x.map Ident.outline).toList ((x.map (Ident.view g)).map Ident.outline).toList :=
  .option (fun x => x.view_seen g) x

theorem RecordKey.view_seen (key : RecordKey) : Seen g [key.outline] [(key.view g).outline] := by
  cases key <;> exact .leaf rfl

theorem ModuleRef.view_seen (ref : ModuleRef) : Seen g [ref.outline] [(ref.view g).outline] := by
  cases ref <;> exact .leaf rfl

theorem ImportItem.view_seen (item : ImportItem) : Seen g [item.outline] [(item.view g).outline] :=
  ((item.name.view_seen g).append (Ident.option_seen g item.rename)).node rfl

theorem FieldBinding.view_seen (x : FieldBinding) : Seen g [x.outline] [(x.view g).outline] := by
  cases x <;> exact .leaf rfl

theorem PatternField.view_seen (f : PatternField) : Seen g [f.outline] [(f.view g).outline] :=
  ((f.name.view_seen g).append (.option (FieldBinding.view_seen g) f.binding)).node rfl

theorem RecordPattern.view_seen (r : RecordPattern) : Seen g [r.outline] [(r.view g).outline] :=
  (Seen.list (PatternField.view_seen g) r.fields).node rfl

mutual

theorem Pattern.view_seen : ∀ p : Pattern, Seen g [p.outline] [(p.view g).outline]
  | .literal span value => by
      rw [Pattern.view, Pattern.outline, Pattern.outline]
      exact (value.seen g span).node rfl
  | .wildcard _ | .binding .. | .rest .. => by
      rw [Pattern.view, Pattern.outline, Pattern.outline]
      exact .leaf rfl
  | .record r => by
      rw [Pattern.view, Pattern.outline, Pattern.outline]
      exact r.view_seen g
  | .typedRecord _ typeName r => by
      rw [Pattern.view, Pattern.outline, Pattern.outline]
      exact ((typeName.view_seen g).append (r.view_seen g)).node rfl
  | .list _ elements => by
      rw [Pattern.view, Pattern.outline, Pattern.outline]
      exact (Pattern.views_seen elements).node rfl

theorem Pattern.views_seen : ∀ ps : List Pattern,
    Seen g (Pattern.outlines ps) (Pattern.outlines (Pattern.views g ps))
  | [] => .nil
  | p :: ps => p.view_seen.append (Pattern.views_seen ps)

end

end

/-! ## Nodes -/

section

variable {g : View}

/-- Parameters without fallback values. -/
theorem Parameter.bare_seen (hbare : g.bare = true) : ∀ ps : List (Parameter Node),
    Seen g (Parameter.outlines ps) (Parameter.outlines ((Parameter.views g ps).map Parameter.bare))
  | [] => .nil
  | p :: ps => (Seen.bare p hbare).append (Parameter.bare_seen hbare ps)

theorem LoopVariable.view_seen (x : LoopVariable) : Seen g [x.outline] [(x.view g).outline] := by
  refine .leaf ?_
  rw [LoopVariable.kind]
  split <;> rfl

mutual

/-- **A node that is seen has the outline of the node, seen.** -/
theorem Node.view_seen : ∀ n : Node, Seen g [n.outline] [(n.view g).outline]
  | .literal span value => by
      rw [Node.view, Node.outline, Node.outline]
      exact value.seen g span
  | .word .. | .variableUse .. | .environmentUse .. | .specialUse .. | .path .. | .breakJump _ | .continueJump _ => by
      rw [Node.view, Node.outline, Node.outline]
      exact .leaf rfl
  | .broken span message text => .broken span message text
  | .binary _ _ left right | .range _ left right _ => by
      rw [Node.view, Node.outline, Node.outline]
      exact (left.view_seen.append right.view_seen).node rfl
  | .unary _ _ inner | .paren _ inner | .commandSubstitution _ inner | .processSubstitution _ _ inner => by
      rw [Node.view, Node.outline, Node.outline]
      exact inner.view_seen.node rfl
  | .fieldAccess _ target field => by
      rw [Node.view, Node.outline, Node.outline]
      exact (target.view_seen.append (field.view_seen _)).node rfl
  | .methodCall _ target method args => by
      rw [Node.view, Node.outline, Node.outline]
      exact (target.view_seen.append ((method.view_seen _).append (Node.views_seen args))).node rfl
  | .call _ callee args => by
      rw [Node.view, Node.outline, Node.outline]
      exact ((callee.view_seen _).append (Node.views_seen args)).node rfl
  | .pipeline _ nodes _ | .list _ nodes | .tuple _ nodes | .set _ nodes | .expansion _ nodes => by
      rw [Node.view, Node.outline, Node.outline]
      exact (Node.views_seen nodes).node rfl
  | .command _ stages _ => by
      rw [Node.view, Node.outline, Node.outline]
      exact (CommandStage.views_seen stages).node rfl
  | .flag _ _ _ value | .returnJump _ value => by
      rw [Node.view, Node.outline, Node.outline]
      exact (Node.view?_seen value).node rfl
  | .record r => by
      rw [Node.view, Node.outline, Node.outline]
      exact Record.view_seen r
  | .construction _ typeName r => by
      rw [Node.view, Node.outline, Node.outline]
      exact ((typeName.view_seen _).append (Record.view_seen r)).node rfl
  | .closure _ params body _ => by
      rw [Node.view, Node.outline, Node.outline]
      refine (Seen.append ?_ (Block.view_seen body)).node rfl
      rw [View.closureParams]
      split
      · next hbare => exact Parameter.bare_seen hbare params
      · exact Parameter.views_seen params
  | .lambda _ params returns body => by
      rw [Node.view, Node.outline, Node.outline]
      exact (((Parameter.views_seen params).append (TypeHint.option_seen _ returns)).append
        (Block.view_seen body)).node rfl
  | .binding _ _ name value => by
      rw [Node.view, Node.outline, Node.outline]
      exact ((name.view_seen _).append value.view_seen).node rfl
  | .assignment _ target _ value => by
      rw [Node.view, Node.outline, Node.outline]
      exact ((Seen.leaf rfl).append value.view_seen).node rfl
  | .conditional _ condition body elseIfs elseBody => by
      rw [Node.view, Node.outline, Node.outline]
      exact ((condition.view_seen.append ((Block.view_seen body).append (ElseIf.views_seen elseIfs))).append
        (Block.view?_seen elseBody)).node rfl
  | .forLoop _ _ iterable body => by
      rw [Node.view, Node.outline, Node.outline]
      exact ((LoopVariable.view_seen _).append (iterable.view_seen.append (Block.view_seen body))).node rfl
  | .whileLoop _ condition body => by
      rw [Node.view, Node.outline, Node.outline]
      exact (condition.view_seen.append (Block.view_seen body)).node rfl
  | .endlessLoop _ body => by
      rw [Node.view, Node.outline, Node.outline]
      exact (Block.view_seen body).node rfl
  | .matching _ subject arms => by
      rw [Node.view, Node.outline, Node.outline]
      exact (subject.view_seen.append (MatchArm.views_seen arms)).node rfl
  | .attempt _ body errorName handler => by
      rw [Node.view, Node.outline, Node.outline]
      exact (((Block.view_seen body).append (Ident.option_seen _ errorName)).append (Block.view_seen handler)).node rfl
  | .functionDefinition f => by
      rw [Node.view, Node.outline, Node.outline]
      exact Function.view_seen f
  | .macroDefinition _ name params body _ decorators => by
      rw [Node.view, Node.outline, Node.outline]
      exact (((Decorator.views_seen decorators).append ((name.view_seen _).append
        (Parameter.views_seen params))).append (Block.view_seen body)).node rfl
  | .aliasDefinition _ name value decorators => by
      rw [Node.view, Node.outline, Node.outline]
      exact ((Decorator.views_seen decorators).append ((name.view_seen _).append value.view_seen)).node rfl
  | .objectDefinition _ name members decorators => by
      rw [Node.view, Node.outline, Node.outline]
      exact ((Decorator.views_seen decorators).append ((name.view_seen _).append (Member.views_seen members))).node rfl
  | .enumDefinition _ name variants decorators => by
      rw [Node.view, Node.outline, Node.outline]
      exact ((Decorator.views_seen decorators).append ((name.view_seen _).append
        (.list (fun x => x.view_seen _) variants))).node rfl
  | .testDefinition _ name body decorators => by
      rw [Node.view, Node.outline, Node.outline]
      exact ((Decorator.views_seen decorators).append ((name.view_seen _).append (Block.view_seen body))).node rfl
  | .useModule _ ref => by
      rw [Node.view, Node.outline, Node.outline]
      exact (ref.view_seen _).node rfl
  | .importFrom _ ref items _ => by
      rw [Node.view, Node.outline, Node.outline]
      exact ((ref.view_seen _).append (.list (fun item => item.view_seen _) items)).node rfl
  | .sourceFile _ path rename => by
      rw [Node.view, Node.outline, Node.outline]
      exact ((path.view_seen _).append (Ident.option_seen _ rename)).node rfl

theorem Node.views_seen : ∀ ns : List Node,
    Seen g (Node.outlines ns) (Node.outlines (Node.views g ns))
  | [] => .nil
  | n :: ns => n.view_seen.append (Node.views_seen ns)

theorem Node.view?_seen : ∀ n : Option Node, Seen g (Node.outline? n) (Node.outline? (Node.view? g n))
  | none => .nil
  | some n => n.view_seen

theorem Block.view_seen : ∀ b : Block Node, Seen g [Block.outline b] [Block.outline (Block.view g b)]
  | ⟨_, statements⟩ => by
      rw [Block.view, Block.outline, Block.outline]
      exact (Node.views_seen statements).node rfl

theorem Block.view?_seen : ∀ b : Option (Block Node),
    Seen g (Block.outline? b) (Block.outline? (Block.view? g b))
  | none => .nil
  | some b => Block.view_seen b

theorem Parameter.views_seen : ∀ ps : List (Parameter Node),
    Seen g (Parameter.outlines ps) (Parameter.outlines (Parameter.views g ps))
  | [] => .nil
  | ⟨_, _, _, hint, fallback⟩ :: ps =>
      (((TypeHint.option_seen _ hint).append (Node.view?_seen fallback)).node rfl).append (Parameter.views_seen ps)

theorem Decorator.views_seen : ∀ ds : List (Decorator Node),
    Seen g (Decorator.outlines ds) (Decorator.outlines (Decorator.views g ds))
  | [] => .nil
  | ⟨_, _, args⟩ :: ds => ((Node.views_seen args).node rfl).append (Decorator.views_seen ds)

theorem RecordField.views_seen : ∀ fs : List (RecordField Node),
    Seen g (RecordField.outlines fs) (RecordField.outlines (RecordField.views g fs))
  | [] => .nil
  | ⟨_, key, value⟩ :: fs => (((key.view_seen _).append value.view_seen).node rfl).append (RecordField.views_seen fs)

theorem Record.view_seen : ∀ r : Record Node,
    Seen g [Record.outline r] [Record.outline (Record.view g r)]
  | ⟨_, fields⟩ => by
      rw [Record.view, Record.outline, Record.outline]
      exact (RecordField.views_seen fields).node rfl

theorem CommandStage.views_seen : ∀ cs : List (CommandStage Node),
    Seen g (CommandStage.outlines cs) (CommandStage.outlines (CommandStage.views g cs))
  | [] => .nil
  | ⟨_, name, args⟩ :: cs => (((Seen.command name).append (Node.views_seen args)).node rfl).append
      (CommandStage.views_seen cs)

theorem ElseIf.views_seen : ∀ es : List (ElseIf Node),
    Seen g (ElseIf.outlines es) (ElseIf.outlines (ElseIf.views g es))
  | [] => .nil
  | ⟨_, condition, body⟩ :: es =>
      ((condition.view_seen.append (Block.view_seen body)).node rfl).append (ElseIf.views_seen es)

theorem ArmBody.view_seen : ∀ x : ArmBody Node,
    Seen g [ArmBody.outline x] [ArmBody.outline (ArmBody.view g x)]
  | .block b => Block.view_seen b
  | .value n => n.view_seen

theorem MatchArm.views_seen : ∀ as : List (MatchArm Node),
    Seen g (MatchArm.outlines as) (MatchArm.outlines (MatchArm.views g as))
  | [] => .nil
  | ⟨_, pattern, guard, body⟩ :: as =>
      ((((pattern.view_seen _).append (Node.view?_seen guard)).append (ArmBody.view_seen body)).node rfl).append
        (MatchArm.views_seen as)

theorem Function.view_seen : ∀ f : Function Node,
    Seen g [Function.outline f] [Function.outline (Function.view g f)]
  | ⟨_, name, params, returns, body, decorators⟩ => by
      rw [Function.view, Function.outline, Function.outline]
      exact ((((Decorator.views_seen decorators).append ((name.view_seen _).append
        (Parameter.views_seen params))).append (TypeHint.option_seen _ returns)).append (Block.view_seen body)).node rfl

theorem Member.views_seen : ∀ ms : List (Member Node),
    Seen g (Member.outlines ms) (Member.outlines (Member.views g ms))
  | [] => .nil
  | .field name :: ms => ((name.view_seen g).node rfl).append (Member.views_seen ms)
  | .method f :: ms => (Function.view_seen f).append (Member.views_seen ms)

end

end

end ShellFront
