import ShellFront.Proofs.Tree.Outlined

/-!
# Leaves that are shown

Where spans are concerned every part of a tree counts, names, type hints and patterns as well. The instances
here add them to what a value stands for; they are scoped, as are the simp lemmas on them, since elsewhere such
parts stand for nothing.

## Contents
- Instances of `Outlined` for the parts of a tree that hold no nodes.
- `Outline.Leaf`, an outline without children.
-/

namespace ShellFront

open Outlined

namespace Layout

scoped instance instIdent : Outlined Ident := ⟨fun x => [x.outline]⟩
scoped instance instTypeHint : Outlined TypeHint := ⟨fun t => [t.outline]⟩
scoped instance instCommandName : Outlined CommandName := ⟨fun c => [c.outline]⟩
scoped instance instStringLiteral : Outlined StringLiteral := ⟨fun s => [s.outline]⟩
scoped instance instRecordKey : Outlined RecordKey := ⟨fun k => [k.outline]⟩
scoped instance instModuleRef : Outlined ModuleRef := ⟨fun m => [m.outline]⟩
scoped instance instImportItem : Outlined ImportItem := ⟨fun i => [i.outline]⟩
scoped instance instLoopVariable : Outlined LoopVariable := ⟨fun x => [x.outline]⟩
scoped instance instFieldBinding : Outlined FieldBinding := ⟨fun b => [b.outline]⟩
scoped instance instPatternField : Outlined PatternField := ⟨fun f => [f.outline]⟩
scoped instance instRecordPattern : Outlined RecordPattern := ⟨fun r => [r.outline]⟩
scoped instance instPattern : Outlined Pattern := ⟨fun p => [p.outline]⟩

@[scoped simp] theorem shown_ident (x : Ident) : shown x = [x.outline] := rfl
@[scoped simp] theorem shown_typeHint (t : TypeHint) : shown t = [t.outline] := rfl
@[scoped simp] theorem shown_commandName (c : CommandName) : shown c = [c.outline] := rfl
@[scoped simp] theorem shown_stringLiteral (s : StringLiteral) : shown s = [s.outline] := rfl
@[scoped simp] theorem shown_recordKey (k : RecordKey) : shown k = [k.outline] := rfl
@[scoped simp] theorem shown_moduleRef (m : ModuleRef) : shown m = [m.outline] := rfl
@[scoped simp] theorem shown_loopVariable (x : LoopVariable) : shown x = [x.outline] := rfl
@[scoped simp] theorem shown_recordPattern (r : RecordPattern) : shown r = [r.outline] := rfl
@[scoped simp] theorem shown_pattern (p : Pattern) : shown p = [p.outline] := rfl

variable {α : Type} [Outlined α] {f : α → Outline}

theorem map_eq_shown (hf : ∀ a, shown a = [f a]) (as : List α) : as.map f = shown as := by
  induction as with
  | nil => rfl
  | cons a as ih => rw [List.map_cons, ih, shown_cons, hf, List.singleton_append]

theorem toList_eq_shown (hf : ∀ a, shown a = [f a]) (a : Option α) : (a.map f).toList = shown a := by
  cases a with
  | none => rfl
  | some a => rw [shown_some, hf]; rfl

@[scoped simp] theorem idents_eq (xs : List Ident) : xs.map Ident.outline = shown xs :=
  map_eq_shown (fun _ => rfl) xs

@[scoped simp] theorem ident?_eq (x : Option Ident) : (x.map Ident.outline).toList = shown x :=
  toList_eq_shown (fun _ => rfl) x

@[scoped simp] theorem typeHint?_eq (t : Option TypeHint) : (t.map TypeHint.outline).toList = shown t :=
  toList_eq_shown (fun _ => rfl) t

@[scoped simp] theorem importItems_eq (is : List ImportItem) : is.map ImportItem.outline = shown is :=
  map_eq_shown (fun _ => rfl) is

@[scoped simp] theorem fieldBinding?_eq (b : Option FieldBinding) :
    (b.map FieldBinding.outline).toList = shown b :=
  toList_eq_shown (fun _ => rfl) b

@[scoped simp] theorem patternFields_eq (fs : List PatternField) : fs.map PatternField.outline = shown fs :=
  map_eq_shown (fun _ => rfl) fs

@[scoped simp] theorem patterns_eq (ps : List Pattern) : Pattern.outlines ps = shown ps := by
  induction ps with
  | nil => rw [Pattern.outlines, shown_nil]
  | cons p ps ih => rw [Pattern.outlines, ih, shown_cons, shown_pattern, List.singleton_append]

end Layout

/-! ## Outlines without children -/

/-- An outline without children, and neither a block nor a closure. -/
structure Outline.Leaf (span : Span) (o : Outline) : Prop where
  span : o.span = span
  children : o.children = []
  kind : o.kind ≠ .block ∧ o.kind ≠ .closure

theorem Outline.leaf_mk {kind : NodeKind} {span : Span} {attributes : List (String × Attribute)}
    (h : kind ≠ .block ∧ kind ≠ .closure) : Outline.Leaf span (.mk kind span attributes []) := ⟨rfl, rfl, h⟩

open Outline

theorem Ident.outline_leaf (x : Ident) : Leaf x.span x.outline := leaf_mk (by decide)

theorem Ident.variableOutline_leaf (x : Ident) : Leaf x.span x.variableOutline := leaf_mk (by decide)

theorem Literal.outline_leaf (value : Literal) (span : Span) : Leaf span (value.outline span) := by
  cases value <;> exact leaf_mk (by decide)

theorem StringLiteral.outline_leaf (s : StringLiteral) : Leaf s.span s.outline :=
  (Literal.string s.value s.style).outline_leaf s.span

theorem CommandName.outline_leaf (c : CommandName) : Leaf c.span c.outline :=
  leaf_mk (by unfold CommandName.kind; split <;> decide)

theorem LoopVariable.outline_leaf (x : LoopVariable) : Leaf x.span x.outline :=
  leaf_mk (by unfold LoopVariable.kind; split <;> decide)

end ShellFront
