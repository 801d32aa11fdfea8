import ShellFront.Tree.Outline

/-!
# What outlines hold

Properties of a tree are read off its outline, node by node. `Outline.Everywhere p` says that `p` holds of a
node and of everything below it. An outline is **intact** when it shows no part that could not be read, and
**plain** when it shows no block either. The leaves of the grammar and its patterns are **details**: what holds of
every node of such a kind holds everywhere in them.

Readers give values of many types: nodes, parts of nodes, lists and pairs of them. `Outlined` gives the
outlines that such a value stands for, so that one statement covers all of them.

## Contents
- `Outline.walk_eq_preorder`; `Outline.at?`, the node at the end of a way.
- `Outline.Everywhere`, `Outline.Intact`, `Outline.Plain`.
- `Outline.Detailed`, and what is made of details.
- `Outlined` and its instances.
-/

namespace ShellFront

/-- Whether nodes of a kind are **details**: names, literals, patterns and parts of them. None holds an expression. -/
def NodeKind.isDetail : NodeKind → Bool
  | intLiteral | floatLiteral | stringLiteral | boolLiteral | nullLiteral | identifier | variableName | builtinCommand
  | commandName | typeHint | modulePath | importItem | literalPattern | wildcardPattern | bindingPattern | patternField
  | recordPattern | typedRecordPattern | restPattern | listPattern => true
  | _ => false

/-! ## Walks -/

namespace Outline

/-- The walk over two lists of outlines is the one walk after the other. -/
theorem preorders_append (ts us : List Outline) :
    preorders (ts ++ us) = preorders ts ++ preorders us := by
  induction ts with
  | nil => rfl
  | cons t ts ih => rw [List.cons_append, preorders, preorders, ih, List.append_assoc]

/-- A walk begins with the node itself and goes on with its children. -/
theorem preorder_eq (t : Outline) : t.preorder = t :: preorders t.children := by
  cases t
  rw [preorder, children]

/-- The walk over a stack visits its trees one after the other, each in pre-order. -/
theorem walkFrom_eq_preorders (stack : List Outline) : walkFrom stack = preorders stack := by
  fun_induction walkFrom stack with
  | case1 => rfl
  | case2 t rest ih => rw [ih, preorders_append, preorders, preorder_eq, List.cons_append]

/-- The walk that the program makes with a list of nodes still to visit is the recursive one. -/
theorem walk_eq_preorder (t : Outline) : t.walk = t.preorder := by
  rw [walk, walkFrom_eq_preorders, preorders, preorders, List.append_nil]

/-! ## Ways to nodes -/

/-- The node at the end of a way, if the way stays within the tree. -/
def at? : List Nat → Outline → Option Outline
  | [], t => some t
  | i :: way, t => t.children[i]?.bind (at? way)

/-! ## Properties of all nodes -/

/-- Induction over a tree: what holds of a node when it holds of its children holds of every node. -/
@[elab_as_elim, induction_eliminator]
theorem induction {motive : Outline → Prop}
    (mk : ∀ kind span attributes children, (∀ c ∈ children, motive c) →
      motive (mk kind span attributes children)) (t : Outline) : motive t :=
  match t with
  | .mk kind span attributes children =>
      mk kind span attributes children fun c hc =>
        have : sizeOf c < 1 + sizeOf kind + sizeOf span + sizeOf attributes + sizeOf children := by
          have := List.sizeOf_lt_of_mem hc
          omega
        induction mk c
termination_by t

/-- `p` holds of a node and of everything below it. -/
def Everywhere (p : Outline → Prop) (t : Outline) : Prop := ∀ u ∈ t.preorder, p u

/-- What the walk over a list comes to, it comes to below one of its members. -/
theorem mem_preorders {u : Outline} {ts : List Outline} : u ∈ preorders ts ↔ ∃ t ∈ ts, u ∈ t.preorder := by
  induction ts with
  | nil => simp [preorders]
  | cons t ts ih => simp [preorders, ih]

/-- What holds everywhere below a node holds of the node and everywhere below its children. -/
theorem everywhere_mk {p : Outline → Prop} {kind : NodeKind} {span : Span}
    {attributes : List (String × Attribute)} {children : List Outline} :
    (mk kind span attributes children).Everywhere p ↔
      p (mk kind span attributes children) ∧ ∀ c ∈ children, c.Everywhere p := by
  simp only [Everywhere, preorder, List.forall_mem_cons, mem_preorders]
  exact and_congr_right fun _ => ⟨fun h c hc u hu => h u ⟨c, hc, hu⟩, fun h u ⟨c, hc, hu⟩ => h c hc u hu⟩

theorem Everywhere.self {p : Outline → Prop} {t : Outline} (h : t.Everywhere p) : p t :=
  h t (by rw [preorder_eq]; exact List.mem_cons_self)

theorem Everywhere.imp {p q : Outline → Prop} {t : Outline} (hpq : ∀ u, p u → q u)
    (h : t.Everywhere p) : t.Everywhere q := fun u hu => hpq u (h u hu)

/-- What holds everywhere in a tree holds everywhere in each part of it. -/
theorem Everywhere.of_mem {p : Outline → Prop} {t u : Outline} (h : t.Everywhere p) (hu : u ∈ t.preorder) :
    u.Everywhere p := by
  induction t with
  | mk kind span attributes children ih =>
      rw [preorder, List.mem_cons] at hu
      rcases hu with rfl | hu
      · exact h
      · obtain ⟨c, hc, hu⟩ := mem_preorders.mp hu
        exact ih c hc ((everywhere_mk.mp h).2 c hc) hu

/-- Nothing in the tree is a part that could not be read. -/
def Intact (t : Outline) : Prop := t.Everywhere (fun u => u.kind ≠ .errorNode)

/-- Nothing in the tree is a part that could not be read, or a block. -/
def Plain (t : Outline) : Prop := t.Everywhere (fun u => u.kind ≠ .errorNode ∧ u.kind ≠ .block)

/-- Being intact can be checked on the walk. -/
theorem intact_iff {t : Outline} : (t.walk.all fun u => u.kind != .errorNode) = true ↔ t.Intact := by
  rw [walk_eq_preorder, List.all_eq_true]
  exact forall₂_congr fun _ _ => bne_iff_ne

/-- Where nothing is a block and nothing is an error, nothing is broken. -/
theorem Plain.intact {t : Outline} (h : t.Plain) : t.Intact := h.imp fun _ hu => hu.1

theorem plain_mk {kind : NodeKind} {span : Span} {attributes : List (String × Attribute)}
    {children : List Outline} (hkind : kind ≠ .errorNode ∧ kind ≠ .block)
    (hchildren : ∀ c ∈ children, c.Plain) : (mk kind span attributes children).Plain :=
  everywhere_mk.mpr ⟨hkind, hchildren⟩

/-- A node that stands alone is plain. -/
theorem plain_leaf {kind : NodeKind} {span : Span} {attributes : List (String × Attribute)}
    (hkind : kind ≠ .errorNode ∧ kind ≠ .block) : (mk kind span attributes []).Plain :=
  plain_mk hkind (by simp)

/-- The tree is made of **details** only. -/
def Detailed (t : Outline) : Prop := t.Everywhere fun u => u.kind.isDetail = true

/-- A detail with details for children is detailed throughout. -/
theorem detailed_mk {kind : NodeKind} {span : Span} {attributes : List (String × Attribute)} {children : List Outline}
    (hkind : kind.isDetail = true) (hchildren : ∀ c ∈ children, c.Detailed) :
    (mk kind span attributes children).Detailed :=
  everywhere_mk.mpr ⟨hkind, hchildren⟩

/-- A detail that stands alone. -/
theorem detailed_leaf {kind : NodeKind} {span : Span} {attributes : List (String × Attribute)}
    (hkind : kind.isDetail = true) : (mk kind span attributes []).Detailed :=
  detailed_mk hkind (List.forall_mem_nil _)

/-- Details can be read, and are no blocks. -/
@[simp] theorem Detailed.plain {t : Outline} (h : t.Detailed) : t.Plain := by
  refine h.imp fun u hu => ⟨?_, ?_⟩ <;> (intro hkind; rw [hkind] at hu; contradiction)

end Outline

/-- A node and its outline stand at one place. -/
theorem Node.outline_span (n : Node) : n.outline.span = n.span := by
  cases n with
  | literal span value => cases value <;> rfl
  | record r => cases r; rfl
  | functionDefinition f => cases f; rfl
  | _ =>
      rw [Node.outline]
      rfl

/-- A block and its outline stand at one place. -/
theorem Block.outline_span (b : Block Node) : (Block.outline b).span = b.span := by
  cases b
  rfl

/-! ## Details -/

open Outline

@[simp] theorem Ident.outline_detailed (x : Ident) : x.outline.Detailed := detailed_leaf rfl

@[simp] theorem Ident.variableOutline_detailed (x : Ident) : x.variableOutline.Detailed := detailed_leaf rfl

@[simp] theorem Literal.outline_detailed (value : Literal) (span : Span) : (value.outline span).Detailed := by
  cases value <;> exact detailed_leaf rfl

@[simp] theorem StringLiteral.outline_detailed (s : StringLiteral) : s.outline.Detailed := detailed_leaf rfl

/-- By induction on the hint: its arguments are hints again. -/
@[simp] theorem TypeHint.outline_detailed (t : TypeHint) : t.outline.Detailed := detailed_leaf rfl

@[simp] theorem CommandName.outline_detailed (c : CommandName) : c.outline.Detailed :=
  detailed_leaf (by unfold CommandName.kind; split <;> rfl)

@[simp] theorem ModuleRef.outline_detailed (m : ModuleRef) : m.outline.Detailed := by
  cases m <;> exact detailed_leaf rfl

@[simp] theorem LoopVariable.outline_detailed (x : LoopVariable) : x.outline.Detailed :=
  detailed_leaf (by unfold LoopVariable.kind; split <;> rfl)

@[simp] theorem RecordKey.outline_detailed (k : RecordKey) : k.outline.Detailed := by
  cases k <;> exact detailed_leaf rfl

@[simp] theorem ImportItem.outline_detailed (item : ImportItem) : item.outline.Detailed := detailed_mk rfl (by simp)

@[simp] theorem FieldBinding.outline_detailed (b : FieldBinding) : b.outline.Detailed := by
  cases b <;> exact detailed_leaf rfl

@[simp] theorem PatternField.outline_detailed (f : PatternField) : f.outline.Detailed := detailed_mk rfl (by simp)

@[simp] theorem RecordPattern.outline_detailed (r : RecordPattern) : r.outline.Detailed := detailed_mk rfl (by simp)

mutual

/-- **Patterns are made of details.** -/
@[simp] theorem Pattern.outline_detailed : ∀ p : Pattern, p.outline.Detailed
  | .literal _ _ | .typedRecord _ _ _ => detailed_mk rfl (by simp)
  | .wildcard _ | .binding _ _ _ | .rest _ _ _ => detailed_leaf rfl
  | .record r => r.outline_detailed
  | .list _ elements => detailed_mk rfl (Pattern.outlines_detailed elements)

/-- A pattern that alternates stands over a list of patterns. -/
theorem Pattern.outlines_detailed : ∀ ps : List Pattern, ∀ c ∈ Pattern.outlines ps, c.Detailed
  | [] => List.forall_mem_nil _
  | p :: ps => List.forall_mem_cons.mpr ⟨p.outline_detailed, Pattern.outlines_detailed ps⟩

end

/-! ### Nodes without parts -/

@[simp] theorem Node.literal_plain (span : Span) (value : Literal) :
    (Node.literal span value).outline.Plain := (value.outline_detailed span).plain

@[simp] theorem Node.word_plain (span : Span) (name : String) : (Node.word span name).outline.Plain :=
  plain_leaf (by decide)

@[simp] theorem Node.variableUse_plain (span : Span) (name : String) :
    (Node.variableUse span name).outline.Plain := plain_leaf (by decide)

@[simp] theorem Node.environmentUse_plain (span : Span) (name : String) :
    (Node.environmentUse span name).outline.Plain := plain_leaf (by decide)

@[simp] theorem Node.specialUse_plain (span : Span) (name : String) :
    (Node.specialUse span name).outline.Plain := plain_leaf (by decide)

@[simp] theorem Node.path_plain (span : Span) (path : String) : (Node.path span path).outline.Plain :=
  plain_leaf (by decide)

@[simp] theorem Node.bareFlag_plain (span : Span) (name : String) (long : Bool) :
    (Node.flag span name long none).outline.Plain := plain_mk (by decide) (by simp [Node.outline?])

@[simp] theorem Node.breakJump_plain (span : Span) : (Node.breakJump span).outline.Plain :=
  plain_leaf (by decide)

@[simp] theorem Node.continueJump_plain (span : Span) : (Node.continueJump span).outline.Plain :=
  plain_leaf (by decide)

/-! ## Values that hold nodes -/

/-- The outlines that a value stands for. -/
class Outlined (α : Type) where
  shown : α → List Outline

namespace Outlined

/-- A value of any other type stands for none. -/
instance (priority := low) plain {α : Type} : Outlined α := ⟨fun _ => []⟩

instance : Outlined Node := ⟨fun n => [n.outline]⟩
instance : Outlined (Block Node) := ⟨fun b => [Block.outline b]⟩
instance : Outlined (Parameter Node) := ⟨fun p => Parameter.outlines [p]⟩
instance : Outlined (Decorator Node) := ⟨fun d => Decorator.outlines [d]⟩
instance : Outlined (RecordField Node) := ⟨fun f => RecordField.outlines [f]⟩
instance : Outlined (Record Node) := ⟨fun r => [Record.outline r]⟩
instance : Outlined (CommandStage Node) := ⟨fun c => CommandStage.outlines [c]⟩
instance : Outlined (ElseIf Node) := ⟨fun e => ElseIf.outlines [e]⟩
instance : Outlined (ArmBody Node) := ⟨fun b => [ArmBody.outline b]⟩
instance : Outlined (MatchArm Node) := ⟨fun a => MatchArm.outlines [a]⟩
instance : Outlined (Function Node) := ⟨fun f => [Function.outline f]⟩
instance : Outlined (Member Node) := ⟨fun m => Member.outlines [m]⟩

variable {α β : Type} [Outlined α] [Outlined β]

instance : Outlined (List α) := ⟨fun as => as.flatMap shown⟩
instance : Outlined (Array α) := ⟨fun as => as.toList.flatMap shown⟩
instance : Outlined (Option α) := ⟨fun a => a.toList.flatMap shown⟩
instance : Outlined (α × β) := ⟨fun (a, b) => shown a ++ shown b⟩

/-- A value of a plain type, such as a flag or a text, has no outlines. -/
@[simp] theorem shown_plain {γ : Type} (c : γ) : @shown γ plain c = [] := rfl
@[simp] theorem shown_node (n : Node) : shown n = [n.outline] := rfl
@[simp] theorem shown_block (b : Block Node) : shown b = [Block.outline b] := rfl
@[simp] theorem shown_record (r : Record Node) : shown r = [Record.outline r] := rfl
@[simp] theorem shown_function (f : Function Node) : shown f = [Function.outline f] := rfl
@[simp] theorem shown_armBody (b : ArmBody Node) : shown b = [ArmBody.outline b] := rfl
@[simp] theorem shown_nil : shown ([] : List α) = [] := rfl
@[simp] theorem shown_cons (a : α) (as : List α) : shown (a :: as) = shown a ++ shown as :=
  rfl
@[simp] theorem shown_append (as bs : List α) : shown (as ++ bs) = shown as ++ shown bs :=
  List.flatMap_append
/-- What is put at the end of an array is shown last. -/
@[simp] theorem shown_toList (as : Array α) : shown as.toList = shown as := rfl
@[simp] theorem shown_emptyArray : shown (#[] : Array α) = [] := rfl
@[simp] theorem shown_push (as : Array α) (a : α) :
    shown (as.push a) = shown as ++ shown a := by
  rw [← shown_toList, Array.toList_push, shown_append, shown_cons, shown_nil,
    List.append_nil, shown_toList]
@[simp] theorem shown_none : shown (none : Option α) = [] := rfl
@[simp] theorem shown_some (a : α) : shown (some a) = shown a := List.append_nil _
@[simp] theorem shown_pair (a : α) (b : β) : shown (a, b) = shown a ++ shown b := rfl

/-- The nodes of a list show one outline each. -/
theorem shown_nodes (ns : List Node) : shown ns = ns.map Node.outline := by
  induction ns with
  | nil => rfl
  | cons n ns ih => rw [shown_cons, ih]; rfl

/-- Lists of values that stand for nothing stand for nothing. -/
@[simp] theorem shown_plainList {γ : Type} (cs : List γ) :
    @shown (List γ) (@instList γ plain) cs = [] := by
  induction cs with
  | nil => rfl
  | cons c cs ih => rw [shown_cons, ih]; rfl

@[simp] theorem shown_plainArray {γ : Type} (cs : Array γ) :
    @shown (Array γ) (@instArray γ plain) cs = [] := shown_plainList cs.toList

@[simp] theorem shown_plainOption {γ : Type} (c : Option γ) :
    @shown (Option γ) (@instOption γ plain) c = [] := by
  cases c <;> rfl

/-- Marks that stand with values stand for nothing. -/
theorem shown_map_snd {γ : Type} (cs : List (γ × α)) :
    shown (cs.map (·.2)) = @shown (List (γ × α)) (@instList _ (@instProd γ α plain _)) cs := by
  induction cs with
  | nil => rfl
  | cons c cs ih => rw [List.map_cons, shown_cons, shown_cons, ih, shown_pair, shown_plain,
      List.nil_append]

end Outlined

/-! ## Outlines of lists -/

open Outlined

/-- The outlines that the tree writes for a list are those that the list shows. -/
@[simp] theorem Node.outlines_eq (ns : List Node) : Node.outlines ns = shown ns := by
  induction ns with
  | nil => rw [Node.outlines, shown_nil]
  | cons n ns ih => rw [Node.outlines, ih, shown_cons, shown_node, List.singleton_append]

@[simp] theorem Node.outline?_eq (n : Option Node) : Node.outline? n = shown n := by
  cases n <;> rw [Node.outline?] <;> rfl

@[simp] theorem Block.outline?_eq (b : Option (Block Node)) : Block.outline? b = shown b := by
  cases b <;> rw [Block.outline?] <;> rfl

@[simp] theorem Parameter.outlines_eq (ps : List (Parameter Node)) : Parameter.outlines ps = shown ps := by
  induction ps with
  | nil => rw [Parameter.outlines, shown_nil]
  | cons p ps ih => rw [Parameter.outlines, ih, shown_cons]; rfl

@[simp] theorem Decorator.outlines_eq (ds : List (Decorator Node)) : Decorator.outlines ds = shown ds := by
  induction ds with
  | nil => rw [Decorator.outlines, shown_nil]
  | cons d ds ih => rw [Decorator.outlines, ih, shown_cons]; rfl

@[simp] theorem RecordField.outlines_eq (fs : List (RecordField Node)) :
    RecordField.outlines fs = shown fs := by
  induction fs with
  | nil => rw [RecordField.outlines, shown_nil]
  | cons f fs ih => rw [RecordField.outlines, ih, shown_cons]; rfl

@[simp] theorem CommandStage.outlines_eq (cs : List (CommandStage Node)) :
    CommandStage.outlines cs = shown cs := by
  induction cs with
  | nil => rw [CommandStage.outlines, shown_nil]
  | cons c cs ih => rw [CommandStage.outlines, ih, shown_cons]; rfl

@[simp] theorem ElseIf.outlines_eq (es : List (ElseIf Node)) : ElseIf.outlines es = shown es := by
  induction es with
  | nil => rw [ElseIf.outlines, shown_nil]
  | cons e es ih => rw [ElseIf.outlines, ih, shown_cons]; rfl

@[simp] theorem MatchArm.outlines_eq (as : List (MatchArm Node)) : MatchArm.outlines as = shown as := by
  induction as with
  | nil => rw [MatchArm.outlines, shown_nil]
  | cons a as ih => rw [MatchArm.outlines, ih, shown_cons]; rfl

@[simp] theorem Member.outlines_eq (ms : List (Member Node)) : Member.outlines ms = shown ms := by
  induction ms with
  | nil => rw [Member.outlines, shown_nil]
  | cons m ms ih =>
      cases m with
      | field => rw [Member.outlines, ih, shown_cons]; rfl
      | method => rw [Member.outlines, ih, shown_cons]; rfl

end ShellFront
