import ShellFront.Parse.Basic
import ShellFront.Tree.Node

/-!
# Views of what is read

Two readings are compared by what can be seen of their results. A `View` says how places are seen, how the text
of statements that could not be read, and which commands are said to be built in; whatever is made of tokens is
seen part by part. To see a script further on is a view, and so is to see no places at all.

## Contents
- `View`, and how spans, tokens and messages are seen.
- `Node.view` and the views of all other parts of a tree.
- `Viewable`: what can be seen.
- `Node.view_plain`: the plain view.
-/

namespace ShellFront

/-! ## Places -/

/-- How what was read is **seen**. -/
structure View where
  span : Span → Span
  /-- The text of a statement that could not be read. -/
  text : String → String
  /-- Whether a command is built in, from its namespace, its name and what the tree says. -/
  builtin : Option String → String → Bool → Bool
  /-- Whether the parameters of closures are seen without fallback values. -/
  bare : Bool

/-- The view that shows all as it is. -/
def View.plain : View := ⟨id, id, fun _ _ flag => flag, false⟩

/-- A parameter without its fallback value. -/
def Parameter.bare (p : Parameter Node) : Parameter Node := { p with fallback := none }

/-- The parameters of a closure as they are seen. -/
def View.closureParams (g : View) (params : List (Parameter Node)) : List (Parameter Node) :=
  if g.bare then params.map Parameter.bare else params

/-- A token as it is seen. -/
def Token.view (g : View) (t : Token) : Token := { t with span := g.span t.span }

/-- A syntax error as it is seen. -/
def SyntaxError.view (g : View) (e : SyntaxError) : SyntaxError :=
  { e with found := e.found.view g, span := g.span e.span }

/-- A message as it is seen. -/
def Diagnostic.view (g : View) (m : Diagnostic) : Diagnostic := { m with span := m.span.map g.span }

/-! ## Leaves and patterns -/

section

variable (g : View)

def Ident.view (x : Ident) : Ident := { x with span := g.span x.span }
def StringLiteral.view (s : StringLiteral) : StringLiteral := { s with span := g.span s.span }
def TypeHint.view (t : TypeHint) : TypeHint := { t with span := g.span t.span }
def CommandName.view (c : CommandName) : CommandName :=
  { c with span := g.span c.span, builtin := g.builtin c.qualifier c.name c.builtin }
def LoopVariable.view (x : LoopVariable) : LoopVariable := { x with span := g.span x.span }

def ModuleRef.view : ModuleRef → ModuleRef
  | path span segments => path (g.span span) segments
  | file name => file (name.view g)

def ImportItem.view (item : ImportItem) : ImportItem :=
  ⟨g.span item.span, item.name.view g, item.rename.map (Ident.view g)⟩

def RecordKey.view : RecordKey → RecordKey
  | name x => name (x.view g)
  | text s => text (s.view g)

def FieldBinding.view : FieldBinding → FieldBinding
  | named x => named (x.view g)
  | wildcard span => wildcard (g.span span)

def PatternField.view (f : PatternField) : PatternField :=
  ⟨g.span f.span, f.name.view g, f.binding.map (FieldBinding.view g)⟩

def RecordPattern.view (r : RecordPattern) : RecordPattern :=
  ⟨g.span r.span, r.fields.map (PatternField.view g)⟩

mutual

/-- A pattern as it is seen. -/
def Pattern.view : Pattern → Pattern
  | .literal span value => .literal (g.span span) value
  | .wildcard span => .wildcard (g.span span)
  | .binding span name sigil => .binding (g.span span) name sigil
  | .record r => .record (r.view g)
  | .typedRecord span typeName r => .typedRecord (g.span span) (typeName.view g) (r.view g)
  | .list span elements => .list (g.span span) (Pattern.views elements)
  | .rest span name sigil => .rest (g.span span) name sigil

def Pattern.views : List Pattern → List Pattern
  | [] => []
  | p :: ps => p.view :: Pattern.views ps

end

/-! ## Nodes -/

mutual

/-- A node as it is seen, with all of its parts. -/
def Node.view : Node → Node
  | .literal span value => .literal (g.span span) value
  | .word span name => .word (g.span span) name
  | .variableUse span name => .variableUse (g.span span) name
  | .environmentUse span name => .environmentUse (g.span span) name
  | .specialUse span name => .specialUse (g.span span) name
  | .binary span operator left right => .binary (g.span span) operator left.view right.view
  | .unary span operator operand => .unary (g.span span) operator operand.view
  | .paren span inner => .paren (g.span span) inner.view
  | .fieldAccess span target field => .fieldAccess (g.span span) target.view (field.view g)
  | .methodCall span target method args =>
      .methodCall (g.span span) target.view (method.view g) (Node.views args)
  | .call span callee args => .call (g.span span) (callee.view g) (Node.views args)
  | .pipeline span stages operators => .pipeline (g.span span) (Node.views stages) operators
  | .command span stages operators => .command (g.span span) (CommandStage.views stages) operators
  | .flag span name long value => .flag (g.span span) name long (Node.view? value)
  | .path span path => .path (g.span span) path
  | .list span elements => .list (g.span span) (Node.views elements)
  | .record r => .record (Record.view r)
  | .tuple span elements => .tuple (g.span span) (Node.views elements)
  | .set span elements => .set (g.span span) (Node.views elements)
  | .range span first last inclusive => .range (g.span span) first.view last.view inclusive
  | .expansion span items => .expansion (g.span span) (Node.views items)
  | .construction span typeName r => .construction (g.span span) (typeName.view g) (Record.view r)
  | .commandSubstitution span inner => .commandSubstitution (g.span span) inner.view
  | .processSubstitution span direction inner =>
      .processSubstitution (g.span span) direction inner.view
  | .closure span params body explicitParams =>
      .closure (g.span span) (g.closureParams (Parameter.views params)) (Block.view body) explicitParams
  | .lambda span params returns body =>
      .lambda (g.span span) (Parameter.views params) (returns.map (TypeHint.view g)) (Block.view body)
  | .binding span keyword name value => .binding (g.span span) keyword (name.view g) value.view
  | .assignment span target operator value =>
      .assignment (g.span span) (target.view g) operator value.view
  | .conditional span condition body elseIfs elseBody =>
      .conditional (g.span span) condition.view (Block.view body) (ElseIf.views elseIfs)
        (Block.view? elseBody)
  | .forLoop span loopVariable iterable body =>
      .forLoop (g.span span) (loopVariable.view g) iterable.view (Block.view body)
  | .whileLoop span condition body => .whileLoop (g.span span) condition.view (Block.view body)
  | .endlessLoop span body => .endlessLoop (g.span span) (Block.view body)
  | .matching span subject arms => .matching (g.span span) subject.view (MatchArm.views arms)
  | .attempt span body errorName handler =>
      .attempt (g.span span) (Block.view body) (errorName.map (Ident.view g)) (Block.view handler)
  | .functionDefinition f => .functionDefinition (Function.view f)
  | .macroDefinition span name params body shellStyle decorators =>
      .macroDefinition (g.span span) (name.view g) (Parameter.views params) (Block.view body) shellStyle
        (Decorator.views decorators)
  | .aliasDefinition span name value decorators =>
      .aliasDefinition (g.span span) (name.view g) value.view (Decorator.views decorators)
  | .objectDefinition span name members decorators =>
      .objectDefinition (g.span span) (name.view g) (Member.views members) (Decorator.views decorators)
  | .enumDefinition span name variants decorators =>
      .enumDefinition (g.span span) (name.view g) (variants.map (Ident.view g))
        (Decorator.views decorators)
  | .testDefinition span name body decorators =>
      .testDefinition (g.span span) (name.view g) (Block.view body) (Decorator.views decorators)
  | .useModule span ref => .useModule (g.span span) (ref.view g)
  | .importFrom span ref items wildcard =>
      .importFrom (g.span span) (ref.view g) (items.map (ImportItem.view g)) wildcard
  | .sourceFile span path rename =>
      .sourceFile (g.span span) (path.view g) (rename.map (Ident.view g))
  | .returnJump span value => .returnJump (g.span span) (Node.view? value)
  | .breakJump span => .breakJump (g.span span)
  | .continueJump span => .continueJump (g.span span)
  | .broken span message text => .broken (g.span span) message (g.text text)

def Node.views : List Node → List Node
  | [] => []
  | n :: ns => n.view :: Node.views ns

def Node.view? : Option Node → Option Node
  | none => none
  | some n => some n.view

def Block.view : Block Node → Block Node
  | ⟨span, statements⟩ => ⟨g.span span, Node.views statements⟩

def Block.view? : Option (Block Node) → Option (Block Node)
  | none => none
  | some b => some (Block.view b)

def Parameter.view : Parameter Node → Parameter Node
  | ⟨span, name, sigil, hint, fallback⟩ =>
      ⟨g.span span, name, sigil, hint.map (TypeHint.view g), Node.view? fallback⟩

def Parameter.views : List (Parameter Node) → List (Parameter Node)
  | [] => []
  | p :: ps => Parameter.view p :: Parameter.views ps

def Decorator.view : Decorator Node → Decorator Node
  | ⟨span, name, args⟩ => ⟨g.span span, name, Node.views args⟩

def Decorator.views : List (Decorator Node) → List (Decorator Node)
  | [] => []
  | x :: xs => Decorator.view x :: Decorator.views xs

def RecordField.view : RecordField Node → RecordField Node
  | ⟨span, key, value⟩ => ⟨g.span span, key.view g, value.view⟩

def RecordField.views : List (RecordField Node) → List (RecordField Node)
  | [] => []
  | f :: fs => RecordField.view f :: RecordField.views fs

def Record.view : Record Node → Record Node
  | ⟨span, fields⟩ => ⟨g.span span, RecordField.views fields⟩

def CommandStage.view : CommandStage Node → CommandStage Node
  | ⟨span, name, args⟩ => ⟨g.span span, name.view g, Node.views args⟩

def CommandStage.views : List (CommandStage Node) → List (CommandStage Node)
  | [] => []
  | c :: cs => CommandStage.view c :: CommandStage.views cs

def ElseIf.view : ElseIf Node → ElseIf Node
  | ⟨span, condition, body⟩ => ⟨g.span span, condition.view, Block.view body⟩

def ElseIf.views : List (ElseIf Node) → List (ElseIf Node)
  | [] => []
  | e :: es => ElseIf.view e :: ElseIf.views es

def ArmBody.view : ArmBody Node → ArmBody Node
  | .block b => .block (Block.view b)
  | .value n => .value n.view

def MatchArm.view : MatchArm Node → MatchArm Node
  | ⟨span, pattern, guard, body⟩ =>
      ⟨g.span span, pattern.view g, Node.view? guard, ArmBody.view body⟩

def MatchArm.views : List (MatchArm Node) → List (MatchArm Node)
  | [] => []
  | a :: as => MatchArm.view a :: MatchArm.views as

def Function.view : Function Node → Function Node
  | ⟨span, name, params, returns, body, decorators⟩ =>
      ⟨g.span span, name.view g, Parameter.views params, returns.map (TypeHint.view g), Block.view body,
        Decorator.views decorators⟩

def Member.view : Member Node → Member Node
  | .field name => .field (name.view g)
  | .method f => .method (Function.view f)

def Member.views : List (Member Node) → List (Member Node)
  | [] => []
  | m :: ms => Member.view m :: Member.views ms

end

end

section

variable (g : View)

@[simp] theorem Pattern.views_eq (ps : List Pattern) : Pattern.views g ps = ps.map (Pattern.view g) := by
  induction ps with
  | nil => rw [Pattern.views, List.map_nil]
  | cons p ps ih => rw [Pattern.views, ih, List.map_cons]

@[simp] theorem Node.views_eq (ns : List Node) : Node.views g ns = ns.map (Node.view g) := by
  induction ns with
  | nil => rw [Node.views, List.map_nil]
  | cons n ns ih => rw [Node.views, ih, List.map_cons]

@[simp] theorem Node.view?_eq (n : Option Node) : Node.view? g n = n.map (Node.view g) := by
  cases n <;> rfl

@[simp] theorem Block.view?_eq (b : Option (Block Node)) : Block.view? g b = b.map (Block.view g) := by
  cases b <;> rfl

@[simp] theorem Parameter.views_eq (ps : List (Parameter Node)) :
    Parameter.views g ps = ps.map (Parameter.view g) := by
  induction ps with
  | nil => rw [Parameter.views, List.map_nil]
  | cons p ps ih => rw [Parameter.views, ih, List.map_cons]

@[simp] theorem Decorator.views_eq (xs : List (Decorator Node)) :
    Decorator.views g xs = xs.map (Decorator.view g) := by
  induction xs with
  | nil => rw [Decorator.views, List.map_nil]
  | cons x xs ih => rw [Decorator.views, ih, List.map_cons]

@[simp] theorem RecordField.views_eq (fs : List (RecordField Node)) :
    RecordField.views g fs = fs.map (RecordField.view g) := by
  induction fs with
  | nil => rw [RecordField.views, List.map_nil]
  | cons f fs ih => rw [RecordField.views, ih, List.map_cons]

@[simp] theorem CommandStage.views_eq (cs : List (CommandStage Node)) :
    CommandStage.views g cs = cs.map (CommandStage.view g) := by
  induction cs with
  | nil => rw [CommandStage.views, List.map_nil]
  | cons c cs ih => rw [CommandStage.views, ih, List.map_cons]

@[simp] theorem ElseIf.views_eq (es : List (ElseIf Node)) : ElseIf.views g es = es.map (ElseIf.view g) := by
  induction es with
  | nil => rw [ElseIf.views, List.map_nil]
  | cons e es ih => rw [ElseIf.views, ih, List.map_cons]

@[simp] theorem MatchArm.views_eq (as : List (MatchArm Node)) :
    MatchArm.views g as = as.map (MatchArm.view g) := by
  induction as with
  | nil => rw [MatchArm.views, List.map_nil]
  | cons a as ih => rw [MatchArm.views, ih, List.map_cons]

@[simp] theorem Member.views_eq (ms : List (Member Node)) : Member.views g ms = ms.map (Member.view g) := by
  induction ms with
  | nil => rw [Member.views, List.map_nil]
  | cons m ms ih => rw [Member.views, ih, List.map_cons]

end

attribute [simp] Token.view Ident.view StringLiteral.view TypeHint.view CommandName.view LoopVariable.view
  ModuleRef.view ImportItem.view RecordKey.view FieldBinding.view PatternField.view RecordPattern.view
  Pattern.view Node.view Block.view Parameter.view Decorator.view RecordField.view Record.view CommandStage.view
  ElseIf.view ArmBody.view MatchArm.view Function.view Member.view

/-! ## What can be seen -/

/-- What is made of tokens can be seen. -/
class Viewable (α : Type) where
  view : View → α → α

namespace Viewable

/-- Whatever has no place is seen as it is. -/
instance (priority := low) plain {α : Type} : Viewable α := ⟨fun _ a => a⟩

instance : Viewable Span := ⟨View.span⟩
instance : Viewable Token := ⟨Token.view⟩
instance : Viewable SyntaxError := ⟨SyntaxError.view⟩
instance : Viewable Diagnostic := ⟨Diagnostic.view⟩
instance : Viewable Ident := ⟨Ident.view⟩
instance : Viewable StringLiteral := ⟨StringLiteral.view⟩
instance : Viewable TypeHint := ⟨TypeHint.view⟩
instance : Viewable CommandName := ⟨CommandName.view⟩
instance : Viewable LoopVariable := ⟨LoopVariable.view⟩
instance : Viewable ModuleRef := ⟨ModuleRef.view⟩
instance : Viewable ImportItem := ⟨ImportItem.view⟩
instance : Viewable RecordKey := ⟨RecordKey.view⟩
instance : Viewable FieldBinding := ⟨FieldBinding.view⟩
instance : Viewable PatternField := ⟨PatternField.view⟩
instance : Viewable RecordPattern := ⟨RecordPattern.view⟩
instance : Viewable Pattern := ⟨Pattern.view⟩
instance : Viewable Node := ⟨Node.view⟩
instance : Viewable (Block Node) := ⟨Block.view⟩
instance : Viewable (Parameter Node) := ⟨Parameter.view⟩
instance : Viewable (Decorator Node) := ⟨Decorator.view⟩
instance : Viewable (RecordField Node) := ⟨RecordField.view⟩
instance : Viewable (Record Node) := ⟨Record.view⟩
instance : Viewable (CommandStage Node) := ⟨CommandStage.view⟩
instance : Viewable (ElseIf Node) := ⟨ElseIf.view⟩
instance : Viewable (ArmBody Node) := ⟨ArmBody.view⟩
instance : Viewable (MatchArm Node) := ⟨MatchArm.view⟩
instance : Viewable (Function Node) := ⟨Function.view⟩
instance : Viewable (Member Node) := ⟨Member.view⟩

variable {α β ε : Type} [Viewable α] [Viewable β] [Viewable ε]

instance : Viewable (List α) := ⟨fun g as => as.map (view g)⟩
instance : Viewable (Array α) := ⟨fun g as => as.map (view g)⟩
instance : Viewable (Option α) := ⟨fun g a => a.map (view g)⟩
instance : Viewable (α × β) := ⟨fun g (a, b) => (view g a, view g b)⟩
instance : Viewable (Except ε α) := ⟨fun g x => match x with
  | .ok a => .ok (view g a)
  | .error e => .error (view g e)⟩
instance : Viewable (Parse.Turn α β) := ⟨fun g t => match t with
  | .again a => .again (view g a)
  | .done b => .done (view g b)⟩

end Viewable

/-! ## The place of a node -/

/-- The place of a node that is seen is its place, seen. -/
@[simp] theorem Node.span_view (g : View) (n : Node) : (n.view g).span = g.span n.span := by
  cases n with
  | record r => rw [Node.view]; cases r; rw [Record.view]; rfl
  | functionDefinition f => rw [Node.view]; cases f; rw [Function.view]; rfl
  | _ => rw [Node.view]; rfl

/-! ## The plain view -/

theorem View.map_plain {α : Type} {f : α → α} (h : ∀ a, f a = a) (a : Option α) : a.map f = a := by
  cases a with
  | none => rfl
  | some a => rw [Option.map_some, h]

theorem ModuleRef.view_plain (ref : ModuleRef) : ref.view .plain = ref := by cases ref <;> rfl

theorem ImportItem.view_plain (item : ImportItem) : item.view .plain = item := by
  rw [ImportItem.view, View.map_plain (f := Ident.view .plain) fun _ => rfl]
  rfl

theorem RecordKey.view_plain (key : RecordKey) : key.view .plain = key := by cases key <;> rfl

theorem PatternField.view_plain (f : PatternField) : f.view .plain = f := by
  rw [PatternField.view, View.map_plain (f := FieldBinding.view .plain) fun x => by cases x <;> rfl]
  rfl

theorem RecordPattern.view_plain (r : RecordPattern) : r.view .plain = r := by
  rw [RecordPattern.view, List.map_id'' PatternField.view_plain]
  rfl

mutual

theorem Pattern.view_plain : ∀ p : Pattern, p.view .plain = p
  | .literal .. | .wildcard _ | .binding .. | .rest .. => by
      rw [Pattern.view]
      rfl
  | .record r => by rw [Pattern.view, r.view_plain]
  | .typedRecord _ _ r => by
      rw [Pattern.view, r.view_plain]
      rfl
  | .list _ elements => by
      rw [Pattern.view, Pattern.views_plain elements]
      rfl

theorem Pattern.views_plain : ∀ ps : List Pattern, Pattern.views .plain ps = ps
  | [] => rfl
  | p :: ps => by rw [Pattern.views, Pattern.view_plain p, Pattern.views_plain ps]

end

mutual

/-- **The plain view shows a node as it is.** -/
theorem Node.view_plain : ∀ n : Node, n.view .plain = n
  | .literal .. | .word .. | .variableUse .. | .environmentUse .. | .specialUse .. | .path .. | .breakJump _
  | .continueJump _ | .broken .. => by
      rw [Node.view]
      rfl
  | .binary _ _ left right | .range _ left right _ => by
      rw [Node.view, left.view_plain, right.view_plain]
      rfl
  | .unary _ _ inner | .paren _ inner | .fieldAccess _ inner _ | .commandSubstitution _ inner
  | .processSubstitution _ _ inner | .binding _ _ _ inner | .assignment _ _ _ inner => by
      rw [Node.view, inner.view_plain]
      rfl
  | .methodCall _ target _ args => by
      rw [Node.view, target.view_plain, Node.views_plain args]
      rfl
  | .call _ _ nodes | .pipeline _ nodes _ | .list _ nodes | .tuple _ nodes | .set _ nodes
  | .expansion _ nodes => by
      rw [Node.view, Node.views_plain nodes]
      rfl
  | .command _ stages _ => by
      rw [Node.view, CommandStage.views_plain stages]
      rfl
  | .flag _ _ _ value | .returnJump _ value => by
      rw [Node.view, Node.view?_plain value]
      rfl
  | .record r => by rw [Node.view, Record.view_plain r]
  | .construction _ _ r => by
      rw [Node.view, Record.view_plain r]
      rfl
  | .closure _ params body _ => by
      rw [Node.view, Parameter.views_plain params, Block.view_plain body]
      rfl
  | .lambda _ params returns body => by
      rw [Node.view, Parameter.views_plain params, Block.view_plain body,
        View.map_plain (f := TypeHint.view .plain) fun _ => rfl]
      rfl
  | .conditional _ condition body elseIfs elseBody => by
      rw [Node.view, condition.view_plain, Block.view_plain body, ElseIf.views_plain elseIfs,
        Block.view?_plain elseBody]
      rfl
  | .forLoop _ _ test body | .whileLoop _ test body => by
      rw [Node.view, test.view_plain, Block.view_plain body]
      rfl
  | .endlessLoop _ body => by
      rw [Node.view, Block.view_plain body]
      rfl
  | .matching _ subject arms => by
      rw [Node.view, subject.view_plain, MatchArm.views_plain arms]
      rfl
  | .attempt _ body errorName handler => by
      rw [Node.view, Block.view_plain body, Block.view_plain handler,
        View.map_plain (f := Ident.view .plain) fun _ => rfl]
      rfl
  | .functionDefinition f => by rw [Node.view, Function.view_plain f]
  | .macroDefinition _ _ params body _ decorators => by
      rw [Node.view, Parameter.views_plain params, Block.view_plain body, Decorator.views_plain decorators]
      rfl
  | .aliasDefinition _ _ value decorators => by
      rw [Node.view, value.view_plain, Decorator.views_plain decorators]
      rfl
  | .objectDefinition _ _ members decorators => by
      rw [Node.view, Member.views_plain members, Decorator.views_plain decorators]
      rfl
  | .enumDefinition _ _ variants decorators => by
      rw [Node.view, Decorator.views_plain decorators, List.map_id'' (f := Ident.view .plain) fun _ => rfl]
      rfl
  | .testDefinition _ _ body decorators => by
      rw [Node.view, Block.view_plain body, Decorator.views_plain decorators]
      rfl
  | .useModule _ ref => by
      rw [Node.view, ref.view_plain]
      rfl
  | .importFrom _ ref items _ => by
      rw [Node.view, ref.view_plain, List.map_id'' ImportItem.view_plain]
      rfl
  | .sourceFile _ _ rename => by
      rw [Node.view, View.map_plain (f := Ident.view .plain) fun _ => rfl]
      rfl

theorem Node.views_plain : ∀ ns : List Node, Node.views .plain ns = ns
  | [] => rfl
  | n :: ns => by rw [Node.views, n.view_plain, Node.views_plain ns]

theorem Node.view?_plain : ∀ n : Option Node, Node.view? .plain n = n
  | none => rfl
  | some n => by rw [Node.view?, n.view_plain]

theorem Block.view_plain : ∀ b : Block Node, Block.view .plain b = b
  | ⟨_, statements⟩ => by
      rw [Block.view, Node.views_plain statements]
      rfl

theorem Block.view?_plain : ∀ b : Option (Block Node), Block.view? .plain b = b
  | none => rfl
  | some b => by rw [Block.view?, Block.view_plain b]

theorem Parameter.views_plain : ∀ ps : List (Parameter Node), Parameter.views .plain ps = ps
  | [] => rfl
  | ⟨_, _, _, _, fallback⟩ :: ps => by
      rw [Parameter.views, Parameter.view, Node.view?_plain fallback, Parameter.views_plain ps,
        View.map_plain (f := TypeHint.view .plain) fun _ => rfl]
      rfl

theorem Decorator.views_plain : ∀ ds : List (Decorator Node), Decorator.views .plain ds = ds
  | [] => rfl
  | ⟨_, _, args⟩ :: ds => by
      rw [Decorator.views, Decorator.view, Node.views_plain args, Decorator.views_plain ds]
      rfl

theorem RecordField.views_plain : ∀ fs : List (RecordField Node), RecordField.views .plain fs = fs
  | [] => rfl
  | ⟨_, key, value⟩ :: fs => by
      rw [RecordField.views, RecordField.view, key.view_plain, value.view_plain, RecordField.views_plain fs]
      rfl

theorem Record.view_plain : ∀ r : Record Node, Record.view .plain r = r
  | ⟨_, fields⟩ => by
      rw [Record.view, RecordField.views_plain fields]
      rfl

theorem CommandStage.views_plain : ∀ cs : List (CommandStage Node), CommandStage.views .plain cs = cs
  | [] => rfl
  | ⟨_, _, args⟩ :: cs => by
      rw [CommandStage.views, CommandStage.view, Node.views_plain args, CommandStage.views_plain cs]
      rfl

theorem ElseIf.views_plain : ∀ es : List (ElseIf Node), ElseIf.views .plain es = es
  | [] => rfl
  | ⟨_, condition, body⟩ :: es => by
      rw [ElseIf.views, ElseIf.view, condition.view_plain, Block.view_plain body, ElseIf.views_plain es]
      rfl

theorem ArmBody.view_plain : ∀ x : ArmBody Node, ArmBody.view .plain x = x
  | .block b => by rw [ArmBody.view, Block.view_plain b]
  | .value n => by rw [ArmBody.view, n.view_plain]

theorem MatchArm.views_plain : ∀ as : List (MatchArm Node), MatchArm.views .plain as = as
  | [] => rfl
  | ⟨_, pattern, guard, body⟩ :: as => by
      rw [MatchArm.views, MatchArm.view, pattern.view_plain, Node.view?_plain guard, ArmBody.view_plain body,
        MatchArm.views_plain as]
      rfl

theorem Function.view_plain : ∀ f : Function Node, Function.view .plain f = f
  | ⟨_, _, params, returns, body, decorators⟩ => by
      rw [Function.view, Parameter.views_plain params, Block.view_plain body, Decorator.views_plain decorators,
        View.map_plain (f := TypeHint.view .plain) fun _ => rfl]
      rfl

theorem Member.views_plain : ∀ ms : List (Member Node), Member.views .plain ms = ms
  | [] => rfl
  | .field _ :: ms => by
      rw [Member.views, Member.view, Member.views_plain ms]
      rfl
  | .method f :: ms => by rw [Member.views, Member.view, Function.view_plain f, Member.views_plain ms]

end

/-- Statements are seen as they are. -/
theorem Viewable.nodes_plain (ns : List Node) : Viewable.view .plain ns = ns := List.map_id'' Node.view_plain ns

end ShellFront
