import ShellFront.Number.Numeral
import ShellFront.Number.Shortest
import ShellFront.Text.Quoted
import ShellFront.Tree.Node
import ShellFront.Tree.NodeKind

/-!
# Outlines

The outline of a syntax tree shows every node alike: its kind, its place, its attributes and its
children in the order of the source. Walks and listings are defined on outlines.

## Contents
- `Attribute`, `Outline`.
- The outline of each part of a tree, up to `Program.outline`.
- `Outline.walk`, all nodes in pre-order with an explicit stack; `Outline.preorder`, by recursion.
- `Outline.listing`, one line for each node, and `Outline.isListable`.
-/

namespace ShellFront

/-! ## Outlines -/

/-- A property of a node that is not a node itself. -/
inductive Attribute where
  | integer (value : Int)
  | real (value : Binary64)
  | text (value : String)
  | boolean (value : Bool)
  | texts (values : List String)
  | absent
deriving DecidableEq

/-- The text of an attribute that has a single value. -/
def Attribute.render? : Attribute → Option String
  | integer n => some (toString n)
  | real x => some x.render
  | text s => some (Text.quote s)
  | boolean b => some (if b then "True" else "False")
  | texts _ | absent => none

/-- Whether an attribute can be written out: an integer has no more digits than a decimal literal may
    have. -/
def Attribute.isWritable : Attribute → Bool
  | integer n => (toString n.natAbs).length ≤ Numeral.decimalLimit
  | _ => true

/-- A node as walks and listings see it. -/
inductive Outline where
  | mk (kind : NodeKind) (span : Span) (attributes : List (String × Attribute))
      (children : List Outline)

namespace Outline

/-- The kind of the node. -/
def kind : Outline → NodeKind
  | mk kind _ _ _ => kind

/-- The place of the node. -/
def span : Outline → Span
  | mk _ span _ _ => span

/-- The properties of the node. -/
def attributes : Outline → List (String × Attribute)
  | mk _ _ attributes _ => attributes

/-- The nodes directly below, in the order of the source. -/
def children : Outline → List Outline
  | mk _ _ _ children => children

/-- A node without properties. -/
def branch (kind : NodeKind) (span : Span) (children : List Outline) : Outline :=
  mk kind span [] children

end Outline

/-! ## Leaves -/

/-- The outline of a bare name. -/
def Ident.outline (x : Ident) : Outline := .mk .identifier x.span [("name", .text x.name)] []

/-- The outline of a variable. -/
def Ident.variableOutline (x : Ident) : Outline :=
  .mk .variableName x.span [("name", .text x.name)] []

/-- The outline of a literal at a place. -/
def Literal.outline (span : Span) : Literal → Outline
  | integer value radix =>
      .mk .intLiteral span [("value", .integer value), ("radix", .integer radix.base)] []
  | float value => .mk .floatLiteral span [("value", .real value)] []
  | string value style =>
      .mk .stringLiteral span [("value", .text value), ("style", .text style.word)] []
  | boolean value => .mk .boolLiteral span [("value", .boolean value)] []
  | null => .mk .nullLiteral span [] []

/-- The outline of a string. -/
def StringLiteral.outline (s : StringLiteral) : Outline :=
  (Literal.string s.value s.style).outline s.span

/-- The outline of a type hint. -/
def TypeHint.outline (t : TypeHint) : Outline :=
  .mk .typeHint t.span [("name", .text t.name), ("optional", .boolean t.optional)] []

/-- The display kind of a command name. -/
def CommandName.kind (c : CommandName) : NodeKind :=
  if c.builtin then .builtinCommand else .commandName

/-- The outline of a command name. -/
def CommandName.outline (c : CommandName) : Outline :=
  .mk c.kind c.span
    [ ("name", .text c.name),
      ("namespace", match c.qualifier with
        | some q => .text q
        | none => .absent),
      ("builtin", .boolean c.builtin) ] []

/-- The outline of a reference to a module. -/
def ModuleRef.outline : ModuleRef → Outline
  | path span segments => .mk .modulePath span [("segments", .texts segments)] []
  | file name => name.outline

/-- The outline of an imported item. -/
def ImportItem.outline (item : ImportItem) : Outline :=
  .branch .importItem item.span (item.name.outline :: (item.rename.map Ident.outline).toList)

/-- The kind of node that a loop variable is. -/
def LoopVariable.kind (x : LoopVariable) : NodeKind :=
  if x.sigil then .variableName else .identifier

/-- The outline of a loop variable. -/
def LoopVariable.outline (x : LoopVariable) : Outline :=
  .mk x.kind x.span [("name", .text x.name)] []

/-- The outline of a record key. -/
def RecordKey.outline : RecordKey → Outline
  | name x => x.outline
  | text s => s.outline

/-! ## Patterns -/

/-- The outline of what a field is bound to. -/
def FieldBinding.outline : FieldBinding → Outline
  | named x => x.variableOutline
  | wildcard span => .branch .wildcardPattern span []

/-- The outline of a field of a record pattern. -/
def PatternField.outline (f : PatternField) : Outline :=
  .branch .patternField f.span (f.name.outline :: (f.binding.map FieldBinding.outline).toList)

/-- The outline of a record pattern. -/
def RecordPattern.outline (r : RecordPattern) : Outline :=
  .branch .recordPattern r.span (r.fields.map PatternField.outline)

mutual

/-- The outline of a pattern. -/
def Pattern.outline : Pattern → Outline
  | .literal span value => .branch .literalPattern span [value.outline span]
  | .wildcard span => .branch .wildcardPattern span []
  | .binding span name sigil =>
      .mk .bindingPattern span [("name", .text name), ("sigil", .boolean sigil)] []
  | .record r => r.outline
  | .typedRecord span typeName r =>
      .branch .typedRecordPattern span [typeName.outline, r.outline]
  | .list span elements => .branch .listPattern span (Pattern.outlines elements)
  | .rest span name sigil =>
      .mk .restPattern span [("name", .text name), ("sigil", .boolean sigil)] []

/-- The outlines of patterns. -/
def Pattern.outlines : List Pattern → List Outline
  | [] => []
  | p :: ps => p.outline :: Pattern.outlines ps

end

/-! ## Expressions and statements -/

/-- The spellings of pipe operators. -/
def operatorTexts (operators : List Symbol) : Attribute := .texts (operators.map Symbol.text)

mutual

/-- The outline of an expression or a statement. -/
def Node.outline : Node → Outline
  | .literal span value => value.outline span
  | .word span name => .mk .identifier span [("name", .text name)] []
  | .variableUse span name => .mk .variableName span [("name", .text name)] []
  | .environmentUse span name => .mk .envVariable span [("name", .text name)] []
  | .specialUse span name => .mk .specialVariable span [("name", .text name)] []
  | .binary span operator left right =>
      .mk .binaryOp span [("op", .text operator.text)] [left.outline, right.outline]
  | .unary span operator operand =>
      .mk .unaryOp span [("op", .text operator.text)] [operand.outline]
  | .paren span inner => .branch .parenExpr span [inner.outline]
  | .fieldAccess span target field => .branch .fieldAccess span [target.outline, field.outline]
  | .methodCall span target method args =>
      .branch .methodCall span (target.outline :: method.outline :: Node.outlines args)
  | .call span callee args => .branch .call span (callee.outline :: Node.outlines args)
  | .pipeline span stages operators =>
      .mk .pipeline span [("operators", operatorTexts operators)] (Node.outlines stages)
  | .command span stages operators =>
      .mk .commandExpression span [("operators", operatorTexts operators)]
        (CommandStage.outlines stages)
  | .flag span name long value =>
      .mk .flag span [("name", .text name), ("long", .boolean long)] (Node.outline? value)
  | .path span path => .mk .pathArgument span [("path", .text path)] []
  | .list span elements => .branch .listLiteral span (Node.outlines elements)
  | .record r => Record.outline r
  | .tuple span elements => .branch .tupleLiteral span (Node.outlines elements)
  | .set span elements => .branch .setLiteral span (Node.outlines elements)
  | .range span first last inclusive =>
      .mk .rangeExpr span [("inclusive", .boolean inclusive)] [first.outline, last.outline]
  | .expansion span items => .branch .braceExpansion span (Node.outlines items)
  | .construction span typeName r =>
      .branch .objectConstruction span [typeName.outline, Record.outline r]
  | .commandSubstitution span inner => .branch .commandSubstitution span [inner.outline]
  | .processSubstitution span direction inner =>
      .mk .processSubstitution span [("direction", .text direction.word)] [inner.outline]
  | .closure span params body explicitParams =>
      .mk .closure span [("explicit_params", .boolean explicitParams)]
        (Parameter.outlines params ++ [Block.outline body])
  | .lambda span params returns body =>
      .branch .lambdaExpr span
        (Parameter.outlines params ++ (returns.map TypeHint.outline).toList ++ [Block.outline body])
  | .binding span keyword name value =>
      .mk .letStatement span [("keyword", .text keyword.text)] [name.outline, value.outline]
  | .assignment span target operator value =>
      .mk .variableAssignment span [("op", .text operator.text)]
        [target.variableOutline, value.outline]
  | .conditional span condition body elseIfs elseBody =>
      .branch .ifStatement span
        (condition.outline :: Block.outline body :: ElseIf.outlines elseIfs ++
          Block.outline? elseBody)
  | .forLoop span loopVariable iterable body =>
      .branch .forStatement span [loopVariable.outline, iterable.outline, Block.outline body]
  | .whileLoop span condition body =>
      .branch .whileStatement span [condition.outline, Block.outline body]
  | .endlessLoop span body => .branch .loopStatement span [Block.outline body]
  | .matching span subject arms =>
      .branch .matchStatement span (subject.outline :: MatchArm.outlines arms)
  | .attempt span body errorName handler =>
      .branch .tryStatement span
        (Block.outline body :: (errorName.map Ident.outline).toList ++ [Block.outline handler])
  | .functionDefinition f => Function.outline f
  | .macroDefinition span name params body shellStyle decorators =>
      .mk .macroDefinition span [("shell_style", .boolean shellStyle)]
        (Decorator.outlines decorators ++ name.outline :: Parameter.outlines params ++
          [Block.outline body])
  | .aliasDefinition span name value decorators =>
      .branch .aliasDefinition span
        (Decorator.outlines decorators ++ [name.outline, value.outline])
  | .objectDefinition span name members decorators =>
      .branch .objectDefinition span
        (Decorator.outlines decorators ++ name.outline :: Member.outlines members)
  | .enumDefinition span name variants decorators =>
      .branch .enumDefinition span
        (Decorator.outlines decorators ++ name.outline :: variants.map Ident.outline)
  | .testDefinition span name body decorators =>
      .branch .testDefinition span
        (Decorator.outlines decorators ++ [name.outline, Block.outline body])
  | .useModule span module => .branch .useStatement span [module.outline]
  | .importFrom span module items wildcard =>
      .mk .fromImport span [("wildcard", .boolean wildcard)]
        (module.outline :: items.map ImportItem.outline)
  | .sourceFile span path rename =>
      .branch .sourceStatement span (path.outline :: (rename.map Ident.outline).toList)
  | .returnJump span value => .branch .returnStatement span (Node.outline? value)
  | .breakJump span => .branch .breakStatement span []
  | .continueJump span => .branch .continueStatement span []
  | .broken span message text =>
      .mk .errorNode span [("message", .text message), ("text", .text text)] []

/-- The outlines of nodes. -/
def Node.outlines : List Node → List Outline
  | [] => []
  | n :: ns => n.outline :: Node.outlines ns

/-- The outline of a node that may be missing. -/
def Node.outline? : Option Node → List Outline
  | none => []
  | some n => [n.outline]

/-- The outline of a block. -/
def Block.outline : Block Node → Outline
  | ⟨span, statements⟩ => .branch .block span (Node.outlines statements)

/-- The outline of a block that may be missing. -/
def Block.outline? : Option (Block Node) → List Outline
  | none => []
  | some b => [Block.outline b]

/-- The outlines of parameters. -/
def Parameter.outlines : List (Parameter Node) → List Outline
  | [] => []
  | ⟨span, name, sigil, hint, fallback⟩ :: ps =>
      .mk .parameter span [("name", .text name), ("sigil", .boolean sigil)]
        ((hint.map TypeHint.outline).toList ++ Node.outline? fallback) :: Parameter.outlines ps

/-- The outlines of decorators. -/
def Decorator.outlines : List (Decorator Node) → List Outline
  | [] => []
  | ⟨span, name, args⟩ :: ds =>
      .mk .decorator span [("name", .text name)] (Node.outlines args) :: Decorator.outlines ds

/-- The outlines of record fields. -/
def RecordField.outlines : List (RecordField Node) → List Outline
  | [] => []
  | ⟨span, key, value⟩ :: fs =>
      .branch .recordField span [key.outline, value.outline] :: RecordField.outlines fs

/-- The outline of a record. -/
def Record.outline : Record Node → Outline
  | ⟨span, fields⟩ => .branch .recordLiteral span (RecordField.outlines fields)

/-- The outlines of commands. -/
def CommandStage.outlines : List (CommandStage Node) → List Outline
  | [] => []
  | ⟨span, name, args⟩ :: cs =>
      .branch .commandStage span (name.outline :: Node.outlines args) :: CommandStage.outlines cs

/-- The outlines of further conditions. -/
def ElseIf.outlines : List (ElseIf Node) → List Outline
  | [] => []
  | ⟨span, condition, body⟩ :: es =>
      .branch .elifClause span [condition.outline, Block.outline body] :: ElseIf.outlines es

/-- The outline of the body of a match arm. -/
def ArmBody.outline : ArmBody Node → Outline
  | .block b => Block.outline b
  | .value n => n.outline

/-- The outlines of match arms. -/
def MatchArm.outlines : List (MatchArm Node) → List Outline
  | [] => []
  | ⟨span, pattern, guard, body⟩ :: arms =>
      .branch .matchArm span (pattern.outline :: Node.outline? guard ++ [ArmBody.outline body]) ::
        MatchArm.outlines arms

/-- The outline of a function. -/
def Function.outline : Function Node → Outline
  | ⟨span, name, params, returns, body, decorators⟩ =>
      .branch .functionDefinition span
        (Decorator.outlines decorators ++ name.outline :: Parameter.outlines params ++
          (returns.map TypeHint.outline).toList ++ [Block.outline body])

/-- The outlines of the members of an object. -/
def Member.outlines : List (Member Node) → List Outline
  | [] => []
  | .field name :: ms => .branch .objectField name.span [name.outline] :: Member.outlines ms
  | .method f :: ms => Function.outline f :: Member.outlines ms

end

/-- The outline of a program. -/
def Program.outline (p : Program) : Outline :=
  .mk .program p.span [("file", .text p.file)] (Node.outlines p.statements)

/-! ## Walks -/

namespace Outline

mutual

/-- How many nodes there are. -/
def size : Outline → Nat
  | mk _ _ _ children => 1 + sizes children

/-- How many nodes there are in all of the trees. -/
def sizes : List Outline → Nat
  | [] => 0
  | t :: ts => t.size + sizes ts

end

theorem sizes_append (ts us : List Outline) : sizes (ts ++ us) = sizes ts + sizes us := by
  induction ts with
  | nil => simp [sizes]
  | cons t ts ih => simp only [List.cons_append, sizes, ih]; omega

/-- Visits the nodes on a stack: each one is taken off and makes room for its children. -/
def walkFrom (stack : List Outline) : List Outline :=
  match stack with
  | [] => []
  | t :: rest => t :: walkFrom (t.children ++ rest)
termination_by sizes stack
decreasing_by
  cases t
  simp only [children, sizes_append, sizes, size]
  omega

/-- A node and everything below it, each node before its children. -/
def walk (t : Outline) : List Outline := walkFrom [t]

mutual

/-- A node followed by the pre-orders of its children. -/
def preorder : Outline → List Outline
  | mk kind span attributes children => mk kind span attributes children :: preorders children

/-- The pre-orders of trees, one after the other. -/
def preorders : List Outline → List Outline
  | [] => []
  | t :: ts => t.preorder ++ preorders ts

end

/-! ## Listings -/

/-- A node without its children on one line: its title, its single attributes and its place. -/
def summary (t : Outline) : String :=
  let shown := t.attributes.filterMap fun (name, value) =>
    value.render?.map fun text => s!"{name}={text}"
  let inside := ", ".intercalate shown
  s!"{t.kind.title}({inside}) @{t.span.line}:{t.span.column}"

/-- A line, indented by two spaces for each level. -/
def indented (depth : Nat) (line : String) : String :=
  String.ofList (List.replicate (2 * depth) ' ') ++ line

mutual

/-- The lines of a tree at a depth. -/
def listingAt (depth : Nat) : Outline → List String
  | mk kind span attributes children =>
      indented depth (mk kind span attributes children).summary :: listingsAt (depth + 1) children

/-- The lines of trees at a depth. -/
def listingsAt (depth : Nat) : List Outline → List String
  | [] => []
  | t :: ts => listingAt depth t ++ listingsAt depth ts

end

/-- One line for each node, indented by its depth. -/
def listing (t : Outline) : List String := listingAt 0 t

/-- Whether all attributes in a tree can be written out. -/
def isListable (t : Outline) : Bool :=
  t.preorder.all fun u => u.attributes.all fun (_, value) => value.isWritable

end Outline

end ShellFront
