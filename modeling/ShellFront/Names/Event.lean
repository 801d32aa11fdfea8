import ShellFront.Tree.NodeKind
import ShellFront.Tree.Outline

/-!
# What a program does to names

Name resolution sees a program as events in the order in which they take effect: a name is defined,
a name is used, an assignment does one or the other, and a scope holds the events inside it. The
order of events decides visibility: a name is visible from its definition on, `let` evaluates its
value before it defines its name, and a function is defined before its own body.

## Contents
- `ScopeKind`, `BindingKind`, `Role`, `Site`, `Event`.
- `Pattern.events` and `Node.events`, the events of the parts of a program.
- `Program.event`, the scope of a whole program.
-/

namespace ShellFront

/-! ## Events -/

/-- What opens a scope. -/
inductive ScopeKind where
  | module
  | function
  | macroBody
  | closure
  | lambda
  | forBody
  | matchArm
  | handler
  | test
  | object
deriving DecidableEq

/-- The word for a kind of scope. -/
def ScopeKind.word : ScopeKind → String
  | module => "module"
  | function => "function"
  | macroBody => "macro"
  | closure => "closure"
  | lambda => "lambda"
  | forBody => "for_body"
  | matchArm => "match_arm"
  | handler => "catch"
  | test => "test"
  | object => "object"

/-- What a name is defined as. -/
inductive BindingKind where
  | variableName
  | parameter
  | function
  | macroName
  | aliasName
  | enumeration
  | object
  | importName
deriving DecidableEq

/-- The word for a kind of binding. -/
def BindingKind.word : BindingKind → String
  | variableName => "variable"
  | parameter => "parameter"
  | function => "function"
  | macroName => "macro"
  | aliasName => "alias"
  | enumeration => "enum"
  | object => "object"
  | importName => "import"

/-- How a name is used. -/
inductive Role where
  | variableName
  | call
  | command
  | typeName
deriving DecidableEq

namespace Role

/-- The word for a role. -/
def word : Role → String
  | variableName => "variable"
  | call => "call"
  | command => "command"
  | typeName => "type"

/-- Whether a name in this role has to be defined in the program. Most commands are programs
    outside of it. -/
def needsDefinition : Role → Bool
  | command => false
  | variableName | call | typeName => true

end Role

/-- A node that defines or uses a name, by its kind and place. -/
structure Site where
  kind : NodeKind
  span : Span
deriving DecidableEq

/-- One thing that a program does to names. -/
inductive Event where
  /-- A name is defined. -/
  | define (kind : BindingKind) (name : String) (site : Site)
  /-- A name is used. -/
  | use (role : Role) (name : String) (site : Site)
  /-- A plain assignment uses the variable if one is visible and defines it otherwise. -/
  | assign (name : String) (statement target : Site)
  /-- A scope with the events inside it. -/
  | scope (kind : ScopeKind) (span : Span) (events : List Event)

/-! ## Leaves and patterns -/

/-- The use of a type by its name. -/
def Ident.typeEvent (x : Ident) : Event := .use .typeName x.name ⟨.identifier, x.span⟩

/-- The use of a command. Of a qualified name, the namespace is what has to be visible. -/
def CommandName.event (c : CommandName) : Event :=
  .use .command (c.qualifier.getD c.name) ⟨c.kind, c.span⟩

/-- The definition of a parameter. -/
def Parameter.event (p : Parameter Node) : Event :=
  .define .parameter p.name ⟨.parameter, p.span⟩

/-- The definition that a `use` makes: the last name of the module's path. -/
def ModuleRef.events (statement : Span) : ModuleRef → List Event
  | path _ segments =>
      (segments.getLast?.map fun name => .define .importName name ⟨.useStatement, statement⟩).toList
  | file _ => []

/-- The definition of an imported item. -/
def ImportItem.event (item : ImportItem) : Event :=
  .define .importName item.localName ⟨.importItem, item.span⟩

/-- The definition that a field of a record pattern makes, unless it is bound to a wildcard. -/
def PatternField.events (f : PatternField) : List Event :=
  (f.boundName?.map fun name => .define .variableName name ⟨.patternField, f.span⟩).toList

/-- The definitions that a record pattern makes. -/
def RecordPattern.events (r : RecordPattern) : List Event := r.fields.flatMap PatternField.events

mutual

/-- The definitions that a pattern makes, and the type that it uses. -/
def Pattern.events : Pattern → List Event
  | .literal .. | .wildcard _ => []
  | .binding span name _ => [.define .variableName name ⟨.bindingPattern, span⟩]
  | .record r => r.events
  | .typedRecord _ typeName r => typeName.typeEvent :: r.events
  | .list _ elements => Pattern.allEvents elements
  | .rest span name _ => [.define .variableName name ⟨.restPattern, span⟩]

/-- The events of patterns. -/
def Pattern.allEvents : List Pattern → List Event
  | [] => []
  | p :: ps => p.events ++ Pattern.allEvents ps

end

/-! ## Expressions and statements -/

mutual

/-- The events of an expression or a statement. -/
@[simp] def Node.events : Node → List Event
  | .literal .. | .word .. | .environmentUse .. | .specialUse .. | .path .. => []
  | .breakJump _ | .continueJump _ | .broken .. => []
  | .variableUse span name => [.use .variableName name ⟨.variableName, span⟩]
  | .binary _ _ left right => left.events ++ right.events
  | .unary _ _ operand => operand.events
  | .paren _ inner | .commandSubstitution _ inner | .processSubstitution _ _ inner => inner.events
  | .fieldAccess _ target _ => target.events
  | .methodCall _ target _ args => target.events ++ Node.allEvents args
  | .call _ callee args =>
      .use .call callee.name ⟨.identifier, callee.span⟩ :: Node.allEvents args
  | .pipeline _ stages _ => Node.allEvents stages
  | .command _ stages _ => CommandStage.allEvents stages
  | .flag _ _ _ value => Node.optionEvents value
  | .list _ elements | .tuple _ elements | .set _ elements | .expansion _ elements =>
      Node.allEvents elements
  | .record r => Record.events r
  | .range _ first last _ => first.events ++ last.events
  | .construction _ typeName r => typeName.typeEvent :: Record.events r
  | .closure span params body _ =>
      [.scope .closure span (params.map Parameter.event ++ Block.events body)]
  | .lambda span params _ body =>
      Parameter.fallbackEvents params ++
        [.scope .lambda span (params.map Parameter.event ++ Block.events body)]
  | .binding span _ name value =>
      value.events ++ [.define .variableName name.name ⟨.letStatement, span⟩]
  | .assignment span target operator value =>
      let site : Site := ⟨.variableName, target.span⟩
      value.events ++
        [ if operator = .assign then .assign target.name ⟨.variableAssignment, span⟩ site
          else .use .variableName target.name site ]
  | .conditional _ condition body elseIfs elseBody =>
      condition.events ++ Block.events body ++ ElseIf.allEvents elseIfs ++
        Block.optionEvents elseBody
  | .forLoop _ x iterable body =>
      iterable.events ++
        [.scope .forBody body.span
          (.define .variableName x.name ⟨x.kind, x.span⟩ :: Block.events body)]
  | .whileLoop _ condition body => condition.events ++ Block.events body
  | .endlessLoop _ body => Block.events body
  | .matching _ subject arms => subject.events ++ MatchArm.allEvents arms
  | .attempt _ body errorName handler =>
      Block.events body ++
        [.scope .handler handler.span
          ((errorName.map fun x => .define .variableName x.name ⟨.identifier, x.span⟩).toList ++
            Block.events handler)]
  | .functionDefinition f => Function.events f
  | .macroDefinition span name params body _ decorators =>
      Decorator.allEvents decorators ++
        .define .macroName name.name ⟨.macroDefinition, span⟩ :: Parameter.fallbackEvents params ++
        [.scope .macroBody span (params.map Parameter.event ++ Block.events body)]
  | .aliasDefinition span name value decorators =>
      Decorator.allEvents decorators ++ value.events ++
        [.define .aliasName name.name ⟨.aliasDefinition, span⟩]
  | .objectDefinition span name members decorators =>
      Decorator.allEvents decorators ++
        [ .define .object name.name ⟨.objectDefinition, span⟩,
          .scope .object span (Member.allEvents members) ]
  | .enumDefinition span name _ decorators =>
      Decorator.allEvents decorators ++ [.define .enumeration name.name ⟨.enumDefinition, span⟩]
  | .testDefinition span _ body decorators =>
      Decorator.allEvents decorators ++ [.scope .test span (Block.events body)]
  | .useModule span ref => ref.events span
  | .importFrom _ _ items _ => items.map ImportItem.event
  | .sourceFile span _ rename =>
      (rename.map fun x => .define .importName x.name ⟨.sourceStatement, span⟩).toList
  | .returnJump _ value => Node.optionEvents value

/-- The events of nodes. -/
def Node.allEvents : List Node → List Event
  | [] => []
  | n :: ns => n.events ++ Node.allEvents ns

/-- The events of a node that may be missing. -/
def Node.optionEvents : Option Node → List Event
  | none => []
  | some n => n.events

/-- The events of a block. A block by itself opens no scope. -/
def Block.events : Block Node → List Event
  | ⟨_, statements⟩ => Node.allEvents statements

/-- The events of a block that may be missing. -/
def Block.optionEvents : Option (Block Node) → List Event
  | none => []
  | some b => Block.events b

/-- The events of the fallback values of parameters, which belong to the scope around the
    callable. -/
def Parameter.fallbackEvents : List (Parameter Node) → List Event
  | [] => []
  | ⟨_, _, _, _, fallback⟩ :: ps => Node.optionEvents fallback ++ Parameter.fallbackEvents ps

/-- The events of the arguments of decorators. -/
def Decorator.allEvents : List (Decorator Node) → List Event
  | [] => []
  | ⟨_, _, args⟩ :: ds => Node.allEvents args ++ Decorator.allEvents ds

/-- The events of the values of record fields. -/
def RecordField.allEvents : List (RecordField Node) → List Event
  | [] => []
  | ⟨_, _, value⟩ :: fs => value.events ++ RecordField.allEvents fs

/-- The events of a record. -/
def Record.events : Record Node → List Event
  | ⟨_, fields⟩ => RecordField.allEvents fields

/-- The events of commands. -/
def CommandStage.allEvents : List (CommandStage Node) → List Event
  | [] => []
  | ⟨_, name, args⟩ :: cs => name.event :: Node.allEvents args ++ CommandStage.allEvents cs

/-- The events of further conditions. -/
def ElseIf.allEvents : List (ElseIf Node) → List Event
  | [] => []
  | ⟨_, condition, body⟩ :: es => condition.events ++ Block.events body ++ ElseIf.allEvents es

/-- The events of the body of a match arm. -/
def ArmBody.events : ArmBody Node → List Event
  | .block b => Block.events b
  | .value n => n.events

/-- The events of match arms. The scope of an arm holds its pattern, its guard and its body. -/
def MatchArm.allEvents : List (MatchArm Node) → List Event
  | [] => []
  | ⟨span, pattern, guard, body⟩ :: arms =>
      .scope .matchArm span (pattern.events ++ Node.optionEvents guard ++ ArmBody.events body) ::
        MatchArm.allEvents arms

/-- The events of a function. -/
def Function.events : Function Node → List Event
  | ⟨span, name, params, _, body, decorators⟩ =>
      Decorator.allEvents decorators ++
        .define .function name.name ⟨.functionDefinition, span⟩ ::
          Parameter.fallbackEvents params ++
        [.scope .function span (params.map Parameter.event ++ Block.events body)]

/-- The events of the methods of an object. -/
def Member.allEvents : List (Member Node) → List Event
  | [] => []
  | .field _ :: ms => Member.allEvents ms
  | .method f :: ms => Function.events f ++ Member.allEvents ms

end

/-- The module scope of a program. -/
def Program.event (p : Program) : Event := .scope .module p.span (Node.allEvents p.statements)

end ShellFront
