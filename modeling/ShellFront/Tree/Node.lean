import ShellFront.Tree.Pattern

/-!
# Syntax trees

A `Node` is an expression or a statement; an expression can stand as a statement. The parts that hold
nodes but are neither (blocks, parameters, record fields, …) are types of their own.

## Contents
- Parts: `Block`, `Parameter`, `Decorator`, `RecordField`, `Record`, `CommandStage`, `ElseIf`,
  `MatchArm`, `Function`, `Member`.
- `Node`, `Node.span`.
- `Program`.
-/

namespace ShellFront

/-! ## Parts that hold nodes -/

/-- Statements between braces. -/
structure Block (ν : Type) where
  span : Span
  statements : List ν

/-- A parameter of a function, a closure or a lambda. -/
structure Parameter (ν : Type) where
  span : Span
  name : String
  sigil : Bool
  hint : Option TypeHint
  fallback : Option ν

/-- A decorator before a definition. -/
structure Decorator (ν : Type) where
  span : Span
  name : String
  args : List ν

/-- The key of a record field. -/
inductive RecordKey where
  | name (name : Ident)
  | text (text : StringLiteral)
deriving DecidableEq

/-- A field of a record. -/
structure RecordField (ν : Type) where
  span : Span
  key : RecordKey
  value : ν

/-- A record. -/
structure Record (ν : Type) where
  span : Span
  fields : List (RecordField ν)

/-- One command with its arguments. -/
structure CommandStage (ν : Type) where
  span : Span
  name : CommandName
  args : List ν

/-- A further condition of an `if`. -/
structure ElseIf (ν : Type) where
  span : Span
  condition : ν
  body : Block ν

/-- What a match arm does: run a block or give a value. -/
inductive ArmBody (ν : Type) where
  | block (block : Block ν)
  | value (value : ν)

/-- An arm of a match. -/
structure MatchArm (ν : Type) where
  span : Span
  pattern : Pattern
  guard : Option ν
  body : ArmBody ν

/-- A function, by itself or as a method of an object. -/
structure Function (ν : Type) where
  span : Span
  name : Ident
  params : List (Parameter ν)
  returns : Option TypeHint
  body : Block ν
  decorators : List (Decorator ν)

/-- A member of an object. -/
inductive Member (ν : Type) where
  | field (name : Ident)
  | method (function : Function ν)

/-! ## Nodes -/

/-- An expression or a statement. -/
inductive Node where
  | literal (span : Span) (value : Literal)
  | word (span : Span) (name : String)
  | variableUse (span : Span) (name : String)
  | environmentUse (span : Span) (name : String)
  | specialUse (span : Span) (name : String)
  | binary (span : Span) (operator : Operator) (left right : Node)
  | unary (span : Span) (operator : UnaryOperator) (operand : Node)
  | paren (span : Span) (inner : Node)
  | fieldAccess (span : Span) (target : Node) (field : Ident)
  | methodCall (span : Span) (target : Node) (method : Ident) (args : List Node)
  | call (span : Span) (callee : Ident) (args : List Node)
  | pipeline (span : Span) (stages : List Node) (operators : List Symbol)
  | command (span : Span) (stages : List (CommandStage Node)) (operators : List Symbol)
  | flag (span : Span) (name : String) (long : Bool) (value : Option Node)
  | path (span : Span) (path : String)
  | list (span : Span) (elements : List Node)
  | record (record : Record Node)
  | tuple (span : Span) (elements : List Node)
  | set (span : Span) (elements : List Node)
  | range (span : Span) (first last : Node) (inclusive : Bool)
  | expansion (span : Span) (items : List Node)
  | construction (span : Span) (typeName : Ident) (record : Record Node)
  | commandSubstitution (span : Span) (inner : Node)
  | processSubstitution (span : Span) (direction : Direction) (inner : Node)
  | closure (span : Span) (params : List (Parameter Node)) (body : Block Node)
      (explicitParams : Bool)
  | lambda (span : Span) (params : List (Parameter Node)) (returns : Option TypeHint)
      (body : Block Node)
  | binding (span : Span) (keyword : Keyword) (name : Ident) (value : Node)
  | assignment (span : Span) (target : Ident) (operator : Symbol) (value : Node)
  | conditional (span : Span) (condition : Node) (body : Block Node) (elseIfs : List (ElseIf Node))
      (elseBody : Option (Block Node))
  | forLoop (span : Span) (loopVariable : LoopVariable) (iterable : Node) (body : Block Node)
  | whileLoop (span : Span) (condition : Node) (body : Block Node)
  | endlessLoop (span : Span) (body : Block Node)
  | matching (span : Span) (subject : Node) (arms : List (MatchArm Node))
  | attempt (span : Span) (body : Block Node) (errorName : Option Ident) (handler : Block Node)
  | functionDefinition (function : Function Node)
  | macroDefinition (span : Span) (name : Ident) (params : List (Parameter Node))
      (body : Block Node) (shellStyle : Bool) (decorators : List (Decorator Node))
  | aliasDefinition (span : Span) (name : Ident) (value : Node) (decorators : List (Decorator Node))
  | objectDefinition (span : Span) (name : Ident) (members : List (Member Node))
      (decorators : List (Decorator Node))
  | enumDefinition (span : Span) (name : Ident) (variants : List Ident)
      (decorators : List (Decorator Node))
  | testDefinition (span : Span) (name : StringLiteral) (body : Block Node)
      (decorators : List (Decorator Node))
  | useModule (span : Span) (module : ModuleRef)
  | importFrom (span : Span) (module : ModuleRef) (items : List ImportItem) (wildcard : Bool)
  | sourceFile (span : Span) (path : StringLiteral) (rename : Option Ident)
  | returnJump (span : Span) (value : Option Node)
  | breakJump (span : Span)
  | continueJump (span : Span)
  | broken (span : Span) (message text : String)

/-- The place of a node. -/
def Node.span : Node → Span
  | literal span .. => span
  | word span .. => span
  | variableUse span .. => span
  | environmentUse span .. => span
  | specialUse span .. => span
  | binary span .. => span
  | unary span .. => span
  | paren span .. => span
  | fieldAccess span .. => span
  | methodCall span .. => span
  | call span .. => span
  | pipeline span .. => span
  | command span .. => span
  | flag span .. => span
  | path span .. => span
  | list span .. => span
  | record r => r.span
  | tuple span .. => span
  | set span .. => span
  | range span .. => span
  | expansion span .. => span
  | construction span .. => span
  | commandSubstitution span .. => span
  | processSubstitution span .. => span
  | closure span .. => span
  | lambda span .. => span
  | binding span .. => span
  | assignment span .. => span
  | conditional span .. => span
  | forLoop span .. => span
  | whileLoop span .. => span
  | endlessLoop span .. => span
  | matching span .. => span
  | attempt span .. => span
  | functionDefinition f => f.span
  | macroDefinition span .. => span
  | aliasDefinition span .. => span
  | objectDefinition span .. => span
  | enumDefinition span .. => span
  | testDefinition span .. => span
  | useModule span .. => span
  | importFrom span .. => span
  | sourceFile span .. => span
  | returnJump span .. => span
  | breakJump span => span
  | continueJump span => span
  | broken span .. => span

/-- The statements of one source file. -/
structure Program where
  span : Span
  file : String
  statements : List Node

end ShellFront
