import ShellFront.Number.Binary64
import ShellFront.Token

/-!
# Leaves of the syntax tree

The parts of a syntax tree that hold no expressions or statements: names, literals, operators, type
hints, command names and references to modules.

## Contents
- `Ident`, `Literal`, `StringLiteral`, `TypeHint`, `CommandName`.
- `Operator` and `UnaryOperator` with spelling and precedence.
- `ModuleRef`, `ImportItem`, `LoopVariable`, `Direction`.
-/

namespace ShellFront

/-- A name at its place. -/
structure Ident where
  span : Span
  name : String
deriving DecidableEq

/-- A value written out. -/
inductive Literal where
  | integer (value : Int) (radix : Radix)
  | float (value : Binary64)
  | string (value : String) (style : StringStyle)
  | boolean (value : Bool)
  | null
deriving DecidableEq

/-- A string at its place. -/
structure StringLiteral where
  span : Span
  value : String
  style : StringStyle
deriving DecidableEq

/-- The names that a type hint can use. -/
def typeNames : List String :=
  [ "int", "float", "number", "string", "bool", "list", "record", "tuple", "set", "closure",
    "path", "duration", "filesize", "task", "enum", "any", "null" ]

/-- A type hint, perhaps optional. -/
structure TypeHint where
  span : Span
  name : String
  optional : Bool
deriving DecidableEq

/-- The name of a command, perhaps qualified by a namespace, and whether the vocabulary in force
    lists it. -/
structure CommandName where
  span : Span
  name : String
  qualifier : Option String
  builtin : Bool
deriving DecidableEq

/-- The name of a command together with its namespace. An empty namespace is left out. -/
def CommandName.fullName (c : CommandName) : String :=
  match c.qualifier with
  | some q => if q.isEmpty then c.name else s!"{q}.{c.name}"
  | none => c.name

/-! ## Operators -/

/-- An operator between two operands. -/
inductive Operator where
  | coalesce
  | orWord
  | orSymbol
  | andWord
  | andSymbol
  | equal
  | notEqual
  | less
  | greater
  | lessEqual
  | greaterEqual
  | matchOp
  | notMatchOp
  | plus
  | minus
  | concat
  | times
  | divide
  | remainder
deriving DecidableEq

namespace Operator

/-- How an operator is written. -/
def text : Operator → String
  | coalesce => "??"
  | orWord => "or"
  | orSymbol => "||"
  | andWord => "and"
  | andSymbol => "&&"
  | equal => "=="
  | notEqual => "!="
  | less => "<"
  | greater => ">"
  | lessEqual => "<="
  | greaterEqual => ">="
  | matchOp => "=~"
  | notMatchOp => "!~"
  | plus => "+"
  | minus => "-"
  | concat => "++"
  | times => "*"
  | divide => "/"
  | remainder => "%"

/-- How tightly an operator binds. -/
def precedence : Operator → Nat
  | coalesce => 1
  | orWord | orSymbol => 2
  | andWord | andSymbol => 3
  | equal | notEqual | less | greater | lessEqual | greaterEqual | matchOp | notMatchOp => 4
  | plus | minus | concat => 5
  | times | divide | remainder => 6

/-- The operator that a token stands for between two operands. -/
def ofToken? : TokenKind → Option Operator
  | .symbol .coalesce => some coalesce
  | .keyword .orKw => some orWord
  | .symbol .orOr => some orSymbol
  | .keyword .andKw => some andWord
  | .symbol .andAnd => some andSymbol
  | .symbol .equal => some equal
  | .symbol .notEqual => some notEqual
  | .symbol .less => some less
  | .symbol .greater => some greater
  | .symbol .lessEqual => some lessEqual
  | .symbol .greaterEqual => some greaterEqual
  | .symbol .matchOp => some matchOp
  | .symbol .notMatchOp => some notMatchOp
  | .symbol .plus => some plus
  | .symbol .minus => some minus
  | .symbol .concat => some concat
  | .symbol .star => some times
  | .symbol .slash => some divide
  | .symbol .percent => some remainder
  | _ => none

end Operator

/-- An operator before its operand. -/
inductive UnaryOperator where
  | notWord
  | bang
  | minus
deriving DecidableEq

namespace UnaryOperator

/-- How an operator is written. -/
def text : UnaryOperator → String
  | notWord => "not"
  | bang => "!"
  | minus => "-"

/-- The operator that a token stands for before an operand. -/
def ofToken? : TokenKind → Option UnaryOperator
  | .keyword .notKw => some notWord
  | .symbol .bang => some bang
  | .symbol .minus => some minus
  | _ => none

end UnaryOperator

/-! ## Modules and small parts -/

/-- A module, by its path of names or by its file. -/
inductive ModuleRef where
  | path (span : Span) (segments : List String)
  | file (name : StringLiteral)
deriving DecidableEq

/-- A name taken from a module, perhaps under another name. -/
structure ImportItem where
  span : Span
  name : Ident
  rename : Option Ident
deriving DecidableEq

/-- The name that an imported item has here. -/
def ImportItem.localName (item : ImportItem) : String := (item.rename.getD item.name).name

/-- The variable of a loop, with or without its dollar sign. -/
structure LoopVariable where
  span : Span
  name : String
  sigil : Bool
deriving DecidableEq

/-- Which way data flows through a process substitution. -/
inductive Direction where
  | input
  | output
deriving DecidableEq

/-- The word for a direction. -/
def Direction.word : Direction → String
  | input => "in"
  | output => "out"

end ShellFront
