import ShellFront.Diagnostic
import ShellFront.Text.Quoted
import ShellFront.Token

/-!
# Syntax errors

What a reader of tokens can miss, and the error that it then gives up with: the cause, the token that
stands where something else should, and the place that is blamed.

## Contents
- `Construct`, `Sequence`, `Landmark`, `Named`, `Kin`: the parts of the language that errors speak of.
- `Problem` and its wording.
- `Token.describe`, `SyntaxError`.
-/

namespace ShellFront

/-- What a missing closer would have closed. -/
inductive Construct where
  | commandSubstitution
  | processSubstitution
  | record
  | braceExpansion
  | closure
  | block
  | matching
  | object
  | enumeration
deriving DecidableEq

namespace Construct

/-- The name of a construct. -/
def word : Construct → String
  | commandSubstitution => "command substitution"
  | processSubstitution => "process substitution"
  | record => "record"
  | braceExpansion => "brace expansion"
  | closure => "closure"
  | block => "block"
  | matching => "match"
  | object => "object"
  | enumeration => "enum"

/-- What closes a construct. -/
def closer : Construct → Symbol
  | commandSubstitution | processSubstitution => .closeParen
  | _ => .closeBrace

end Construct

/-- A sequence whose elements are separated by commas. -/
inductive Sequence where
  | list
  | tuple
  | arguments
  | parameters
  | record
  | recordPattern
  | listPattern
deriving DecidableEq

/-- The name of a sequence. -/
def Sequence.word : Sequence → String
  | list => "list"
  | tuple => "tuple"
  | arguments => "argument list"
  | parameters => "parameter list"
  | record => "record"
  | recordPattern => "record pattern"
  | listPattern => "list pattern"

/-- A part after which one certain mark must follow. -/
inductive Landmark where
  | boundName
  | aliasName
  | functionName
  | objectName
  | enumName
  | recordKey
  | loopVariable
  | matchSubject
  | matchPattern
  | tryBlock
  | importModule
deriving DecidableEq

namespace Landmark

/-- The name of the part. -/
def word : Landmark → String
  | boundName => "name"
  | aliasName => "alias name"
  | functionName => "function name"
  | objectName => "object name"
  | enumName => "enum name"
  | recordKey => "record key"
  | loopVariable => "loop variable"
  | matchSubject => "match subject"
  | matchPattern => "match pattern"
  | tryBlock => "try block"
  | importModule => "module"

/-- What must follow the part. -/
def wanted : Landmark → TokenKind
  | boundName | aliasName => .symbol .assign
  | functionName => .symbol .openParen
  | objectName | enumName | matchSubject => .symbol .openBrace
  | recordKey => .symbol .colon
  | loopVariable => .keyword .inKw
  | matchPattern => .symbol .fatArrow
  | tryBlock => .keyword .catchKw
  | importModule => .keyword .importKw

/-- How what must follow is written. -/
def mark (place : Landmark) : String :=
  match place.wanted with
  | .symbol s => s.text
  | .keyword k => k.text
  | _ => ""

end Landmark

/-- What a name is the name of. -/
inductive Named where
  | command
  | parameter
  | type
  | function
  | macroKind
  | aliasKind
  | object
  | enumeration
  | variant
  | imported
  | namespaceKind
deriving DecidableEq

/-- The word before "name". -/
def Named.word : Named → String
  | command => "command"
  | parameter => "parameter"
  | type => "type"
  | function => "function"
  | macroKind => "macro"
  | aliasKind => "alias"
  | object => "object"
  | enumeration => "enum"
  | variant => "variant"
  | imported => "imported"
  | namespaceKind => "namespace"

/-- Parts that stand on lines of their own or between commas. -/
inductive Kin where
  | matchArms
  | objectMembers
  | enumVariants
deriving DecidableEq

/-- The name of the parts. -/
def Kin.word : Kin → String
  | matchArms => "match arms"
  | objectMembers => "object members"
  | enumVariants => "enum variants"

/-- The cause of a syntax error. -/
inductive Problem where
  | expression
  | pattern
  | recordKey
  | opener (symbol : Symbol)
  | recordPatternOpener
  | unclosed (construct : Construct)
  | unclosedParen
  | unfinished (closer : Symbol) (inside : Sequence)
  | missingAfter (place : Landmark)
  | name (what : Named)
  | nameAfter (text : String)
  | decoratorName
  | unknownType
  | rangeEnd (operator : String)
  | loopVariable
  | patternField
  | patternBinding
  | secondRest
  | between (parts : Kin)
  | definition
  | member
  | testName
  | modulePath
  | filePath
  | statementEnd
  | invalidInteger
  | ambiguousBrace
  /-- The bound on the depth of the descent was reached; it is set so that it never is. -/
  | tooDeep
deriving DecidableEq

namespace Problem

/-- The wording of a cause. -/
def text : Problem → String
  | expression => "Expected expression"
  | pattern => "Expected pattern"
  | recordKey => "Expected record key"
  | opener s => s!"Expected '{s.text}'"
  | recordPatternOpener => "Expected '\x7b' to open record pattern"
  | unclosed c => s!"Expected '{c.closer.text}' to close {c.word}"
  | unclosedParen => "Expected ')' after expression"
  | unfinished closer inside => s!"Expected ',' or '{closer.text}' in {inside.word}"
  | missingAfter place => s!"Expected '{place.mark}' after {place.word}"
  | name what => s!"Expected {what.word} name"
  | nameAfter text => s!"Expected name after '{text}'"
  | decoratorName => "Expected decorator name after '@'"
  | unknownType => "Unknown type name"
  | rangeEnd operator => s!"Expected integer or variable after '{operator}'"
  | loopVariable => "Expected loop variable after 'for'"
  | patternField => "Expected field name in record pattern"
  | patternBinding => "Expected '$name' or '_' after ':' in record pattern"
  | secondRest => "Only one rest element is allowed in a list pattern"
  | between parts => s!"Expected ',' or newline between {parts.word}"
  | definition => "Expected a definition after decorators"
  | member => "Expected field name or method in object"
  | testName => "Expected test name string after 'test'"
  | modulePath => "Expected module path"
  | filePath => "Expected file path string after 'source'"
  | statementEnd => "Expected newline or ';' after statement"
  | invalidInteger => "Invalid integer literal"
  | ambiguousBrace => "Ambiguous '\x7b': cannot parse as a record or a closure"
  | tooDeep => "Nested too deep"

/-- The category that a cause is reported under. -/
def category : Problem → Category
  | ambiguousBrace => .ambiguity
  | _ => .grammar

end Problem

/-- How an error names the token that it found. -/
def Token.describe (t : Token) : String :=
  match t.kind with
  | .endOfInput => "end of input"
  | .newline => "newline"
  | _ => Text.quote t.lexeme

/-- A syntax error: its cause, the token found and the place blamed. -/
structure SyntaxError where
  problem : Problem
  found : Token
  span : Span
deriving DecidableEq

namespace SyntaxError

/-- The wording of an error. -/
def message (e : SyntaxError) : String := s!"{e.problem.text}, got {e.found.describe}"

/-- The category of an error. -/
def category (e : SyntaxError) : Category := e.problem.category

/-- The diagnostic for an error. -/
def diagnostic (e : SyntaxError) : Diagnostic := .error e.category e.message e.span

end SyntaxError

end ShellFront
