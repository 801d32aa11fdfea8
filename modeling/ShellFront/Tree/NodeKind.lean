/-!
# Kinds of nodes

The display kinds of everything that a syntax tree shows: the word that highlighters use and the
title that listings use.

## Contents
- `NodeKind`, `NodeKind.word`, `NodeKind.title`.
-/

namespace ShellFront

/-- The display kind of a node. -/
inductive NodeKind where
  | intLiteral
  | floatLiteral
  | stringLiteral
  | boolLiteral
  | nullLiteral
  | identifier
  | variableName
  | envVariable
  | specialVariable
  | binaryOp
  | unaryOp
  | parenExpr
  | fieldAccess
  | methodCall
  | call
  | pipeline
  | builtinCommand
  | commandName
  | commandStage
  | commandExpression
  | flag
  | pathArgument
  | listLiteral
  | recordField
  | recordLiteral
  | tupleLiteral
  | setLiteral
  | rangeExpr
  | braceExpansion
  | objectConstruction
  | commandSubstitution
  | processSubstitution
  | typeHint
  | parameter
  | block
  | closure
  | lambdaExpr
  | decorator
  | letStatement
  | variableAssignment
  | elifClause
  | ifStatement
  | forStatement
  | whileStatement
  | loopStatement
  | matchArm
  | matchStatement
  | tryStatement
  | functionDefinition
  | macroDefinition
  | aliasDefinition
  | objectField
  | objectDefinition
  | enumDefinition
  | testDefinition
  | modulePath
  | useStatement
  | importItem
  | fromImport
  | sourceStatement
  | returnStatement
  | breakStatement
  | continueStatement
  | errorNode
  | literalPattern
  | wildcardPattern
  | bindingPattern
  | patternField
  | recordPattern
  | typedRecordPattern
  | restPattern
  | listPattern
  | program
deriving DecidableEq

namespace NodeKind

/-- The word for a kind, in lower case with underscores. -/
def word : NodeKind → String
  | intLiteral => "int_literal"
  | floatLiteral => "float_literal"
  | stringLiteral => "string_literal"
  | boolLiteral => "bool_literal"
  | nullLiteral => "null_literal"
  | identifier => "identifier"
  | variableName => "variable"
  | envVariable => "env_variable"
  | specialVariable => "special_variable"
  | binaryOp => "binary_op"
  | unaryOp => "unary_op"
  | parenExpr => "paren_expr"
  | fieldAccess => "field_access"
  | methodCall => "method_call"
  | call => "call"
  | pipeline => "pipeline"
  | builtinCommand => "builtin_command"
  | commandName => "command_name"
  | commandStage => "command_stage"
  | commandExpression => "command_expression"
  | flag => "flag"
  | pathArgument => "path_argument"
  | listLiteral => "list_literal"
  | recordField => "record_field"
  | recordLiteral => "record_literal"
  | tupleLiteral => "tuple_literal"
  | setLiteral => "set_literal"
  | rangeExpr => "range_expr"
  | braceExpansion => "brace_expansion"
  | objectConstruction => "object_construction"
  | commandSubstitution => "command_substitution"
  | processSubstitution => "process_substitution"
  | typeHint => "type_hint"
  | parameter => "parameter"
  | block => "block"
  | closure => "closure"
  | lambdaExpr => "lambda"
  | decorator => "decorator"
  | letStatement => "let_statement"
  | variableAssignment => "variable_assignment"
  | elifClause => "elif_clause"
  | ifStatement => "if_statement"
  | forStatement => "for_statement"
  | whileStatement => "while_statement"
  | loopStatement => "loop_statement"
  | matchArm => "match_arm"
  | matchStatement => "match_statement"
  | tryStatement => "try_statement"
  | functionDefinition => "function_definition"
  | macroDefinition => "macro_definition"
  | aliasDefinition => "alias_definition"
  | objectField => "object_field"
  | objectDefinition => "object_definition"
  | enumDefinition => "enum_definition"
  | testDefinition => "test_definition"
  | modulePath => "module_path"
  | useStatement => "use_statement"
  | importItem => "import_item"
  | fromImport => "from_import"
  | sourceStatement => "source_statement"
  | returnStatement => "return_statement"
  | breakStatement => "break_statement"
  | continueStatement => "continue_statement"
  | errorNode => "error_node"
  | literalPattern => "literal_pattern"
  | wildcardPattern => "wildcard_pattern"
  | bindingPattern => "binding_pattern"
  | patternField => "pattern_field"
  | recordPattern => "record_pattern"
  | typedRecordPattern => "typed_record_pattern"
  | restPattern => "rest_pattern"
  | listPattern => "list_pattern"
  | program => "program"

/-- The parts of a word between underscores, each with a capital, set together. -/
def capitalised (word : List Char) : List Char :=
  let rec go (start : Bool) : List Char → List Char
    | [] => []
    | c :: cs => if c = '_' then go true cs else (if start then c.toUpper else c) :: go false cs
  go true word

/-- The title of a kind. A listing does not tell built-in commands from others by their title. -/
def title (kind : NodeKind) : String :=
  let shown := if kind = builtinCommand then commandName else kind
  String.ofList (capitalised shown.word.toList)

end NodeKind

end ShellFront
