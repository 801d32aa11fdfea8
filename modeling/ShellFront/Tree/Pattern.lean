import ShellFront.Tree.Leaf

/-!
# Patterns

What a value is matched against: literals, wildcards, bindings, records and lists.

## Contents
- `FieldBinding`, `PatternField`, `RecordPattern`, `Pattern`.
- `Pattern.span` and `PatternField.boundName?`.
-/

namespace ShellFront

/-- What a field of a record pattern is bound to. -/
inductive FieldBinding where
  | named (name : Ident)
  | wildcard (span : Span)
deriving DecidableEq

/-- A field of a record pattern. -/
structure PatternField where
  span : Span
  name : Ident
  binding : Option FieldBinding
deriving DecidableEq

/-- The name that a field binds: that of its variable, its own without one, and none for a
    wildcard. -/
def PatternField.boundName? (field : PatternField) : Option String :=
  match field.binding with
  | none => some field.name.name
  | some (.named x) => some x.name
  | some (.wildcard _) => none

/-- A record pattern. -/
structure RecordPattern where
  span : Span
  fields : List PatternField
deriving DecidableEq

/-- A pattern. The literal of a literal pattern spans the whole pattern. -/
inductive Pattern where
  | literal (span : Span) (value : Literal)
  | wildcard (span : Span)
  | binding (span : Span) (name : String) (sigil : Bool)
  | record (record : RecordPattern)
  | typedRecord (span : Span) (typeName : Ident) (record : RecordPattern)
  | list (span : Span) (elements : List Pattern)
  | rest (span : Span) (name : String) (sigil : Bool)

/-- The place of a pattern. -/
def Pattern.span : Pattern → Span
  | literal span _ => span
  | wildcard span => span
  | binding span _ _ => span
  | record r => r.span
  | typedRecord span _ _ => span
  | list span _ => span
  | rest span _ _ => span

end ShellFront
