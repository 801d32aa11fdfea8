import ShellFront.Source.Span

/-!
# Diagnostics

A `Diagnostic` is one message about a script: how severe it is, which phase found it, what it says
and where.

## Contents
- `Severity`, `Category` and their words.
- `Diagnostic` and its one-line form `Diagnostic.render`.
-/

namespace ShellFront

/-- How severe a diagnostic is. -/
inductive Severity where
  | error
  | warning
  | info
deriving DecidableEq

/-- The word for a severity in messages. -/
def Severity.word : Severity → String
  | error => "error"
  | warning => "warning"
  | info => "info"

/-- Which phase a diagnostic comes from. -/
inductive Category where
  | lexical
  | grammar
  | ambiguity
  | unresolvedReference
  | general
deriving DecidableEq

namespace Category

/-- All categories. -/
def all : List Category := [lexical, grammar, ambiguity, unresolvedReference, general]

/-- The word for a category. -/
def word : Category → String
  | lexical => "lexical"
  | grammar => "syntax"
  | ambiguity => "ambiguity"
  | unresolvedReference => "unresolved-reference"
  | general => "general"

/-- The category with a given word. -/
def ofWord? (word : String) : Option Category := all.find? (fun c => c.word == word)

end Category

/-- A message about a script. -/
structure Diagnostic where
  severity : Severity
  category : Category
  message : String
  span : Option Span
  notes : List String
deriving DecidableEq

namespace Diagnostic

/-- An error at a place. -/
def error (category : Category) (message : String) (span : Span) : Diagnostic :=
  ⟨.error, category, message, some span, []⟩

/-- A warning at a place. -/
def warning (category : Category) (message : String) (span : Span) : Diagnostic :=
  ⟨.warning, category, message, some span, []⟩

/-- One line: the place if there is one, the severity and the message. -/
def render (d : Diagnostic) : String :=
  let place := match d.span with
    | some span => s!"{span.label}: "
    | none => ""
  s!"{place}{d.severity.word}: {d.message}"

end Diagnostic

end ShellFront
