import ShellFront.Vocabulary.Basic
import ShellFront.Vocabulary.Document

/-!
# Reading a vocabulary from a document

A document has to have the right form before it is read as a vocabulary. Every departure from the
form is a `Violation`: what is wrong and where. The one that is reported is the one nearest to the
root.

## Contents
- `Step`, `Shape`, `TextForm`, `Flaw`, `Violation` and `Violation.message`.
- `Document.violations`, everything that is wrong with a document.
- `Violation.foremost?`, the violation that is reported.
- `VocabularyError`, `Vocabulary.load`.
-/

namespace ShellFront

/-! ## Forms -/

/-- What a value has to be. -/
inductive Shape where
  | text
  | list
  | record
deriving DecidableEq

/-- The word for a shape. -/
def Shape.word : Shape → String
  | text => "string"
  | list => "array"
  | record => "object"

/-- What a text has to look like. -/
inductive TextForm where
  | version
  | categoryName
  | commandName
deriving DecidableEq

namespace TextForm

/-- A form as a regular expression. -/
def expression : TextForm → String
  | version => "^[0-9]+\\.[0-9]+$"
  | categoryName => "^[a-z][a-z0-9_]*$"
  | commandName => "^[a-zA-Z_][a-zA-Z0-9_-]*$"

/-- Whether there are digits on both sides of the first dot and nothing else. -/
def isVersion (text : List Char) : Bool :=
  let major := text.takeWhile Char.isDigit
  match text.drop major.length with
  | '.' :: minor => !major.isEmpty && !minor.isEmpty && minor.all Char.isDigit
  | _ => false

/-- Whether the first character is of one kind and all others are of another. -/
def isWord (first other : Char → Bool) : List Char → Bool
  | [] => false
  | c :: cs => first c && cs.all other

/-- Whether a text is of a form. -/
def holds : TextForm → List Char → Bool
  | version => isVersion
  | categoryName => isWord Char.isLower (fun c => c.isLower || c.isDigit || c == '_')
  | commandName =>
      isWord (fun c => c.isAlpha || c == '_') (fun c => c.isAlphanum || c == '_' || c == '-')

/-- A text without the line end that may close it. -/
def withoutLineEnd (text : List Char) : List Char :=
  if text.getLast? == some '\n' then text.dropLast else text

/-- Whether a form admits a text: the text is of the form, perhaps with a line end after it. -/
def admits (form : TextForm) (text : String) : Bool := form.holds (withoutLineEnd text.toList)

end TextForm

/-! ## Violations -/

/-- A step from a value to one of its parts. -/
inductive Step where
  | key (name : String)
  | index (position : Nat)
deriving DecidableEq

namespace Step

/-- A step as messages show it. -/
def render : Step → String
  | key name => name
  | index position => toString position

/-- Whether one step comes before another. -/
def before : Step → Step → Bool
  | key a, key b => decide (a < b)
  | index a, index b => decide (a < b)
  | key _, index _ => false
  | index _, key _ => true

/-- Whether one path comes before another, step by step. -/
def pathBefore : List Step → List Step → Bool
  | [], [] => false
  | [], _ :: _ => true
  | _ :: _, [] => false
  | a :: as, b :: bs => if a = b then pathBefore as bs else a.before b

end Step

/-- What can be wrong with a value. -/
inductive Flaw where
  | wrongShape (value : Document) (shape : Shape)
  | missingKey (key : String)
  | unknownKeys (keys : List String)
  | malformed (text : String) (form : TextForm)
  | empty (value : Document)
  | repeated (value : Document)

/-- The wording of a flaw. -/
def Flaw.message : Flaw → String
  | wrongShape value shape => s!"{value.render} is not of type {Text.quote shape.word}"
  | missingKey key => s!"{Text.quote key} is a required property"
  | unknownKeys keys =>
      let shown := ", ".intercalate (keys.map Text.quote)
      let verb := if keys.length = 1 then "was" else "were"
      s!"Additional properties are not allowed ({shown} {verb} unexpected)"
  | malformed text form => s!"{Text.quote text} does not match {Text.quote form.expression}"
  | empty value => s!"{value.render} should be non-empty"
  | repeated value => s!"{value.render} has non-unique elements"

/-- A flaw and the way from the root to the value that has it. -/
structure Violation where
  path : List Step
  flaw : Flaw

namespace Violation

/-- A flaw of the value at hand. -/
def here (flaw : Flaw) : Violation := ⟨[], flaw⟩

/-- A violation seen from the value one step above. -/
def below (step : Step) (v : Violation) : Violation := { v with path := step :: v.path }

/-- The wording of a violation, with its place unless that is the root. -/
def message (v : Violation) : String :=
  let place := " -> ".intercalate (v.path.map Step.render)
  if place.isEmpty then v.flaw.message else s!"{v.flaw.message} (at {place})"

/-- Whether a violation is reported rather than another: it is nearer to the root, or as near and at
    a later place. -/
def outranks (a b : Violation) : Bool :=
  a.path.length < b.path.length ||
    (a.path.length == b.path.length && Step.pathBefore b.path a.path)

/-- The violation that is reported; the first one found if nothing else decides. -/
def foremost? : List Violation → Option Violation
  | [] => none
  | v :: vs => some (vs.foldl (fun best w => if w.outranks best then w else best) v)

end Violation

/-! ## The form of a vocabulary -/

namespace Document

/-- A flaw, if there is reason for it. -/
def flawIf (condition : Bool) (flaw : Flaw) : List Violation :=
  if condition then [.here flaw] else []

/-- What is wrong with a value that has to be a text. -/
def textViolations : Document → List Violation
  | text _ => []
  | other => [.here (.wrongShape other .text)]

/-- What is wrong with a value that has to be a text of a form. -/
def formViolations (form : TextForm) : Document → List Violation
  | text s => flawIf (!form.admits s) (.malformed s form)
  | other => other.textViolations

/-- What is wrong with the field of a name, if it is there. -/
def fieldViolations (fields : List (String × Document)) (name : String)
    (check : Document → List Violation) : List Violation :=
  match fields.lookup name with
  | some value => (check value).map (Violation.below (.key name))
  | none => []

/-- What is wrong with the keys of a record. -/
def keyViolations (required allowed keys : List String) : List Violation :=
  let unknown := keys.filter (fun key => !allowed.contains key)
  (required.filter (fun key => !keys.contains key)).map (fun key => .here (.missingKey key)) ++
    flawIf (!unknown.isEmpty) (.unknownKeys (unknown.mergeSort (fun a b => decide (a ≤ b))))

/-- What is wrong with the commands of a category. -/
def commandViolations : Document → List Violation
  | list elements =>
      flawIf elements.isEmpty (.empty (list elements)) ++
        flawIf (hasRepeats elements) (.repeated (list elements)) ++
        elements.zipIdx.flatMap fun (element, i) =>
          (element.formViolations .commandName).map (Violation.below (.index i))
  | other => [.here (.wrongShape other .list)]

/-- What is wrong with a category. -/
def categoryViolations : Document → List Violation
  | record fields =>
      keyViolations ["commands"] ["description", "commands"] (fields.map Prod.fst) ++
        fieldViolations fields "description" textViolations ++
        fieldViolations fields "commands" commandViolations
  | other => [.here (.wrongShape other .record)]

/-- What is wrong with the categories. -/
def categoriesViolations : Document → List Violation
  | record fields =>
      flawIf fields.isEmpty (.empty (record fields)) ++
        fields.flatMap (fun field => (text field.1).formViolations .categoryName) ++
        fields.flatMap fun (name, value) =>
          value.categoryViolations.map (Violation.below (.key name))
  | other => [.here (.wrongShape other .record)]

/-- What is wrong with a document that has to be a vocabulary. -/
def violations : Document → List Violation
  | record fields =>
      keyViolations ["version", "categories"] ["version", "interpreter", "categories"]
          (fields.map Prod.fst) ++
        fieldViolations fields "version" (formViolations .version) ++
        fieldViolations fields "interpreter" textViolations ++
        fieldViolations fields "categories" categoriesViolations
  | other => [.here (.wrongShape other .record)]

/-! ## Reading -/

/-- The text that a value is, or nothing. -/
def asText : Document → String
  | text s => s
  | _ => ""

/-- The commands of a category. -/
def commandNames (category : Document) : List String :=
  match category.field? "commands" with
  | some (list elements) => elements.map asText
  | _ => []

/-- The vocabulary that a document of the right form holds. -/
def vocabulary (document : Document) : Vocabulary :=
  { version := ((document.field? "version").map asText).getD ""
    categories :=
      match document.field? "categories" with
      | some (record fields) => fields.map fun (name, value) => ⟨name, value.commandNames⟩
      | _ => [] }

end Document

/-- Why there is no vocabulary. -/
inductive VocabularyError where
  | notFound (file : String)
  | refused (file : String) (violation : Violation)

/-- The wording of an error. -/
def VocabularyError.message : VocabularyError → String
  | notFound file => s!"Registry file not found: {file}"
  | refused file violation => s!"Registry {file} does not match schema: {violation.message}"

/-- The vocabulary in a file, given what the file holds if it exists. -/
def Vocabulary.load (file : String) (content : Option Document) :
    Except VocabularyError Vocabulary :=
  match content with
  | none => .error (.notFound file)
  | some document =>
      match Violation.foremost? document.violations with
      | some violation => .error (.refused file violation)
      | none => .ok document.vocabulary

end ShellFront
