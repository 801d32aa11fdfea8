import ShellFront.Log
import ShellFront.Number.Numeral
import ShellFront.Parse.Lookahead
import ShellFront.Parse.Problem
import ShellFront.Report
import ShellFront.Tree.Node

/-!
# Parsing actions

A parsing action reads tokens from a cursor, may report diagnostics, and gives a value or gives up
with a syntax error. What it did before it gave up stays done. How it reads depends on a mode that
only holds for its own extent.

## Contents
- `Mode`, `Parse.Context`, `Parse.State`, `Parse`.
- Reading tokens: `peek`, `advance`, `check`, `accept`, `expect`, `skipNewlines`.
- Errors: `refuse`, `fail`, `failAt`, `attempt`.
- `iterate`, the loop of a construct that repeats; `collectTurn` and `commaTurn`, turns of lists.
- `Rules`, the rules of the grammar that other rules refer to.
-/

namespace ShellFront

/-! ## The state of parsing -/

/-- How expressions are read. -/
structure Mode where
  /-- A brace opens the body of a statement and is no value. -/
  braceless : Bool
  /-- Names are plain words and not commands. -/
  words : Bool
  /-- A statement with an error is skipped. -/
  recovering : Bool
deriving DecidableEq

namespace Mode

/-- The mode at the start of a script. -/
def top (recovering : Bool) : Mode := ⟨false, false, recovering⟩

/-- The mode between brackets: values, and braces again. -/
def nested (mode : Mode) : Mode := { mode with braceless := false, words := false }

/-- The mode of the head of a statement, which a brace ends. -/
def header (mode : Mode) : Mode := { mode with braceless := true, words := false }

/-- The mode of the arguments of a command. -/
def arguments (mode : Mode) : Mode := { mode with words := true }

/-- The mode of the alternatives of a brace expansion. -/
def alternatives (mode : Mode) : Mode := { mode with braceless := false, words := true }

/-- The mode of a reading that may be taken back. -/
def tentative (mode : Mode) : Mode := { mode with recovering := false }

end Mode

namespace Parse

/-- What an action can ask for: the mode, and which names are built-in commands. -/
structure Context where
  mode : Mode
  isBuiltin : String → Bool

/-- What an action changes: the place, the report and the log. -/
structure State where
  cursor : Cursor
  report : Report
  log : Array LogEntry

end Parse

/-- An action that reads tokens. -/
abbrev Parse := ReaderT Parse.Context (EStateM SyntaxError Parse.State)

namespace Parse

variable {α β γ : Type}

/-! ## Reading tokens -/

/-- Where the reader is. -/
def here : Parse Cursor := fun _ st => .ok st.cursor st

/-- The current token. -/
def peek : Parse Token := fun _ st => .ok st.cursor.current st

/-- The mode. -/
def mode : Parse Mode := fun ctx st => .ok ctx.mode st

/-- Runs an action in another mode. -/
def within (change : Mode → Mode) (action : Parse α) : Parse α :=
  fun ctx => action { ctx with mode := change ctx.mode }

/-- Moves the cursor. -/
def move (step : Cursor → Cursor) : Parse Unit :=
  fun _ st => .ok () { st with cursor := step st.cursor }

/-- Reads the current token. -/
def advance : Parse Token :=
  fun _ st => .ok st.cursor.current { st with cursor := st.cursor.advance }

/-- Whether the current token has a kind. -/
def check (kind : TokenKind) : Parse Bool := fun _ st => .ok (st.cursor.kind == kind) st

/-- Reads the current token if it has a kind, and says whether it did. -/
def accept (kind : TokenKind) : Parse Bool := fun _ st =>
  if st.cursor.kind = kind then .ok true { st with cursor := st.cursor.advance } else .ok false st

/-- Skips line breaks. -/
def skipNewlines : Parse Unit := move (Cursor.skipWhile (· == .newline))

/-- Skips line breaks and semicolons. -/
def skipSeparators : Parse Unit := move (Cursor.skipWhile TokenKind.isSeparator)

/-- The span from an earlier place through the last token read. -/
def spanFrom (start : Span) : Parse Span := fun _ st =>
  .ok (start.cover st.cursor.previous.span) st

/-- Adds an entry to the log. -/
def note (entry : LogEntry) : Parse Unit := fun _ st =>
  .ok () { st with log := st.log.push entry }

/-! ## Errors -/

/-- Reports an error, unless the token is one that the lexer reported already. -/
def reportError (e : SyntaxError) : Parse Unit := fun _ st =>
  .ok () (if e.found.kind = .invalid then st else { st with report := st.report.add e.diagnostic })

/-- The error at the current token, reported. -/
def refuse (problem : Problem) : Parse SyntaxError := do
  let c ← here
  let e : SyntaxError := ⟨problem, c.current, c.blamed⟩
  reportError e
  return e

/-- Gives up at the current token. -/
def fail (problem : Problem) : Parse α := do throw (← refuse problem)

/-- Gives up because of a token that may have been read already. -/
def failAt (token : Token) (problem : Problem) : Parse α := do
  let e : SyntaxError := ⟨problem, token, token.span⟩
  reportError e
  throw e

/-- Runs an action and gives its error back as a value. -/
def attempt (action : Parse α) : Parse (Except SyntaxError α) := fun ctx st =>
  match action ctx st with
  | .ok a st => .ok (.ok a) st
  | .error e st => .ok (.error e) st

/-- Reads a token of a kind, or gives up. -/
def expect (kind : TokenKind) (problem : Problem) : Parse Token := do
  if ← check kind then advance else fail problem

/-- Reads the mark that must follow a part. -/
def expectAfter (place : Landmark) : Parse Token := expect place.wanted (.missingAfter place)

/-- Reads the closer of a construct. -/
def expectCloser (c : Construct) : Parse Token := expect (.symbol c.closer) (.unclosed c)

/-! ## Loops -/

/-- What a turn of a loop ends with. -/
inductive Turn (β γ : Type) where
  | again (next : β)
  | done (result : γ)

/-- Takes turns until one is done, a bounded number of times. -/
def iterate (turn : β → Parse (Turn β γ)) : Nat → β → Parse γ
  | 0, _ => fail .tooDeep
  | n + 1, b => do
      match ← turn b with
      | .again b => iterate turn n b
      | .done c => return c

/-- A turn of a list that ends when there is no further item. -/
def collectTurn (item : Parse (Option α)) (items : Array α) : Parse (Turn (Array α) (List α)) := do
  match ← item with
  | some a => return .again (items.push a)
  | none => return .done items.toList

/-- A turn of a list with commas up to a closer, which is left; a comma may end the list. -/
def commaTurn (closer : TokenKind) (item : Parse α) (items : Array α) : Parse (Turn (Array α) (List α)) := do
  if ← check closer then return .done items.toList
  let a ← item
  if ← accept (.symbol .comma) then return .again (items.push a)
  else return .done (items.push a).toList

/-! ## Small parts -/

/-- The literal of an integer token that was just read. -/
def integerLiteral (token : Token) (radix : Radix) (negative : Bool) : Parse Literal :=
  match Numeral.value? radix (token.lexeme.toList.drop radix.markLength) with
  | some n => return .integer (if negative then -(n : Int) else n) radix
  | none => failAt token .invalidInteger

/-- The literal of a float token. -/
def floatLiteral (token : Token) (negative : Bool) : Literal :=
  let value := Binary64.ofLiteral token.lexeme.toList
  .float (if negative then value.neg else value)

/-- A name that must come next. -/
def ident (what : Named) : Parse Ident := do
  let token ← expect .identifier (.name what)
  return ⟨token.span, token.lexeme⟩

end Parse

/-! ## Rules that refer to each other -/

/-- The rules of the grammar that its other rules refer to, for tokens further on. A rule that refers
    to one of these has read a token before, so the number of tokens left bounds how deep they are
    nested; `fuel` is that bound, and bounds the turns of a loop as well. -/
structure Rules where
  fuel : Nat
  expression : Parse Node
  binary : Nat → Parse Node
  unary : Parse Node
  access : Parse Node
  statement : Parse Node
  assigned : Parse Node
  pattern : Parse Pattern

namespace Rules

/-- The rules that only give up. -/
def exhausted : Rules where
  fuel := 0
  expression := Parse.fail .tooDeep
  binary := fun _ => Parse.fail .tooDeep
  unary := Parse.fail .tooDeep
  access := Parse.fail .tooDeep
  statement := Parse.fail .tooDeep
  assigned := Parse.fail .tooDeep
  pattern := Parse.fail .tooDeep

/-- Takes turns as often as there may be tokens. -/
def loop {β γ : Type} (rules : Rules) (start : β) (turn : β → Parse (Parse.Turn β γ)) : Parse γ :=
  Parse.iterate turn (rules.fuel + 1) start

/-- Collects items until there is none. -/
def collect {α : Type} (rules : Rules) (item : Parse (Option α)) : Parse (List α) :=
  rules.loop #[] (Parse.collectTurn item)

/-- Collects items separated by commas up to a closer, which is left; a comma may end them. -/
def commaList {α : Type} (rules : Rules) (closer : TokenKind) (item : Parse α) :
    Parse (List α) :=
  rules.loop #[] (Parse.commaTurn closer item)

end Rules

end ShellFront
