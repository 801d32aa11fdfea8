import ShellFront.Parse.Statement
import ShellFront.Token.Lexer

/-!
# Reading scripts

The rules of the grammar tied together, and the ways into them: a whole script from its text, or one
expression, statement or pattern from a list of tokens.

## Contents
- `Rules.upTo`, the rules to a depth.
- `Parse.expression`, `Parse.statement`, `Parse.pattern`, `Parse.program`.
- `Session`, a reader that goes on from where it was; `parse`.
-/

namespace ShellFront

/-! ## Tying the rules together -/

/-- The rules of the grammar, nested to a depth. -/
def Rules.upTo : Nat → Rules
  | 0 => .exhausted
  | n + 1 =>
      { fuel := n + 1
        expression := fun ctx st => Grammar.expression (upTo n) ctx st
        binary := fun least ctx st => Grammar.binary (upTo n) least ctx st
        unary := fun ctx st => Grammar.unary (upTo n) ctx st
        access := fun ctx st => Grammar.access (upTo n) ctx st
        statement := fun ctx st => Grammar.statement (upTo n) ctx st
        assigned := fun ctx st => Grammar.assigned (upTo n) ctx st
        pattern := fun ctx st => Grammar.pattern (upTo n) ctx st }

/-- A depth that the tokens left at a cursor cannot exceed. -/
def Cursor.depth (c : Cursor) : Nat := c.ahead.length + 2

namespace Parse

/-- Runs an action on the rules, nested as deep as the tokens left allow. -/
def withRules {α : Type} (action : Rules → Parse α) : Parse α := fun ctx st =>
  action (Rules.upTo st.cursor.depth) ctx st

/-- An expression. -/
def expression : Parse Node := withRules Rules.expression

/-- A statement. -/
def statement : Parse Node := withRules Rules.statement

/-- A pattern. -/
def pattern : Parse Pattern := withRules Rules.pattern

/-- A script. It spans the whole input; without a name it has that of the last token's file. -/
def program (file : Option String) : Parse Program := do
  let c ← here
  let stop := c.last.span
  let name := file.getD stop.file
  let statements ← withRules (fun r => Grammar.statementList r false)
  let span : Span := ⟨name, 1, 1, 0, stop.stop, stop.endLine, stop.endColumn⟩
  return ⟨span, name, statements⟩

end Parse

/-! ## Sessions -/

/-- A reader at some place, with what it reported and logged so far. -/
structure Session where
  context : Parse.Context
  state : Parse.State

namespace Session

/-- A reader of tokens that begins at the token with an index, or at the last one. -/
def start (tokens : List Token) (index : Nat) (recovering : Bool) (isBuiltin : String → Bool)
    (report : Report) (log : Array LogEntry) : Session where
  context := ⟨.top recovering, isBuiltin⟩
  state := ⟨(Cursor.ofTokens tokens).seek index, report, log⟩

/-- Runs an action. After an error the reader stays where it gave up. -/
def run {α : Type} (session : Session) (action : Parse α) : Except SyntaxError α × Session :=
  match action session.context session.state with
  | .ok a st => (.ok a, { session with state := st })
  | .error e st => (.error e, { session with state := st })

/-- How many tokens the reader is past. -/
def index (session : Session) : Nat := session.state.cursor.index

/-- What was reported so far. -/
def report (session : Session) : Report := session.state.report

end Session

/-! ## Scripts -/

/-- A script with all that was reported and logged about it. -/
structure Parsed where
  program : Program
  report : Report
  log : Array LogEntry

/-- Reads a script. With `failFast` it ends before the first statement with a syntax error, and
    otherwise such statements are skipped. -/
def parse (source file : String) (failFast : Bool) (isBuiltin : String → Bool) : Parsed :=
  let lexing := tokenize source file
  let session :=
    Session.start lexing.tokens 0 (!failFast) isBuiltin lexing.report lexing.log
  let (result, session) := session.run (Parse.program (some file))
  let program := match result with
    | .ok program => program
    | .error e => ⟨e.span, file, []⟩
  { program := program
    report := session.report
    log := session.state.log.push
      (.parsed file program.statements.length session.report.size) }

end ShellFront
