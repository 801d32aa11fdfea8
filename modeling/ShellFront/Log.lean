import ShellFront.Source.Span

/-!
# Log entries

What the phases tell about their work, for those who follow it. An entry is data; its wording is
here as well.

## Contents
- `LogLevel`, `LogEntry`.
- `LogEntry.level`, `LogEntry.channel`, `LogEntry.message` and the line `LogEntry.render`.
-/

namespace ShellFront

/-- How much detail an entry gives. -/
inductive LogLevel where
  | debug
  | info
deriving DecidableEq

/-- The word for a level. -/
def LogLevel.word : LogLevel → String
  | debug => "DEBUG"
  | info => "INFO"

/-- One thing that a phase tells. -/
inductive LogEntry where
  /-- Groups that were still open before a line were given up. -/
  | groupAbandoned (line : Nat)
  /-- A script was cut into tokens. -/
  | lexed (file : String) (tokens : Nat)
  /-- A statement with a syntax error was skipped. -/
  | recovered (span : Span) (skipped : Nat)
  /-- A brace could not be read as a record. -/
  | recordRefused (span : Span)
  /-- A script was parsed. -/
  | parsed (file : String) (statements diagnostics : Nat)
  /-- The names of a script were resolved. -/
  | resolved (file : String) (bindings scopes references unresolved : Nat)
  /-- A script was checked. -/
  | checked (file : String) (errors warnings : Nat)
deriving DecidableEq

namespace LogEntry

/-- The level of an entry. -/
def level : LogEntry → LogLevel
  | checked .. => .info
  | _ => .debug

/-- The channel that an entry is written to. -/
def channel : LogEntry → String
  | groupAbandoned .. | lexed .. => "apxlib.parser.lexer"
  | recovered .. => "apxlib.parser.base"
  | recordRefused .. => "apxlib.parser.expressions"
  | parsed .. => "apxlib.parser.parser"
  | resolved .. => "apxlib.resolver.resolver"
  | checked .. => "apxlib"

/-- The wording of an entry. -/
def message : LogEntry → String
  | groupAbandoned line => s!"Unclosed group before line {line}, newline kept"
  | lexed file tokens => s!"Lexed {file}: {tokens} tokens"
  | recovered span skipped =>
      s!"Recovered from syntax error at {span.label}, skipped {skipped} token(s)"
  | recordRefused span => s!"Record parse failed at {span.label}, retrying as closure"
  | parsed file statements diagnostics =>
      s!"Parsed {file}: {statements} statement(s), {diagnostics} diagnostic(s)"
  | resolved file bindings scopes references unresolved =>
      s!"Resolved {file}: {bindings} bindings, {scopes} scopes, {references} references " ++
        s!"({unresolved} unresolved)"
  | checked file errors warnings => s!"{file}: {errors} error(s), {warnings} warning(s)"

/-- The line that an entry is written as. -/
def render (e : LogEntry) : String := s!"{e.level.word} {e.channel}: {e.message}"

end LogEntry

end ShellFront
