import ShellFront.CommandLine.Arguments
import ShellFront.CommandLine.Files
import ShellFront.Names.Resolver
import ShellFront.Parse.Program
import ShellFront.Text.Lines
import ShellFront.Tree.Outline

/-!
# Checking scripts

What the checker writes about scripts: the tokens or the tree if asked for, then the log and the
diagnostics. A script is clean when no error was found. The checker breaks off at a path that can
name no file and at a number too long to be listed.

## Contents
- `Transcript`, what is written and whether all was clean.
- `Failure`, why the checker breaks off.
- `checkText`, `checkFile`, `checkFiles`.
- `Outcome`, `run`, the whole command.
-/

namespace ShellFront.CommandLine

/-! ## One script -/

/-- Lines for standard output, lines for standard error, and whether all scripts were clean. -/
structure Transcript where
  output : List String
  errors : List String
  clean : Bool

namespace Transcript

/-- Nothing to tell. -/
def empty : Transcript := ⟨[], [], true⟩

/-- One transcript after another. -/
def append (a b : Transcript) : Transcript :=
  ⟨a.output ++ b.output, a.errors ++ b.errors, a.clean && b.clean⟩

end Transcript

/-- Why the checker breaks off without a result. -/
inductive Failure where
  /-- A path holds the character zero, which ends every path. -/
  | zeroInPath
  /-- An integer has more digits than may be written out. -/
  | integerTooLong
deriving DecidableEq

/-- The wording of a failure. -/
def Failure.message : Failure → String
  | zeroInPath => "embedded null byte"
  | integerTooLong =>
      s!"Exceeds the limit ({Numeral.decimalLimit} digits) for integer string conversion; " ++
        "use sys.set_int_max_str_digits() to increase the limit"

/-- Whether a log entry is written: from one `-v` on what was checked, from two on everything. -/
def Options.showsEntry (o : Options) (e : LogEntry) : Bool :=
  match e.level with
  | .info => 1 ≤ o.verbosity
  | .debug => 2 ≤ o.verbosity

/-- The log entries that are written. -/
def Options.logLines (o : Options) (log : List LogEntry) : List String :=
  (log.filter o.showsEntry).map LogEntry.render

/-- The diagnostics that are written. -/
def Options.reportLines (o : Options) (report : Report) : List String :=
  let shown := if o.noWarnings then report.errors else report.toList
  shown.map Diagnostic.render

/-- A token on one line. -/
def tokenLine (t : Token) : String :=
  s!"{t.span.line}:{t.span.column}\t{t.kind.name}\t{Text.quote t.lexeme}"

/-- What is written once a script has been worked through. -/
def transcript (o : Options) (file : String) (output : List String) (log : List LogEntry)
    (report : Report) : Transcript :=
  let closing := LogEntry.checked file report.errors.length report.warnings.length
  { output := output
    errors := o.logLines log ++ o.reportLines report ++ o.logLines [closing]
    clean := !report.hasErrors }

/-- Checks the text of a script. -/
def checkText (o : Options) (isBuiltin : String → Bool) (file source : String) :
    Except Failure Transcript :=
  if o.tokens then
    let lexing := tokenize source file
    .ok (transcript o file (lexing.tokens.map tokenLine) lexing.log.toList lexing.report)
  else
    let p := parse source file o.failFast isBuiltin
    let r := resolve p.program p.report
    let log := (p.log ++ r.log).toList
    let outline := p.program.outline
    if !o.tree then .ok (transcript o file [] log r.report)
    else if outline.isListable then .ok (transcript o file outline.listing log r.report)
    else .error .integerTooLong

/-! ## All scripts -/

/-- A text as it is read, with uniform line ends. -/
def readText (raw : String) : String := String.ofList (Text.uniformLineEnds raw.toList)

/-- Checks a file, given how files are read. -/
def checkFile (o : Options) (isBuiltin : String → Bool) (read : String → Except FileError String)
    (name : String) : Except Failure Transcript :=
  if name.toList.contains '\x00' then .error .zeroInPath
  else
    match read name with
    | .ok raw => checkText o isBuiltin name (readText raw)
    | .error e => .ok ⟨[], [s!"{name}: error: {e.message}"], false⟩

/-- Checks files one after the other. A hyphen stands for standard input, which is used up the first
    time. -/
def checkFiles (o : Options) (isBuiltin : String → Bool) (read : String → Except FileError String)
    (input : String) : List String → Except Failure Transcript
  | [] => .ok .empty
  | name :: names =>
      if name = "-" then do
        let first ← checkText o isBuiltin "<stdin>" (readText input)
        return first.append (← checkFiles o isBuiltin read "" names)
      else do
        let first ← checkFile o isBuiltin read name
        return first.append (← checkFiles o isBuiltin read input names)

/-! ## The command -/

/-- What the command writes and its exit status. -/
structure Outcome where
  status : Nat
  output : String
  errors : String
deriving DecidableEq

/-- Lines as a text. -/
def unlines (lines : List String) : String := String.join (lines.map (· ++ "\n"))

/-- Runs the command on its arguments, given how files are read and what standard input holds. -/
def run (arguments : List String) (isBuiltin : String → Bool)
    (read : String → Except FileError String) (input : String) : Except Failure Outcome :=
  match parseArguments arguments with
  | .error .help => .ok ⟨0, unlines helpLines, ""⟩
  | .error (.wrong e) => .ok ⟨2, "", unlines (usageLines ++ [s!"apxlib: error: {e.message}"])⟩
  | .ok request => do
      let t ← checkFiles request.options isBuiltin read input request.files
      return ⟨if t.clean then 0 else 1, unlines t.output, unlines t.errors⟩

end ShellFront.CommandLine
