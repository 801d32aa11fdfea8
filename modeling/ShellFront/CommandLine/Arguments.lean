import ShellFront.CommandLine.Options
import ShellFront.Text.Digit
import ShellFront.Text.Quoted

/-!
# Reading the command line

Every argument is first told apart by its form: a switch, a bundle of switches by their letters, a
file, the separator `--`, or something unknown. Then the arguments take effect from left to right.
The files are the first run of file arguments; a later run is not recognised.

## Contents
- `UsageError` and its wording.
- `Argument`, `Argument.ofText`, `Argument.ofTexts`.
- `Request`, `Stop`, `parseArguments`.
-/

namespace ShellFront.CommandLine

/-- Why a command line is refused. -/
inductive UsageError where
  | ambiguous (argument : String) (candidates : List Switch)
  | ignoredValue (switch : Switch) (value : String)
  | noFiles
  | unrecognized (arguments : List String)
deriving DecidableEq

/-- The wording of an error. -/
def UsageError.message : UsageError → String
  | ambiguous argument candidates =>
      let names := ", ".intercalate (candidates.map Switch.longName)
      s!"ambiguous option: {argument} could match {names}"
  | ignoredValue switch value =>
      s!"argument {switch.label}: ignored explicit argument {Text.quote value}"
  | noFiles => "the following arguments are required: files"
  | unrecognized arguments =>
      let texts := " ".intercalate arguments
      s!"unrecognized arguments: {texts}"

/-! ## Forms of arguments -/

/-- An argument by its form. -/
inductive Argument where
  /-- A file to check. -/
  | file (text : String)
  /-- One switch by its name, or several by their letters. -/
  | switches (switches : List Switch)
  /-- A switch with a value that it does not take. -/
  | misused (switch : Switch) (value : String)
  /-- Something that looks like a switch and is none. -/
  | unknown (text : String)
  /-- The mark after which every argument is a file. -/
  | separator
deriving DecidableEq

namespace Argument

/-- Letters after a switch in the same argument: each one is a switch of its own. From the first one
    that is not, the text is a value of the switch before it. -/
def bundle (switch : Switch) : List Char → Argument
  | [] => switches [switch]
  | c :: cs =>
      match Switch.ofLetter? c with
      | none => misused switch (String.ofList (c :: cs))
      | some next =>
          match bundle next cs with
          | switches more => switches (switch :: more)
          | other => other

/-- What follows the letter of a switch in the same argument. An equals sign in front of more letters
    may be left out; with nothing after it, it gives an empty value. -/
def short (switch : Switch) : List Char → Argument
  | ['='] => misused switch ""
  | '=' :: letters => bundle switch letters
  | letters => bundle switch letters

/-- Whether a text is digits, perhaps after a point and more digits. -/
def isUnsignedNumber (text : List Char) : Bool :=
  let whole := text.takeWhile Text.isDecimalDigit
  match text.drop whole.length with
  | [] => !whole.isEmpty
  | '.' :: fraction => !fraction.isEmpty && fraction.all Text.isDecimalDigit
  | _ => false

/-- Whether a text after its hyphen makes a negative number, perhaps with a line end after it. -/
def isNumber (text : List Char) : Bool :=
  isUnsignedNumber (if text.getLast? == some '\n' then text.dropLast else text)

/-- An argument that begins with a hyphen and names no switch: a negative number and a text with a
    space are files all the same. -/
def nameless (text : List Char) : Argument :=
  if isNumber (text.drop 1) || text.contains ' ' then file (String.ofList text)
  else unknown (String.ofList text)

/-- An argument that begins with two hyphens. Any beginning of a name that fits one switch alone
    will do. -/
def long (text : List Char) : Except UsageError Argument :=
  let name := text.takeWhile (· != '=')
  match Switch.startingWith (String.ofList name) with
  | [] => .ok (nameless text)
  | [switch] =>
      match text.drop name.length with
      | [] => .ok (switches [switch])
      | _ :: value => .ok (misused switch (String.ofList value))
  | candidates => .error (.ambiguous (String.ofList text) candidates)

/-- An argument before any separator. -/
def ofText (text : String) : Except UsageError Argument :=
  match text.toList with
  | ['-', '-'] => .ok separator
  | '-' :: '-' :: cs => long ('-' :: '-' :: cs)
  | '-' :: c :: cs =>
      match Switch.ofLetter? c with
      | some switch => .ok (short switch cs)
      | none => .ok (nameless ('-' :: c :: cs))
  | _ => .ok (file text)

/-- The forms of all arguments. -/
def ofTexts : List String → Except UsageError (List Argument)
  | [] => .ok []
  | t :: ts => do
      match ← ofText t with
      | separator => return separator :: ts.map file
      | argument => return argument :: (← ofTexts ts)

end Argument

/-! ## Effects of arguments -/

/-- Where reading the file arguments stands. -/
inductive Phase where
  | before
  | inside
  | after
deriving DecidableEq

/-- What is asked for. -/
structure Request where
  options : Options
  files : List String
deriving DecidableEq

/-- Why there is nothing to check. -/
inductive Stop where
  | help
  | wrong (error : UsageError)
deriving DecidableEq

/-- What the arguments so far add up to. -/
structure Intake where
  options : Options
  phase : Phase
  files : List String
  strangers : List String

namespace Intake

/-- Before the first argument. -/
def start : Intake := ⟨.none, .before, [], []⟩

/-- One more argument that is not recognised. -/
def refuse (intake : Intake) (text : String) : Intake :=
  { intake with strangers := intake.strangers ++ [text] }

/-- Ends the run of file arguments, if it has begun. -/
def closeRun (intake : Intake) : Intake :=
  { intake with phase := if intake.phase = .inside then .after else intake.phase }

/-- One more file argument. -/
def takeFile (intake : Intake) (text : String) : Intake :=
  if intake.phase = .after then intake.refuse text
  else { intake with phase := .inside, files := intake.files ++ [text] }

/-- The separator belongs to the run of file arguments that it stands in or in front of. -/
def takeSeparator (intake : Intake) (last : Bool) : Intake :=
  match intake.phase with
  | .before => if last then intake.refuse "--" else intake
  | .inside => intake
  | .after => intake.refuse "--"

/-- Lets the arguments take effect from left to right. -/
def run (intake : Intake) : List Argument → Except Stop Intake
  | [] => .ok intake
  | .file text :: rest => run (intake.takeFile text) rest
  | .separator :: rest => run (intake.takeSeparator rest.isEmpty) rest
  | .unknown text :: rest => run (intake.closeRun.refuse text) rest
  | .misused switch value :: _ => .error (.wrong (.ignoredValue switch value))
  | .switches switches :: rest =>
      if switches.contains .help then .error .help
      else
        let next := intake.closeRun
        run { next with options := switches.foldl Options.set next.options } rest

/-- What is asked for in the end. -/
def request (intake : Intake) : Except Stop Request :=
  if intake.files.isEmpty then .error (.wrong .noFiles)
  else if intake.strangers.isEmpty then .ok ⟨intake.options, intake.files⟩
  else .error (.wrong (.unrecognized intake.strangers))

end Intake

/-- Reads a command line. -/
def parseArguments (texts : List String) : Except Stop Request := do
  let arguments ← (Argument.ofTexts texts).mapError Stop.wrong
  (← Intake.start.run arguments).request

end ShellFront.CommandLine
