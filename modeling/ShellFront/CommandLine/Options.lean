/-!
# Options of the command line

The switches of the checker, how they are spelled, and what they set.

## Contents
- `Switch` with its spellings and its line in the help text.
- `Options`, `Options.set`.
- `usageLines` and `helpLines`.
-/

namespace ShellFront.CommandLine

/-- A switch of the command line. None of them takes a value. -/
inductive Switch where
  | help
  | failFast
  | noWarnings
  | tokens
  | tree
  | verbose
deriving DecidableEq

namespace Switch

/-- All switches. -/
def all : List Switch := [help, failFast, noWarnings, tokens, tree, verbose]

/-- The letter of a switch, after one hyphen. -/
def letter? : Switch → Option Char
  | help => some 'h'
  | verbose => some 'v'
  | failFast | noWarnings | tokens | tree => none

/-- The name of a switch, with its two hyphens. -/
def longName : Switch → String
  | help => "--help"
  | failFast => "--fail-fast"
  | noWarnings => "--no-warnings"
  | tokens => "--tokens"
  | tree => "--tree"
  | verbose => "--verbose"

/-- The ways to spell a switch, the short one first. -/
def spellings (s : Switch) : List String :=
  (s.letter?.map fun c => String.ofList ['-', c]).toList ++ [s.longName]

/-- A switch as messages name it. -/
def label (s : Switch) : String := "/".intercalate s.spellings

/-- What a switch is for. -/
def purpose : Switch → String
  | help => "show this help message and exit"
  | failFast => "stop at the first syntax error"
  | noWarnings => "report errors only"
  | tokens => "print the token stream"
  | tree => "print the syntax tree"
  | verbose => "more logging"

/-- The switch with a letter. -/
def ofLetter? (c : Char) : Option Switch := all.find? (fun s => s.letter? == some c)

/-- The switches whose names begin with a text. -/
def startingWith (text : String) : List Switch :=
  all.filter (fun s => text.toList.isPrefixOf s.longName.toList)

end Switch

/-- What the switches set. -/
structure Options where
  failFast : Bool
  noWarnings : Bool
  tokens : Bool
  tree : Bool
  verbosity : Nat
deriving DecidableEq

namespace Options

/-- No switch is given. -/
def none : Options := ⟨false, false, false, false, 0⟩

/-- Sets a switch. -/
def set (o : Options) : Switch → Options
  | .help => o
  | .failFast => { o with failFast := true }
  | .noWarnings => { o with noWarnings := true }
  | .tokens => { o with tokens := true }
  | .tree => { o with tree := true }
  | .verbose => { o with verbosity := o.verbosity + 1 }

end Options

/-! ## Help -/

/-- How the command is used, in lines. -/
def usageLines : List String :=
  [ "usage: apxlib [-h] [--fail-fast] [--no-warnings] [--tokens] [--tree] [-v]",
    "              files [files ...]" ]

/-- A line of help: a name in the left column and its purpose in the right one. -/
def helpLine (name purpose : String) : String :=
  let gap := String.ofList (List.replicate (15 - name.length) ' ')
  s!"  {name}{gap}{purpose}"

/-- The help text, in lines. -/
def helpLines : List String :=
  usageLines ++
    [ "", "Check ApX scripts for errors.", "", "positional arguments:",
      helpLine "files" "script files to check ('-' for stdin)", "", "options:" ] ++
    Switch.all.map fun s => helpLine (", ".intercalate s.spellings) s.purpose

end ShellFront.CommandLine
