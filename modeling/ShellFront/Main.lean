import ShellFront.CommandLine.Check
import ShellFront.Vocabulary.Standard

/-!
# The command

Reads the files that the command line names and writes what the checker has to say.
-/

open ShellFront CommandLine

/-- What the system says about a file that cannot be read. -/
def fileError (path : String) : IO.Error → FileError
  | .noFileOrDirectory _ _ _ => .notFound path
  | .inappropriateType _ 20 _ => .notDirectory path
  | .inappropriateType _ _ _ => .isDirectory path
  | e => ⟨5, toString e, path⟩

/-- Reads a file. -/
def readPath (path : String) : IO (Except FileError String) := do
  try
    return .ok (← IO.FS.readFile path)
  catch e =>
    return .error (fileError path e)

/-- Checks the scripts that the command line names. -/
def main (arguments : List String) : IO UInt32 := do
  let files := match parseArguments arguments with
    | .ok request => request.files
    | .error _ => []
  let named := files.filter (· != "-")
  let contents ← named.mapM fun path => do return (path, ← readPath path)
  let input ← if files.contains "-" then (← IO.getStdin).readToEnd else pure ""
  let read (path : String) : Except FileError String :=
    (contents.lookup path).getD (.error (.notFound path))
  match run arguments Vocabulary.standard.isBuiltin read input with
  | .ok outcome =>
      IO.print outcome.output
      IO.eprint outcome.errors
      return outcome.status.toUInt32
  | .error failure =>
      IO.eprintln failure.message
      return 1
