import ShellFront.Text.Quoted

/-!
# Files

Reading a file can fail for a few reasons, which are told with the number and the words that the
system has for them. A `Folder` is a folder of text files held as a value.

## Contents
- `normalizePath`, a path without idle parts.
- `FileError` and its wording.
- `Folder`, `Folder.system`, `Folder.read`.
-/

namespace ShellFront.CommandLine

/-! ## Paths -/

/-- What a path begins with: nothing, a slash, or exactly two of them. -/
def pathRoot (path : String) : String :=
  match (path.toList.takeWhile (· == '/')).length with
  | 0 => ""
  | 2 => "//"
  | _ => "/"

/-- The parts of a path between slashes, without empty ones and single dots. -/
def pathParts (path : String) : List String :=
  (path.splitOn "/").filter (fun part => part != "" && part != ".")

/-- A path without idle parts. -/
def normalizePath (path : String) : String :=
  let shown := pathRoot path ++ "/".intercalate (pathParts path)
  if shown.isEmpty then "." else shown

/-! ## Errors -/

/-- Why a file cannot be read: the number and the words of the system, and the path. -/
structure FileError where
  code : Nat
  reason : String
  path : String
deriving DecidableEq

namespace FileError

/-- There is no such file. -/
def notFound (path : String) : FileError := ⟨2, "No such file or directory", path⟩

/-- The path goes through a file. -/
def notDirectory (path : String) : FileError := ⟨20, "Not a directory", path⟩

/-- The path leads to a folder. -/
def isDirectory (path : String) : FileError := ⟨21, "Is a directory", path⟩

/-- The path is longer than the system allows. -/
def nameTooLong (path : String) : FileError := ⟨36, "File name too long", path⟩

/-- The wording of an error. -/
def message (e : FileError) : String :=
  s!"[Errno {e.code}] {e.reason}: {Text.quote (normalizePath e.path)}"

end FileError

/-! ## Folders -/

/-- A folder of text files, by their paths within it. It may have further folders without files, and
    it may be the root of the system, which is its own parent. -/
structure Folder where
  files : List (String × String)
  folders : List String
  isRoot : Bool

namespace Folder

/-- A folder that holds only files and the folders that they are in. -/
def ofFiles (files : List (String × String)) : Folder := ⟨files, [], false⟩

/-- What every system has at its root: some folders and a file that is always empty. -/
def system : Folder where
  files := [("dev/null", "")]
  folders :=
    [ "bin", "boot", "dev", "etc", "home", "lib", "media", "mnt", "opt", "proc", "root", "run",
      "sbin", "srv", "sys", "tmp", "usr", "var" ]
  isRoot := true

/-- The text of the file at a place. -/
def file? (folder : Folder) (place : List String) : Option String :=
  (folder.files.find? (fun f => pathParts f.1 == place)).map Prod.snd

/-- Whether there is a folder at a place. -/
def hasFolder (folder : Folder) (place : List String) : Bool :=
  place.isEmpty || folder.folders.any (fun f => place.isPrefixOf (pathParts f)) ||
    folder.files.any fun f =>
      place.isPrefixOf (pathParts f.1) && place.length < (pathParts f.1).length

/-- Follows the parts of a path in the folders around a folder, of which nothing is known but that
    they exist. -/
def followOutside (path : String) : List String → Except FileError String
  | [] => .error (.isDirectory path)
  | part :: parts =>
      if part = ".." then followOutside path parts
      else .error (if 255 < part.utf8ByteSize then .nameTooLong path else .notFound path)

/-- Follows the parts of a path from a place; the path is the one that errors show. -/
def follow (folder : Folder) (path : String) (place : List String) :
    List String → Except FileError String
  | [] =>
      match folder.file? place with
      | some text => .ok text
      | none => .error (.isDirectory path)
  | part :: parts =>
      if (folder.file? place).isSome then .error (.notDirectory path)
      else if part = ".." then
        if place.isEmpty && !folder.isRoot then followOutside path parts
        else follow folder path place.dropLast parts
      else if 255 < part.utf8ByteSize then .error (.nameTooLong path)
      else
        let next := place ++ [part]
        if (folder.file? next).isSome || folder.hasFolder next then follow folder path next parts
        else .error (.notFound path)

/-- The text of the file at a path, which begins at the root of the system or in the folder. -/
def read (folder : Folder) (path : String) : Except FileError String :=
  if 4095 < (normalizePath path).utf8ByteSize then .error (.nameTooLong path)
  else
    let start := if (pathRoot path).isEmpty then folder else system
    start.follow path [] (pathParts path)

end Folder

end ShellFront.CommandLine
