import Std.Data.HashMap

/-!
# Vocabularies of built-in commands

A `Vocabulary` lists commands by category. A command that several categories list belongs to the
first of them.

## Contents
- `CommandCategory`, `Vocabulary`.
- `Vocabulary.table`, in which categories are looked up.
- `Vocabulary.category?`, `Vocabulary.isBuiltin`.
- `Vocabulary.commands`, all commands with their categories in the order of their names.
-/

namespace ShellFront

/-- Commands that belong together. -/
structure CommandCategory where
  name : String
  commands : List String
deriving DecidableEq

/-- Enters the commands of a category into a table. Those that are in it already keep their category. -/
def CommandCategory.enter (table : Std.HashMap String String) (category : CommandCategory) :
    Std.HashMap String String :=
  category.commands.foldl (fun table command => table.insertIfNew command category.name) table

/-- The built-in commands of one version of the shell. -/
structure Vocabulary where
  version : String
  categories : List CommandCategory
deriving DecidableEq

namespace Vocabulary

/-- The categories of all commands. -/
def table (vocabulary : Vocabulary) : Std.HashMap String String :=
  vocabulary.categories.foldl CommandCategory.enter ∅

/-- The category of a built-in command. -/
def category? (vocabulary : Vocabulary) (command : String) : Option String := vocabulary.table[command]?

/-- Whether a command is built in. -/
def isBuiltin (vocabulary : Vocabulary) (command : String) : Bool := vocabulary.table.contains command

/-- The names of all commands. -/
def names (vocabulary : Vocabulary) : List String := vocabulary.table.keys

/-- All commands with their categories, sorted by name. -/
def commands (vocabulary : Vocabulary) : List (String × String) :=
  (vocabulary.names.mergeSort (fun a b => decide (a ≤ b))).filterMap fun name =>
    (vocabulary.category? name).map fun category => (name, category)

end Vocabulary

end ShellFront
