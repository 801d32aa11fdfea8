import ShellFront.Names.Event

/-!
# Tables of bindings

The outcome of name resolution: the bindings and the scopes in the order in which they came up, and
the references, each with the index of the binding that it denotes. There is one reference for each
place: a later one at an equal span takes the place of the earlier one.

## Contents
- `Binding`, `Scope`, `Reference`, `Table`.
- `Table.addBinding`, `Table.addScope`, `Table.addReference`.
- Questions: `reference?`, `definition?`, `unresolved`, `referencesTo`, `named`.
-/

namespace ShellFront

/-- A definition of a name. -/
structure Binding where
  kind : BindingKind
  name : String
  site : Site
  scope : Nat
deriving DecidableEq

/-- A scope; only a module has no scope around it. -/
structure Scope where
  kind : ScopeKind
  parent : Option Nat
  span : Span
deriving DecidableEq

/-- A use of a name, and the index of the binding that it denotes. -/
structure Reference where
  role : Role
  name : String
  site : Site
  binding : Option Nat
deriving DecidableEq

/-- Bindings, scopes and references, each in the order in which they came up. -/
structure Table where
  bindings : Array Binding
  scopes : Array Scope
  references : Array Reference
deriving DecidableEq

namespace Table

/-- Nothing yet. -/
def empty : Table := ⟨#[], #[], #[]⟩

/-- One more binding. -/
def addBinding (table : Table) (b : Binding) : Table :=
  { table with bindings := table.bindings.push b }

/-- One more scope. -/
def addScope (table : Table) (s : Scope) : Table :=
  { table with scopes := table.scopes.push s }

/-- A reference takes the place of one at an equal span, and comes last if there is none. -/
def addReference (table : Table) (r : Reference) : Table :=
  { table with
    references :=
      match table.references.findIdx? (fun old => old.site.span == r.site.span) with
      | some i => table.references.setIfInBounds i r
      | none => table.references.push r }

/-- The reference at a place. -/
def reference? (table : Table) (span : Span) : Option Reference :=
  table.references.find? (fun r => r.site.span == span)

/-- The node that defines what the reference at a place denotes. -/
def definition? (table : Table) (span : Span) : Option Site := do
  let r ← table.reference? span
  let b ← table.bindings[← r.binding]?
  return b.site

/-- The references that denote nothing. -/
def unresolved (table : Table) : List Reference :=
  table.references.toList.filter (fun r => r.binding.isNone)

/-- The references to a binding. -/
def referencesTo (table : Table) (binding : Nat) : List Reference :=
  table.references.toList.filter (fun r => r.binding == some binding)

/-- The bindings of a name. -/
def named (table : Table) (name : String) : List Binding :=
  table.bindings.toList.filter (fun b => b.name == name)

end Table

end ShellFront
