import Mathlib.Data.List.Forall2
import ShellFront.Names.Table
import ShellFront.Proofs.Tree.Outlined

/-!
# The rules of scoping

Which names a program defines and uses, which scopes are in force where it does so, and in which order all of this
takes effect can be read off its tree, without running anything. A node is found by the way to it from the program:
which child to go to, and which child of that, and so on.

Below a node, decorators and the value of an assignment come first. Then come the children in the scope around the node,
and last, if the node opens a scope, those in its own scope. The name of a function, a macro, an object or an
enumeration is bound right after the decorators; the names of all other definitions are bound after everything in them.
The names of parameters are bound in the scope that their callable opens, before anything else there, but the values
that they fall back to stand in the scope around the callable.

## Contents
- `Outline.opening?` and `Phase`: what opens scopes, and when children are visited.
- `Outline.own?`, `Outline.effect?`: what a node does to names, by itself or below another one.
- `Outline.does?`, `Outline.scopesAt`, `Outline.time`: what is done at the end of a way, in which scopes, and when.
- `Outline.Sees`: which definitions are seen from where.
- `Outline.Accords`: the scopes and bindings of a table are those of a tree.
-/

namespace ShellFront

namespace Outline

/-! ## Scopes and phases -/

/-- The node of an outline as a place that defines or uses a name. -/
def site (t : Outline) : Site := ⟨t.kind, t.span⟩

/-- The scope that a node opens, and its place. -/
def opening? (t : Outline) : Option (ScopeKind × Span) :=
  match t.kind with
  | .program => some (.module, t.span)
  | .functionDefinition => some (.function, t.span)
  | .macroDefinition => some (.macroBody, t.span)
  | .closure => some (.closure, t.span)
  | .lambdaExpr => some (.lambda, t.span)
  | .testDefinition => some (.test, t.span)
  | .objectDefinition => some (.object, t.span)
  | .matchArm => some (.matchArm, t.span)
  | .forStatement => t.children.getLast?.map fun body => (.forBody, body.span)
  | .tryStatement => t.children.getLast?.map fun handler => (.handler, handler.span)
  | _ => none

end Outline

/-- When a child of a node is visited: before the name of the node is bound, in the scope around the node, or inside the
    scope that the node opens. -/
inductive Phase where
  | before
  | around
  | inside
deriving DecidableEq

/-- Phases come in this order. The names of functions and the like are bound at 1, those of parameters at 3, and all
    other names at 5. -/
def Phase.rank : Phase → Nat
  | before => 0
  | around => 2
  | inside => 4

/-- Whether nodes of a kind bind their name before their own parts. -/
def NodeKind.bindsEarly : NodeKind → Bool
  | functionDefinition | macroDefinition | objectDefinition | enumDefinition => true
  | _ => false

namespace Outline

/-- When the child of a node at an index is visited. -/
def phase (t : Outline) (i : Nat) (u : Outline) : Phase :=
  match t.kind with
  | .program | .matchArm => .inside
  | .functionDefinition | .macroDefinition | .testDefinition | .closure | .lambdaExpr =>
      if u.kind = .decorator then .before else if u.kind = .block then .inside else .around
  | .objectDefinition =>
      if u.kind = .decorator then .before
      else if u.kind = .functionDefinition ∨ u.kind = .objectField then .inside else .around
  | .aliasDefinition | .enumDefinition => if u.kind = .decorator then .before else .around
  | .variableAssignment => if i = 0 then .around else .before
  | .forStatement => if i = 1 then .around else .inside
  | .tryStatement => if i = 0 then .around else .inside
  | _ => .around

/-! ## Names -/

/-- The name that a node has among its attributes. -/
def name? (t : Outline) : Option String :=
  match t.attributes.lookup "name" with
  | some (.text name) => some name
  | _ => none

/-- The name that a node uses: of a qualified name, the namespace. -/
def usedName? (t : Outline) : Option String :=
  match t.attributes.lookup "namespace" with
  | some (.text name) => some name
  | _ => t.name?

/-- The last name of a module path. -/
def lastSegment? (t : Outline) : Option String :=
  match t.attributes.lookup "segments" with
  | some (.texts names) => names.getLast?
  | _ => none

/-- The name that a definition begins with, after its decorators. -/
def title? (t : Outline) : Option String := (t.children.find? fun u => u.kind = .identifier).bind name?

/-- What a node is defined as, and under which name, wherever it stands. -/
def own? (t : Outline) : Option (BindingKind × String) :=
  match t.kind with
  | .letStatement => t.title?.map (.variableName, ·)
  | .functionDefinition => t.title?.map (.function, ·)
  | .macroDefinition => t.title?.map (.macroName, ·)
  | .aliasDefinition => t.title?.map (.aliasName, ·)
  | .objectDefinition => t.title?.map (.object, ·)
  | .enumDefinition => t.title?.map (.enumeration, ·)
  | .bindingPattern | .restPattern => t.name?.map (.variableName, ·)
  | .patternField => (t.children.getLast?.bind name?).map (.variableName, ·)
  | .importItem => (t.children.getLast?.bind name?).map (.importName, ·)
  | .useStatement => (t.children.head?.bind lastSegment?).map (.importName, ·)
  | .sourceStatement => (t.children[1]?.bind name?).map (.importName, ·)
  | _ => none

/-- What a node binds the name of its child at an index as: parameters in callables, the variable of a `for`, and the
    name of an error. -/
def binds? (t : Outline) (i : Nat) (u : Outline) : Option BindingKind :=
  if u.kind = .parameter ∧ t.opening?.isSome then some .parameter
  else if t.kind = .forStatement ∧ i = 0 then some .variableName
  else if t.kind = .tryStatement ∧ u.kind = .identifier then some .variableName
  else none

/-- The role of a node that stands below another one at an index. The variable of a `for` and that of a field of
    a pattern are bound there, not used; a bare name is used as a callee and as the name of a type. -/
def role? (t : Outline) (i : Nat) (u : Outline) : Option Role :=
  match u.kind with
  | .variableName =>
      if t.kind = .patternField ∨ (t.kind = .forStatement ∧ i = 0) then none else some .variableName
  | .commandName | .builtinCommand => some .command
  | .identifier =>
      if t.kind = .call ∧ i = 0 then some .call
      else if (t.kind = .objectConstruction ∨ t.kind = .typedRecordPattern) ∧ i = 0 then some .typeName
      else none
  | _ => none

/-- The plain assignment that a node is the target of when it stands at an index. -/
def assignment? (t : Outline) (i : Nat) : Option Site :=
  if t.kind = .variableAssignment ∧ t.attributes = [("op", .text "=")] ∧ i = 0 then some t.site else none

/-- What a node does to its name below another one at an index. -/
def effect? (t : Outline) (i : Nat) (u : Outline) : Option Event :=
  match t.binds? i u, t.role? i u with
  | some kind, _ => u.name?.map fun name => .define kind name u.site
  | none, some role =>
      u.usedName?.map fun name =>
        match t.assignment? i with
        | some statement => .assign name statement u.site
        | none => .use role name u.site
  | none, none => none

/-- Whether anything below the child of a node at an index is visited. There is nothing below names, and the parameters
    of closures have nothing to fall back to. -/
def goesOn (t : Outline) (i : Nat) (u : Outline) : Bool :=
  (t.effect? i u).isNone || (u.kind = .parameter && t.kind ≠ .closure)

/-! ## Ways -/

/-- What is done to names at the end of a way. -/
def does? : List Nat → Outline → Option Event
  | [], t => t.own?.map fun (kind, name) => .define kind name t.site
  | i :: way, t =>
      t.children[i]?.bind fun u =>
        match way, t.effect? i u with
        | [], some e => some e
        | _, _ => if t.goesOn i u then does? way u else none

/-- The scopes in force for what is done at the end of a way, innermost first, each given by the way to the node that
    opens it. -/
def scopesAt : List Nat → Outline → List (List Nat)
  | [], _ => []
  | i :: way, t =>
      match t.children[i]? with
      | none => []
      | some u =>
          if way = [] ∧ u.kind = .parameter then [[]]
          else (scopesAt way u).map (i :: ·) ++ if t.phase i u = .inside then [[]] else []

/-- When something is done at the end of a way. What is done at two places is done in the order of these lists, as words
    are ordered: it depends on the first node where the ways part. -/
def time : List Nat → Outline → List Nat
  | [], t => [if t.kind.bindsEarly then 1 else 5]
  | i :: way, t =>
      match t.children[i]? with
      | none => []
      | some u =>
          if way = [] ∧ u.kind = .parameter then [3, i] else (t.phase i u).rank :: i :: time way u

/-- What is defined at one place is **seen** from another one: it is defined before, and in a scope that is in force. -/
def Sees (root : Outline) (place definer : List Nat) : Prop :=
  root.time definer < root.time place ∧ ∃ scope ∈ (root.scopesAt definer).head?, scope ∈ root.scopesAt place

end Outline

/-- The definition that an event makes, if it makes one: as what, under which name and at which node. -/
def Event.definition? : Event → Option (BindingKind × String × Site)
  | .define kind name site => some (kind, name, site)
  | .assign name statement _ => some (.variableName, name, statement)
  | .use .. | .scope .. => none

/-- The use of a name that an event makes, if it makes one. -/
def Event.usage? : Event → Option (Role × String × Site)
  | .use role name site => some (role, name, site)
  | .assign name _ target => some (.variableName, name, target)
  | .define .. | .scope .. => none

/-- The scope that an event opens by itself. -/
def Event.opening? : Event → Option (ScopeKind × Span)
  | .scope kind span _ => some (kind, span)
  | .define .. | .use .. | .assign .. => none

/-! ## Trees and tables -/

namespace Outline

/-- The name that is defined at the end of a way. -/
def definedName? (root : Outline) (place : List Nat) : Option String :=
  ((root.does? place).bind Event.definition?).map fun (_, name, _) => name

/-- Whether a name is bound at the end of a way, where `definers` are the places at which names are bound. A plain
    assignment binds its target unless it sees a binding of that name. -/
def Defines (root : Outline) (definers : List (List Nat)) (place : List Nat) : Prop :=
  match root.does? place with
  | some (.define ..) => True
  | some (.assign name ..) => ∀ definer ∈ definers, root.Sees place definer → root.definedName? definer ≠ some name
  | some (.use ..) | some (.scope ..) | none => False

/-- A table **accords** with a tree: its scopes are those that the nodes at `openers` open, and its bindings are made
    at `definers`, one after the other. -/
structure Accords (root : Outline) (table : Table) (openers definers : List (List Nat)) : Prop where
  distinct : openers.Nodup
  /-- A scope has the kind and the place that its node gives it, and lies in the innermost scope in force there. -/
  scopes : List.Forall₂ (fun place (s : Scope) =>
    (root.at? place).bind opening? = some (s.kind, s.span) ∧
      s.parent.map (openers[·]?) = (root.scopesAt place).head?.map some) openers table.scopes.toList
  ordered : definers.Pairwise (root.time · < root.time ·)
  /-- A binding is of the kind, under the name and at the node that its place says, in the innermost scope in force
      there. -/
  bindings : List.Forall₂ (fun place (b : Binding) =>
    (root.does? place).bind Event.definition? = some (b.kind, b.name, b.site) ∧
      ∃ scope, (root.scopesAt place).head? = some scope ∧ openers[b.scope]? = some scope)
    definers table.bindings.toList
  /-- Names are bound wherever the tree defines them, and nowhere else. -/
  complete : ∀ place, place ∈ definers ↔ root.Defines definers place

end Outline

end ShellFront
