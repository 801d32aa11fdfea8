import ShellFront.Log
import ShellFront.Names.Table
import ShellFront.Report

/-!
# Name resolution

A `Resolver` goes through the events of a program with the frames of the open scopes, innermost
first. A use denotes what the innermost frame that holds the name says; a use in a role that needs a
definition and has none is reported as a warning.

## Contents
- `Frame`, `Frame.find?`, `lookup?`.
- `Resolver`, `Resolver.run` over events, `Resolver.resolve` over a program.
- `resolve`, the table, the report and the log of one program.
-/

namespace ShellFront

/-! ## Frames -/

/-- The names that an open scope holds so far, newest first. -/
structure Frame where
  scope : Nat
  names : List (String × Nat)

/-- The newest binding of a name in a scope. -/
def Frame.find? (frame : Frame) (name : String) : Option Nat := frame.names.lookup name

/-- The binding that a name denotes: that of the innermost scope which holds one. -/
def lookup? (frames : List Frame) (name : String) : Option Nat :=
  frames.findSome? (fun frame => frame.find? name)

/-! ## The resolver -/

/-- What has been found out so far. -/
structure Resolver where
  table : Table
  report : Report

namespace Resolver

/-- Nothing has been resolved; diagnostics go to the end of a report. -/
def start (report : Report) : Resolver := ⟨.empty, report⟩

/-- A name that is defined nowhere. -/
def unresolvedReference (name : String) (span : Span) : Diagnostic :=
  .warning .unresolvedReference s!"Unresolved reference to '{name}'" span

/-- Defines a name in the innermost scope. -/
def define (resolver : Resolver) (kind : BindingKind) (name : String) (site : Site) :
    List Frame → Resolver × List Frame
  | [] => (resolver, [])
  | frame :: outer =>
      ( { resolver with table := resolver.table.addBinding ⟨kind, name, site, frame.scope⟩ },
        { frame with names := (name, resolver.table.bindings.size) :: frame.names } :: outer )

/-- Records a use of a name and reports it when it needs a definition and has none. -/
def use (resolver : Resolver) (role : Role) (name : String) (site : Site) (frames : List Frame) :
    Resolver :=
  let binding := lookup? frames name
  { table := resolver.table.addReference ⟨role, name, site, binding⟩
    report :=
      if binding.isNone && role.needsDefinition then
        resolver.report.add (unresolvedReference name site.span)
      else resolver.report }

mutual

/-- What an event does. The frames that are given back hold what the event defined. -/
def run (resolver : Resolver) (frames : List Frame) : Event → Resolver × List Frame
  | .define kind name site => resolver.define kind name site frames
  | .use role name site => (resolver.use role name site frames, frames)
  | .assign name statement target =>
      if (lookup? frames name).isNone then resolver.define .variableName name statement frames
      else (resolver.use .variableName name target frames, frames)
  | .scope kind span events =>
      let index := resolver.table.scopes.size
      let entered : Resolver :=
        { resolver with
          table := resolver.table.addScope ⟨kind, frames.head?.map Frame.scope, span⟩ }
      ((runAll entered (⟨index, []⟩ :: frames) events).1, frames)

/-- What events do, one after the other. -/
def runAll (resolver : Resolver) (frames : List Frame) : List Event → Resolver × List Frame
  | [] => (resolver, frames)
  | e :: es =>
      let (next, inner) := run resolver frames e
      runAll next inner es

end

/-- Resolves the names of one more program. -/
def resolve (resolver : Resolver) (program : Program) : Resolver :=
  (resolver.run [] program.event).1

/-- What is told about a program once its names are resolved. -/
def summary (resolver : Resolver) (file : String) : LogEntry :=
  let table := resolver.table
  .resolved file table.bindings.size table.scopes.size table.references.size
    table.unresolved.length

end Resolver

/-- What resolving the names of a program gives. -/
structure Resolution where
  table : Table
  report : Report
  log : Array LogEntry

/-- Resolves the names of a program by itself, with warnings at the end of a report. -/
def resolve (program : Program) (report : Report) : Resolution :=
  let resolver := (Resolver.start report).resolve program
  ⟨resolver.table, resolver.report, #[resolver.summary program.file]⟩

end ShellFront
