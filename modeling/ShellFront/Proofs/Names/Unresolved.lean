import ShellFront.Proofs.Names.Warnings

/-!
# Warnings are the unresolved references

A warning is given when a name is used; the unresolved references are read off the table at the end. The two agree, in
order, since in a program that was read no reference takes the place of another: the table holds the references
of all moments, each as it was made.

## Contents
- `parse_recorded`: the table of a program holds the references of its moments.
- `Reference.warning?`, `Moment.warning?_eq`: warnings are given for references.
- `resolve_warnings_unresolved`.
-/

namespace ShellFront

open Outline

/-! ## The references of a program -/

/-- The use that a moment tells of stands at the place of the reference that it makes. -/
theorem Moment.nameUse?_of_reference? {m : Moment} {r : Reference} (h : m.reference? = some r) :
    ∃ u, m.event.nameUse? = some u ∧ u.site = r.site := by
  obtain ⟨resolver, frames, event⟩ := m
  cases event with
  | define | scope => exact nomatch h
  | use role name site =>
      obtain rfl := Option.some.inj h
      exact ⟨_, rfl, rfl⟩
  | assign name statement target =>
      obtain ⟨i, -, rfl⟩ := Option.map_eq_some_iff.mp h
      exact ⟨_, rfl, rfl⟩

/-- The names that a program uses stand at places of their own. -/
theorem parse_uses_nodup (source file : String) (failFast : Bool) (isBuiltin : String → Bool) :
    let program := (parse source file failFast isBuiltin).program
    ((Event.allNameUses (Node.allEvents program.statements)).map fun u => u.site.span).Nodup := by
  intro program
  have hplain : program.outline.usesBelow = uses (Node.outlines program.statements) := usesFrom_plain rfl
  have hinOrder : InOrder program.outline.usesBelow program.span.start program.span.stop :=
    parse_inOrder source file failFast isBuiltin
  have hperm : (Event.allNameUses (Node.allEvents program.statements)).Perm program.outline.usesBelow :=
    hplain ▸ (parse_tells source file failFast isBuiltin).uses
  exact (hperm.map fun u => u.site.span).nodup_iff.mpr hinOrder.spans_nodup

/-- **The references of a program are those of its moments**, in order, and no two of them share a place. -/
theorem parse_recorded (source file : String) (failFast : Bool) (isBuiltin : String → Bool) (report : Report) :
    let program := (parse source file failFast isBuiltin).program
    let references := ((Resolver.start report).moments [] program.event).filterMap Moment.reference?
    (resolve program report).table.references.toList = references ∧
      (references.map fun r => r.site.span).Nodup := by
  intro program references
  have hmoments : ((Resolver.start report).moments [] program.event).filterMap (fun m => m.event.nameUse?) =
      Event.allNameUses (Node.allEvents program.statements) :=
    Resolver.moments_nameUses (.start report) [] program.event
  have hplaces : (references.map fun r => r.site.span).Nodup := by
    have huses := parse_uses_nodup source file failFast isBuiltin
    dsimp only at huses
    rw [← hmoments] at huses
    -- two moments with references at one place have uses there
    have hpairwise := List.pairwise_filterMap.mp (List.pairwise_map.mp huses)
    refine List.pairwise_map.mpr (List.pairwise_filterMap.mpr (hpairwise.imp fun {m m'} hne r hr r' hr' heq => ?_))
    obtain ⟨u, hu, hsite⟩ := Moment.nameUse?_of_reference? hr
    obtain ⟨u', hu', hsite'⟩ := Moment.nameUse?_of_reference? hr'
    rw [← hsite, ← hsite'] at heq
    exact hne u hu u' hu' heq
  exact ⟨((Resolver.start report).moments_lead [] program.event).recorded hplaces, hplaces⟩

/-! ## Warnings -/

/-- The warning about a reference: it denotes nothing, and has a role that needs a definition. -/
def Reference.warning? (r : Reference) : Option Diagnostic :=
  if r.binding.isNone && r.role.needsDefinition then some (Resolver.unresolvedReference r.name r.site.span) else none

/-- A moment gives the warning about the reference that it makes. -/
theorem Moment.warning?_eq (m : Moment) : m.warning? = m.reference?.bind Reference.warning? := by
  obtain ⟨resolver, frames, event⟩ := m
  cases event with
  | define | scope | use => rfl
  | assign name statement target =>
      -- the target is looked up only if it is visible
      show none = ((lookup? frames name).map _).bind _
      cases lookup? frames name <;> rfl

/-- All roles but that of a command need a definition. -/
theorem Role.needsDefinition_eq (role : Role) : role.needsDefinition = decide (role ≠ .command) := by
  cases role <;> rfl

/-- The references of a table that are warned about are the unresolved ones that are no commands. -/
theorem Table.filterMap_warning? (table : Table) :
    table.references.toList.filterMap Reference.warning? =
      (table.unresolved.filter fun r => r.role ≠ .command).map
        fun r => Resolver.unresolvedReference r.name r.site.span := by
  rw [unresolved, List.filter_filter, ← List.filterMap_eq_filter, List.map_filterMap]
  refine List.filterMap_congr fun r _ => ?_
  rw [Reference.warning?, Role.needsDefinition_eq, Bool.and_comm, Option.guard]
  split <;> rfl

/-- **Warnings and unresolved references correspond one to one.** For a program that was read, the resolver adds to the
    report just one warning for each unresolved reference that is no command, with its name and its place, in the
    order of the references; whether there are errors stays as it was. -/
theorem resolve_warnings_unresolved (source file : String) (failFast : Bool) (isBuiltin : String → Bool)
    (report : Report) :
    let program := (parse source file failFast isBuiltin).program
    let resolution := resolve program report
    ∃ warnings, resolution.report.toList = report.toList ++ warnings ∧
      (∀ d ∈ warnings, d.severity = .warning ∧ d.category = .unresolvedReference) ∧
      (warnings.map fun d => (d.message, d.span)) =
        (resolution.table.unresolved.filter fun r => r.role ≠ .command).map
          (fun r => (s!"Unresolved reference to '{r.name}'", some r.site.span)) ∧
      resolution.report.hasErrors = report.hasErrors := by
  obtain ⟨hreferences, -⟩ := parse_recorded source file failFast isBuiltin report
  intro program resolution
  have hreport := Resolver.run_reported (.start report) [] program.event
  -- moment by moment, what warns is what leaves a reference without a binding
  have hwarnings : ((Resolver.start report).moments [] program.event).filterMap Moment.warning? =
      (resolution.table.unresolved.filter fun r => r.role ≠ .command).map
        fun r => Resolver.unresolvedReference r.name r.site.span := by
    rw [← Table.filterMap_warning?, hreferences, List.filterMap_filterMap]
    exact List.filterMap_congr fun m _ => m.warning?_eq
  rw [hwarnings] at hreport
  refine ⟨_, hreport, fun d hd => ?_, ?_, ?_⟩
  · obtain ⟨r, -, rfl⟩ := List.mem_map.mp hd
    exact ⟨rfl, rfl⟩
  · rw [List.map_map]
    rfl
  · show Array.any _ _ = Array.any _ _
    rw [← Array.any_toList, ← Array.any_toList]
    have hquiet : ∀ rs : List Reference, (rs.map fun r => Resolver.unresolvedReference r.name r.site.span).any
        (fun d => d.severity == .error) = false := by
      intro rs
      rw [List.any_map]
      exact List.any_eq_false.mpr fun r _ => nofun
    rw [show resolution.report.entries.toList = _ from hreport, List.any_append, hquiet, Bool.or_false]
    rfl

/-- In `ls $x` neither name is defined, but a command need not be. -/
example :
    let resolution := resolve (parse "ls $x" "a" true fun _ => false).program .empty
    resolution.table.unresolved.map Reference.name = ["ls", "x"] ∧
      resolution.report.toList.map Diagnostic.message = ["Unresolved reference to 'x'"] := by
  decide +kernel

end ShellFront
