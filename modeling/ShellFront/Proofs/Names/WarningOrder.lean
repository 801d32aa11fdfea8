import ShellFront.Proofs.Names.Warnings
import ShellFront.Proofs.Parse.ReportOrder

/-!
# The order of warnings

The resolver goes through a program in the order of the source, but for one construct: it comes to the target of an
assignment after the value, which is right for a plain assignment because the target may be defined there. An
assignment like `$x += $y` defines nothing, and is treated in the same way; it is the only place where a warning is
followed by one that stands before it.

## Contents
- `Outline.Updates`: an assignment with a warning in its value and one at its target.
- `Outline.uses_inside`, `Outline.Assigns.start_lt`: where uses stand.
- `resolve_warnings_ordered`, and `resolve_warnings_swapped`, where the order is lost.
-/

namespace ShellFront

open Outline

/-- A node is an assignment with an operator of its own, such as `+=`: one diagnostic is within its value, and
    another one at its target. -/
structure Outline.Updates (t : Outline) (d d' : Diagnostic) : Prop where
  kind : t.kind = .variableAssignment
  operator : t.attributes ≠ [("op", .text "=")]
  parts : ∃ target value, t.children = [target, value] ∧ d'.span = some target.span ∧
    ∃ span, d.span = some span ∧ value.span.start ≤ span.start ∧ span.stop ≤ value.span.stop

/-- The statements of a program that was read stand over tokens. -/
theorem parse_seated (source file : String) (failFast : Bool) (isBuiltin : String → Bool) :
    ∃ s : Script, ∀ t ∈ Node.outlines (parse source file failFast isBuiltin).program.statements, t.Seated s .nothing := by
  obtain ⟨s, htokens, -⟩ := tokenize_script source file
  obtain ⟨-, -, hstands⟩ := parse_laid htokens failFast isBuiltin (w := .nothing) fun _ => .inl rfl
  refine ⟨s, fun t ht u hu => hstands u (Program.mem_walk_tail.mpr ⟨t, ?_, hu⟩)⟩
  rwa [Node.outlines_eq] at ht

section

variable {s : Script} {w : Watch} {t : Outline} {m m' : NameUse} (hseated : t.Seated s w) (hshaped : t.Everywhere Shaped)

include hseated hshaped

/-- What a node uses, itself or below it, is in its place. -/
theorem Outline.uses_inside (hm : m ∈ uses [t]) :
    t.span.start ≤ m.site.span.start ∧ m.site.span.stop ≤ t.span.stop := by
  rw [uses_cons, uses_nil, List.append_nil, List.mem_append] at hm
  rcases hm with hm | hm
  · have hsite : m.site = t.site := by
      rw [use] at hm
      split at hm <;> first | contradiction | (rw [List.mem_singleton.mp hm])
    rw [hsite]
    exact ⟨Int.le_refl _, Int.le_refl _⟩
  · have hlies := (usesBelow_inOrder t hseated hshaped).lies m hm
    exact ⟨Int.le_trans hlies.lo_le hlies.start_le, hlies.stop_le⟩

/-- The target of an assignment stands before what the value uses. -/
theorem Outline.Assigns.start_lt (h : t.Assigns m m') : m'.site.span.start < m.site.span.start := by
  obtain ⟨hkind, target, value, hchildren, huse, hm⟩ := h
  have hinOrder := usesBelow_inOrder t hseated hshaped
  rw [usesBelow_cons hchildren (by rw [hkind]; decide), huse, Option.toList_some, List.append_assoc] at hinOrder
  have hmem : m ∈ target.usesBelow ++ uses [value] := List.mem_append_right _ hm
  have hle := (List.pairwise_cons.mp hinOrder.ordered).1 m hmem
  have htarget := (hinOrder.lies m' List.mem_cons_self).nonempty
  have hvalue := (hinOrder.lies m (List.mem_cons_of_mem _ hmem)).start_le
  omega

/-- An assignment with a warning about a name in its value, and then about its target, has its own operator. -/
theorem Outline.Assigns.updates {d d' : Diagnostic} (h : t.Assigns m m') (hspan : d.span = some m.site.span)
    (hspan' : d'.span = some m'.site.span) (hplain : m'.assignment = none) : t.Updates d d' := by
  obtain ⟨hkind, target, value, hchildren, huse, hm⟩ := h
  obtain ⟨role, -, rfl⟩ := Option.map_eq_some_iff.mp huse
  refine ⟨hkind, fun hop => ?_, target, value, hchildren, hspan', m.site.span, hspan, ?_⟩
  · rw [assignment?, if_pos ⟨hkind, hop, rfl⟩] at hplain
    contradiction
  · have hmem : value ∈ t.preorder := by
      rw [preorder_eq, hchildren, List.mem_cons]
      exact .inr (mem_preorders.mpr ⟨value, by simp, by rw [preorder_eq]; exact List.mem_cons_self⟩)
    exact uses_inside (hseated.of_mem hmem) (hshaped.of_mem hmem) hm

end

/-- **Warnings come in the order of the source, but for targets of assignments with an operator of their own.** For a
    program that was read, the resolver adds warnings about names that are not defined to the report. Each one
    begins before all later ones, except where the later one is at the target of an assignment such as `+=` and
    the earlier one is within the value: that target is looked up after the value, which it stands before. -/
theorem resolve_warnings_ordered (source file : String) (failFast : Bool) (isBuiltin : String → Bool)
    (report : Report) :
    let program := (parse source file failFast isBuiltin).program
    ∃ warnings, (resolve program report).report.toList = report.toList ++ warnings ∧
      (∀ d ∈ warnings, ∃ name span, d = Resolver.unresolvedReference name span) ∧
      warnings.Pairwise fun d d' => d.Before d' ∨ (d'.Before d ∧ ∃ t ∈ program.outline.walk, t.Updates d d') := by
  obtain ⟨s, hseated⟩ := parse_seated source file failFast isBuiltin
  have htells := parse_tells source file failFast isBuiltin
  intro program
  have huses : program.outline.usesBelow = uses (Node.outlines program.statements) := usesFrom_plain rfl
  have hinOrder : InOrder (uses (Node.outlines program.statements)) program.span.start program.span.stop := by
    rw [← huses]
    exact parse_inOrder source file failFast isBuiltin
  refine ⟨_, Resolver.run_reported (.start report) [] program.event, fun d hd => ?_, ?_⟩
  · obtain ⟨m, -, hwarning⟩ := List.mem_filterMap.mp hd
    obtain ⟨u, name, -, -, hd⟩ := Moment.warning?_place hwarning
    exact ⟨name, u.site.span, hd⟩
  · -- the moments follow one another as the uses that they tell of
    have hfollow : ((Resolver.start report).moments [] program.event).Pairwise fun m m' =>
        ∀ u, m.event.nameUse? = some u → ∀ u', m'.event.nameUse? = some u' →
          Follow (Node.outlines program.statements) u u' := by
      refine List.pairwise_filterMap.mp ?_
      rw [Resolver.moments_nameUses]
      exact htells.ordered
    refine List.pairwise_filterMap.mpr (hfollow.imp fun {m m'} hfollow d hd d' hd' => ?_)
    obtain ⟨u, name, hu, -, rfl⟩ := Moment.warning?_place hd
    obtain ⟨u', name', hu', hplain, rfl⟩ := Moment.warning?_place hd'
    -- either the uses stand in this order in the tree, or they are those of one assignment
    rcases hfollow u hu u' hu' with hsublist | ⟨t, ht, hassigns⟩
    · have hstop : u.site.span.stop ≤ u'.start :=
        (List.pairwise_cons.mp (hinOrder.ordered.sublist hsublist)).1 u' (List.mem_singleton_self u')
      have hnonempty := (hinOrder.lies u (hsublist.subset (by simp))).nonempty
      have hstart := (hinOrder.lies u' (hsublist.subset (by simp))).start_le
      exact .inl ⟨_, _, rfl, rfl, by omega⟩
    · obtain ⟨o, ho, hmem⟩ := mem_preorders.mp ht
      have hseated := (hseated o ho).of_mem hmem
      have hshaped := (htells.shaped o ho).of_mem hmem
      refine .inr ⟨⟨_, _, rfl, rfl, hassigns.start_lt hseated hshaped⟩, t, ?_,
        hassigns.updates hseated hshaped rfl rfl hplain⟩
      rw [Program.walk_eq]
      refine List.mem_cons_of_mem _ (Program.mem_walk_tail.mpr ⟨o, ?_, hmem⟩)
      rwa [Node.outlines_eq] at ho

/-- In `$x += $y` both names are reported, the second one first. -/
theorem resolve_warnings_swapped :
    let parsed := parse "$x += $y" "a" true fun _ => false
    parsed.report.toList = [] ∧
      ((resolve parsed.program .empty).report.toList.map fun d => (d.message, d.span.map Span.start)) =
        [("Unresolved reference to 'y'", some 6), ("Unresolved reference to 'x'", some 0)] := by
  decide +kernel

end ShellFront
