import ShellFront.Proofs.Names.References

/-!
# Warnings of the resolver

The resolver reports a use of a name that needs a definition and has none. So each moment of a resolution gives
at most one warning, at the place of a use, and a run adds the warnings of its moments to the report.

## Contents
- `Moment.warning?`, `Resolver.run_reported`.
- `Outline.site_of_usesBelow`: uses stand at nodes of the tree.
- `resolve_reported`: warnings stand at uses.
-/

namespace ShellFront

/-- The warning that the event of a moment gives. -/
def Moment.warning? (m : Moment) : Option Diagnostic :=
  match m.event with
  | .use role name site =>
      if (lookup? m.frames name).isNone && role.needsDefinition then
        some (Resolver.unresolvedReference name site.span)
      else none
  | .define .. | .assign .. | .scope .. => none

/-- A warning stands at a use of a name, which is not the target of a plain assignment, and says that the name is not
    defined. -/
theorem Moment.warning?_place {m : Moment} {d : Diagnostic} (h : m.warning? = some d) :
    ∃ u name, m.event.nameUse? = some u ∧ u.assignment = none ∧ d = Resolver.unresolvedReference name u.site.span := by
  obtain ⟨resolver, frames, event⟩ := m
  cases event with
  | define | assign | scope => exact nomatch h
  | use role name site =>
      rw [warning?] at h
      dsimp only at h
      split at h
      · exact ⟨_, name, rfl, rfl, (Option.some.inj h).symm⟩
      · contradiction

namespace Resolver

theorem define_report (resolver : Resolver) (kind : BindingKind) (name : String) (site : Site)
    (frames : List Frame) : (resolver.define kind name site frames).1.report = resolver.report := by
  cases frames <;> rfl

end Resolver

/-- A moment reports its warning. -/
theorem Moment.next_report (m : Moment) :
    m.next.report.toList = m.resolver.report.toList ++ m.warning?.toList := by
  obtain ⟨resolver, frames, event⟩ := m
  cases event with
  | define kind name site =>
      rw [next]
      dsimp only
      rw [Resolver.run, Resolver.define_report]
      exact (List.append_nil _).symm
  | use role name site =>
      rw [next, warning?]
      dsimp only
      rw [Resolver.run, Resolver.use]
      dsimp only
      split
      · exact Report.toList_add ..
      · exact (List.append_nil _).symm
  | assign name statement target =>
      rw [next]
      dsimp only
      rw [Resolver.run]
      refine .trans (congrArg Report.toList ?_) (List.append_nil _).symm
      split
      · exact Resolver.define_report ..
      · next h =>
          -- the variable is visible, so there is nothing to report
          rw [Resolver.use]
          dsimp only
          rw [if_neg (by simp [h])]
  | scope => exact (List.append_nil _).symm

/-- **An event reports the warnings of its moments**, in order. -/
theorem Resolver.run_reported (resolver : Resolver) (frames : List Frame) (e : Event) :
    (resolver.run frames e).1.report.toList =
      resolver.report.toList ++ (moments resolver frames e).filterMap Moment.warning? :=
  (moments_lead resolver frames e).gather (f := fun r => r.report.toList) fun m _ => m.next_report

/-! ## Where uses stand -/

namespace Outline

variable {t u : Outline} {us : List Outline} {m : NameUse}

theorem site_of_use? {i : Nat} (h : t.use? i u = some m) : m.site = u.site := by
  obtain ⟨role, -, rfl⟩ := Option.map_eq_some_iff.mp h
  rfl

theorem site_of_usesFrom (h : ∀ u ∈ us, ∀ m ∈ u.usesBelow, ∃ v ∈ preorders u.children, m.site = v.site) (i : Nat)
    (hm : m ∈ t.usesFrom i us) : ∃ v ∈ preorders us, m.site = v.site := by
  induction us generalizing i with
  | nil =>
      rw [usesFrom] at hm
      contradiction
  | cons u us ih =>
      obtain ⟨hu, hus⟩ := List.forall_mem_cons.mp h
      rw [usesFrom, List.mem_append, List.mem_append, Option.mem_toList] at hm
      rw [preorders, preorder_eq]
      rcases hm with (hm | hm) | hm
      · exact ⟨u, List.mem_cons_self, site_of_use? hm⟩
      · obtain ⟨v, hv, hsite⟩ := hu m hm
        exact ⟨v, List.mem_cons_of_mem _ (List.mem_append_left _ hv), hsite⟩
      · obtain ⟨v, hv, hsite⟩ := ih hus _ hm
        exact ⟨v, List.mem_append_right _ hv, hsite⟩

/-- **Uses stand at nodes** of the tree. -/
theorem site_of_usesBelow (t : Outline) : ∀ m ∈ t.usesBelow, ∃ u ∈ preorders t.children, m.site = u.site := by
  induction t with
  | mk kind span attributes cs ih =>
      intro m hm
      rw [usesBelow] at hm
      exact site_of_usesFrom ih 0 hm

end Outline

/-- The warnings about a program stand at names that it uses. -/
theorem resolve_reported (p : Program) (report : Report) {d : Diagnostic}
    (hd : d ∈ (resolve p report).report.toList) :
    d ∈ report.toList ∨ ∃ u ∈ Event.allNameUses (Node.allEvents p.statements), d.span = some u.site.span := by
  have hreport := Resolver.run_reported (.start report) [] p.event
  rw [show (resolve p report).report.toList = _ from hreport, List.mem_append] at hd
  refine hd.imp_right fun hd => ?_
  obtain ⟨m, hm, hwarning⟩ := List.mem_filterMap.mp hd
  obtain ⟨u, name, hu, -, rfl⟩ := Moment.warning?_place hwarning
  refine ⟨u, ?_, rfl⟩
  have huses : _ = Event.allNameUses (Node.allEvents p.statements) :=
    Resolver.moments_nameUses (.start report) [] p.event
  rw [← huses]
  exact List.mem_filterMap.mpr ⟨m, hm, hu⟩

end ShellFront
