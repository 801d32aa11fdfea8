import Mathlib.Data.List.Nodup
import ShellFront.Proofs.Names.Openings
import ShellFront.Proofs.Names.Unresolved

/-!
# Tables are well formed

The table of a program that was read has one scope for each node that opens one. Each scope but that of the module lies
inside an earlier one, and whatever is made of a name stays inside the scope of its binding. The resolver keeps
this up by itself: the spans of the open scopes contain all that is still to come in them.

## Contents
- `Resolver.moments_openings`: the scopes that moments open.
- `Table.Houses`, `Resolver.moments_housed`: the open scopes contain what happens in them.
- `Table.WellFormed`, and `resolve_wellFormed`.
-/

namespace ShellFront

open Outline

/-! ## Scopes in order -/

theorem Moment.opened?_eq_some {m : Moment} {s : Scope} {i : Nat} (h : m.opened? = some (s, i)) :
    m.event.opening? = some (s.kind, s.span) ∧ s.parent = m.frames.head?.map Frame.scope ∧
      i = m.table.scopes.size := by
  obtain ⟨resolver, frames, event⟩ := m
  cases event with
  | define | use | assign => exact nomatch h
  | scope kind span events =>
      obtain ⟨rfl, rfl⟩ := Prod.mk.inj (Option.some.inj h)
      exact ⟨rfl, rfl, rfl⟩

theorem Moment.opened?_opening (m : Moment) :
    (m.opened?.map fun p => (p.1.kind, p.1.span)) = m.event.opening? := by
  obtain ⟨resolver, frames, event⟩ := m
  cases event <;> rfl

namespace Resolver

mutual

/-- The scopes that the moments of an event open. -/
theorem moments_openings (resolver : Resolver) (frames : List Frame) : ∀ e : Event,
    (moments resolver frames e).filterMap (fun m => m.event.opening?) = e.openings
  | .define .. | .use .. | .assign .. => rfl
  | .scope kind span events => congrArg (List.cons (kind, span)) (allMoments_openings _ _ events)

theorem allMoments_openings (resolver : Resolver) (frames : List Frame) : ∀ es : List Event,
    (allMoments resolver frames es).filterMap (fun m => m.event.opening?) = Event.allOpenings es
  | [] => rfl
  | e :: es => by
      rw [allMoments, List.filterMap_append, moments_openings, allMoments_openings, Event.allOpenings]

end

end Resolver

/-! ## Scopes and what they contain -/

/-- Open scopes **house** a span: there are some, and the place of each contains it. -/
structure Table.Houses (table : Table) (frames : List Frame) (span : Span) : Prop where
  nonempty : frames ≠ []
  around : ∀ frame ∈ frames, ∃ s, table.scopes[frame.scope]? = some s ∧ s.span.contains span = true

namespace Table.Houses

variable {table new : Table} {frames frames' : List Frame} {span span' : Span}

/-- What is inside of what is housed is housed as well. -/
theorem mono (h : table.Houses frames span) (hspan : span.contains span' = true) : table.Houses frames span' where
  nonempty := h.nonempty
  around := by
    intro frame hframe
    obtain ⟨s, hs, hcontains⟩ := h.around frame hframe
    exact ⟨s, hs, Span.contains_trans hcontains hspan⟩

/-- The same scopes stay open, and the table may grow. -/
theorem stays (h : table.Houses frames span) (hwithin : table.Within new)
    (hframes : frames'.map Frame.scope = frames.map Frame.scope) : new.Houses frames' span where
  nonempty := by
    rintro rfl
    exact h.nonempty (List.map_eq_nil_iff.mp hframes.symm)
  around := by
    intro frame' hframe'
    have hmem := List.mem_map_of_mem (f := Frame.scope) hframe'
    rw [hframes] at hmem
    obtain ⟨frame, hframe, heq⟩ := List.mem_map.mp hmem
    obtain ⟨s, hs, hcontains⟩ := h.around frame hframe
    exact ⟨s, hwithin.scope_stays (heq ▸ hs), hcontains⟩

end Table.Houses

/-- A scope that is opened inside of the open ones houses its own place. -/
theorem Resolver.enter_houses {resolver : Resolver} {frames : List Frame} (kind : ScopeKind) {span : Span}
    (h : ∀ frame ∈ frames, ∃ s, resolver.table.scopes[frame.scope]? = some s ∧ s.span.contains span = true) :
    (resolver.enter kind span frames).table.Houses (resolver.entered frames) span where
  nonempty := List.cons_ne_nil _ _
  around := by
    intro frame hframe
    rcases List.mem_cons.mp hframe with rfl | hframe
    · exact ⟨_, resolver.enter_scope kind span frames, Span.contains_self span⟩
    · obtain ⟨s, hs, hcontains⟩ := h frame hframe
      exact ⟨s, (resolver.enter_grows kind span frames Option.none).scope_stays hs, hcontains⟩

/-- The place of what an event uses or opens. -/
def Event.place? : Event → Option Span
  | .define .. => none
  | .use _ _ site => some site.span
  | .assign _ _ target => some target.span
  | .scope _ span _ => some span

theorem Event.place_of_opening? {e : Event} {kind : ScopeKind} {span : Span} (h : e.opening? = some (kind, span)) :
    e.place? = some span := by
  cases e with
  | define | use | assign => exact nomatch h
  | scope => rw [place?, (Prod.mk.inj (Option.some.inj h)).2]

/-- A reference that a moment makes stands where its event uses a name. -/
theorem Moment.place_of_reference? {m : Moment} {r : Reference} (h : m.reference? = some r) :
    m.event.place? = some r.site.span := by
  obtain ⟨resolver, frames, event⟩ := m
  cases event with
  | define | scope => exact nomatch h
  | use role name site => rw [← Option.some.inj h, Event.place?]
  | assign name statement target =>
      obtain ⟨i, -, rfl⟩ := Option.map_eq_some_iff.mp h
      rfl

/-- The open scopes house what the event of a moment uses or opens. -/
def Moment.Housed (m : Moment) : Prop := ∀ place, m.event.place? = some place → m.table.Houses m.frames place

namespace Resolver

mutual

/-- **What happens in open scopes stays inside them.** -/
theorem moments_housed {resolver : Resolver} {frames : List Frame} {room : Span}
    (h : resolver.table.Houses frames room) : ∀ e : Event, e.Inside room →
    ∀ m ∈ moments resolver frames e, m.Housed
  | .define .. => fun _ m hm place hplace => by
      obtain rfl := List.mem_singleton.mp hm
      contradiction
  | .use .. | .assign .. => fun hinside m hm place hplace => by
      obtain rfl := List.mem_singleton.mp hm
      obtain rfl := Option.some.inj hplace
      exact h.mono hinside
  | .scope kind span events => fun hinside m hm => by
      have hspan := h.mono hinside.1
      rw [moments] at hm
      rcases List.mem_cons.mp hm with rfl | hm
      · intro place hplace
        obtain rfl := Option.some.inj hplace
        exact hspan
      · exact allMoments_housed (enter_houses kind hspan.around) events hinside.2 m hm

theorem allMoments_housed {resolver : Resolver} {frames : List Frame} {room : Span}
    (h : resolver.table.Houses frames room) : ∀ es : List Event, Event.AllInside room es →
    ∀ m ∈ allMoments resolver frames es, m.Housed
  | [] => fun _ m hm => absurd hm (by rw [allMoments]; exact List.not_mem_nil)
  | e :: es => fun hinside m hm => by
      rw [allMoments] at hm
      obtain ⟨hgrows, hframes⟩ := run_grows resolver frames e
      rcases List.mem_append.mp hm with hm | hm
      · exact moments_housed h e hinside.1 m hm
      · exact allMoments_housed (h.stays hgrows.toWithin hframes) es hinside.2 m hm

end

end Resolver

/-! ## Sound moments -/

/-- A moment is **sound** on the way to a table: its frames are faithful, they house what happens, and the table so far
    is part of the final one. -/
structure Moment.Sound (m : Moment) (final : Table) : Prop where
  faithful : Faithful m.table m.frames
  housed : m.Housed
  within : m.table.Within final

namespace Moment.Sound

variable {m : Moment} {final : Table}

/-- A scope that is opened at a sound moment lies inside an earlier one. -/
theorem opened (h : m.Sound final) {s : Scope} {i : Nat} (hopened : m.opened? = some (s, i)) :
    ∃ j outer, s.parent = some j ∧ j < i ∧ final.scopes[j]? = some outer ∧ outer.span.contains s.span = true := by
  obtain ⟨hopening, hparent, rfl⟩ := opened?_eq_some hopened
  have hhouses := h.housed s.span (Event.place_of_opening? hopening)
  cases hframes : m.frames with
  | nil => exact absurd hframes hhouses.nonempty
  | cons frame outer =>
      have hframe : frame ∈ m.frames := hframes ▸ List.mem_cons_self
      obtain ⟨o, ho, hcontains⟩ := hhouses.around frame hframe
      rw [hframes] at hparent
      exact ⟨frame.scope, o, hparent, h.faithful.opened frame hframe, h.within.scope_stays ho, hcontains⟩

/-- What a reference denotes that is made at a sound moment has its name, and the scope of that contains it. -/
theorem resolved (h : m.Sound final) {r : Reference} (hr : m.reference? = some r) {i : Nat}
    (hi : r.binding = some i) : ∃ b s, final.bindings[i]? = some b ∧ b.name = r.name ∧
      final.scopes[b.scope]? = some s ∧ s.span.contains r.site.span = true := by
  have hlookup : lookup? m.frames r.name = some i := (binding_of_reference? hr).symm.trans hi
  obtain ⟨nearer, scope, farther, hframes, ⟨⟨b, hb, rfl, hname⟩, -⟩, -⟩ := h.faithful.lookup?_denotes hlookup
  have hscope : b.scope ∈ m.frames.map Frame.scope := by simp [hframes]
  obtain ⟨frame, hframe, heq⟩ := List.mem_map.mp hscope
  obtain ⟨s, hs, hcontains⟩ := (h.housed _ (place_of_reference? hr)).around frame hframe
  exact ⟨b, s, h.within.binding_stays hb, hname, heq ▸ h.within.scope_stays hs, hcontains⟩

end Moment.Sound

/-- **All moments of a program but the first are sound**, when what happens in it stays inside its span. -/
theorem resolve_sound {program : Program} (report : Report)
    (hinside : Event.AllInside program.span (Node.allEvents program.statements)) :
    ∃ moments, (Resolver.start report).moments [] program.event =
        ⟨.start report, [], program.event⟩ :: moments ∧
      ∀ m ∈ moments, m.Sound (resolve program report).table := by
  let start := Resolver.start report
  let entered := start.enter .module program.span []
  let events := Node.allEvents program.statements
  have hrun : (resolve program report).table = (entered.runAll (start.entered []) events).1.table := by
    show (start.run [] (.scope .module program.span events)).1.table = _
    rw [Resolver.run_scope]
  have hhouses : entered.table.Houses (start.entered []) program.span := Resolver.enter_houses .module (by simp)
  have hfaithful := Resolver.enter_faithful .module program.span (Resolver.start_faithful report)
  refine ⟨entered.allMoments (start.entered []) events, by rw [Program.event, Resolver.moments], fun m hm => ?_⟩
  refine ⟨Resolver.allMoments_faithful hfaithful events m hm,
    Resolver.allMoments_housed hhouses events hinside m hm, ?_⟩
  rw [hrun]
  exact (Resolver.allMoments_within _ _ events m hm).2

/-! ## References by binding -/

/-- References that denote bindings of the table, or nothing, fall apart into those that denote nothing and those to
    each binding. -/
theorem Table.references_parted {table : Table} (hnodup : table.references.toList.Nodup)
    (hknown : ∀ r ∈ table.references, ∀ i, r.binding = some i → i < table.bindings.size) :
    table.references.toList.Perm
      (table.unresolved ++ (List.range table.bindings.size).flatMap table.referencesTo) := by
  have hto {i : Nat} {r : Reference} (hr : r ∈ table.referencesTo i) : r.binding = some i := by
    rw [referencesTo, List.mem_filter, beq_iff_eq] at hr
    exact hr.2
  have hdisjoint : (List.range table.bindings.size).Pairwise
      fun i j => (table.referencesTo i).Disjoint (table.referencesTo j) :=
    List.nodup_range.imp fun {i j} hne r hi hj => hne (Option.some.inj ((hto hi).symm.trans (hto hj)))
  -- without duplicates a permutation is only a matter of membership
  refine (List.perm_ext_iff_of_nodup hnodup ?_).mpr fun r => ?_
  · refine List.nodup_append.mpr ⟨hnodup.filter _, List.nodup_flatMap.mpr ⟨fun i _ => hnodup.filter _, hdisjoint⟩, ?_⟩
    rintro r hr r' hr' rfl
    obtain ⟨i, -, hi⟩ := List.mem_flatMap.mp hr'
    have hnone := (List.mem_filter.mp hr).2
    rw [hto hi] at hnone
    contradiction
  · rw [List.mem_append, List.mem_flatMap, unresolved, List.mem_filter, Option.isNone_iff_eq_none]
    constructor
    · intro hr
      cases hbinding : r.binding with
      | none => exact .inl ⟨hr, rfl⟩
      | some i =>
          have hi := hknown r (Array.mem_toList_iff.mp hr) i hbinding
          exact .inr ⟨i, List.mem_range.mpr hi, List.mem_filter.mpr ⟨hr, beq_iff_eq.mpr hbinding⟩⟩
    · rintro (⟨hr, -⟩ | ⟨i, -, hr⟩)
      · exact hr
      · exact (List.mem_filter.mp hr).1

/-! ## Programs -/

/-- A table is **well formed** for a program. -/
structure Table.WellFormed (table : Table) (program : Program) : Prop where
  /-- The first scope is that of the module. -/
  root : table.scopes[0]? = some ⟨.module, none, program.span⟩
  /-- Each other scope lies inside an earlier one. -/
  nested : ∀ i s, table.scopes[i]? = some s → i ≠ 0 →
    ∃ j outer, s.parent = some j ∧ j < i ∧ table.scopes[j]? = some outer ∧ outer.span.contains s.span = true
  /-- There is one scope for each node that opens one, with its kind and place. -/
  opened : (table.scopes.toList.map fun s => (s.kind, s.span)).Perm (program.outline.walk.filterMap opening?)
  /-- Bindings are in scopes. -/
  known : ∀ b ∈ table.bindings, b.scope < table.scopes.size
  /-- What a reference denotes has its name, and the scope of that contains the reference. -/
  resolved : ∀ r ∈ table.references, ∀ i, r.binding = some i → ∃ b s, table.bindings[i]? = some b ∧ b.name = r.name ∧
    table.scopes[b.scope]? = some s ∧ s.span.contains r.site.span = true
  /-- References denote nothing or one of the bindings. -/
  parted : table.references.toList.Perm
    (table.unresolved ++ (List.range table.bindings.size).flatMap table.referencesTo)
  distinct : table.references.toList.Nodup

/-- The statements of a program nest, and lie inside of it. -/
theorem parse_housed (source file : String) (failFast : Bool) (isBuiltin : String → Bool) :
    let program := (parse source file failFast isBuiltin).program
    Event.AllInside program.span (Node.allEvents program.statements) := by
  obtain ⟨s, htokens, -⟩ := tokenize_script source file
  obtain ⟨hspan, ⟨ts, t, after, hts, hlaid⟩, hstands⟩ :=
    parse_laid htokens failFast isBuiltin (w := .nothing) fun _ => .inl rfl
  intro program
  refine (parse_opens source file failFast isBuiltin).inside (fun u hu v hv => ?_) program.span fun u hu => ?_
  · obtain ⟨seg, hseg⟩ := hstands v (Program.mem_walk_tail.mpr ⟨u, Node.outlines_eq program.statements ▸ hu, hv⟩)
    exact hseg.nests
  · exact (Program.nests hspan htokens hts hlaid).inside u hu

/-- **The table of a program is well formed, and names do not leak.** The scopes of a program that was read were opened
    at the indices that they have. They are those that its nodes open, each inside the one around it; each
    reference stands inside the scope of what it denotes; and each one is either unresolved or a reference to one
    of the bindings. -/
theorem resolve_wellFormed (source file : String) (failFast : Bool) (isBuiltin : String → Bool) (report : Report) :
    let program := (parse source file failFast isBuiltin).program
    let table := (resolve program report).table
    table.scopes.toList.zipIdx =
        ((Resolver.start report).moments [] program.event).filterMap Moment.opened? ∧
      table.WellFormed program := by
  obtain ⟨hreferences, hplaces⟩ := parse_recorded source file failFast isBuiltin report
  have hopens := (parse_opens source file failFast isBuiltin).openings
  obtain ⟨moments, hmoments, hsound⟩ := resolve_sound report (parse_housed source file failFast isBuiltin)
  intro program table
  let start := Resolver.start report
  have hscopes : table.scopes.toList.zipIdx = (start.moments [] program.event).filterMap Moment.opened? :=
    start.run_opened [] program.event
  -- each recorded reference was made at a moment of the run, and the moments are sound
  have hresolved : ∀ r ∈ table.references, ∀ i, r.binding = some i → ∃ b s, table.bindings[i]? = some b ∧
      b.name = r.name ∧ table.scopes[b.scope]? = some s ∧ s.span.contains r.site.span = true := by
    intro r hr i hi
    rw [← Array.mem_toList_iff, hreferences, hmoments] at hr
    obtain ⟨m, hm, hmakes⟩ := List.mem_filterMap.mp hr
    rcases List.mem_cons.mp hm with rfl | hm
    · contradiction
    · exact (hsound m hm).resolved hmakes hi
  have hnodup : table.references.toList.Nodup := by
    rw [hreferences]
    exact hplaces.of_map _
  refine ⟨hscopes, ?_, ?_, ?_, ?_, hresolved, ?_, hnodup⟩
  · rw [← Array.getElem?_toList, ← List.mk_mem_zipIdx_iff_getElem?, hscopes, hmoments]
    exact List.mem_filterMap.mpr ⟨_, List.mem_cons_self, rfl⟩
  · intro i s hs hi
    rw [← Array.getElem?_toList, ← List.mk_mem_zipIdx_iff_getElem?, hscopes, hmoments] at hs
    obtain ⟨m, hm, hopened⟩ := List.mem_filterMap.mp hs
    rcases List.mem_cons.mp hm with rfl | hm
    · exact absurd (Moment.opened?_eq_some hopened).2.2 hi
    · exact (hsound m hm).opened hopened
  · have hmap : (table.scopes.toList.map fun s => (s.kind, s.span)) = program.event.openings := by
      rw [← start.moments_openings [] program.event, ← List.zipIdx_map_fst 0 table.scopes.toList, hscopes,
        List.map_map, List.map_filterMap]
      exact List.filterMap_congr fun m _ => m.opened?_opening
    rw [hmap, walk_eq_preorder, preorder_eq]
    exact hopens.cons (.module, program.span)
  · intro b hb
    exact (start.run_faithful (Resolver.start_faithful report) program.event).known b (Array.mem_toList_iff.mpr hb)
  · refine Table.references_parted hnodup fun r hr i hi => ?_
    obtain ⟨b, -, hb, -⟩ := hresolved r hr i hi
    exact (Array.getElem?_eq_some_iff.mp hb).1

end ShellFront
