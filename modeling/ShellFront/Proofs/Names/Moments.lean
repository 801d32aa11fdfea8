import ShellFront.Proofs.Names.Frames

/-!
# The moments of a resolution

The resolver takes events one after the other. A `Moment` is what it has before one of them: what is known
so far, the open frames, and the event itself. What is proved of a moment holds of whatever the event does
there.

## Contents
- `Resolver.run_grows`, `Resolver.run_faithful`.
- `Moment`, `Moment.Records`, `Resolver.moments`.
- `Resolver.Persists`, `Resolver.moments_faithful`.
- `Moment.Lead`, `Moment.Lead.gather` and `Resolver.moments_lead`: what moments add up to.
- `Resolver.moments_within`.
- `Resolver.run_opened`, `Resolver.run_bound`: the scopes and the bindings of a table.
- `Resolver.run_references`.
-/

namespace ShellFront

namespace Resolver

/-! ## Whole runs -/

mutual

/-- A run of an event only opens scopes and binds names in its innermost frame or in a new scope. -/
theorem run_grows (resolver : Resolver) (frames : List Frame) : ∀ e : Event,
    resolver.table.Grows (resolver.run frames e).1.table (frames.head?.map Frame.scope) ∧
      (resolver.run frames e).2.map Frame.scope = frames.map Frame.scope
  | .define kind name site => by
      rw [run]
      exact ⟨define_grows .., define_scopes ..⟩
  | .use role name site => by
      rw [run]
      exact ⟨use_grows .., rfl⟩
  | .assign name statement target => by
      rw [run]
      split
      · exact ⟨define_grows .., define_scopes ..⟩
      · exact ⟨use_grows .., rfl⟩
  | .scope kind span events => by
      have hinside := (runAll_grows (resolver.enter kind span frames) (resolver.entered frames) events).1
      have hboth := (enter_grows resolver kind span frames _).trans hinside
      rw [run_scope]
      exact ⟨hboth.around (Nat.le_refl _), rfl⟩

theorem runAll_grows (resolver : Resolver) (frames : List Frame) : ∀ events : List Event,
    resolver.table.Grows (runAll resolver frames events).1.table (frames.head?.map Frame.scope) ∧
      (runAll resolver frames events).2.map Frame.scope = frames.map Frame.scope
  | [] => by
      rw [runAll]
      exact ⟨.refl _ _, rfl⟩
  | e :: es => by
      obtain ⟨hfirst, hscopes⟩ := run_grows resolver frames e
      obtain ⟨hrest, hscopes'⟩ := runAll_grows (resolver.run frames e).1 (resolver.run frames e).2 es
      have hhead : (resolver.run frames e).2.head?.map Frame.scope = frames.head?.map Frame.scope := by
        rw [← List.head?_map, hscopes, List.head?_map]
      rw [runAll]
      exact ⟨hfirst.trans (hhead ▸ hrest), hscopes'.trans hscopes⟩

end

mutual

/-- **Frames stay faithful** over an event. -/
theorem run_faithful {resolver : Resolver} {frames : List Frame}
    (h : Faithful resolver.table frames) : ∀ e : Event,
    Faithful (resolver.run frames e).1.table (resolver.run frames e).2
  | .define kind name site => by
      rw [run]
      exact define_faithful h
  | .use role name site => by
      rw [run]
      exact use_faithful h
  | .assign name statement target => by
      rw [run]
      split
      · exact define_faithful h
      · exact use_faithful h
  | .scope kind span events => by
      have hinside := runAll_faithful (enter_faithful kind span h) events
      have hgrows := (run_grows resolver frames (.scope kind span events)).1
      rw [run_scope] at hgrows ⊢
      -- the frames are those from before the scope, and the scope bound nothing in them
      refine h.grows ?_ hinside.known
      have hinner := (runAll_grows (resolver.enter kind span frames) (resolver.entered frames) events).1
      exact ((enter_grows resolver kind span frames _).trans hinner).around (Nat.le_refl _)

/-- Frames stay faithful over events. -/
theorem runAll_faithful {resolver : Resolver} {frames : List Frame}
    (h : Faithful resolver.table frames) : ∀ events : List Event,
    Faithful (runAll resolver frames events).1.table (runAll resolver frames events).2
  | [] => by
      rw [runAll]
      exact h
  | e :: es => by
      rw [runAll]
      exact runAll_faithful (run_faithful h e) es

end

end Resolver

/-! ## Moments -/

/-- What the resolver has before an event. -/
structure Moment where
  resolver : Resolver
  frames : List Frame
  event : Event

namespace Moment

/-- What is known so far. -/
def table (m : Moment) : Table := m.resolver.table

/-- The scopes that are open, innermost first. -/
def scopes (m : Moment) : List Nat := m.frames.map Frame.scope

/-- All that the event of the moment does to the table is to record a reference. -/
def Records (m : Moment) (r : Reference) : Prop :=
  (m.resolver.run m.frames m.event).1.table = m.table.addReference r

/-- The reference that the event of the moment makes. -/
def reference? (m : Moment) : Option Reference :=
  match m.event with
  | .use role name site => some ⟨role, name, site, lookup? m.frames name⟩
  | .assign name _ target =>
      (lookup? m.frames name).map fun i => ⟨.variableName, name, target, some i⟩
  | .define .. | .scope .. => none

theorem records_of_reference? {m : Moment} {r : Reference} (h : m.reference? = some r) :
    m.Records r := by
  obtain ⟨resolver, frames, event⟩ := m
  rw [Records]
  cases event with
  | define => exact nomatch h
  | scope => exact nomatch h
  | use role name site =>
      obtain rfl := Option.some.inj h
      rw [Resolver.run]
      rfl
  | assign name statement target =>
      obtain ⟨i, hi, rfl⟩ := Option.map_eq_some_iff.mp h
      have hvisible : ¬ (lookup? frames name).isNone = true := by
        rw [show lookup? frames name = some i from hi]
        simp
      rw [Resolver.run, if_neg hvisible]
      simp only [Resolver.use, show lookup? frames name = some i from hi]
      rfl

/-- The binding of a reference is looked up in the frames of its moment. -/
theorem binding_of_reference? {m : Moment} {r : Reference} (h : m.reference? = some r) :
    r.binding = lookup? m.frames r.name := by
  obtain ⟨resolver, frames, event⟩ := m
  cases event with
  | define => exact nomatch h
  | scope => exact nomatch h
  | use role name site => rw [← Option.some.inj h]
  | assign name statement target =>
      obtain ⟨i, hi, rfl⟩ := Option.map_eq_some_iff.mp h
      exact hi.symm

end Moment

namespace Resolver

mutual

/-- The moments of an event, in order: its own one, then those inside it. -/
def moments (resolver : Resolver) (frames : List Frame) : Event → List Moment
  | .define kind name site => [⟨resolver, frames, .define kind name site⟩]
  | .use role name site => [⟨resolver, frames, .use role name site⟩]
  | .assign name statement target => [⟨resolver, frames, .assign name statement target⟩]
  | .scope kind span events =>
      ⟨resolver, frames, .scope kind span events⟩ ::
        allMoments (resolver.enter kind span frames) (resolver.entered frames) events

/-- The moments of events. -/
def allMoments (resolver : Resolver) (frames : List Frame) : List Event → List Moment
  | [] => []
  | e :: es =>
      moments resolver frames e ++
        allMoments (resolver.run frames e).1 (resolver.run frames e).2 es

end

theorem runAll_cons (resolver : Resolver) (frames : List Frame) (e : Event) (es : List Event) :
    runAll resolver frames (e :: es) =
      runAll (resolver.run frames e).1 (resolver.run frames e).2 es := by
  rw [runAll]

/-- What **persists** when a scope is opened, and when an event is done. -/
structure Persists (P : Resolver → List Frame → Prop) : Prop where
  enter : ∀ {resolver frames} (kind : ScopeKind) (span : Span), P resolver frames →
    P (resolver.enter kind span frames) (resolver.entered frames)
  run : ∀ {resolver frames} (e : Event), P resolver frames → P (resolver.run frames e).1 (resolver.run frames e).2

mutual

/-- What persists holds at every moment of an event. -/
theorem Persists.moments {P : Resolver → List Frame → Prop} (hP : Persists P) {resolver : Resolver}
    {frames : List Frame} (h : P resolver frames) : ∀ e : Event, ∀ m ∈ moments resolver frames e, P m.resolver m.frames
  | .define .. | .use .. | .assign .. => by
      intro m hm
      obtain rfl := List.mem_singleton.mp hm
      exact h
  | .scope kind span events => by
      intro m hm
      rw [Resolver.moments] at hm
      rcases List.mem_cons.mp hm with rfl | hm
      · exact h
      · exact hP.allMoments (hP.enter kind span h) events m hm

/-- What persists holds at every moment of events. -/
theorem Persists.allMoments {P : Resolver → List Frame → Prop} (hP : Persists P) {resolver : Resolver}
    {frames : List Frame} (h : P resolver frames) :
    ∀ events : List Event, ∀ m ∈ allMoments resolver frames events, P m.resolver m.frames
  | [] => by
      intro m hm
      exact absurd hm (by rw [Resolver.allMoments]; exact List.not_mem_nil)
  | e :: es => by
      intro m hm
      rw [Resolver.allMoments] at hm
      rcases List.mem_append.mp hm with hm | hm
      · exact hP.moments h e m hm
      · exact hP.allMoments (hP.run e h) es m hm

end

theorem persists_faithful : Persists fun resolver frames => Faithful resolver.table frames where
  enter := enter_faithful
  run e h := run_faithful h e

/-- **Frames are faithful at every moment** of an event. -/
theorem moments_faithful {resolver : Resolver} {frames : List Frame} (h : Faithful resolver.table frames) (e : Event) :
    ∀ m ∈ moments resolver frames e, Faithful m.table m.frames :=
  persists_faithful.moments h e

/-- Frames are faithful at every moment of events. -/
theorem allMoments_faithful {resolver : Resolver} {frames : List Frame} (h : Faithful resolver.table frames)
    (events : List Event) : ∀ m ∈ allMoments resolver frames events, Faithful m.table m.frames :=
  persists_faithful.allMoments h events

end Resolver

/-! ## Moments follow one another -/

namespace Moment

/-- What is known after the event of a moment by itself: a scope is open by then, but nothing has happened in it. -/
def next (m : Moment) : Resolver :=
  match m.event with
  | .scope kind span _ => m.resolver.enter kind span m.frames
  | e => (m.resolver.run m.frames e).1

/-- Moments that lead from one state of the resolver to another: each one begins where the one before it ends. -/
def Lead : Resolver → List Moment → Resolver → Prop
  | start, [], stop => start = stop
  | start, m :: ms, stop => m.resolver = start ∧ Lead m.next ms stop

theorem Lead.append {start mid stop : Resolver} {ms ms' : List Moment} (h : Lead start ms mid)
    (h' : Lead mid ms' stop) : Lead start (ms ++ ms') stop := by
  induction ms generalizing start with
  | nil => exact h ▸ h'
  | cons m ms ih => exact ⟨h.1, ih h.2⟩

/-- Moments that lead somewhere come by each of them. -/
theorem Lead.split {start stop : Resolver} {ms ms' : List Moment} (h : Lead start (ms ++ ms') stop) :
    ∃ mid, Lead start ms mid ∧ Lead mid ms' stop := by
  induction ms generalizing start with
  | nil => exact ⟨start, rfl, h⟩
  | cons m ms ih =>
      obtain ⟨mid, hbefore, hafter⟩ := ih h.2
      exact ⟨mid, ⟨h.1, hbefore⟩, hafter⟩

theorem Lead.before {start stop : Resolver} {ms ms' : List Moment} {m : Moment}
    (h : Lead start (ms ++ m :: ms') stop) : Lead start ms m.resolver := by
  obtain ⟨mid, hbefore, hm, -⟩ := h.split
  exact hm ▸ hbefore

/-- What each moment adds by itself is added, one after the other, by all of them, as long as nothing is added that
    must not be. -/
theorem Lead.gather_while {α : Type} {f : Resolver → List α} {g : Moment → Option α} {C : List α → Prop}
    (hinitial : ∀ as as', C (as ++ as') → C as) {start stop : Resolver} {ms : List Moment}
    (hadds : ∀ m ∈ ms, C (f m.resolver ++ (g m).toList) → f m.next = f m.resolver ++ (g m).toList)
    (h : Lead start ms stop) (hall : C (f start ++ ms.filterMap g)) : f stop = f start ++ ms.filterMap g := by
  induction ms generalizing start with
  | nil => rw [show start = stop from h, List.filterMap_nil, List.append_nil]
  | cons m ms ih =>
      obtain ⟨hfirst, hrest⟩ := List.forall_mem_cons.mp hadds
      have hcons : (m :: ms).filterMap g = (g m).toList ++ ms.filterMap g := by
        rw [List.filterMap_cons]
        cases g m <;> rfl
      rw [hcons, ← List.append_assoc, ← h.1] at hall ⊢
      have hnext := hfirst (hinitial _ _ hall)
      rw [← hnext] at hall ⊢
      exact ih hrest h.2 hall

/-- What each moment adds by itself is added, one after the other, by all of them. -/
theorem Lead.gather {α : Type} {f : Resolver → List α} {g : Moment → Option α} {start stop : Resolver}
    {ms : List Moment} (hadds : ∀ m ∈ ms, f m.next = f m.resolver ++ (g m).toList) (h : Lead start ms stop) :
    f stop = f start ++ ms.filterMap g :=
  h.gather_while (C := fun _ => True) (fun _ _ _ => trivial) (fun m hm _ => hadds m hm) trivial

/-- What holds in the end held at the start, or came about at one of the moments. -/
theorem Lead.source {P : Resolver → Prop} {Q : Moment → Prop} (hstep : ∀ m : Moment, P m.next → P m.resolver ∨ Q m)
    {start stop : Resolver} {ms : List Moment} (h : Lead start ms stop) (hstop : P stop) : P start ∨ ∃ m ∈ ms, Q m := by
  induction ms generalizing start with
  | nil =>
      obtain rfl : start = stop := h
      exact .inl hstop
  | cons m ms ih =>
      rcases ih h.2 with hnext | ⟨m', hm', hQ⟩
      · exact (hstep m hnext).imp (fun hbefore => h.1 ▸ hbefore) fun hQ => ⟨m, List.mem_cons_self, hQ⟩
      · exact .inr ⟨m', List.mem_cons_of_mem _ hm', hQ⟩

/-- A moment leads to more knowledge. -/
theorem next_within (m : Moment) : m.table.Within m.next.table := by
  obtain ⟨resolver, frames, event⟩ := m
  cases event with
  | define | use | assign => exact (Resolver.run_grows ..).1.toWithin
  | scope kind span events => exact (Resolver.enter_grows resolver kind span frames none).toWithin

theorem Lead.within {start stop : Resolver} {ms : List Moment} (h : Lead start ms stop) :
    start.table.Within stop.table := by
  induction ms generalizing start with
  | nil =>
      obtain rfl : start = stop := h
      exact .refl _
  | cons m ms ih => exact h.1 ▸ m.next_within.trans (ih h.2)

/-- A moment lies between what is known before all of them and what is known after them. -/
theorem Lead.between {start stop : Resolver} {ms : List Moment} (h : Lead start ms stop) {m : Moment} (hm : m ∈ ms) :
    start.table.Within m.table ∧ m.table.Within stop.table := by
  obtain ⟨before, after, rfl⟩ := List.append_of_mem hm
  obtain ⟨mid, hbefore, rfl, hafter⟩ := h.split
  exact ⟨hbefore.within, m.next_within.trans hafter.within⟩

/-- The binding that the event of a moment makes. -/
def binding? (m : Moment) : Option Binding :=
  match m.event with
  | .define kind name site => m.frames.head?.map fun frame => ⟨kind, name, site, frame.scope⟩
  | .assign name statement _ =>
      if (lookup? m.frames name).isNone then
        m.frames.head?.map fun frame => ⟨.variableName, name, statement, frame.scope⟩
      else none
  | .use .. | .scope .. => none

theorem next_bindings (m : Moment) :
    m.next.table.bindings.toList = m.table.bindings.toList ++ m.binding?.toList := by
  obtain ⟨resolver, frames, event⟩ := m
  -- without an open scope a definition would bind nothing
  have hdefine (kind : BindingKind) (name : String) (site : Site) :
      (resolver.define kind name site frames).1.table.bindings.toList = resolver.table.bindings.toList ++
        (frames.head?.map fun frame => (⟨kind, name, site, frame.scope⟩ : Binding)).toList := by
    cases frames with
    | nil => exact (List.append_nil _).symm
    | cons frame outer => exact Array.toList_push
  cases event with
  | define kind name site =>
      rw [next, binding?]
      dsimp only
      rw [Resolver.run]
      exact hdefine kind name site
  | use => exact (List.append_nil _).symm
  | assign name statement target =>
      rw [next, binding?]
      dsimp only
      rw [Resolver.run]
      split
      · exact hdefine .variableName name statement
      · exact (List.append_nil _).symm
  | scope => exact (List.append_nil _).symm

/-- The scope that the event of a moment opens, and the index that its frame has. -/
def opened? (m : Moment) : Option (Scope × Nat) :=
  match m.event with
  | .scope kind span _ =>
      (m.resolver.entered m.frames).head?.map fun frame => (⟨kind, m.frames.head?.map Frame.scope, span⟩, frame.scope)
  | .define .. | .use .. | .assign .. => none

theorem next_scopes (m : Moment) :
    m.next.table.scopes.toList.zipIdx = m.table.scopes.toList.zipIdx ++ m.opened?.toList := by
  obtain ⟨resolver, frames, event⟩ := m
  -- of the four events only one opens a scope; a definition adds a binding
  have hdefine (kind : BindingKind) (name : String) (site : Site) :
      (resolver.define kind name site frames).1.table.scopes = resolver.table.scopes := by
    cases frames <;> rfl
  cases event with
  | define kind name site =>
      rw [next]
      dsimp only
      rw [Resolver.run, hdefine]
      exact (List.append_nil _).symm
  | use => exact (List.append_nil _).symm
  | assign name statement target =>
      rw [next]
      dsimp only
      rw [Resolver.run]
      refine .trans ?_ (List.append_nil _).symm
      split
      · rw [hdefine]
        rfl
      · rfl
  | scope kind span events =>
      rw [next]
      dsimp only
      rw [Resolver.enter, Table.addScope, Array.toList_push, List.zipIdx_append, List.zipIdx_singleton, Nat.zero_add,
        Array.length_toList]
      rfl

end Moment

namespace Resolver

mutual

/-- **The moments of an event follow one another**, from before it to after it. -/
theorem moments_lead (resolver : Resolver) (frames : List Frame) : ∀ e : Event,
    Moment.Lead resolver (moments resolver frames e) (resolver.run frames e).1
  | .define .. | .use .. | .assign .. => ⟨rfl, rfl⟩
  | .scope kind span events => by
      rw [run_scope]
      exact ⟨rfl, allMoments_lead _ _ events⟩

/-- The moments of events follow one another. -/
theorem allMoments_lead (resolver : Resolver) (frames : List Frame) : ∀ es : List Event,
    Moment.Lead resolver (allMoments resolver frames es) (runAll resolver frames es).1
  | [] => by
      rw [allMoments, runAll]
      rfl
  | e :: es => by
      rw [allMoments, runAll_cons]
      exact (moments_lead resolver frames e).append (allMoments_lead _ _ es)

end

/-- A moment of an event lies between what is known before it and what is known after it. -/
theorem moments_within (resolver : Resolver) (frames : List Frame) (e : Event) : ∀ m ∈ moments resolver frames e,
    resolver.table.Within m.table ∧ m.table.Within (resolver.run frames e).1.table :=
  fun _ => (moments_lead resolver frames e).between

/-- A moment of events lies between what is known before them and what is known after them. -/
theorem allMoments_within (resolver : Resolver) (frames : List Frame) (events : List Event) :
    ∀ m ∈ allMoments resolver frames events,
      resolver.table.Within m.table ∧ m.table.Within (runAll resolver frames events).1.table :=
  fun _ => (allMoments_lead resolver frames events).between

/-- **An event opens the scopes of its moments**, in order, and each at its index. -/
theorem run_opened (resolver : Resolver) (frames : List Frame) (e : Event) :
    (resolver.run frames e).1.table.scopes.toList.zipIdx =
      resolver.table.scopes.toList.zipIdx ++ (moments resolver frames e).filterMap Moment.opened? :=
  (moments_lead resolver frames e).gather (f := fun r => r.table.scopes.toList.zipIdx) fun m _ => m.next_scopes

/-- **An event binds what its moments bind**, in order. -/
theorem run_bound (resolver : Resolver) (frames : List Frame) (e : Event) :
    (resolver.run frames e).1.table.bindings.toList =
      resolver.table.bindings.toList ++ (moments resolver frames e).filterMap Moment.binding? :=
  (moments_lead resolver frames e).gather (f := fun r => r.table.bindings.toList) fun m _ => m.next_bindings

/-- Nothing is known at the start. -/
theorem start_faithful (report : Report) : Faithful (start report).table [] :=
  ⟨.nil, by simp, by simp [start, Table.empty], by simp⟩

end Resolver

/-! ## References -/

theorem Table.mem_addReference {table : Table} {old new : Reference}
    (h : old ∈ (table.addReference new).references) : old ∈ table.references ∨ old = new := by
  unfold addReference at h
  simp only at h
  split at h
  · exact (Array.mem_or_eq_of_mem_setIfInBounds h).imp id id
  · exact Array.mem_push.mp h

namespace Moment

variable {m : Moment} {r : Reference}

/-- A moment that makes a reference adds it. -/
theorem next_of_reference? (h : m.reference? = some r) : m.next.table = m.table.addReference r := by
  have hrecords := records_of_reference? h
  obtain ⟨resolver, frames, event⟩ := m
  cases event with
  | define | scope => contradiction
  | use | assign => exact hrecords

/-- A moment that makes none leaves the references as they are. -/
theorem next_references_of_none (h : m.reference? = none) : m.next.table.references = m.table.references := by
  obtain ⟨resolver, frames, event⟩ := m
  cases event with
  | define => exact Resolver.define_references ..
  | use => contradiction
  | assign name statement target =>
      -- the name is not seen, so the assignment binds it
      have hnone : (lookup? frames name).isNone = true :=
        Option.isNone_iff_eq_none.mpr (Option.map_eq_none_iff.mp h)
      rw [next]
      dsimp only
      rw [Resolver.run, if_pos hnone]
      exact Resolver.define_references ..
  | scope => rfl

/-- A reference that is there after a moment was there before or is made by it. -/
theorem mem_next_references (h : r ∈ m.next.table.references) : r ∈ m.table.references ∨ m.reference? = some r := by
  cases hmakes : m.reference? with
  | none => exact .inl (next_references_of_none hmakes ▸ h)
  | some r' =>
      rw [next_of_reference? hmakes] at h
      exact (Table.mem_addReference h).imp id fun heq => congrArg some heq.symm

end Moment

/-- A reference that is recorded after an event was there before or is made at one of its moments. -/
theorem Resolver.run_references (resolver : Resolver) (frames : List Frame) (e : Event) :
    ∀ r ∈ (resolver.run frames e).1.table.references, r ∈ resolver.table.references ∨
      ∃ m ∈ moments resolver frames e, m.reference? = some r :=
  fun r hr => (moments_lead resolver frames e).source (P := fun resolver => r ∈ resolver.table.references)
    (fun _ => Moment.mem_next_references) hr

end ShellFront
