import ShellFront.Proofs.Names.Constructs
import ShellFront.Proofs.Names.Moments

/-!
# References resolve lexically

The resolver goes through a program step by step, as the rules of scoping tell: the moments of its run **match** the
steps of the tree, and the open frames are those of the scopes in force. So the table that it leaves accords with the
tree, binding by binding and scope by scope; at each moment it holds the bindings of all earlier times; and what a
reference denotes is what the tree says: the newest binding in the nearest scope in force that holds one.

## Contents
- `NameStep.Matches` and `Deed.steps_match`: steps and moments side by side.
- `Trace`, the steps and moments of a program, and what it gives of the table.
- `resolve_lexical`.
-/

namespace ShellFront

open Outline

/-! ## Steps and moments -/

/-- The place at which a step opens a scope. -/
def NameStep.opener? (s : NameStep) : Option (List Nat) :=
  match s.event with
  | .scope .. => some s.place
  | _ => none

namespace Deed

mutual

/-- Deeds are **proper** when what is done by itself opens no scope. -/
def Proper : Deed → Prop
  | act _ _ e => ∀ kind span es, e ≠ .scope kind span es
  | scope _ _ _ _ deeds => AllProper deeds

/-- All of some deeds are proper. -/
def AllProper : List Deed → Prop
  | [] => True
  | d :: ds => d.Proper ∧ AllProper ds

end

theorem allProper_iff {ds : List Deed} : AllProper ds ↔ ∀ d ∈ ds, d.Proper := by
  induction ds with
  | nil => exact iff_of_true trivial (List.forall_mem_nil _)
  | cons d ds ih => rw [AllProper, ih, List.forall_mem_cons]

mutual

theorem Proper.under {rank i : Nat} : ∀ {d : Deed}, d.Proper → (d.under rank i).Proper
  | act .., h => h
  | scope .., h => AllProper.under h

theorem AllProper.under {rank i : Nat} : ∀ {ds : List Deed}, AllProper ds → AllProper (allUnder rank i ds)
  | [], _ => trivial
  | _ :: _, h => ⟨h.1.under, AllProper.under h.2⟩

end

end Deed

namespace Outline

/-- What a child does is proper, whether its parent does it or the child itself. -/
theorem childDeeds_proper (t : Outline) (i : Nat) (u : Outline) (h : ∀ d ∈ u.deeds, d.Proper) :
    ∀ d ∈ t.childDeeds i u u.deeds, d.Proper := by
  rw [childDeeds]
  split
  · next e he =>
      refine List.forall_mem_singleton.mpr fun _ _ _ heq => ?_
      rw [heq, alone?] at he
      split at he
      · contradiction
      · exact effect?_ne_scope he
  · split
    · exact h
    · exact List.forall_mem_nil _

/-- **All that a tree does is proper.** -/
theorem deeds_proper (t : Outline) : ∀ d ∈ t.deeds, d.Proper := by
  induction t with
  | mk kind span attributes children ih =>
      let t := mk kind span attributes children
      have hown : ∀ d ∈ t.ownDeeds, d.Proper := by
        intro d hd
        obtain ⟨e, he, rfl⟩ := List.mem_map.mp hd
        exact fun _ _ _ heq => own_ne_scope (heq ▸ Option.mem_toList.mp he)
      have hparameters : ∀ d ∈ t.parameterDeeds, d.Proper := by
        intro d hd
        obtain ⟨⟨u, i⟩, -, hd⟩ := List.mem_flatMap.mp hd
        obtain ⟨-, hd⟩ := List.mem_ite_nil_right.mp hd
        obtain ⟨e, he, rfl⟩ := List.mem_map.mp hd
        exact fun _ _ _ heq => effect?_ne_scope (heq ▸ Option.mem_toList.mp he)
      have hphases (p : Phase) : ∀ d ∈ t.phaseDeeds 0 children p, d.Proper := by
        rw [phaseDeeds_eq]
        intro d hd
        obtain ⟨⟨u, i⟩, hu, hd⟩ := List.mem_flatMap.mp hd
        obtain ⟨-, hd⟩ := List.mem_ite_nil_right.mp hd
        have hchild := t.childDeeds_proper i u (ih u (List.mem_of_getElem? (List.mem_zipIdx_iff_getElem?.mp hu)))
        exact Deed.allProper_iff.mp (Deed.allProper_iff.mpr hchild).under d hd
      rw [deeds_eq]
      intro d hd
      simp only [arranged, List.mem_append, List.mem_ite_nil_left, List.mem_ite_nil_right, Option.mem_toList,
        Option.map_eq_some_iff] at hd
      obtain (((hd | ⟨-, hd⟩) | hd) | ⟨opened, -, rfl⟩) | ⟨-, hd⟩ := hd
      · exact hphases _ d hd
      · exact hown d hd
      · exact hphases _ d hd
      · exact Deed.allProper_iff.mpr (List.forall_mem_append.mpr ⟨hparameters, hphases _⟩)
      · exact hown d hd

end Outline

/-- A moment **matches** a step, where scopes are numbered by `openers` and some are open around the step: it has the
    event of the step, and its frames are those of the scopes in force. -/
structure NameStep.Matches (openers outer : List (List Nat)) (s : NameStep) (m : Moment) : Prop where
  event : m.event = s.event
  scopes : m.scopes.map (openers[·]?) = (s.scopes ++ outer).map some

theorem NameStep.Matches.within {openers outer : List (List Nat)} {scope : List Nat} {s : NameStep} {m : Moment}
    (h : s.Matches openers (scope :: outer) m) : (s.within scope).Matches openers outer m :=
  ⟨h.event, by rw [h.scopes, NameStep.within, List.append_assoc, List.singleton_append]⟩

/-- Steps and moments that match open the same number of scopes. -/
theorem NameStep.openers_length {openers outer : List (List Nat)} {ss : List NameStep} {ms : List Moment}
    (h : List.Forall₂ (Matches openers outer) ss ms) :
    (ss.filterMap opener?).length = (ms.filterMap Moment.opened?).length := by
  have hrel : List.Forall₂ (fun _ _ => True) (ss.filterMap opener?) (ms.filterMap Moment.opened?) := by
    refine List.rel_filterMap (R := Matches openers outer) ?_ h
    intro s m hmatch
    rw [opener?, Moment.opened?, hmatch.event]
    cases s.event with
    | scope => exact .some trivial
    | _ => exact .none
  exact hrel.length_eq

namespace Deed

open Resolver

/-- The scopes of an event come after those that there were. -/
theorem scopes_size (resolver : Resolver) (frames : List Frame) (e : Event) :
    (resolver.run frames e).1.table.scopes.size =
      resolver.table.scopes.size + ((resolver.moments frames e).filterMap Moment.opened?).length := by
  have hlength := congrArg List.length (run_opened resolver frames e)
  rwa [List.length_append, List.length_zipIdx, List.length_zipIdx, Array.length_toList, Array.length_toList] at hlength

mutual

/-- **The moments of a deed match its steps**, one by one. -/
theorem steps_match {openers : List (List Nat)} : ∀ (d : Deed) {resolver : Resolver} {frames : List Frame}
    {outer : List (List Nat)}, d.Proper → (frames.map Frame.scope).map (openers[·]?) = outer.map some →
    d.steps.filterMap NameStep.opener? <+: openers.drop resolver.table.scopes.size →
    List.Forall₂ (NameStep.Matches openers outer) d.steps (resolver.moments frames d.event)
  | act place time e, resolver, frames, outer, hproper, hframes, _ => by
      have hmoments : resolver.moments frames e = [⟨resolver, frames, e⟩] := by
        cases e with
        | scope kind span es => exact absurd rfl (hproper kind span es)
        | _ => rfl
      rw [steps, event, hmoments]
      exact .cons ⟨rfl, hframes⟩ .nil
  | scope place time kind span deeds, resolver, frames, outer, hproper, hframes, hopeners => by
      have hsteps : (scope place time kind span deeds).steps.filterMap NameStep.opener? =
          place :: (allSteps deeds).filterMap NameStep.opener? := by
        rw [steps, List.filterMap_cons_some (rfl : NameStep.opener? ⟨place, time, [], .scope kind span _⟩ = some place),
          List.filterMap_map]
        rfl
      rw [hsteps] at hopeners
      obtain ⟨rest, hrest⟩ := hopeners
      -- the scope is the next one, and those inside it come after it
      have hnumber : openers[resolver.table.scopes.size]? = some place := by
        have hhead := congrArg (·[0]?) hrest
        simpa using hhead.symm
      have hsize : (resolver.enter kind span frames).table.scopes.size = resolver.table.scopes.size + 1 := by
        simp [enter, Table.addScope]
      have hinside : List.Forall₂ (NameStep.Matches openers (place :: outer)) (allSteps deeds)
          ((resolver.enter kind span frames).allMoments (resolver.entered frames) (events deeds)) := by
        refine allSteps_match deeds hproper ?_ ?_
        · rw [entered, List.map_cons, List.map_cons, List.map_cons, hframes, hnumber]
        · rw [hsize, List.drop_add_one_eq_tail_drop, ← hrest]
          exact List.prefix_append _ _
      rw [steps, event, moments]
      exact .cons ⟨rfl, hframes⟩ (List.forall₂_map_left_iff.mpr (hinside.imp fun s m hmatch => hmatch.within))

/-- The moments of deeds match their steps. -/
theorem allSteps_match {openers : List (List Nat)} : ∀ (ds : List Deed) {resolver : Resolver} {frames : List Frame}
    {outer : List (List Nat)}, AllProper ds → (frames.map Frame.scope).map (openers[·]?) = outer.map some →
    (allSteps ds).filterMap NameStep.opener? <+: openers.drop resolver.table.scopes.size →
    List.Forall₂ (NameStep.Matches openers outer) (allSteps ds) (resolver.allMoments frames (events ds))
  | [], _, _, _, _, _, _ => .nil
  | d :: ds, resolver, frames, outer, hproper, hframes, hopeners => by
      rw [allSteps, List.filterMap_append] at hopeners
      obtain ⟨rest, hrest⟩ := hopeners
      rw [List.append_assoc] at hrest
      have hfirst : List.Forall₂ (NameStep.Matches openers outer) d.steps (resolver.moments frames d.event) :=
        steps_match d hproper.1 hframes ⟨_, hrest⟩
      have hsize := scopes_size resolver frames d.event
      rw [← NameStep.openers_length hfirst] at hsize
      have hrun := (run_grows resolver frames d.event).2
      rw [allSteps, events, allMoments]
      refine List.rel_append hfirst (allSteps_match ds hproper.2 (hrun ▸ hframes) ?_)
      rw [hsize, ← List.drop_drop, ← hrest, List.drop_left]
      exact List.prefix_append _ _

end

end Deed

/-! ## The trace of a program -/

namespace Program

variable (p : Program) (report : Report)

/-- The steps of a program, each with the moment of the run at which it is taken. -/
def trace : List (NameStep × Moment) := p.outline.steps.zip ((Resolver.start report).moments [] p.event)

/-- The places of the nodes that open scopes, in order. -/
def openers : List (List Nat) := p.outline.steps.filterMap NameStep.opener?

/-- The places at which names are bound, in order. -/
def definers : List (List Nat) := (p.trace report).filterMap fun z => z.2.binding?.map fun _ => z.1.place

/-- **The moments of a run match the steps of the program.** -/
theorem steps_match : List.Forall₂ (NameStep.Matches p.openers []) p.outline.steps
    ((Resolver.start report).moments [] p.event) := by
  have hmatch : List.Forall₂ (NameStep.Matches p.openers []) (Deed.allSteps p.outline.deeds)
      ((Resolver.start report).allMoments [] (Deed.events p.outline.deeds)) :=
    Deed.allSteps_match p.outline.deeds (Deed.allProper_iff.mpr p.outline.deeds_proper) rfl
      ⟨[], by rw [List.append_nil]; rfl⟩
  rw [show Deed.events p.outline.deeds = [p.event] from p.event_outline, Resolver.allMoments, Resolver.allMoments,
    List.append_nil] at hmatch
  exact hmatch

theorem trace_fst : (p.trace report).map Prod.fst = p.outline.steps :=
  List.map_fst_zip (Nat.le_of_eq (p.steps_match report).length_eq)

theorem trace_snd : (p.trace report).map Prod.snd = (Resolver.start report).moments [] p.event :=
  List.map_snd_zip (Nat.le_of_eq (p.steps_match report).length_eq.symm)

variable {p report} {z : NameStep × Moment}

theorem trace_makes (hz : z ∈ p.trace report) : p.outline.Makes z.1 :=
  p.outline.steps_made _ (p.trace_fst report ▸ List.mem_map_of_mem hz)

theorem trace_matches (hz : z ∈ p.trace report) : z.1.Matches p.openers [] z.2 :=
  (List.forall₂_iff_zip.mp (p.steps_match report)).2 hz

theorem trace_moment (hz : z ∈ p.trace report) : z.2 ∈ (Resolver.start report).moments [] p.event :=
  p.trace_snd report ▸ List.mem_map_of_mem hz

/-- The scopes that are open at a moment are those in force at its place. -/
theorem trace_scopes (hz : z ∈ p.trace report) :
    z.2.scopes.map (p.openers[·]?) = (p.outline.scopesAt z.1.place).map some := by
  rw [(trace_matches hz).scopes, List.append_nil, (trace_makes hz).scopes]

/-- What is done at a moment that is not the beginning of a scope is what the tree says. -/
theorem trace_does (hz : z ∈ p.trace report) (hact : z.2.event.opening? = none) :
    p.outline.does? z.1.place = some z.2.event ∧ z.1.time = p.outline.time z.1.place := by
  have hdone := (trace_makes hz).done
  rw [← (trace_matches hz).event] at hdone
  cases hevent : z.2.event with
  | scope kind span es =>
      rw [hevent] at hact
      contradiction
  | _ =>
      rw [hevent] at hdone
      exact hdone

theorem trace_sorted : (p.trace report).Pairwise fun z z' => z.1.time < z'.1.time := by
  have hsorted := p.outline.steps_sorted
  rw [← p.trace_fst report] at hsorted
  exact (List.pairwise_map (f := Prod.fst) (R := fun s s' : NameStep => s.time < s'.time)).mp hsorted

/-- No node opens two scopes. -/
theorem openers_nodup : p.openers.Nodup := by
  refine List.pairwise_filterMap.mpr (p.outline.steps_sorted.imp_of_mem fun {s s'} hs hs' hlt w hw w' hw' heq => ?_)
  have htime {s : NameStep} (hs : s ∈ p.outline.steps) {w : List Nat} (hw : s.opener? = some w) :
      s.time = p.outline.openTime w := by
    have hdone := (p.outline.steps_made s hs).done
    rw [NameStep.opener?] at hw
    cases hevent : s.event with
    | scope kind span es =>
        rw [hevent] at hw hdone
        rw [← Option.some.inj hw]
        exact hdone.2
    | _ =>
        rw [hevent] at hw
        contradiction
  rw [htime hs hw, htime hs' hw', heq] at hlt
  exact List.lt_irrefl _ hlt

/-! ### Bindings -/

theorem resolve_bindings : (resolve p report).table.bindings.toList =
    (p.trace report).filterMap fun z => z.2.binding? := by
  have hbound := (Resolver.start report).run_bound [] p.event
  rw [← p.trace_snd report, List.filterMap_map] at hbound
  exact hbound

/-- What is bound at a moment of the trace is what its place defines, in the innermost scope in force. -/
theorem trace_binding (hz : z ∈ p.trace report) {b : Binding} (hb : z.2.binding? = some b) :
    (p.outline.does? z.1.place).bind Event.definition? = some (b.kind, b.name, b.site) ∧
      z.1.time = p.outline.time z.1.place ∧
      ∃ scope, (p.outline.scopesAt z.1.place).head? = some scope ∧ p.openers[b.scope]? = some scope := by
  have hscopes := congrArg List.head? (trace_scopes hz)
  rw [List.head?_map, List.head?_map, Moment.scopes, List.head?_map] at hscopes
  have hframe {kind : BindingKind} {name : String} {site : Site}
      (h : (z.2.frames.head?.map fun frame => (⟨kind, name, site, frame.scope⟩ : Binding)) = some b) :
      b.kind = kind ∧ b.name = name ∧ b.site = site ∧
        ∃ scope, (p.outline.scopesAt z.1.place).head? = some scope ∧ p.openers[b.scope]? = some scope := by
    obtain ⟨frame, hhead, rfl⟩ := Option.map_eq_some_iff.mp h
    rw [hhead] at hscopes
    obtain ⟨scope, hscope, hnumber⟩ := Option.map_eq_some_iff.mp hscopes.symm
    exact ⟨rfl, rfl, rfl, scope, hscope, hnumber.symm⟩
  rw [Moment.binding?] at hb
  -- an assignment makes a binding only where its name is not seen
  cases hevent : z.2.event with
  | use | scope =>
      rw [hevent] at hb
      contradiction
  | define kind name site =>
      obtain ⟨hdoes, htime⟩ := trace_does hz (by rw [hevent]; rfl)
      rw [hevent] at hb hdoes
      obtain ⟨rfl, rfl, rfl, hscope⟩ := hframe hb
      exact ⟨by rw [hdoes]; rfl, htime, hscope⟩
  | assign name statement target =>
      obtain ⟨hdoes, htime⟩ := trace_does hz (by rw [hevent]; rfl)
      rw [hevent] at hb hdoes
      dsimp only at hb
      split at hb
      · obtain ⟨hkind, rfl, rfl, hscope⟩ := hframe hb
        exact ⟨by rw [hdoes, hkind]; rfl, htime, hscope⟩
      · contradiction

theorem mem_definers {place : List Nat} :
    place ∈ p.definers report ↔ ∃ z ∈ p.trace report, z.2.binding?.isSome ∧ z.1.place = place := by
  rw [definers, List.mem_filterMap]
  refine exists_congr fun z => and_congr_right fun _ => ?_
  cases z.2.binding? <;> simp

/-- What a moment knows was bound at the moments before it. -/
theorem known_bindings {before after : List (NameStep × Moment)} (htrace : p.trace report = before ++ z :: after) :
    z.2.table.bindings.toList = before.filterMap fun z => z.2.binding? := by
  have hlead := (Resolver.start report).moments_lead [] p.event
  rw [← p.trace_snd report, htrace, List.map_append, List.map_cons] at hlead
  have hbindings := hlead.before.gather (f := fun r => r.table.bindings.toList) (fun m _ => m.next_bindings)
  rw [List.filterMap_map] at hbindings
  exact hbindings

/-- **A moment knows the bindings of all earlier times**, and no others. -/
theorem known_iff (hz : z ∈ p.trace report) {k : Nat} {definer : List Nat}
    (hk : (p.definers report)[k]? = some definer) :
    k < z.2.table.bindings.size ↔ p.outline.time definer < z.1.time := by
  obtain ⟨before, after, htrace⟩ := List.append_of_mem hz
  let place? (z : NameStep × Moment) : Option (List Nat) := z.2.binding?.map fun _ => z.1.place
  have hsize : z.2.table.bindings.size = (before.filterMap place?).length := by
    rw [← Array.length_toList, known_bindings htrace, List.length_filterMap_eq_countP, List.length_filterMap_eq_countP]
    exact List.countP_congr fun z _ => by rw [Option.isSome_map]
  have hsorted : (p.trace report).Pairwise fun z z' => z.1.time < z'.1.time := p.trace_sorted
  rw [htrace] at hsorted
  obtain ⟨-, hafter, hbefore⟩ := List.pairwise_append.mp hsorted
  have htime {z' : NameStep × Moment} (hz' : z' ∈ p.trace report) (hplace : place? z' = some definer) :
      z'.1.time = p.outline.time definer := by
    obtain ⟨b, hb, rfl⟩ := Option.map_eq_some_iff.mp hplace
    exact (trace_binding hz' hb).2.1
  rw [definers, htrace, List.filterMap_append] at hk
  rw [hsize]
  constructor
  · intro hlt
    rw [List.getElem?_append_left hlt] at hk
    obtain ⟨z', hz', hplace⟩ := List.mem_filterMap.mp (List.mem_of_getElem? hk)
    rw [← htime (htrace ▸ List.mem_append_left _ hz') hplace]
    exact hbefore z' hz' z List.mem_cons_self
  · intro hlt
    by_contra hge
    -- otherwise the binding is made at this moment or at a later one
    rw [List.getElem?_append_right (Nat.le_of_not_lt hge)] at hk
    obtain ⟨z', hz', hplace⟩ := List.mem_filterMap.mp (List.mem_of_getElem? hk)
    rw [← htime (htrace ▸ List.mem_append_right _ hz') hplace] at hlt
    rcases List.mem_cons.mp hz' with rfl | hz'
    · exact List.lt_irrefl _ hlt
    · exact List.lt_asymm hlt ((List.pairwise_cons.mp hafter).1 z' hz')

/-- What two functions give of the elements of a list stands side by side. -/
theorem forall₂_filterMap {α β γ : Type} {r : β → γ → Prop} {f : α → Option β} {g : α → Option γ} {l : List α}
    (h : ∀ a ∈ l, Option.Rel r (f a) (g a)) : List.Forall₂ r (l.filterMap f) (l.filterMap g) := by
  refine List.rel_filterMap (R := fun a a' => a = a' ∧ a ∈ l) ?_ (List.forall₂_same.mpr fun a ha => ⟨rfl, ha⟩)
  rintro a _ ⟨rfl, ha⟩
  exact h a ha

variable (report) in
/-- The bindings of a table are made at the definers, one after the other. -/
theorem definers_bindings : List.Forall₂ (fun place (b : Binding) =>
    (p.outline.does? place).bind Event.definition? = some (b.kind, b.name, b.site) ∧
      ∃ scope, (p.outline.scopesAt place).head? = some scope ∧ p.openers[b.scope]? = some scope)
    (p.definers report) (resolve p report).table.bindings.toList := by
  rw [resolve_bindings, definers]
  refine forall₂_filterMap fun z hz => ?_
  cases hb : z.2.binding? with
  | none => exact .none
  | some b =>
      obtain ⟨hdefines, -, hscope⟩ := trace_binding hz hb
      exact .some ⟨hdefines, hscope⟩

/-- The scopes of a table are opened at the openers, one after the other. -/
theorem openers_scopes : List.Forall₂ (fun place (s : Scope) =>
    (p.outline.at? place).bind opening? = some (s.kind, s.span) ∧
      s.parent.map (p.openers[·]?) = (p.outline.scopesAt place).head?.map some)
    p.openers (resolve p report).table.scopes.toList := by
  have hscopes : (resolve p report).table.scopes.toList =
      (p.trace report).filterMap fun z => z.2.opened?.map Prod.fst := by
    have hopened := (Resolver.start report).run_opened [] p.event
    rw [← p.trace_snd report, List.filterMap_map] at hopened
    have hfst := congrArg (List.map Prod.fst) hopened
    rw [List.zipIdx_map_fst, List.map_append, List.map_filterMap] at hfst
    exact hfst
  have hopeners : p.openers = (p.trace report).filterMap fun z => z.1.opener? := by
    rw [openers, ← p.trace_fst report, List.filterMap_map]
    rfl
  rw [hscopes]
  -- both lists come from the trace, and moment by moment they are filled at the same times
  have hall := forall₂_filterMap (r := fun place (s : Scope) =>
    (p.outline.at? place).bind opening? = some (s.kind, s.span) ∧
      s.parent.map (p.openers[·]?) = (p.outline.scopesAt place).head?.map some)
    (f := fun z => z.1.opener?) (g := fun z => z.2.opened?.map Prod.fst) (l := p.trace report) fun z hz => ?_
  · rwa [← hopeners] at hall
  · have hevent := (trace_matches hz).event
    have hdone := (trace_makes hz).done
    rw [NameStep.opener?, Moment.opened?, hevent]
    cases hstep : z.1.event with
    | scope kind span es =>
        rw [hstep] at hdone
        refine .some ⟨hdone.1, ?_⟩
        have hhead := congrArg List.head? (trace_scopes hz)
        rw [List.head?_map, List.head?_map, Moment.scopes, List.head?_map] at hhead
        exact hhead
    | _ => exact .none

/-! ### What is seen -/

theorem forall₂_getElem? {α β : Type} {r : α → β → Prop} {as : List α} {bs : List β} (h : List.Forall₂ r as bs) {k : Nat}
    {a : α} (ha : as[k]? = some a) : ∃ b, bs[k]? = some b ∧ r a b := by
  induction h generalizing k with
  | nil => contradiction
  | cons hab _ ih =>
      cases k with
      | zero => exact ⟨_, rfl, Option.some.inj ha ▸ hab⟩
      | succ k => exact ih ha

/-- **A name is not visible** at a moment just if its place sees no definition of it. -/
theorem unseen_iff (hz : z ∈ p.trace report) (htime : z.1.time = p.outline.time z.1.place) {name : String} :
    lookup? z.2.frames name = none ↔ ∀ definer ∈ p.definers report,
      p.outline.Sees z.1.place definer → p.outline.definedName? definer ≠ some name := by
  have hfaithful := Resolver.moments_faithful (Resolver.start_faithful report) p.event z.2 (trace_moment hz)
  have hwithin := (Resolver.moments_within (.start report) [] p.event z.2 (trace_moment hz)).2
  have hbindings := p.definers_bindings report
  rw [hfaithful.lookup?_eq_none]
  constructor
  · intro hnone definer hdefiner ⟨hearlier, scope, hscope, hforce⟩ hname
    obtain ⟨k, hk⟩ := List.mem_iff_getElem?.mp hdefiner
    obtain ⟨b, hb, hdefines, scope', hscope', hnumber⟩ := forall₂_getElem? hbindings hk
    have hlt := (known_iff hz hk).mpr (htime ▸ hearlier)
    have hmoment : z.2.table.bindings[k]? = some b := by
      rw [Array.getElem?_toList] at hb
      have hbefore : z.2.table.bindings[k]? = some z.2.table.bindings[k] := Array.getElem?_eq_getElem hlt
      rw [hbefore, ← hb, ← hwithin.binding_stays hbefore]
      rfl
    -- the scope of the binding is open, since numbers stand for different nodes
    obtain rfl : scope = scope' := Option.some.inj (hscope.symm.trans hscope')
    have hopen : some scope ∈ z.2.scopes.map (p.openers[·]?) := by
      rw [trace_scopes hz]
      exact List.mem_map_of_mem hforce
    obtain ⟨s, hs, hsame⟩ := List.mem_map.mp hopen
    obtain rfl : s = b.scope :=
      (List.getElem?_inj (List.getElem?_eq_some_iff.mp hsame).1 p.openers_nodup).mp (hsame.trans hnumber.symm)
    refine hnone _ hs k ⟨b, hmoment, rfl, ?_⟩
    rw [definedName?, hdefines] at hname
    exact Option.some.inj hname
  · rintro hunseen s hs k ⟨b, hb, rfl, rfl⟩
    have hlt := (Array.getElem?_eq_some_iff.mp hb).1
    have hfinal : (resolve p report).table.bindings.toList[k]? = some b := by
      rw [Array.getElem?_toList]
      exact hwithin.binding_stays hb
    obtain ⟨definer, hk, hdefines, scope, hscope, hnumber⟩ := forall₂_getElem? hbindings.flip hfinal
    have hforce : scope ∈ p.outline.scopesAt z.1.place := by
      have hopen := List.mem_map_of_mem (f := (p.openers[·]?)) hs
      rw [show (z.2.frames.map Frame.scope).map (p.openers[·]?) = _ from trace_scopes hz, hnumber] at hopen
      obtain ⟨scope', hmem, heq⟩ := List.mem_map.mp hopen
      exact Option.some.inj heq ▸ hmem
    refine hunseen definer (List.mem_of_getElem? hk) ⟨htime ▸ (known_iff hz hk).mp hlt, scope, hscope, hforce⟩ ?_
    rw [definedName?, hdefines]
    rfl

/-- Whatever is done in a program is done in the scope of its module. -/
theorem scopesAt_ne_nil {place : List Nat} {e : Event} (h : p.outline.does? place = some e) :
    p.outline.scopesAt place ≠ [] := by
  cases place with
  | nil => contradiction
  | cons i way =>
      rw [does?, Option.bind_eq_some_iff] at h
      obtain ⟨u, hu, -⟩ := h
      rw [scopesAt, hu]
      dsimp only
      split
      · exact List.cons_ne_nil _ _
      · exact List.append_ne_nil_of_right_ne_nil _ (List.cons_ne_nil _ _)

variable (report) in
/-- What the tree does at a place is done at a moment of the trace. -/
theorem exists_trace {place : List Nat} {e : Event} (h : p.outline.does? place = some e) :
    ∃ z ∈ p.trace report, z.1.place = place ∧ z.2.event = e := by
  obtain ⟨s, hs, rfl, rfl⟩ := exists_step h
  rw [← p.trace_fst report] at hs
  obtain ⟨z, hz, rfl⟩ := List.mem_map.mp hs
  exact ⟨z, hz, rfl, (trace_matches hz).event⟩

/-- There is an open scope at every moment at which something is done. -/
theorem trace_frames (hz : z ∈ p.trace report) {e : Event} (hdoes : p.outline.does? z.1.place = some e) :
    ∃ frame, z.2.frames.head? = some frame := by
  have hscopes := trace_scopes hz
  cases hframes : z.2.frames with
  | cons frame outer => exact ⟨frame, rfl⟩
  | nil =>
      rw [Moment.scopes, hframes] at hscopes
      exact absurd (List.map_eq_nil_iff.mp hscopes.symm) (scopesAt_ne_nil hdoes)

/-- A place where a binding is made is one where the tree defines a name. -/
theorem defines_of_mem_definers {place : List Nat} (h : place ∈ p.definers report) :
    p.outline.Defines (p.definers report) place := by
  obtain ⟨z, hz, hsome, rfl⟩ := mem_definers.mp h
  obtain ⟨b, hb⟩ := Option.isSome_iff_exists.mp hsome
  rw [Moment.binding?] at hb
  cases hevent : z.2.event with
  | use | scope =>
      rw [hevent] at hb
      contradiction
  | define kind name site =>
      have hdoes := (trace_does hz (by rw [hevent]; rfl)).1
      rw [Defines, hdoes, hevent]
      trivial
  | assign name statement target =>
      -- an assignment binds only a name that is not seen yet, and `Defines` asks for the same of the tree
      obtain ⟨hdoes, htime⟩ := trace_does hz (by rw [hevent]; rfl)
      rw [hevent] at hb
      dsimp only at hb
      split at hb
      · next hnone =>
          rw [Defines, hdoes, hevent]
          exact (unseen_iff hz htime).mp (Option.isNone_iff_eq_none.mp hnone)
      · contradiction

/-- Where the tree defines a name, a binding is made. -/
theorem mem_definers_of_defines {place : List Nat} (h : p.outline.Defines (p.definers report) place) :
    place ∈ p.definers report := by
  rw [Defines] at h
  cases hdoes : p.outline.does? place with
  | none =>
      rw [hdoes] at h
      contradiction
  | some e =>
      rw [hdoes] at h
      obtain ⟨z, hz, rfl, hevent⟩ := exists_trace report hdoes
      obtain ⟨frame, hframe⟩ := trace_frames hz hdoes
      refine mem_definers.mpr ⟨z, hz, ?_, rfl⟩
      rw [Moment.binding?, hevent, hframe]
      cases e with
      | use | scope => contradiction
      | define => rfl
      | assign name statement target =>
          have htime := (trace_does hz (by rw [hevent]; rfl)).2
          have hnone : (lookup? z.2.frames name).isNone := by
            rw [(unseen_iff hz htime).mpr h]
            rfl
          dsimp only
          rw [if_pos hnone]
          rfl

/-- **Names are bound wherever the tree defines them.** -/
theorem mem_definers_iff (place : List Nat) :
    place ∈ p.definers report ↔ p.outline.Defines (p.definers report) place :=
  ⟨defines_of_mem_definers, mem_definers_of_defines⟩

/-- **The table of a program accords with its tree.** -/
theorem resolve_accords (p : Program) (report : Report) :
    p.outline.Accords (resolve p report).table p.openers (p.definers report) where
  distinct := p.openers_nodup
  scopes := p.openers_scopes
  ordered := by
    have hsorted : (p.trace report).Pairwise fun z z' => z.1.time < z'.1.time := p.trace_sorted
    have hsorted := List.Pairwise.and_mem.mp hsorted
    refine hsorted.filterMap _ fun z z' ⟨hz, hz', hlt⟩ d hd d' hd' => ?_
    obtain ⟨b, hb, rfl⟩ := Option.map_eq_some_iff.mp hd
    obtain ⟨b', hb', rfl⟩ := Option.map_eq_some_iff.mp hd'
    rw [← (trace_binding hz hb).2.1, ← (trace_binding hz' hb').2.1]
    exact hlt
  bindings := p.definers_bindings report
  complete := p.mem_definers_iff

end Program

/-! ## References -/

/-- The reference that a moment makes is the use that its event makes. -/
theorem Moment.usage_of_reference? {m : Moment} {r : Reference} (h : m.reference? = some r) :
    m.event.usage? = some (r.role, r.name, r.site) := by
  obtain ⟨resolver, frames, event⟩ := m
  cases event with
  | define | scope => contradiction
  | use role name site => rw [← Option.some.inj h, Event.usage?]
  | assign name statement target =>
      obtain ⟨i, -, rfl⟩ := Option.map_eq_some_iff.mp h
      rfl

/-- **References resolve lexically.** The table of a program accords with its tree: scope by scope with the nodes that
    open scopes, and binding by binding with the places that define names. Every reference was recorded at one moment of
    the run and stands at a place that uses its name in its role. The scopes that were open then are those in force at
    the place, and what was bound by then is what is defined at earlier times. Its binding is the newest one of its name
    in the nearest of these scopes that held one by then, and it has none exactly when none of them held one. -/
theorem resolve_lexical (p : Program) (report : Report) :
    let root := p.outline
    let table := (resolve p report).table
    ∃ openers definers, root.Accords table openers definers ∧ table.scopes[0]? = some ⟨.module, none, p.span⟩ ∧
      ∀ r ∈ table.references, ∃ place, ∃ m ∈ (Resolver.start report).moments [] p.event,
        (root.does? place).bind Event.usage? = some (r.role, r.name, r.site) ∧
        m.Records r ∧ m.table.Within table ∧
        m.scopes.map (openers[·]?) = (root.scopesAt place).map some ∧
        (∀ (k : Nat) definer, definers[k]? = some definer →
          (k < m.table.bindings.size ↔ root.time definer < root.time place)) ∧
        (∀ i, r.binding = some i → m.table.Denotes m.scopes r.name i) ∧
        (r.binding = none ↔ ∀ s ∈ m.scopes, ∀ i, ¬ m.table.Holds s r.name i) := by
  intro root table
  refine ⟨p.openers, p.definers report, p.resolve_accords report, ?_, fun r hr => ?_⟩
  · have hopened : table.scopes.toList.zipIdx = ((Resolver.start report).moments [] p.event).filterMap Moment.opened? :=
      (Resolver.start report).run_opened [] p.event
    rw [← Array.getElem?_toList, ← List.mk_mem_zipIdx_iff_getElem?, hopened]
    exact List.mem_filterMap.mpr ⟨_, List.mem_cons_self, rfl⟩
  · -- nothing is recorded before the run, so the reference is made at some moment
    have hmade := ((Resolver.start report).run_references [] p.event r hr).resolve_left (Array.not_mem_empty r)
    obtain ⟨m, hm, hmakes⟩ := hmade
    have husage := m.usage_of_reference? hmakes
    have hfaithful := Resolver.moments_faithful (Resolver.start_faithful report) p.event m hm
    rw [← p.trace_snd report] at hm
    obtain ⟨z, hz, rfl⟩ := List.mem_map.mp hm
    obtain ⟨hdoes, htime⟩ := Program.trace_does hz (by cases h : z.2.event <;> rw [h] at husage <;> first | rfl | contradiction)
    refine ⟨z.1.place, z.2, Program.trace_moment hz, by rw [hdoes]; exact husage, Moment.records_of_reference? hmakes,
      (Resolver.moments_within _ _ _ _ (Program.trace_moment hz)).2, Program.trace_scopes hz,
      fun k definer hk => htime ▸ Program.known_iff hz hk, fun i hi => ?_, ?_⟩
    · rw [Moment.binding_of_reference? hmakes] at hi
      exact hfaithful.lookup?_denotes hi
    · rw [Moment.binding_of_reference? hmakes]
      exact hfaithful.lookup?_eq_none

end ShellFront
