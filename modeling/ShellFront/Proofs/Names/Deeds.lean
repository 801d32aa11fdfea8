import ShellFront.Proofs.Names.Scoping

/-!
# What a tree does to names

A tree lists its **deeds**: each thing that is done to names, with the way to where it is done and the time when. The
list is put together in the same way at every node, by the phases of its children, so that a property of all deeds is
proved for one node and holds for the whole tree. As **steps**, one after the other, the deeds come in the order of
time; they are those that the rules of scoping tell of, and each is in the scopes that are in force at its place.

## Contents
- `Deed` and its events; `NameStep` and the steps of deeds.
- `Outline.deeds`, `Outline.steps`.
- `Outline.steps_sorted`; `Outline.Makes` and `Outline.steps_made`; `Outline.exists_step`.
-/

namespace ShellFront

/-! ## Deeds and steps -/

/-- Something that is done to names, with the way to its place and its time; a scope holds what is done in it. -/
inductive Deed where
  | act (place time : List Nat) (event : Event)
  | scope (place time : List Nat) (kind : ScopeKind) (span : Span) (deeds : List Deed)

/-- Something that is done to names, in scopes that are given by their places, innermost first. -/
structure NameStep where
  place : List Nat
  time : List Nat
  scopes : List (List Nat)
  event : Event

namespace NameStep

/-- A step of a child, as a step of the node above. -/
def under (rank i : Nat) (s : NameStep) : NameStep :=
  ⟨i :: s.place, rank :: i :: s.time, s.scopes.map (i :: ·), s.event⟩

/-- A step in one more scope around it. -/
def within (scope : List Nat) (s : NameStep) : NameStep := { s with scopes := s.scopes ++ [scope] }

/-- Putting a step under a parent and into a scope commutes. -/
theorem within_under (rank i : Nat) (place : List Nat) (s : NameStep) :
    (s.within place).under rank i = (s.under rank i).within (i :: place) := by
  simp [within, under]

end NameStep

namespace Deed

mutual

/-- The event of a deed. -/
def event : Deed → Event
  | act _ _ e => e
  | scope _ _ kind span deeds => .scope kind span (events deeds)

/-- The events of deeds. -/
def events : List Deed → List Event
  | [] => []
  | d :: ds => d.event :: events ds

end

mutual

/-- A deed of a child, as a deed of the node above. -/
def under (rank i : Nat) : Deed → Deed
  | act place time e => act (i :: place) (rank :: i :: time) e
  | scope place time kind span deeds => scope (i :: place) (rank :: i :: time) kind span (allUnder rank i deeds)

/-- Deeds of a child, as deeds of the node above. -/
def allUnder (rank i : Nat) : List Deed → List Deed
  | [] => []
  | d :: ds => d.under rank i :: allUnder rank i ds

end

mutual

/-- The steps of a deed: a scope is opened by a step of its own, and then comes what is done in it. -/
def steps : Deed → List NameStep
  | act place time e => [⟨place, time, [], e⟩]
  | scope place time kind span deeds =>
      ⟨place, time, [], .scope kind span (events deeds)⟩ :: (allSteps deeds).map (NameStep.within place)

/-- The steps of deeds. -/
def allSteps : List Deed → List NameStep
  | [] => []
  | d :: ds => d.steps ++ allSteps ds

end

theorem events_eq (ds : List Deed) : events ds = ds.map event := by
  induction ds with
  | nil => rfl
  | cons d ds ih => rw [events, ih, List.map_cons]

/-- The events of some deeds and of others are taken one after the other. -/
@[simp] theorem events_append (ds ds' : List Deed) : events (ds ++ ds') = events ds ++ events ds' := by
  rw [events_eq, events_eq, events_eq, List.map_append]

theorem allSteps_eq (ds : List Deed) : allSteps ds = ds.flatMap steps := by
  induction ds with
  | nil => rfl
  | cons d ds ih => rw [allSteps, ih, List.flatMap_cons]

/-- So are their steps. -/
@[simp] theorem allSteps_append (ds ds' : List Deed) : allSteps (ds ++ ds') = allSteps ds ++ allSteps ds' := by
  rw [allSteps_eq, allSteps_eq, allSteps_eq, List.flatMap_append]

theorem allSteps_flatMap {α : Type} (as : List α) (f : α → List Deed) :
    allSteps (as.flatMap f) = as.flatMap fun a => allSteps (f a) := by
  induction as with
  | nil => rfl
  | cons a as ih => rw [List.flatMap_cons, allSteps_append, ih, List.flatMap_cons]

mutual

/-- What a deed does depends neither on its place nor on its time. -/
@[simp] theorem event_under (rank i : Nat) : ∀ d : Deed, (d.under rank i).event = d.event
  | act .. => rfl
  | scope _ _ _ _ deeds => by rw [under, event, event, events_allUnder]

@[simp] theorem events_allUnder (rank i : Nat) : ∀ ds : List Deed, events (allUnder rank i ds) = events ds
  | [] => rfl
  | d :: ds => by rw [allUnder, events, events, event_under, events_allUnder]

end

mutual

/-- A deed that is moved under a parent has its steps moved under that parent. -/
theorem steps_under (rank i : Nat) : ∀ d : Deed, (d.under rank i).steps = d.steps.map (NameStep.under rank i)
  | act .. => rfl
  | scope place time kind span deeds => by
      rw [under, steps, steps, allSteps_allUnder, events_allUnder, List.map_cons, List.map_map, List.map_map]
      exact congrArg (List.cons _) (List.map_congr_left fun s _ => (NameStep.within_under ..).symm)

theorem allSteps_allUnder (rank i : Nat) : ∀ ds : List Deed,
    allSteps (allUnder rank i ds) = (allSteps ds).map (NameStep.under rank i)
  | [] => rfl
  | d :: ds => by rw [allUnder, allSteps, allSteps, steps_under, allSteps_allUnder, List.map_append]

end

end Deed

namespace Outline

/-! ## The deeds of a tree -/

/-- What a node does to its own name. -/
def ownDeeds (t : Outline) : List Deed := (t.does? []).toList.map (.act [] (t.time []))

/-- The names of the parameters of a node. -/
def parameterDeeds (t : Outline) : List Deed :=
  t.children.zipIdx.flatMap fun (u, i) =>
    if u.kind = .parameter then (t.effect? i u).toList.map (.act [i] [3, i]) else []

/-- What is done to the name of a child at an index when the child is visited. The names of parameters are bound at
    another time. -/
def alone? (t : Outline) (i : Nat) (u : Outline) : Option Event :=
  if u.kind = .parameter then none else t.effect? i u

/-- What is done at a child of a node at an index and below it, given what is done below it. -/
def childDeeds (t : Outline) (i : Nat) (u : Outline) (below : List Deed) : List Deed :=
  match t.alone? i u with
  | some e => [.act [] (u.time []) e]
  | none => if t.goesOn i u then below else []

/-- The deeds of a node, given those of its children in each phase. -/
def arranged (t : Outline) (children : Phase → List Deed) : List Deed :=
  children .before ++ (if t.kind.bindsEarly then t.ownDeeds else []) ++ children .around ++
    (t.opening?.map fun (kind, span) => Deed.scope [] [3] kind span (t.parameterDeeds ++ children .inside)).toList ++
    if t.kind.bindsEarly then [] else t.ownDeeds

mutual

/-- What a tree does to names. -/
def deeds : Outline → List Deed
  | mk kind span attributes children =>
      (mk kind span attributes children).arranged ((mk kind span attributes children).phaseDeeds 0 children)

/-- What the children of a node from an index on do to names in a phase. -/
def phaseDeeds (t : Outline) (i : Nat) : List Outline → Phase → List Deed
  | [], _ => []
  | u :: us, p =>
      (if t.phase i u = p then Deed.allUnder p.rank i (t.childDeeds i u u.deeds) else []) ++
        t.phaseDeeds (i + 1) us p

end

theorem deeds_eq (t : Outline) : t.deeds = t.arranged (t.phaseDeeds 0 t.children) := by
  cases t
  rw [deeds, children]

/-- The deeds of a phase are those of the children that belong to it, each moved under its index. -/
theorem phaseDeeds_eq (t : Outline) (i : Nat) (us : List Outline) (p : Phase) :
    t.phaseDeeds i us p = (us.zipIdx i).flatMap fun (u, j) =>
      if t.phase j u = p then Deed.allUnder p.rank j (t.childDeeds j u u.deeds) else [] := by
  induction us generalizing i with
  | nil => rw [phaseDeeds, List.zipIdx_nil, List.flatMap_nil]
  | cons u us ih => rw [phaseDeeds, ih, List.zipIdx_cons, List.flatMap_cons]

/-! ## The steps of a tree -/

/-- The steps of a tree. -/
def steps (t : Outline) : List NameStep := Deed.allSteps t.deeds

/-- What a node does to its own name. -/
def ownSteps (t : Outline) : List NameStep := (t.does? []).toList.map (⟨[], t.time [], [], ·⟩)

/-- The names of the parameters of a node. -/
def parameterSteps (t : Outline) : List NameStep :=
  t.children.zipIdx.flatMap fun (u, i) =>
    if u.kind = .parameter then (t.effect? i u).toList.map (⟨[i], [3, i], [], ·⟩) else []

/-- What is done at a child of a node at an index and below it. -/
def childSteps (t : Outline) (i : Nat) (u : Outline) : List NameStep := Deed.allSteps (t.childDeeds i u u.deeds)

/-- What the children of a node do to names in a phase. -/
def phaseSteps (t : Outline) (p : Phase) : List NameStep :=
  t.children.zipIdx.flatMap fun (u, i) =>
    if t.phase i u = p then (t.childSteps i u).map (NameStep.under p.rank i) else []

/-- The scope that a node opens, with what is done in it. -/
def scopeSteps (t : Outline) : List NameStep :=
  (t.opening?.map fun (kind, span) =>
    (⟨[], [3], [], .scope kind span (Deed.events (t.parameterDeeds ++ t.phaseDeeds 0 t.children .inside))⟩ : NameStep) ::
      (t.parameterSteps ++ t.phaseSteps .inside).map (NameStep.within [])).getD []

/-- Acts without scopes are steps with their own place and time. -/
theorem allSteps_acts (es : List Event) (place time : List Nat) :
    Deed.allSteps (es.map (.act place time)) = es.map (⟨place, time, [], ·⟩) := by
  induction es with
  | nil => rfl
  | cons e es ih => rw [List.map_cons, Deed.allSteps, ih, Deed.steps, List.map_cons, List.singleton_append]

theorem allSteps_parameterDeeds (t : Outline) : Deed.allSteps t.parameterDeeds = t.parameterSteps := by
  rw [parameterDeeds, Deed.allSteps_flatMap, parameterSteps]
  refine congrArg (List.flatMap · _) (funext fun (u, i) => ?_)
  dsimp only
  split
  · exact allSteps_acts ..
  · rfl

/-- The steps of the deeds of a phase are the steps of that phase. -/
theorem allSteps_phaseDeeds (t : Outline) (p : Phase) :
    Deed.allSteps (t.phaseDeeds 0 t.children p) = t.phaseSteps p := by
  rw [phaseDeeds_eq, Deed.allSteps_flatMap, phaseSteps]
  refine congrArg (List.flatMap · _) (funext fun (u, i) => ?_)
  dsimp only
  split
  · exact Deed.allSteps_allUnder ..
  · rfl

/-- The steps of a tree, part by part. -/
theorem steps_eq (t : Outline) :
    t.steps = t.phaseSteps .before ++ (if t.kind.bindsEarly then t.ownSteps else []) ++ t.phaseSteps .around ++
      t.scopeSteps ++ if t.kind.bindsEarly then [] else t.ownSteps := by
  have hown (b : Bool) (x y : List Deed) (x' y' : List NameStep) (hx : Deed.allSteps x = x') (hy : Deed.allSteps y = y') :
      Deed.allSteps (if b then x else y) = if b then x' else y' := by
    split <;> assumption
  have hacts : Deed.allSteps t.ownDeeds = t.ownSteps := allSteps_acts ..
  rw [steps, deeds_eq, arranged, Deed.allSteps_append, Deed.allSteps_append, Deed.allSteps_append,
    Deed.allSteps_append, allSteps_phaseDeeds, allSteps_phaseDeeds, hown _ _ _ _ _ hacts rfl,
    hown _ _ _ _ _ rfl hacts]
  congr 2
  rw [scopeSteps]
  cases t.opening? with
  | none => rfl
  | some opened =>
      rw [Option.map_some, Option.toList_some, Deed.allSteps, Deed.steps, Deed.allSteps, Deed.allSteps_append,
        allSteps_parameterDeeds, allSteps_phaseDeeds, List.append_nil]
      rfl

/-! ### What is done where -/

variable {t u : Outline} {i : Nat} {s : NameStep}

/-- A child takes the step that its parent gives it, or else its own ones. -/
theorem mem_childSteps : s ∈ t.childSteps i u ↔
    (∃ e, t.alone? i u = some e ∧ s = ⟨[], u.time [], [], e⟩) ∨
      t.alone? i u = none ∧ t.goesOn i u = true ∧ s ∈ u.steps := by
  rw [childSteps, childDeeds]
  cases halone : t.alone? i u with
  | some e => simp [Deed.allSteps, Deed.steps]
  | none => cases t.goesOn i u <;> simp [steps, Deed.allSteps]

/-- A step of a phase belongs to one of the children in it. -/
theorem mem_phaseSteps {p : Phase} : s ∈ t.phaseSteps p ↔
    ∃ i u, t.children[i]? = some u ∧ t.phase i u = p ∧ ∃ s' ∈ t.childSteps i u, s = s'.under p.rank i := by
  simp only [phaseSteps, List.mem_flatMap, Prod.exists, List.mem_zipIdx_iff_getElem?, List.mem_ite_nil_right,
    List.mem_map]
  exact ⟨fun ⟨u, i, hu, hphase, s', hs', heq⟩ => ⟨i, u, hu, hphase, s', hs', heq.symm⟩,
    fun ⟨i, u, hu, hphase, s', hs', heq⟩ => ⟨u, i, hu, hphase, s', hs', heq.symm⟩⟩

/-- Parameters are bound one after another, each where it stands. -/
theorem mem_parameterSteps : s ∈ t.parameterSteps ↔
    ∃ i u e, t.children[i]? = some u ∧ u.kind = .parameter ∧ t.effect? i u = some e ∧ s = ⟨[i], [3, i], [], e⟩ := by
  simp only [parameterSteps, List.mem_flatMap, Prod.exists, List.mem_zipIdx_iff_getElem?, List.mem_ite_nil_right,
    List.mem_map, Option.mem_toList]
  exact ⟨fun ⟨u, i, hu, hkind, e, he, heq⟩ => ⟨i, u, e, hu, hkind, he, heq.symm⟩,
    fun ⟨i, u, e, hu, hkind, he, heq⟩ => ⟨u, i, hu, hkind, e, he, heq.symm⟩⟩

/-- A node takes at most one step itself, at its own time. -/
theorem mem_ownSteps : s ∈ t.ownSteps ↔ ∃ e, t.does? [] = some e ∧ s = ⟨[], t.time [], [], e⟩ := by
  simp only [ownSteps, List.mem_map, Option.mem_toList, eq_comm]

/-- The steps that come from a child, in the scope of the node or in the one that the node opens. -/
theorem mem_steps : s ∈ t.steps ↔
    s ∈ t.ownSteps ∨ (∃ p, p ≠ .inside ∧ s ∈ t.phaseSteps p) ∨ s ∈ t.scopeSteps := by
  rw [steps_eq]
  have hphases : (∃ p, p ≠ .inside ∧ s ∈ t.phaseSteps p) ↔ s ∈ t.phaseSteps .before ∨ s ∈ t.phaseSteps .around := by
    constructor
    · rintro ⟨_ | _ | _, hne, hs⟩
      · exact .inl hs
      · exact .inr hs
      · exact absurd rfl hne
    · rintro (hs | hs)
      · exact ⟨.before, nofun, hs⟩
      · exact ⟨.around, nofun, hs⟩
  rw [hphases]
  cases t.kind.bindsEarly <;> simp [or_assoc, or_comm, or_left_comm]

/-! ## The order of steps -/

/-- Steps in the order of their times, which begin with numbers between two. -/
structure Timed (lo hi : Nat) (ss : List NameStep) : Prop where
  sorted : ss.Pairwise (·.time < ·.time)
  bounds : ∀ s ∈ ss, ∃ n rest, s.time = n :: rest ∧ lo ≤ n ∧ n < hi

namespace Timed

variable {lo mid hi : Nat} {ss ss' : List NameStep}

theorem nil : Timed lo hi [] := ⟨.nil, List.forall_mem_nil _⟩

/-- Two timed lists with a bound between them are one. -/
theorem append (h : Timed lo mid ss) (h' : Timed mid hi ss') (hlo : lo ≤ mid) (hhi : mid ≤ hi) :
    Timed lo hi (ss ++ ss') where
  sorted := by
    refine List.pairwise_append.mpr ⟨h.sorted, h'.sorted, fun s hs s' hs' => ?_⟩
    obtain ⟨n, rest, htime, -, hn⟩ := h.bounds s hs
    obtain ⟨n', rest', htime', hn', -⟩ := h'.bounds s' hs'
    rw [htime, htime']
    exact List.cons_lt_cons_iff.mpr (.inl (by omega))
  bounds := by
    intro s hs
    rcases List.mem_append.mp hs with hs | hs
    · obtain ⟨n, rest, htime, hn, hn'⟩ := h.bounds s hs
      exact ⟨n, rest, htime, hn, by omega⟩
    · obtain ⟨n, rest, htime, hn, hn'⟩ := h'.bounds s hs
      exact ⟨n, rest, htime, by omega, hn'⟩

/-- A scope around steps changes nothing about their times. -/
theorem within (h : Timed lo hi ss) (scope : List Nat) : Timed lo hi (ss.map (NameStep.within scope)) where
  sorted := List.pairwise_map.mpr h.sorted
  bounds := List.forall_mem_map.mpr h.bounds

end Timed

/-- Children are visited one after the other. -/
theorem zipIdx_flatMap_sorted {us : List Outline} {f : Outline × Nat → List NameStep} {rank : Nat}
    (hsorted : ∀ u i, us[i]? = some u → (f (u, i)).Pairwise (·.time < ·.time))
    (htime : ∀ u i, us[i]? = some u → ∀ s ∈ f (u, i), ∃ rest, s.time = rank :: i :: rest) :
    Timed rank (rank + 1) (us.zipIdx.flatMap f) where
  sorted := by
    have hindices : us.zipIdx.Pairwise fun a b => a.2 < b.2 := by
      rw [← List.pairwise_map (f := Prod.snd), List.zipIdx_map_snd]
      exact List.pairwise_lt_range'
    refine List.pairwise_flatMap.mpr ⟨fun (u, i) hmem => hsorted u i (List.mem_zipIdx_iff_getElem?.mp hmem), ?_⟩
    refine hindices.imp_of_mem fun {a b} ha hb hlt s hs s' hs' => ?_
    obtain ⟨rest, heq⟩ := htime a.1 a.2 (List.mem_zipIdx_iff_getElem?.mp ha) s hs
    obtain ⟨rest', heq'⟩ := htime b.1 b.2 (List.mem_zipIdx_iff_getElem?.mp hb) s' hs'
    rw [heq, heq']
    exact List.cons_lt_cons_iff.mpr (.inr ⟨rfl, List.cons_lt_cons_iff.mpr (.inl hlt)⟩)
  bounds := by
    intro s hs
    obtain ⟨⟨u, i⟩, hmem, hs⟩ := List.mem_flatMap.mp hs
    obtain ⟨rest, heq⟩ := htime u i (List.mem_zipIdx_iff_getElem?.mp hmem) s hs
    exact ⟨rank, _, heq, Nat.le_refl _, Nat.lt_succ_self _⟩

/-- A node that binds early binds before its children do anything, and any other one after them. -/
theorem ownSteps_timed (t : Outline) : Timed (if t.kind.bindsEarly then 1 else 5)
    ((if t.kind.bindsEarly then 1 else 5) + 1) t.ownSteps := by
  rw [ownSteps]
  cases t.does? [] with
  | none => exact .nil
  | some e => exact ⟨List.pairwise_singleton _ _, List.forall_mem_singleton.mpr ⟨_, [], rfl, by simp⟩⟩

/-- Parameters are bound in the order in which they are written. -/
theorem parameterSteps_timed (t : Outline) : Timed 3 4 t.parameterSteps := by
  refine zipIdx_flatMap_sorted (fun u i _ => ?_) fun u i _ s hs => ?_
  · dsimp only
    split
    · cases t.effect? i u with
      | none => exact .nil
      | some e => exact List.pairwise_singleton _ _
    · exact .nil
  · obtain ⟨-, hs⟩ := List.mem_ite_nil_right.mp hs
    obtain ⟨e, -, rfl⟩ := List.mem_map.mp hs
    exact ⟨[], rfl⟩

/-- The children of a phase come one after another. -/
theorem phaseSteps_timed (t : Outline) (p : Phase) (h : ∀ u ∈ t.children, u.steps.Pairwise (·.time < ·.time)) :
    Timed p.rank (p.rank + 1) (t.phaseSteps p) := by
  refine zipIdx_flatMap_sorted (fun u i hu => ?_) fun u i _ s hs => ?_
  · dsimp only
    split
    · refine List.pairwise_map.mpr ?_
      have hsteps : (t.childSteps i u).Pairwise (·.time < ·.time) := by
        rw [childSteps, childDeeds]
        split
        · exact List.pairwise_singleton _ _
        · split
          · exact h u (List.mem_of_getElem? hu)
          · exact .nil
      exact hsteps.imp fun hlt => List.cons_lt_cons_iff.mpr (.inr ⟨rfl, List.cons_lt_cons_iff.mpr (.inr ⟨rfl, hlt⟩)⟩)
    · exact .nil
  · obtain ⟨-, hs⟩ := List.mem_ite_nil_right.mp hs
    obtain ⟨s', -, rfl⟩ := List.mem_map.mp hs
    exact ⟨s'.time, rfl⟩

/-- A scope is opened before anything is done in it, and its parameters come first. -/
theorem scopeSteps_timed (t : Outline) (h : ∀ u ∈ t.children, u.steps.Pairwise (·.time < ·.time)) :
    Timed 3 5 t.scopeSteps := by
  have hinner := ((parameterSteps_timed t).append (phaseSteps_timed t .inside h) (by decide) (by decide)).within []
  rw [scopeSteps]
  cases t.opening? with
  | none => exact .nil
  | some opened =>
      refine ⟨List.pairwise_cons.mpr ⟨fun s hs => ?_, hinner.sorted⟩,
        List.forall_mem_cons.mpr ⟨⟨3, [], rfl, by decide, by decide⟩, hinner.bounds⟩⟩
      -- the scope is opened at 3, and whatever is done in it is done later
      obtain ⟨s, hmem, rfl⟩ := List.mem_map.mp hs
      rcases List.mem_append.mp hmem with hmem | hmem
      · obtain ⟨i, u, e, -, -, -, rfl⟩ := mem_parameterSteps.mp hmem
        exact List.cons_lt_cons_iff.mpr (.inr ⟨rfl, List.nil_lt_cons _ _⟩)
      · obtain ⟨i, u, -, -, s', -, rfl⟩ := mem_phaseSteps.mp hmem
        exact List.cons_lt_cons_iff.mpr (.inl (by decide))

/-- **Steps come in the order of time.** -/
theorem steps_sorted (t : Outline) : t.steps.Pairwise (·.time < ·.time) := by
  induction t with
  | mk kind span attributes children ih =>
      rw [steps_eq]
      have hbefore := phaseSteps_timed (mk kind span attributes children) .before ih
      have haround := phaseSteps_timed (mk kind span attributes children) .around ih
      have hscope := scopeSteps_timed (mk kind span attributes children) ih
      have hown := ownSteps_timed (mk kind span attributes children)
      have hnothing : Timed 5 6 [] := .nil
      cases hearly : (mk kind span attributes children).kind.bindsEarly <;> rw [hearly] at hown
      · refine (((hbefore.append .nil ?_ ?_).append haround ?_ ?_).append hscope ?_ ?_ |>.append hown ?_ ?_).sorted <;>
          decide
      · refine (((hbefore.append hown ?_ ?_).append haround ?_ ?_).append hscope ?_ ?_ |>.append hnothing ?_
          ?_).sorted <;> decide

/-! ## Steps and the rules of scoping -/

/-- When the node at the end of a way opens its scope. -/
def openTime : List Nat → Outline → List Nat
  | [], _ => [3]
  | i :: way, t =>
      match t.children[i]? with
      | none => []
      | some u => (t.phase i u).rank :: i :: openTime way u

/-- A tree **makes** a step: the rules of scoping say that this is done at its place, in these scopes and at this
    time. -/
structure Makes (t : Outline) (s : NameStep) : Prop where
  scopes : s.scopes = t.scopesAt s.place
  done : match s.event with
    | .scope kind span _ => (t.at? s.place).bind opening? = some (kind, span) ∧ s.time = t.openTime s.place
    | e => t.does? s.place = some e ∧ s.time = t.time s.place

/-- What is done by itself is no scope. -/
theorem effect?_ne_scope {kind : ScopeKind} {span : Span} {es : List Event} :
    t.effect? i u ≠ some (.scope kind span es) := by
  rw [effect?]
  split
  · cases u.name? <;> exact nofun
  · cases u.usedName? with
    | none => exact nofun
    | some name => rw [Option.map_some]; split <;> exact nofun
  · exact nofun

/-- What a node does itself opens no scope. -/
theorem own_ne_scope {kind : ScopeKind} {span : Span} {es : List Event} :
    t.does? [] ≠ some (.scope kind span es) := by
  rw [does?]
  cases t.own? <;> exact nofun

/-- A parameter has no name of its own apart from its callable, and opens no scope. -/
theorem Makes.not_parameter (h : u.Makes s) (hplace : s.place = []) : u.kind ≠ .parameter := by
  intro hkind
  have hdone := h.done
  rw [hplace] at hdone
  have hown : u.own? = none := by rw [own?, hkind]
  have hopening : u.opening? = none := by rw [opening?, hkind]
  split at hdone
  · rw [at?, Option.bind_some, hopening] at hdone
    exact nomatch hdone.1
  · rw [does?, hown] at hdone
    exact nomatch hdone.1

section

variable {way : List Nat} (hu : t.children[i]? = some u)

include hu

/-- The scopes around a child are those of the node, and the one that the node opens if the child is inside of it. -/
theorem scopesAt_cons (hplain : ¬ (way = [] ∧ u.kind = .parameter)) : t.scopesAt (i :: way) =
    (u.scopesAt way).map (i :: ·) ++ if t.phase i u = .inside then [[]] else [] := by
  rw [scopesAt, hu]
  exact if_neg hplain

/-- The time of a node starts with the phase and the index of the child above it. -/
theorem time_cons (hplain : ¬ (way = [] ∧ u.kind = .parameter)) :
    t.time (i :: way) = (t.phase i u).rank :: i :: u.time way := by
  rw [time, hu]
  exact if_neg hplain

theorem does?_alone {e : Event} (heffect : t.effect? i u = some e) : t.does? [i] = some e := by
  rw [does?, hu, Option.bind_some, heffect]

/-- What is done at a child by itself or below it, unless it is done by the position of the child. -/
theorem does?_cons (h : way = [] → t.effect? i u = none) (hgoes : t.goesOn i u = true) :
    t.does? (i :: way) = u.does? way := by
  rw [does?, hu, Option.bind_some]
  split
  · next e heffect =>
      rw [h rfl] at heffect
      contradiction
  · exact if_pos hgoes

/-- What is done at a child or below it is done below the node, in one more scope if the child is inside that of the
    node. -/
theorem Makes.child (halone : t.alone? i u = none) (hgoes : t.goesOn i u = true) (h : u.Makes s) :
    t.Makes ⟨i :: s.place, (t.phase i u).rank :: i :: s.time,
      s.scopes.map (i :: ·) ++ if t.phase i u = .inside then [[]] else [], s.event⟩ := by
  obtain ⟨place, sTime, scopes, event⟩ := s
  have hplain : ¬ (place = [] ∧ u.kind = .parameter) := fun ⟨hplace, hkind⟩ => h.not_parameter hplace hkind
  refine ⟨?_, ?_⟩
  · rw [show scopes = _ from h.scopes]
    exact (scopesAt_cons hu hplain).symm
  · have hdone := h.done
    -- an effect on the child itself would have been taken alone, unless the child is a parameter
    have hnone (hplace : place = []) : t.effect? i u = none := by
      rwa [alone?, if_neg fun hkind => hplain ⟨hplace, hkind⟩] at halone
    cases event with
    | scope =>
        dsimp only at hdone ⊢
        rw [at?, hu, Option.bind_some, openTime, hu]
        exact ⟨hdone.1, by rw [hdone.2]⟩
    | _ =>
        dsimp only at hdone ⊢
        rw [does?_cons hu hnone hgoes, time_cons hu hplain]
        exact ⟨hdone.1, by rw [hdone.2]⟩

/-- What is done to the name of a child is done below the node. -/
theorem makes_alone {e : Event} (halone : t.alone? i u = some e) :
    t.Makes ⟨[i], (t.phase i u).rank :: i :: u.time [], if t.phase i u = .inside then [[]] else [], e⟩ := by
  have hkind : u.kind ≠ .parameter := fun hkind => by rw [alone?, if_pos hkind] at halone; contradiction
  have heffect : t.effect? i u = some e := by rwa [alone?, if_neg hkind] at halone
  have hplain : ¬ (([] : List Nat) = [] ∧ u.kind = .parameter) := fun h => hkind h.2
  refine ⟨(scopesAt_cons hu hplain).symm, ?_⟩
  cases e with
  | scope => exact absurd heffect effect?_ne_scope
  | _ => exact ⟨does?_alone hu heffect, (time_cons hu hplain).symm⟩

theorem makes_parameter (hkind : u.kind = .parameter) {e : Event} (heffect : t.effect? i u = some e) :
    t.Makes ⟨[i], [3, i], [[]], e⟩ := by
  have htime : t.time [i] = [3, i] := by
    rw [time, hu]
    exact if_pos ⟨rfl, hkind⟩
  refine ⟨?_, ?_⟩
  · rw [scopesAt, hu]
    exact (if_pos ⟨rfl, hkind⟩).symm
  · cases e with
    | scope => exact absurd heffect effect?_ne_scope
    | _ => exact ⟨does?_alone hu heffect, htime.symm⟩

end

theorem makes_own {e : Event} (h : t.does? [] = some e) : t.Makes ⟨[], t.time [], [], e⟩ := by
  refine ⟨by rw [scopesAt], ?_⟩
  cases e with
  | scope => exact absurd h own_ne_scope
  | _ => exact ⟨h, rfl⟩

/-- The steps of a child are made below the node. -/
theorem makes_phase (hu : t.children[i]? = some u) (hsteps : ∀ s ∈ u.steps, u.Makes s) (hs : s ∈ t.childSteps i u) :
    t.Makes ⟨i :: s.place, (t.phase i u).rank :: i :: s.time,
      s.scopes.map (i :: ·) ++ if t.phase i u = .inside then [[]] else [], s.event⟩ := by
  rcases mem_childSteps.mp hs with ⟨e, halone, rfl⟩ | ⟨halone, hgoes, hs⟩
  · exact makes_alone hu halone
  · exact (hsteps s hs).child hu halone hgoes

/-- **All steps of a tree are made by it.** -/
theorem steps_made (t : Outline) : ∀ s ∈ t.steps, t.Makes s := by
  induction t with
  | mk kind span attributes children ih =>
      intro s hs
      -- a step is the node's own, or one of a child outside of its scope, or one in the scope
      rcases mem_steps.mp hs with hs | ⟨p, hp, hs⟩ | hs
      · obtain ⟨e, he, rfl⟩ := mem_ownSteps.mp hs
        exact makes_own he
      · obtain ⟨i, u, hu, rfl, s, hmem, rfl⟩ := mem_phaseSteps.mp hs
        have hmade := makes_phase hu (ih u (List.mem_of_getElem? hu)) hmem
        rw [if_neg hp, List.append_nil] at hmade
        exact hmade
      · rw [scopeSteps] at hs
        cases hopening : (mk kind span attributes children).opening? with
        | none =>
            rw [hopening] at hs
            contradiction
        | some opened =>
            rw [hopening] at hs
            rcases List.mem_cons.mp hs with rfl | hs
            · exact ⟨rfl, hopening, rfl⟩
            · obtain ⟨s, hmem, rfl⟩ := List.mem_map.mp hs
              rcases List.mem_append.mp hmem with hmem | hmem
              · obtain ⟨i, u, e, hu, hkind, heffect, rfl⟩ := mem_parameterSteps.mp hmem
                exact makes_parameter hu hkind heffect
              · obtain ⟨i, u, hu, hphase, s, hchild, rfl⟩ := mem_phaseSteps.mp hmem
                have hmade := makes_phase hu (ih u (List.mem_of_getElem? hu)) hchild
                rw [if_pos hphase, hphase] at hmade
                exact hmade

/-! ### Every deed is a step -/

/-- Children are inside only of nodes that open a scope. -/
theorem opening?_of_inside (hu : t.children[i]? = some u) (hphase : t.phase i u = .inside) :
    ∃ opened, t.opening? = some opened := by
  obtain ⟨v, hlast⟩ : ∃ v, t.children.getLast? = some v :=
    ⟨_, List.getLast?_eq_some_getLast fun hnil => by rw [hnil] at hu; contradiction⟩
  rw [phase] at hphase
  rw [opening?, hlast]
  cases hkind : t.kind <;> rw [hkind] at hphase <;>
    first
    | exact ⟨_, rfl⟩
    | contradiction
    | (dsimp only at hphase; split at hphase <;> contradiction)

/-- The names of parameters are bound only in nodes that open a scope. -/
theorem opening?_of_parameter (hu : t.children[i]? = some u) (hkind : u.kind = .parameter) {e : Event}
    (heffect : t.effect? i u = some e) : ∃ opened, t.opening? = some opened := by
  cases hopening : t.opening? with
  | some opened => exact ⟨opened, rfl⟩
  | none =>
      have hbinds : t.binds? i u = none := by
        rw [binds?, hopening, if_neg (by simp), if_neg, if_neg (by simp [hkind])]
        rintro ⟨hfor, rfl⟩
        have hinside : t.phase 0 u = .inside := by rw [phase, hfor]; rfl
        obtain ⟨opened, hopened⟩ := opening?_of_inside hu hinside
        rw [hopening] at hopened
        contradiction
      rw [effect?, hbinds, role?, hkind] at heffect
      contradiction

/-- A step of a child is a step of the node. -/
theorem step_of_child (hu : t.children[i]? = some u) (hs : s ∈ t.childSteps i u) :
    ∃ s' ∈ t.steps, s'.place = i :: s.place ∧ s'.event = s.event := by
  have hmem : s.under (t.phase i u).rank i ∈ t.phaseSteps (t.phase i u) :=
    mem_phaseSteps.mpr ⟨i, u, hu, rfl, s, hs, rfl⟩
  by_cases hphase : t.phase i u = .inside
  · obtain ⟨opened, hopening⟩ := opening?_of_inside hu hphase
    refine ⟨(s.under (t.phase i u).rank i).within [], mem_steps.mpr (.inr (.inr ?_)), rfl, rfl⟩
    rw [hphase] at hmem ⊢
    rw [scopeSteps, hopening]
    exact List.mem_cons_of_mem _ (List.mem_map_of_mem (List.mem_append_right _ hmem))
  · exact ⟨_, mem_steps.mpr (.inr (.inl ⟨_, hphase, hmem⟩)), rfl, rfl⟩

/-- **Everything that is done is a step.** -/
theorem exists_step {way : List Nat} {e : Event} (h : t.does? way = some e) :
    ∃ s ∈ t.steps, s.place = way ∧ s.event = e := by
  induction way generalizing t with
  | nil => exact ⟨_, mem_steps.mpr (.inl (mem_ownSteps.mpr ⟨e, h, rfl⟩)), rfl, rfl⟩
  | cons i way ih =>
      rw [does?, Option.bind_eq_some_iff] at h
      obtain ⟨u, hu, h⟩ := h
      split at h
      · next e' heffect =>
          obtain rfl := Option.some.inj h
          by_cases hkind : u.kind = .parameter
          · -- its name is bound in the scope of the callable
            obtain ⟨opened, hopening⟩ := opening?_of_parameter hu hkind heffect
            refine ⟨⟨[i], [3, i], [[]], e'⟩, mem_steps.mpr (.inr (.inr ?_)), rfl, rfl⟩
            rw [scopeSteps, hopening]
            exact List.mem_cons_of_mem _ (List.mem_map.mpr ⟨⟨[i], [3, i], [], e'⟩,
              List.mem_append_left _ (mem_parameterSteps.mpr ⟨i, u, e', hu, hkind, heffect, rfl⟩), rfl⟩)
          · have halone : t.alone? i u = some e' := by rw [alone?, if_neg hkind, heffect]
            exact step_of_child hu (mem_childSteps.mpr (.inl ⟨e', halone, rfl⟩))
      · next heffect =>
          split at h
          · next hgoes =>
              obtain ⟨s, hs, rfl, rfl⟩ := ih h
              have halone : t.alone? i u = none := by
                rw [alone?]
                split
                · rfl
                · next hkind =>
                    -- below a name that is used or bound by itself there is nothing
                    cases hsome : t.effect? i u with
                    | none => rfl
                    | some e => simp [goesOn, hsome, hkind] at hgoes
              exact step_of_child hu (mem_childSteps.mpr (.inr ⟨halone, hgoes, hs⟩))
          · contradiction

end Outline

end ShellFront
