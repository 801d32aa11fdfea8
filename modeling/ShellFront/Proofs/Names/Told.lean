import ShellFront.Proofs.Names.Deeds

/-!
# What a tree tells

What a tree does to names, told in order, is a list of events. At every node they are those of its children, phase by
phase, with its own name and its own scope at their places. Most nodes stand where it does not matter; what such a node
does is given by its **plain events**.

## Contents
- `Outline.events`, `Outline.plainEvents`.
- `Outline.eventsOf` and `Outline.events_eq`: the events of a node, phase by phase.
- `Outline.Regular`: children whose positions do not matter.
- `Outline.Phased` and `Outline.Arranged`: nodes whose children come in the order of their phases.
-/

namespace ShellFront

/-! ## The events of outlines -/

namespace Outline

variable {t u : Outline} {i : Nat} {us vs : List Outline} {p q : Phase}

/-- What is done below a node, and to its own name. -/
def events (t : Outline) : List Event := Deed.events t.deeds

/-- What is done at a child of a node at an index and below it. -/
def childEvents (t : Outline) (i : Nat) (u : Outline) : List Event := Deed.events (t.childDeeds i u u.deeds)

/-- What the children of a node from an index on do in a phase. -/
def phaseEvents (t : Outline) (i : Nat) (us : List Outline) (p : Phase) : List Event :=
  Deed.events (t.phaseDeeds i us p)

/-- What a node does to its own name. -/
def ownEvents (t : Outline) : List Event := (t.does? []).toList

/-- How a parameter is bound. -/
def parameterEvent (u : Outline) : List Event :=
  if u.kind = .parameter then (u.name?.map fun name => .define .parameter name u.site).toList else []

/-- The **plain events** of a node: what it does as a statement of a block. -/
def plainEvents (u : Outline) : List Event := (branch .block u.span [u]).childEvents 0 u

theorem childEvents_eq (t : Outline) (i : Nat) (u : Outline) : t.childEvents i u =
    match t.alone? i u with
    | some e => [e]
    | none => if t.goesOn i u then u.events else [] := by
  rw [childEvents, childDeeds]
  cases t.alone? i u with
  | some e => rfl
  | none => cases t.goesOn i u <;> rfl

@[simp] theorem phaseEvents_nil : t.phaseEvents i [] p = [] := by
  rw [phaseEvents, phaseDeeds, Deed.events]

@[simp] theorem phaseEvents_cons : t.phaseEvents i (u :: us) p =
    (if t.phase i u = p then t.childEvents i u else []) ++ t.phaseEvents (i + 1) us p := by
  rw [phaseEvents, phaseDeeds, Deed.events_append, phaseEvents, childEvents]
  split
  · rw [Deed.events_allUnder]
  · rfl

theorem phaseEvents_append :
    t.phaseEvents i (us ++ vs) p = t.phaseEvents i us p ++ t.phaseEvents (i + us.length) vs p := by
  induction us generalizing i with
  | nil => rfl
  | cons u us ih =>
      rw [List.cons_append, phaseEvents_cons, ih, phaseEvents_cons, List.append_assoc, List.length_cons, Nat.add_right_comm,
        Nat.add_assoc]

/-- In a node that opens a scope, each parameter is bound under its name. -/
theorem events_parameterDeeds {opened : ScopeKind × Span} (h : t.opening? = some opened) :
    Deed.events t.parameterDeeds = t.children.flatMap parameterEvent := by
  have heach (u : Outline) (i : Nat) : Deed.events
      (if u.kind = .parameter then (t.effect? i u).toList.map (.act [i] [3, i]) else []) = u.parameterEvent := by
    rw [parameterEvent]
    split
    · next hkind =>
        have hbinds : t.binds? i u = some .parameter := by rw [binds?, h]; exact if_pos ⟨hkind, rfl⟩
        rw [effect?, hbinds]
        cases u.name? <;> rfl
    · rfl
  rw [parameterDeeds]
  have hall (us : List Outline) (i : Nat) : Deed.events ((us.zipIdx i).flatMap fun a =>
      if a.1.kind = .parameter then (t.effect? a.2 a.1).toList.map (.act [a.2] [3, a.2]) else []) =
      us.flatMap parameterEvent := by
    induction us generalizing i with
    | nil => rfl
    | cons u us ih => rw [List.zipIdx_cons, List.flatMap_cons, Deed.events_append, ih, heach, List.flatMap_cons]
  exact hall t.children 0

/-- The scope that a node opens, with what is done in it. -/
def scopeEvents (t : Outline) (inside : List Event) : List Event :=
  (t.opening?.map fun (kind, span) => .scope kind span (t.children.flatMap parameterEvent ++ inside)).toList

/-- The events of a node whose children give some events in each phase. -/
def eventsOf (t : Outline) (before around inside : List Event) : List Event :=
  before ++ (if t.kind.bindsEarly then t.ownEvents else []) ++ around ++ t.scopeEvents inside ++
    if t.kind.bindsEarly then [] else t.ownEvents

/-- The events of a node, phase by phase. -/
theorem events_eq (t : Outline) : t.events = t.eventsOf (t.phaseEvents 0 t.children .before)
    (t.phaseEvents 0 t.children .around) (t.phaseEvents 0 t.children .inside) := by
  have hacts : Deed.events t.ownDeeds = t.ownEvents := by
    rw [ownDeeds, ownEvents]
    cases t.does? [] <;> rfl
  have hown (b : Bool) (x y : List Deed) : Deed.events (if b then x else y) =
      if b then Deed.events x else Deed.events y := by split <;> rfl
  rw [events, eventsOf, deeds_eq, arranged, Deed.events_append, Deed.events_append, Deed.events_append,
    Deed.events_append, hown, hown, hacts]
  congr 2
  rw [scopeEvents]
  cases hopening : t.opening? with
  | none => rfl
  | some opened =>
      rw [← events_parameterDeeds hopening, Option.map_some, Option.map_some, Option.toList_some, Option.toList_some,
        Deed.events, Deed.event, Deed.events_append, Deed.events]
      rfl

/-- The events of a node that binds its name before its parts. -/
theorem eventsOf_early {eb ea es : List Event} (h : t.kind.bindsEarly = true) :
    t.eventsOf eb ea es = eb ++ t.ownEvents ++ ea ++ t.scopeEvents es := by
  rw [eventsOf, if_pos h, if_pos h, List.append_nil]

/-- The events of a node that binds its name after its parts, if it has one. -/
theorem eventsOf_late {eb ea es : List Event} (h : t.kind.bindsEarly = false) :
    t.eventsOf eb ea es = eb ++ ea ++ t.scopeEvents es ++ t.ownEvents := by
  rw [eventsOf, h]
  simp

theorem parameterEvents_nil (h : ∀ u ∈ us, u.kind ≠ .parameter) : us.flatMap parameterEvent = [] := by
  induction us with
  | nil => rfl
  | cons u us ih =>
      obtain ⟨hu, hus⟩ := List.forall_mem_cons.mp h
      rw [List.flatMap_cons, parameterEvent, if_neg hu, ih hus, List.nil_append]

/-! ### Positions that do not matter -/

/-- Whether it matters for a child that it stands where it does. -/
def placesMatter (t : Outline) (i : Nat) (u : Outline) : Bool :=
  match t.kind with
  | .patternField => true
  | .tryStatement => u.kind = .identifier
  | .closure => u.kind = .parameter
  | .forStatement | .call | .objectConstruction | .typedRecordPattern | .variableAssignment => i = 0
  | _ => false

/-- A child is **regular** if it does not matter where it stands. -/
def Regular (t : Outline) (i : Nat) (u : Outline) : Prop := t.placesMatter i u = false

namespace Regular

theorem not_field (h : t.Regular i u) : t.kind ≠ .patternField := by
  intro hkind
  rw [Regular, placesMatter, hkind] at h
  contradiction

theorem not_name (h : t.Regular i u) (hkind : t.kind = .tryStatement) : u.kind ≠ .identifier := by
  rw [Regular, placesMatter, hkind] at h
  exact of_decide_eq_false h

theorem not_parameter (h : t.Regular i u) (hkind : t.kind = .closure) : u.kind ≠ .parameter := by
  rw [Regular, placesMatter, hkind] at h
  exact of_decide_eq_false h

/-- The first child of some nodes is not regular. -/
theorem not_first (h : t.Regular i u) {kind : NodeKind} (hkind : t.kind = kind)
    (hfirst : kind = .forStatement ∨ kind = .call ∨ kind = .objectConstruction ∨ kind = .typedRecordPattern ∨
      kind = .variableAssignment) : i ≠ 0 := by
  rw [Regular, placesMatter, hkind] at h
  rcases hfirst with rfl | rfl | rfl | rfl | rfl <;> exact of_decide_eq_false h

/-- Regular children do what they do as statements of a block. -/
theorem effect? (h : t.Regular i u) (hkind : u.kind ≠ .parameter) :
    t.effect? i u = (branch .block u.span [u]).effect? 0 u := by
  have hfor : ¬ (t.kind = .forStatement ∧ i = 0) := fun hfor => h.not_first hfor.1 (.inl rfl) hfor.2
  have hbinds : t.binds? i u = none := by
    rw [binds?, if_neg (fun h => hkind h.1), if_neg hfor, if_neg fun htry => h.not_name htry.1 htry.2]
  have hassignment : t.assignment? i = none :=
    if_neg fun hassign => h.not_first hassign.1 (.inr (.inr (.inr (.inr rfl)))) hassign.2.2
  have hrole : t.role? i u = (branch .block u.span [u]).role? 0 u := by
    have hvariable : ¬ (t.kind = .patternField ∨ (t.kind = .forStatement ∧ i = 0)) := by
      rintro (hfield | hfor')
      · exact h.not_field hfield
      · exact hfor hfor'
    have hcall : ¬ (t.kind = .call ∧ i = 0) := fun hcall => h.not_first hcall.1 (.inr (.inl rfl)) hcall.2
    have htype : ¬ ((t.kind = .objectConstruction ∨ t.kind = .typedRecordPattern) ∧ i = 0) := by
      rintro ⟨htype | htype, hi⟩
      · exact h.not_first htype (.inr (.inr (.inl rfl))) hi
      · exact h.not_first htype (.inr (.inr (.inr (.inl rfl)))) hi
    rw [role?, if_neg hvariable, if_neg hcall, if_neg htype, role?]
    cases u.kind <;> rfl
  have hblock : (branch .block u.span [u]).binds? 0 u = none := by
    rw [binds?, if_neg (fun h => hkind h.1), if_neg (by simp [branch, kind]), if_neg (by simp [branch, kind])]
  rw [Outline.effect?, hbinds, hrole, hassignment, Outline.effect?, hblock]
  rfl

theorem childEvents (h : t.Regular i u) : t.childEvents i u = u.plainEvents := by
  rw [plainEvents, childEvents_eq, childEvents_eq]
  by_cases hkind : u.kind = .parameter
  · have hgoes {t : Outline} {i : Nat} (hclosure : t.kind ≠ .closure) : t.goesOn i u = true := by
      rw [goesOn]
      simp [hkind, hclosure]
    have hblock : (branch .block u.span [u]).goesOn 0 u = true := hgoes (by simp [branch, kind])
    rw [alone?, if_pos hkind, alone?, if_pos hkind, hgoes fun hclosure => h.not_parameter hclosure hkind, hblock]
  · rw [alone?, if_neg hkind, alone?, if_neg hkind, goesOn, goesOn, h.effect? hkind]
    simp [hkind]

end Regular

end Outline

/-- Whether nodes of a kind are used just by standing somewhere: names of variables and of commands are. -/
def NodeKind.isUsed : NodeKind → Bool
  | variableName | commandName | builtinCommand => true
  | _ => false

/-- Whether nodes of a kind are no names, and the positions of their parts do not matter. -/
def NodeKind.isSteady : NodeKind → Bool
  | patternField | tryStatement | closure | forStatement | call | objectConstruction | typedRecordPattern
  | variableAssignment | variableName | identifier | commandName | builtinCommand => false
  | _ => true

namespace Outline

variable {t u : Outline} {i : Nat} {us vs : List Outline} {p q : Phase}

theorem Regular.of_steady (h : t.kind.isSteady = true) : t.Regular i u := by
  rw [Regular, placesMatter]
  cases hkind : t.kind <;> rw [hkind] at h <;> first | rfl | contradiction

theorem plainEvents_eq (h : u.kind.isUsed = false) : u.plainEvents = u.events := by
  have heffect : (branch .block u.span [u]).effect? 0 u = none := by
    have hbinds : (branch .block u.span [u]).binds? 0 u = none := by
      rw [binds?, if_neg (by simp [branch, opening?, kind]), if_neg (by simp [branch, kind]),
        if_neg (by simp [branch, kind])]
    have hrole : (branch .block u.span [u]).role? 0 u = none := by
      rw [role?]
      cases hkind : u.kind <;> rw [hkind] at h <;> first | rfl | contradiction
    rw [effect?, hbinds, hrole]
  rw [plainEvents, childEvents_eq, goesOn, heffect, alone?, heffect, ite_self]
  rfl

/-! ### Children by phases -/

/-- Children that are all visited in one phase, and the events that they give, wherever they begin after some other
    children. -/
def Grouped (t : Outline) (n : Nat) (us : List Outline) (q : Phase) (es : List Event) : Prop :=
  ∀ i p, n ≤ i → t.phaseEvents i us p = if q = p then es else []

namespace Grouped

variable {n : Nat} {es : List Event}

theorem nil : t.Grouped n [] q [] := fun i p _ => by rw [phaseEvents_nil, ite_self]

/-- Regular children that are visited in one phase. -/
theorem regular (hphase : ∀ u ∈ us, ∀ i, t.phase i u = q) (hregular : ∀ u ∈ us, ∀ i, n ≤ i → t.Regular i u) :
    t.Grouped n us q (us.flatMap plainEvents) := by
  induction us with
  | nil => exact .nil
  | cons u us ih =>
      obtain ⟨hu, hus⟩ := List.forall_mem_cons.mp hphase
      obtain ⟨hu', hus'⟩ := List.forall_mem_cons.mp hregular
      intro i p hi
      rw [phaseEvents_cons, hu i, (hu' i hi).childEvents, ih hus hus' _ p (Nat.le_succ_of_le hi), List.flatMap_cons]
      split <;> rfl

end Grouped

/-- What the children of a node do, phase by phase. -/
structure Phased (t : Outline) (before around inside : List Event) : Prop where
  before : t.phaseEvents 0 t.children .before = before
  around : t.phaseEvents 0 t.children .around = around
  inside : t.phaseEvents 0 t.children .inside = inside

namespace Phased

variable {eb ea es : List Event}

/-- Children that come in the order of their phases. -/
theorem of_grouped {before around inside : List Outline} (hchildren : t.children = before ++ around ++ inside)
    (hbefore : t.Grouped 0 before .before eb) (haround : t.Grouped 0 around .around ea)
    (hinside : t.Grouped 0 inside .inside es) : t.Phased eb ea es := by
  have hphases (p : Phase) : t.phaseEvents 0 t.children p =
      (if Phase.before = p then eb else []) ++ (if Phase.around = p then ea else []) ++
        if Phase.inside = p then es else [] := by
    rw [hchildren, phaseEvents_append, phaseEvents_append, hbefore _ _ (Nat.zero_le _), haround _ _ (Nat.zero_le _),
      hinside _ _ (Nat.zero_le _)]
  constructor <;> (rw [hphases]; simp)

theorem plainEvents (h : t.Phased eb ea es) (hkind : t.kind.isUsed = false) : t.plainEvents = t.eventsOf eb ea es := by
  rw [plainEvents_eq hkind, events_eq, h.before, h.around, h.inside]

end Phased

/-- A node is **arranged**: its children come in the order of their phases, and it does not matter where they stand. -/
structure Arranged (t : Outline) (us vs ws : List Outline) : Prop where
  steady : t.kind.isSteady = true
  children : t.children = us ++ vs ++ ws
  before : ∀ u ∈ us, ∀ i, t.phase i u = .before
  around : ∀ u ∈ vs, ∀ i, t.phase i u = .around
  inside : ∀ u ∈ ws, ∀ i, t.phase i u = .inside
  /-- Only the nodes that open scopes have children in them. -/
  opens : t.opening?.isSome = true ∨ ws = []

namespace Arranged

theorem plainEvents {ws : List Outline} (h : t.Arranged us vs ws) :
    t.plainEvents = t.eventsOf (us.flatMap plainEvents) (vs.flatMap plainEvents) (ws.flatMap plainEvents) := by
  have hphased : t.Phased (us.flatMap Outline.plainEvents) (vs.flatMap Outline.plainEvents)
      (ws.flatMap Outline.plainEvents) :=
    .of_grouped h.children (.regular h.before fun _ _ _ _ => .of_steady h.steady)
      (.regular h.around fun _ _ _ _ => .of_steady h.steady) (.regular h.inside fun _ _ _ _ => .of_steady h.steady)
  refine hphased.plainEvents ?_
  have hsteady := h.steady
  cases hkind : t.kind <;> rw [hkind] at hsteady <;> first | rfl | contradiction

/-- All children are in the scope around the node. -/
theorem of_around (hsteady : t.kind.isSteady = true) (haround : ∀ u ∈ t.children, ∀ i, t.phase i u = .around) :
    t.Arranged [] t.children [] where
  steady := hsteady
  children := (List.append_nil _).symm
  before := List.forall_mem_nil _
  around := haround
  inside := List.forall_mem_nil _
  opens := .inr rfl

end Arranged

end Outline

end ShellFront
