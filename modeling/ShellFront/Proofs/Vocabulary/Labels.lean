import ShellFront.Names.Resolver
import ShellFront.Proofs.Names.Constructs
import ShellFront.Proofs.Tree.Seen

/-!
# Labels of commands

A tree says of every command whether it is built in, and nothing else in it depends on the vocabulary. The
views here change that label only: one takes it off, the other puts on what a vocabulary says. Name resolution
passes the label on in the places of references, where it can be taken off as well.

## Contents
- `View.unlabelled`, `View.labelled`, `Program.unlabelled`.
- `Labelled`, `Seen.labelled`: what a tree that is seen says of its commands.
- `Outline.unlabelled`, `Seen.unlabelled`: outlines without labels.
- `Event.unlabelled`, `Collected.unlabelled`: what is left of the labels in events.
- `Table.unlabelled`, `Resolver.run_unlabelled`.
-/

namespace ShellFront

/-! ## Views -/

/-- No command is said to be built in. -/
def View.unlabelled : View := ⟨id, id, fun _ _ _ => false, false⟩

/-- The commands without a namespace that are built in are said to be, and no others. -/
def View.labelled (isBuiltin : String → Bool) : View :=
  ⟨id, id, fun qualifier name _ => qualifier.isNone && isBuiltin name, false⟩

/-- A program without what it says of its commands. -/
def Program.unlabelled (p : Program) : Program :=
  { p with statements := p.statements.map (Node.view .unlabelled) }

/-! ## Labels in a tree -/

/-- What the label of a command says, if a node is a command's name. -/
def Labelled (label : Option String → String → Bool) (t : Outline) : Prop :=
  t.kind = .commandName ∨ t.kind = .builtinCommand →
    ∃ c : CommandName, t = c.outline ∧ c.builtin = label c.qualifier c.name

/-- There are two kinds of nodes with labels. -/
theorem NodeKind.namesCommand_iff {kind : NodeKind} :
    kind.namesCommand = true ↔ kind = .commandName ∨ kind = .builtinCommand := by
  cases kind <;> decide

/-- A node that names no command has no label to look at. -/
theorem labelled_mk {label : Option String → String → Bool} {kind : NodeKind} {span : Span}
    {attributes : List (String × Attribute)} {children : List Outline} (hkind : kind.namesCommand = false)
    (hchildren : ∀ c ∈ children, c.Everywhere (Labelled label)) :
    (Outline.mk kind span attributes children).Everywhere (Labelled label) := by
  refine Outline.everywhere_mk.mpr ⟨fun hcommand => ?_, hchildren⟩
  have hnames : kind.namesCommand = true := NodeKind.namesCommand_iff.mpr hcommand
  rw [hkind] at hnames
  contradiction

section

variable (isBuiltin : String → Bool)

/-- All commands below are labelled as the vocabulary says. -/
def Told (t : Outline) : Prop := t.Everywhere (Labelled fun qualifier name => qualifier.isNone && isBuiltin name)

/-- The view shows what the vocabulary says. -/
theorem CommandName.view_labelled (c : CommandName) : Told isBuiltin (c.view (.labelled isBuiltin)).outline :=
  Outline.everywhere_mk.mpr ⟨fun _ => ⟨c.view (.labelled isBuiltin), rfl, rfl⟩, by simp⟩

/-- **A view that labels commands labels them all.** -/
theorem Seen.labelled {ts us : List Outline} (h : Seen (.labelled isBuiltin) ts us) : ∀ u ∈ us, Told isBuiltin u := by
  induction h with
  | nil => exact List.forall_mem_nil _
  | append _ _ ih ih' => exact List.forall_mem_append.mpr ⟨ih, ih'⟩
  | command c => exact List.forall_mem_singleton.mpr (c.view_labelled isBuiltin)
  | broken => exact List.forall_mem_singleton.mpr (labelled_mk rfl (List.forall_mem_nil _))
  | bare _ hbare => contradiction
  | node _ hkind ih => exact List.forall_mem_singleton.mpr (labelled_mk hkind ih)

end

/-! ## Outlines without labels -/

namespace Outline

/-- A property of a command's name without what it says of the command. -/
def unlabelledAttribute : String × Attribute → String × Attribute
  | (key, value) => (key, if key = "builtin" then .boolean false else value)

mutual

/-- An outline without what it says of commands. -/
def unlabelled : Outline → Outline
  | mk kind span attributes children =>
      if kind.namesCommand then mk .commandName span (attributes.map unlabelledAttribute) (allUnlabelled children)
      else mk kind span attributes (allUnlabelled children)

/-- Outlines without what they say of commands. -/
def allUnlabelled : List Outline → List Outline
  | [] => []
  | t :: ts => t.unlabelled :: allUnlabelled ts

end

theorem allUnlabelled_eq (ts : List Outline) : allUnlabelled ts = ts.map unlabelled := by
  induction ts with
  | nil => rfl
  | cons t ts ih => rw [allUnlabelled, ih, List.map_cons]

variable {t u : Outline} {kind : NodeKind} {span : Span} {attributes : List (String × Attribute)} {ts : List Outline}

/-- Such a node only passes to its children. -/
theorem unlabelled_mk (h : kind.namesCommand = false) :
    (mk kind span attributes ts).unlabelled = mk kind span attributes (ts.map unlabelled) := by
  rw [unlabelled, h, allUnlabelled_eq]
  rfl

/-- Taking off labels makes no node a node of another kind, other than a name of a command. -/
theorem kind_unlabelled (h : kind.namesCommand = false) : t.unlabelled.kind = kind ↔ t.kind = kind := by
  obtain ⟨k, span, attributes, ts⟩ := t
  cases hk : k.namesCommand with
  | false =>
      rw [unlabelled_mk hk]
      rfl
  | true =>
      have hne {k : NodeKind} (hk : k.namesCommand = true) : k ≠ kind := by
        rintro rfl
        rw [h] at hk
        contradiction
      rw [unlabelled, if_pos hk]
      exact iff_of_false (hne rfl) (hne hk)

theorem span_unlabelled (t : Outline) : t.unlabelled.span = t.span := by
  obtain ⟨k, span, attributes, ts⟩ := t
  rw [unlabelled]
  split <;> rfl

/-- Names do not depend on labels. -/
theorem lookup_unlabelled {key : String} (hkey : key ≠ "builtin") (attributes : List (String × Attribute)) :
    (attributes.map unlabelledAttribute).lookup key = attributes.lookup key := by
  induction attributes with
  | nil => rfl
  | cons a as ih =>
      obtain ⟨k, value⟩ := a
      rw [List.map_cons, unlabelledAttribute, List.lookup_cons, List.lookup_cons, ih]
      by_cases hk : key = k
      · rw [if_neg (hk ▸ hkey)]
      · rw [beq_false_of_ne hk]

/-- All attributes but the label stay. -/
theorem attribute_unlabelled {key : String} (hkey : key ≠ "builtin") (t : Outline) :
    t.unlabelled.attributes.lookup key = t.attributes.lookup key := by
  obtain ⟨k, span, attributes, ts⟩ := t
  rw [unlabelled]
  split
  · exact lookup_unlabelled hkey attributes
  · rfl

/-- The name of a node is no label. -/
theorem name?_unlabelled (t : Outline) : t.unlabelled.name? = t.name? := by
  rw [name?, attribute_unlabelled (by decide)]
  rfl

theorem lastSegment?_unlabelled (t : Outline) : t.unlabelled.lastSegment? = t.lastSegment? := by
  rw [lastSegment?, attribute_unlabelled (by decide)]
  rfl

/-- The name that a definition goes by is no label. -/
theorem title?_unlabelled : (mk kind span attributes (ts.map unlabelled)).title? = (mk kind span attributes ts).title? := by
  let isName (u : Outline) : Bool := u.kind = .identifier
  have hfirst : isName ∘ unlabelled = isName := funext fun u => decide_eq_decide.mpr (kind_unlabelled rfl)
  rw [title?, title?, children, children, List.find?_map, hfirst, Option.bind_map]
  exact congrArg (Option.bind _) (funext name?_unlabelled)

/-- The labels below a node do not change what it is defined as. -/
theorem own?_unlabelled : (mk kind span attributes (ts.map unlabelled)).own? = (mk kind span attributes ts).own? := by
  have hlast : (ts.map unlabelled).getLast?.bind name? = ts.getLast?.bind name? := by
    rw [List.getLast?_map, Option.bind_map]
    exact congrArg (Option.bind _) (funext name?_unlabelled)
  have hhead : (ts.map unlabelled).head?.bind lastSegment? = ts.head?.bind lastSegment? := by
    rw [List.head?_map, Option.bind_map]
    exact congrArg (Option.bind _) (funext lastSegment?_unlabelled)
  have hsecond : (ts.map unlabelled)[1]?.bind name? = ts[1]?.bind name? := by
    rw [List.getElem?_map, Option.bind_map]
    exact congrArg (Option.bind _) (funext name?_unlabelled)
  rw [own?, own?, title?_unlabelled]
  simp only [children, Outline.kind, hlast, hhead, hsecond]
  rfl

/-- The scope that a node opens does not depend on labels. -/
theorem opening?_unlabelled :
    (mk kind span attributes (ts.map unlabelled)).opening? = (mk kind span attributes ts).opening? := by
  have hlast {k : ScopeKind} : (ts.map unlabelled).getLast?.map (fun u => (k, u.span)) =
      ts.getLast?.map fun u => (k, u.span) := by
    rw [List.getLast?_map, Option.map_map]
    exact congrArg (Option.map · _) (funext fun u => congrArg (Prod.mk k) u.span_unlabelled)
  rw [opening?, opening?]
  simp only [children, Outline.kind, hlast]
  rfl

/-- Nor does the time at which a child is visited. -/
theorem phase_unlabelled {i : Nat} :
    (mk kind span attributes (ts.map unlabelled)).phase i u.unlabelled = (mk kind span attributes ts).phase i u := by
  obtain ⟨k, span, attributes, us⟩ := u
  rw [unlabelled]
  split
  · next hk =>
      -- names of commands are visited wherever they stand
      rcases NodeKind.namesCommand_iff.mp hk with rfl | rfl <;> cases kind <;> rfl
  · cases kind <;> rfl

end Outline

/-! ## Labels in events -/

/-- A place without what its kind says of a command. -/
def Site.unlabelled (s : Site) : Site :=
  { s with kind := if s.kind = .builtinCommand then .commandName else s.kind }

mutual

/-- An event without what the places of commands say of them. -/
def Event.unlabelled : Event → Event
  | .define kind name site => .define kind name site
  | .use role name site => .use role name site.unlabelled
  | .assign name statement target => .assign name statement target.unlabelled
  | .scope kind span events => .scope kind span (Event.allUnlabelled events)

/-- Events without what the places of commands say of them. -/
def Event.allUnlabelled : List Event → List Event
  | [] => []
  | e :: es => e.unlabelled :: Event.allUnlabelled es

end

theorem Event.allUnlabelled_eq (es : List Event) : Event.allUnlabelled es = es.map Event.unlabelled := by
  induction es with
  | nil => rfl
  | cons e es ih => rw [allUnlabelled, ih, List.map_cons]

theorem Event.allUnlabelled_append (es es' : List Event) :
    Event.allUnlabelled (es ++ es') = Event.allUnlabelled es ++ Event.allUnlabelled es' := by
  rw [allUnlabelled_eq, List.map_append, allUnlabelled_eq, allUnlabelled_eq]

/-- Definitions say nothing of commands. -/
theorem Event.unlabelled_defines {α : Type} {f : α → Event} (hf : ∀ a, (f a).unlabelled = f a) (as : List α) :
    Event.allUnlabelled (as.map f) = as.map f := by
  rw [allUnlabelled_eq, List.map_map]
  exact List.map_congr_left fun a _ => hf a

theorem Event.unlabelled_option {α : Type} {f : α → Event} (hf : ∀ a, (f a).unlabelled = f a) (a : Option α) :
    Event.allUnlabelled (a.map f).toList = (a.map f).toList := by
  cases a with
  | none => rfl
  | some a => exact congrArg (fun e => [e]) (hf a)

/-- Without its label a command has the same event, but for the kind of the site. -/
theorem CommandName.view_event (c : CommandName) : (c.view .unlabelled).event = c.event.unlabelled := by
  rw [event, event, Event.unlabelled, Site.unlabelled, kind, kind]
  cases c.builtin <;> rfl

theorem PatternField.events_unlabelled (f : PatternField) : Event.allUnlabelled f.events = f.events :=
  Event.unlabelled_option (fun _ => rfl) _

namespace Outline

variable {t : Outline} {us vs ws ts : List Outline} {eb ea es : List Event}

/-- Parameters are bound at places that say nothing of commands. -/
theorem parameterEvents_unlabelled (ts : List Outline) :
    (ts.map unlabelled).flatMap parameterEvent = Event.allUnlabelled (ts.flatMap parameterEvent) := by
  induction ts with
  | nil => rfl
  | cons t ts ih =>
      rw [List.map_cons, List.flatMap_cons, List.flatMap_cons, Event.allUnlabelled_append, ih]
      congr 1
      by_cases hkind : t.kind = .parameter
      · have hkind' : t.unlabelled.kind = .parameter := (kind_unlabelled rfl).mpr hkind
        rw [parameterEvent, parameterEvent, if_pos hkind, if_pos hkind', name?_unlabelled, site, site, hkind, hkind',
          span_unlabelled]
        exact (Event.unlabelled_option (fun _ => rfl) _).symm
      · rw [parameterEvent, parameterEvent, if_neg hkind, if_neg (hkind ∘ (kind_unlabelled rfl).mp)]
        rfl

/-- A node that is arranged stays so without labels. -/
theorem Arranged.unlabelled (h : t.Arranged us vs ws) : t.unlabelled.Arranged (us.map Outline.unlabelled)
    (vs.map Outline.unlabelled) (ws.map Outline.unlabelled) := by
  obtain ⟨kind, span, attributes, ts⟩ := t
  have hkind : kind.namesCommand = false := by
    have hsteady : kind.isSteady = true := h.steady
    cases kind <;> first | rfl | contradiction
  obtain rfl : ts = us ++ vs ++ ws := h.children
  rw [unlabelled_mk hkind]
  constructor
  · exact h.steady
  · exact List.map_append.trans (congrArg (· ++ _) List.map_append)
  · exact List.forall_mem_map.mpr fun u hu i => phase_unlabelled.trans (h.before u hu i)
  · exact List.forall_mem_map.mpr fun u hu i => phase_unlabelled.trans (h.around u hu i)
  · exact List.forall_mem_map.mpr fun u hu i => phase_unlabelled.trans (h.inside u hu i)
  · rw [opening?_unlabelled, List.map_eq_nil_iff]
    exact h.opens

/-- A node that is not a name of a command hands on its events with its name and its scope; they have no labels. -/
theorem eventsOf_unlabelled (h : t.kind.namesCommand = false) :
    t.unlabelled.eventsOf (Event.allUnlabelled eb) (Event.allUnlabelled ea) (Event.allUnlabelled es) =
      Event.allUnlabelled (t.eventsOf eb ea es) := by
  obtain ⟨kind, span, attributes, ts⟩ := t
  have hkind : kind.namesCommand = false := h
  have hown : (mk kind span attributes (ts.map unlabelled)).ownEvents =
      Event.allUnlabelled (mk kind span attributes ts).ownEvents := by
    rw [ownEvents, ownEvents, does?, does?, own?_unlabelled]
    exact (Event.unlabelled_option (fun _ => rfl) _).symm
  have hscope : (mk kind span attributes (ts.map unlabelled)).scopeEvents (Event.allUnlabelled es) =
      Event.allUnlabelled ((mk kind span attributes ts).scopeEvents es) := by
    rw [scopeEvents, scopeEvents, opening?_unlabelled, children, children, parameterEvents_unlabelled,
      ← Event.allUnlabelled_append]
    cases (mk kind span attributes ts).opening? <;> rfl
  rw [unlabelled_mk hkind]
  by_cases hearly : kind.bindsEarly = true
  · have hearly' (us : List Outline) : (mk kind span attributes us).kind.bindsEarly = true := hearly
    rw [eventsOf_early (hearly' _), eventsOf_early (hearly' _), hown, hscope, Event.allUnlabelled_append,
      Event.allUnlabelled_append, Event.allUnlabelled_append]
  · have hlate (us : List Outline) : (mk kind span attributes us).kind.bindsEarly = false := eq_false_of_ne_true hearly
    rw [eventsOf_late (hlate _), eventsOf_late (hlate _), hown, hscope, Event.allUnlabelled_append,
      Event.allUnlabelled_append, Event.allUnlabelled_append]

end Outline

/-- The tree that is seen without labels is the tree without labels. -/
theorem Seen.unlabelled {ts us : List Outline} (h : Seen .unlabelled ts us) : us = ts.map Outline.unlabelled := by
  induction h with
  | nil => rfl
  | append _ _ ih ih' => rw [ih, ih', List.map_append]
  | command c =>
      obtain ⟨span, name, qualifier, builtin⟩ := c
      cases builtin <;> cases qualifier <;> rfl
  | broken => rfl
  | bare _ hbare => contradiction
  | node _ hkind ih =>
      rw [List.map_singleton, Outline.unlabelled_mk hkind, ← ih]
      rfl

theorem Parameter.views_event (ps : List (Parameter Node)) :
    (Parameter.views .unlabelled ps).map Parameter.event = Event.allUnlabelled (ps.map Parameter.event) := by
  rw [Event.unlabelled_defines fun _ => rfl, Parameter.views_eq, List.map_map]
  exact List.map_congr_left fun p _ => by cases p; rfl

/-- **What is collected from trees without labels** is what is collected from the trees, but for the labels. -/
theorem Collected.unlabelled {es : List Event} {ts : List Outline} (h : Collected false es ts) :
    Collected false (Event.allUnlabelled es) (ts.map Outline.unlabelled) := by
  induction h with
  | nil => exact .nil
  | append _ _ ih ih' =>
      rw [Event.allUnlabelled_append, List.map_append]
      exact ih.append ih'
  | name span name => exact .name span name
  | variableName span name => exact .variableName span name
  | command c =>
      have hseen := (Seen.command (g := .unlabelled) c).unlabelled
      rw [← hseen, Event.allUnlabelled, Event.allUnlabelled, ← c.view_event]
      exact .command _
  | field f =>
      rw [f.events_unlabelled]
      obtain ⟨span, name, binding⟩ := f
      rcases binding with - | x | - <;> exact .field ⟨span, name, _⟩
  | @first kind span x us role es hrole _ ih =>
      have hkind : kind.namesCommand = false := by
        rcases Outline.kind_of_role hrole with rfl | rfl | rfl <;> rfl
      rw [List.map_singleton, Outline.branch, Outline.unlabelled_mk hkind]
      exact .first hrole ih
  | assignment span x operator _ ih =>
      have hassignment := ih.assignment span x operator
      rw [Event.allUnlabelled_append, List.map_singleton, Outline.unlabelled_mk rfl]
      by_cases hoperator : operator = .assign
      · rw [if_pos hoperator] at hassignment ⊢
        exact hassignment
      · rw [if_neg hoperator] at hassignment ⊢
        exact hassignment
  | loop span x hiterable hbody _ _ ih ih' =>
      have hvariable : x.outline.unlabelled = x.outline := by
        refine Outline.unlabelled_mk ?_
        rw [LoopVariable.kind]
        split <;> rfl
      rw [Event.allUnlabelled_append, List.map_singleton, Outline.branch, Outline.unlabelled_mk rfl, List.map_cons,
        hvariable, ← Outline.span_unlabelled]
      exact .loop span x (hiterable ∘ (Outline.kind_unlabelled rfl).mp) ((Outline.kind_unlabelled rfl).mpr hbody) ih ih'
  | attempt span x hbody hhandler _ _ ih ih' =>
      rw [Event.allUnlabelled_append, List.map_singleton, Outline.branch, Outline.unlabelled_mk rfl,
        ← Outline.span_unlabelled]
      have hattempt := Collected.attempt span x ((Outline.kind_unlabelled rfl).mpr hbody)
        ((Outline.kind_unlabelled rfl).mpr hhandler) ih ih'
      cases x <;> exact hattempt
  | closure span attributes params _ hbody _ ih =>
      have hparams := (Parameter.views_seen (g := .unlabelled) params).unlabelled
      rw [List.map_singleton, Outline.unlabelled_mk rfl, List.map_append, ← hparams]
      have hclosure := Collected.closure span attributes (Parameter.views .unlabelled params) (fun hbare => by contradiction)
        ((Outline.kind_unlabelled rfl).mpr hbody) ih
      rw [Parameter.views_event] at hclosure
      rw [Event.allUnlabelled, Event.unlabelled, Event.allUnlabelled_append]
      exact hclosure
  | @node t _ _ _ _ _ _ harranged _ _ _ ihb iha ihs =>
      have hkind : t.kind.namesCommand = false := by
        have hsteady := harranged.steady
        cases hkind : t.kind <;> rw [hkind] at hsteady <;> first | rfl | contradiction
      have hnode := Collected.node harranged.unlabelled ihb iha ihs
      rw [Outline.eventsOf_unlabelled hkind] at hnode
      exact hnode

/-- **Taking off the labels leaves the events as they are**, but for the labels. -/
theorem Node.views_events (ns : List Node) :
    Node.allEvents (Node.views .unlabelled ns) = Event.allUnlabelled (Node.allEvents ns) := by
  have hcollected := (Node.views_collected (g := .plain) ns).unlabelled
  rw [Node.views_eq, List.map_id'' Node.view_plain, ← (Node.views_seen (g := .unlabelled) ns).unlabelled] at hcollected
  rw [← (Node.views_collected (g := .unlabelled) ns).plainEvents, hcollected.plainEvents]

/-! ## Labels in tables -/

/-- A reference without what its place says of a command. -/
def Reference.unlabelled (r : Reference) : Reference := { r with site := r.site.unlabelled }

/-- A table without what the places of references say of commands. -/
def Table.unlabelled (table : Table) : Table :=
  { table with references := table.references.map Reference.unlabelled }

/-- The places of references decide which of them takes the place of another, not their labels. -/
theorem Table.addReference_unlabelled (table : Table) (r : Reference) :
    table.unlabelled.addReference r.unlabelled = (table.addReference r).unlabelled := by
  rw [addReference, addReference, unlabelled, unlabelled]
  dsimp only
  rw [Array.findIdx?_map]
  have hspans : ((fun old : Reference => old.site.span == r.unlabelled.site.span) ∘ Reference.unlabelled) =
      fun old => old.site.span == r.site.span := rfl
  rw [hspans]
  cases table.references.findIdx? fun old => old.site.span == r.site.span with
  | none => simp only [Array.map_push]
  | some i => simp only [Array.map_setIfInBounds]

namespace Resolver

/-- What has been found out, without labels. -/
def unlabelled (resolver : Resolver) : Resolver := { resolver with table := resolver.table.unlabelled }

/-- A binding is made in the same way. -/
theorem define_unlabelled (resolver : Resolver) (kind : BindingKind) (name : String) (site : Site)
    (frames : List Frame) : resolver.unlabelled.define kind name site frames =
      ((resolver.define kind name site frames).1.unlabelled, (resolver.define kind name site frames).2) := by
  cases frames <;> rfl

/-- A reference is made in the same way, with the label gone from its site. -/
theorem use_unlabelled (resolver : Resolver) (role : Role) (name : String) (site : Site) (frames : List Frame) :
    resolver.unlabelled.use role name site.unlabelled frames = (resolver.use role name site frames).unlabelled :=
  congrArg (Resolver.mk · _)
    (Table.addReference_unlabelled resolver.table ⟨role, name, site, lookup? frames name⟩)

mutual

/-- **The resolver does the same without labels.** -/
theorem run_unlabelled (resolver : Resolver) (frames : List Frame) : ∀ e : Event,
    resolver.unlabelled.run frames e.unlabelled =
      ((resolver.run frames e).1.unlabelled, (resolver.run frames e).2)
  | .define kind name site => by
      rw [Event.unlabelled, run, run, define_unlabelled]
  | .use role name site => by
      rw [Event.unlabelled, run, run, use_unlabelled]
  | .assign name statement target => by
      rw [Event.unlabelled, run, run]
      split
      · exact define_unlabelled ..
      · rw [use_unlabelled]
  | .scope kind span events => by
      rw [Event.unlabelled, run, run]
      exact congrArg (·.1, frames) (runAll_unlabelled
        { resolver with table := resolver.table.addScope ⟨kind, frames.head?.map Frame.scope, span⟩ }
        (⟨resolver.table.scopes.size, []⟩ :: frames) events)

/-- By induction on the events: what the resolver does never depends on labels. -/
theorem runAll_unlabelled (resolver : Resolver) (frames : List Frame) : ∀ events : List Event,
    runAll resolver.unlabelled frames (Event.allUnlabelled events) =
      ((runAll resolver frames events).1.unlabelled, (runAll resolver frames events).2)
  | [] => rfl
  | e :: es => by
      rw [Event.allUnlabelled, runAll, runAll, run_unlabelled resolver frames e]
      exact runAll_unlabelled (resolver.run frames e).1 (resolver.run frames e).2 es

end

end Resolver

/-- Programs that are the same but for labels are resolved alike, but for labels. -/
theorem resolve_unlabelled {p p' : Program} (h : p.unlabelled = p'.unlabelled) (report : Report) :
    (resolve p report).table.unlabelled = (resolve p' report).table.unlabelled ∧
      (resolve p report).report = (resolve p' report).report := by
  have hevent (p : Program) : p.unlabelled.event = p.event.unlabelled := by
    rw [Program.event, Program.event, Event.unlabelled, ← Node.views_events, Node.views_eq]
    rfl
  have hstart (p : Program) : ((Resolver.start report).run [] p.event).1.unlabelled =
      ((Resolver.start report).run [] p.unlabelled.event).1 := by
    have hempty : (Resolver.start report).unlabelled = Resolver.start report := by
      simp [Resolver.unlabelled, Resolver.start, Table.unlabelled, Table.empty]
    have hrun := Resolver.run_unlabelled (Resolver.start report) [] p.event
    rw [hempty] at hrun
    rw [hevent, hrun]
  have hresolver : ((Resolver.start report).run [] p.event).1.unlabelled =
      ((Resolver.start report).run [] p'.event).1.unlabelled := by
    rw [hstart, hstart, h]
  exact ⟨congrArg Resolver.table hresolver, (Resolver.mk.inj hresolver).2⟩

end ShellFront
