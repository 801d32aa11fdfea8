import ShellFront.Proofs.Names.References

/-!
# Which nodes open scopes

Callables, tests, objects and arms open a scope over all of their place; a `for` opens one over its body, and a
`try` over its handler. The events of a tree open these scopes and no others, and what they do inside a scope stands
inside its place, since each node lies inside the one that it is below.

## Contents
- `Event.openings`, the scopes that an event opens.
- `Event.Inside`: what an event uses and opens stands inside a span.
- `OpensAll` and how it is put together.
- `Collected.opens`: events open the scopes of the trees that they are collected from; and `parse_opens`.
-/

namespace ShellFront

/-! ## Openings -/

mutual

/-- The scopes that an event opens, in order. -/
def Event.openings : Event → List (ScopeKind × Span)
  | .define .. | .use .. | .assign .. => []
  | .scope kind span events => (kind, span) :: Event.allOpenings events

/-- The scopes that events open. -/
def Event.allOpenings : List Event → List (ScopeKind × Span)
  | [] => []
  | e :: es => e.openings ++ Event.allOpenings es

end

mutual

/-- An event stays **inside** a span: the names that it uses stand there, and so do the scopes that it opens, with
    all that happens in them. -/
def Event.Inside (room : Span) : Event → Prop
  | .define .. => True
  | .use _ _ site => room.contains site.span = true
  | .assign _ _ target => room.contains target.span = true
  | .scope _ span events => room.contains span = true ∧ Event.AllInside span events

/-- Events stay inside a span. -/
def Event.AllInside (room : Span) : List Event → Prop
  | [] => True
  | e :: es => e.Inside room ∧ Event.AllInside room es

end

@[simp] theorem Event.allOpenings_append (es es' : List Event) :
    Event.allOpenings (es ++ es') = Event.allOpenings es ++ Event.allOpenings es' := by
  induction es with
  | nil => rfl
  | cons e es ih => rw [List.cons_append, allOpenings, ih, allOpenings, List.append_assoc]

theorem Event.allInside_append {room : Span} {es es' : List Event} :
    AllInside room (es ++ es') ↔ AllInside room es ∧ AllInside room es' := by
  induction es with
  | nil => exact iff_of_eq (true_and _).symm
  | cons e es ih => rw [List.cons_append, AllInside, AllInside, ih, and_assoc]

namespace Span

@[simp] theorem contains_self (span : Span) : span.contains span = true := by simp [contains]

theorem contains_trans {a b c : Span} (h : a.contains b = true) (h' : b.contains c = true) : a.contains c = true := by
  simp only [contains, Bool.and_eq_true, decide_eq_true_eq] at *
  omega

end Span

/-! ## Events and trees -/

open Outline

/-- Events **open** the scopes of trees: all of them, and no others; and in nested trees they stay inside any span that
    the trees stand in. -/
structure OpensAll (es : List Event) (ts : List Outline) : Prop where
  openings : (Event.allOpenings es).Perm ((preorders ts).filterMap opening?)
  inside : (∀ t ∈ ts, t.Everywhere Nests) → ∀ room : Span, (∀ t ∈ ts, room.contains t.span = true) →
    Event.AllInside room es

namespace OpensAll

variable {es es' : List Event} {ts ts' : List Outline} {kind : NodeKind} {span : Span}
  {attributes : List (String × Attribute)}

theorem nil : OpensAll [] [] := ⟨.nil, fun _ _ _ => trivial⟩

theorem append (h : OpensAll es ts) (h' : OpensAll es' ts') : OpensAll (es ++ es') (ts ++ ts') where
  openings := by
    rw [Event.allOpenings_append, preorders_append, List.filterMap_append]
    exact h.openings.append h'.openings
  inside := by
    intro hnests room hroom
    obtain ⟨hnests, hnests'⟩ := List.forall_mem_append.mp hnests
    obtain ⟨hroom, hroom'⟩ := List.forall_mem_append.mp hroom
    exact Event.allInside_append.mpr ⟨h.inside hnests room hroom, h'.inside hnests' room hroom'⟩

/-- Events may come in another order than the trees. -/
theorem swap (h : OpensAll (es ++ es') ts) : OpensAll (es' ++ es) ts where
  openings := by
    refine .trans ?_ h.openings
    rw [Event.allOpenings_append, Event.allOpenings_append]
    exact List.perm_append_comm
  inside := fun hnests room hroom =>
    Event.allInside_append.mpr (Event.allInside_append.mp (h.inside hnests room hroom)).symm

/-- Definitions open nothing. -/
theorem defines (h : ∀ e ∈ es, ∃ binding name site, e = .define binding name site) : OpensAll es [] := by
  induction es with
  | nil => exact .nil
  | cons e es ih =>
      obtain ⟨⟨binding, name, site, rfl⟩, hes⟩ := List.forall_mem_cons.mp h
      exact (⟨.nil, fun _ _ _ => ⟨trivial, trivial⟩⟩ : OpensAll [.define binding name site] []).append (ih hes)

/-- At most one definition. -/
theorem optional {α : Type} (a : Option α) {f : α → Event}
    (hf : ∀ a, ∃ binding name site, f a = .define binding name site) : OpensAll (a.map f).toList [] := by
  refine defines fun e he => ?_
  obtain ⟨a, -, rfl⟩ := Option.map_eq_some_iff.mp (Option.mem_toList.mp he)
  exact hf a

/-- A name is defined. -/
theorem define (binding : BindingKind) (name : String) (site : Site) : OpensAll [.define binding name site] [] :=
  defines (List.forall_mem_singleton.mpr ⟨_, _, _, rfl⟩)

/-- A node without a scope of its own. -/
theorem node (h : OpensAll es ts) (hopens : (Outline.mk kind span attributes ts).opening? = none) :
    OpensAll es [.mk kind span attributes ts] where
  openings := by
    rw [preorders, preorder, preorders, List.append_nil, List.filterMap_cons_none hopens]
    exact h.openings
  inside := by
    intro hnests room hroom
    obtain ⟨hself, hbelow⟩ := everywhere_mk.mp (List.forall_mem_singleton.mp hnests)
    have hspan : room.contains span = true := hroom _ (List.mem_singleton_self _)
    exact h.inside hbelow room fun t ht => Span.contains_trans hspan (hself.inside t ht)

/-- A leaf that uses no name. -/
theorem leaf (hopens : (Outline.mk kind span attributes []).opening? = none) : OpensAll [] [.mk kind span attributes []] :=
  nil.node hopens

/-- A name is used at a leaf. -/
theorem use (role : Role) (name : String) (hopens : (Outline.mk kind span attributes []).opening? = none) :
    OpensAll [.use role name ⟨kind, span⟩] [.mk kind span attributes []] where
  openings := (leaf hopens).openings
  inside := fun _ _ hroom => ⟨hroom _ (List.mem_singleton_self _), trivial⟩

/-- A node that opens a scope over the last of its children. -/
theorem scope {k : ScopeKind} {place : Span} (h : OpensAll es ts) (h' : OpensAll es' ts')
    (hopens : (Outline.mk kind span attributes (ts ++ ts')).opening? = some (k, place))
    (hplace : (∀ t ∈ ts ++ ts', span.contains t.span = true) →
      span.contains place = true ∧ ∀ t ∈ ts', place.contains t.span = true) :
    OpensAll (es ++ [.scope k place es']) [.mk kind span attributes (ts ++ ts')] where
  openings := by
    rw [preorders, preorder, preorders, List.append_nil, List.filterMap_cons_some hopens, preorders_append,
      List.filterMap_append, Event.allOpenings_append, Event.allOpenings, Event.openings, Event.allOpenings,
      List.append_nil]
    exact List.perm_middle.trans ((h.openings.append h'.openings).cons _)
  inside := by
    intro hnests room hroom
    obtain ⟨hself, hbelow⟩ := everywhere_mk.mp (List.forall_mem_singleton.mp hnests)
    obtain ⟨hbelow, hbelow'⟩ := List.forall_mem_append.mp hbelow
    have hspan : room.contains span = true := hroom _ (List.mem_singleton_self _)
    have hinside : ∀ t ∈ ts ++ ts', span.contains t.span = true := hself.inside
    obtain ⟨hin, hover⟩ := hplace hinside
    refine Event.allInside_append.mpr ⟨h.inside hbelow room fun t ht => ?_, ?_, trivial⟩
    · exact Span.contains_trans hspan (hinside t (List.mem_append_left _ ht))
    · exact ⟨Span.contains_trans hspan hin, h'.inside hbelow' place hover⟩

/-- A node that opens a scope over all of its place. -/
theorem whole {k : ScopeKind} (h : OpensAll es ts) (h' : OpensAll es' ts')
    (hopens : (Outline.mk kind span attributes (ts ++ ts')).opening? = some (k, span)) :
    OpensAll (es ++ [.scope k span es']) [.mk kind span attributes (ts ++ ts')] :=
  h.scope h' hopens fun hinside => ⟨Span.contains_self span, fun t ht => hinside t (List.mem_append_right _ ht)⟩

/-- A node that opens a scope over its last child. -/
theorem last {k : ScopeKind} {u : Outline} (h : OpensAll es ts) (h' : OpensAll es' [u])
    (hopens : (Outline.mk kind span attributes (ts ++ [u])).opening? = some (k, u.span)) :
    OpensAll (es ++ [.scope k u.span es']) [.mk kind span attributes (ts ++ [u])] :=
  h.scope h' hopens fun hinside =>
    ⟨hinside u (List.mem_append_right _ (List.mem_singleton_self u)),
      List.forall_mem_singleton.mpr (Span.contains_self u.span)⟩

end OpensAll

/-! ## Rules -/

theorem Ident.opens (x : Ident) : OpensAll [] [x.outline] := .leaf rfl

theorem Ident.option_opens (x : Option Ident) : OpensAll [] (x.map Ident.outline).toList := by
  cases x with
  | none => exact .nil
  | some x => exact x.opens

theorem LoopVariable.opens (x : LoopVariable) : OpensAll [] [x.outline] := by
  refine .leaf ?_
  rw [LoopVariable.kind]
  split <;> rfl

theorem CommandName.opens (c : CommandName) : OpensAll [c.event] [c.outline] := by
  refine .use _ _ ?_
  rw [CommandName.kind]
  split <;> rfl

theorem PatternField.opens (f : PatternField) : OpensAll f.events [f.outline] := by
  have hdefines : OpensAll f.events [] := .optional f.boundName? fun _ => ⟨_, _, _, rfl⟩
  have hbinding : OpensAll [] (f.binding.map FieldBinding.outline).toList := by
    rcases f.binding with - | x | -
    · exact .nil
    · exact .leaf rfl
    · exact .leaf rfl
  have hnode : OpensAll [] [f.outline] := (f.name.opens.append hbinding).node rfl
  have hall := hdefines.append hnode
  rwa [List.append_nil] at hall

/-- Parameters without fallback values open nothing. -/
theorem Parameter.bare_opens {ps : List (Parameter Node)} (h : ∀ p ∈ ps, p.fallback = none) :
    OpensAll [] (Parameter.outlines ps) := by
  induction ps with
  | nil => exact .nil
  | cons p ps ih =>
      obtain ⟨hp, hps⟩ := List.forall_mem_cons.mp h
      have hhint : OpensAll [] ((p.hint.map TypeHint.outline).toList ++ Node.outline? p.fallback) := by
        rw [hp, Node.outline?, List.append_nil]
        cases p.hint with
        | none => exact .nil
        | some hint => exact .leaf rfl
      exact (hhint.node rfl).append (ih hps)

namespace OpensAll

variable {es es' eb ea : List Event} {t body : Outline} {us vs ws : List Outline} {span : Span}

/-- A node defines its own name, and nothing else by itself. -/
theorem own (t : Outline) : OpensAll t.ownEvents [] := by
  rw [ownEvents, does?]
  exact .optional t.own? fun _ => ⟨_, _, _, rfl⟩

theorem parameters (us : List Outline) : OpensAll (us.flatMap parameterEvent) [] := by
  induction us with
  | nil => exact .nil
  | cons u us ih =>
      have hu : OpensAll u.parameterEvent [] := by
        rw [parameterEvent]
        split
        · exact .optional u.name? fun _ => ⟨_, _, _, rfl⟩
        · exact .nil
      exact hu.append ih

/-- A node whose children come in the order of their phases opens its scope over all of its place. -/
theorem arranged (harranged : t.Arranged us vs ws) (hbefore : OpensAll eb us) (haround : OpensAll ea vs)
    (hinside : OpensAll es ws) : OpensAll (t.eventsOf eb ea es) [t] := by
  -- a node binds either before its children or after them; the two cases differ in where its own event stands
  have hown (b : Bool) : OpensAll (if b then t.ownEvents else []) [] := by
    cases b
    · exact .nil
    · exact .own t
  have hlate (b : Bool) : OpensAll (if b then [] else t.ownEvents) [] := by
    cases b
    · exact .own t
    · exact .nil
  have hheader := (hbefore.append (hown t.kind.bindsEarly)).append haround
  rw [List.append_nil] at hheader
  have hsteady := harranged.steady
  have hopens := harranged.opens
  have hchildren := harranged.children
  rw [eventsOf, scopeEvents]
  cases hopening : t.opening? with
  | none =>
      rw [hopening] at hopens
      rcases hopens with hopens | rfl
      · contradiction
      · rw [List.append_nil] at hchildren
        have hall := hheader.append (hlate t.kind.bindsEarly)
        rw [List.append_nil, ← hchildren] at hall
        rw [Option.map_none, Option.toList_none, List.append_nil]
        obtain ⟨kind, span, attributes, children⟩ := t
        exact hall.node hopening
  | some opened =>
      obtain ⟨k, place⟩ := opened
      -- of the steady nodes, only those that open a scope over all of themselves are left
      have hplace : place = t.span := by
        rw [opening?] at hopening
        cases hkind : t.kind <;> rw [hkind] at hsteady hopening <;>
          first | contradiction | exact (Prod.mk.inj (Option.some.inj hopening)).2.symm
      subst hplace
      have hscope := (parameters t.children).append hinside
      obtain ⟨kind, span, attributes, children⟩ := t
      obtain rfl : children = us ++ vs ++ ws := hchildren
      have hall := (hheader.whole hscope hopening).append (hlate kind.bindsEarly)
      rw [List.append_nil] at hall
      exact hall

/-- A node that uses its first child, a name. -/
theorem useFirst {kind : NodeKind} {x : Ident} {role : Role}
    (hrole : (branch kind span (x.outline :: us)).role? 0 x.outline = some role) (h : OpensAll es us) :
    OpensAll (.use role x.name ⟨.identifier, x.span⟩ :: es) [branch kind span (x.outline :: us)] := by
  have hname : OpensAll [.use role x.name ⟨.identifier, x.span⟩] [x.outline] := .use _ _ rfl
  rcases kind_of_role hrole with rfl | rfl | rfl <;> exact (hname.append h).node rfl

/-- An assignment uses its target, or may define it. -/
theorem assignment {value : Outline} {x : Ident} {operator : Symbol} (h : OpensAll es [value]) :
    OpensAll (es ++ [if operator = .assign then .assign x.name ⟨.variableAssignment, span⟩ ⟨.variableName, x.span⟩
        else .use .variableName x.name ⟨.variableName, x.span⟩])
      [.mk .variableAssignment span [("op", .text operator.text)] [x.variableOutline, value]] := by
  have htarget : OpensAll [if operator = .assign then .assign x.name ⟨.variableAssignment, span⟩ ⟨.variableName, x.span⟩
      else .use .variableName x.name ⟨.variableName, x.span⟩] [x.variableOutline] := by
    split
    · exact ⟨.nil, fun _ _ hroom => ⟨hroom _ (List.mem_singleton_self _), trivial⟩⟩
    · exact .use _ _ rfl
  exact (htarget.append h).swap.node rfl

/-- A `for` opens a scope over its body. -/
theorem loop {iterable : Outline} {x : LoopVariable} (h : OpensAll es [iterable]) (h' : OpensAll es' [body]) :
    OpensAll (es ++ [.scope .forBody body.span (.define .variableName x.name ⟨x.kind, x.span⟩ :: es')])
      [branch .forStatement span [x.outline, iterable, body]] :=
  (x.opens.append h).last ((define _ _ _).append h') rfl

/-- A `try` opens a scope over its handler. -/
theorem attempt {handler : Outline} {x : Option Ident} (h : OpensAll es [body]) (h' : OpensAll es' [handler]) :
    OpensAll (es ++ [.scope .handler handler.span
        ((x.map fun x => .define .variableName x.name ⟨.identifier, x.span⟩).toList ++ es')])
      [branch .tryStatement span (body :: (x.map Ident.outline).toList ++ [handler])] := by
  have hheader := h.append (Ident.option_opens x)
  rw [List.append_nil] at hheader
  refine hheader.last ((optional x fun _ => ⟨_, _, _, rfl⟩).append h') ?_
  rw [opening?]
  exact congrArg (Option.map _) List.getLast?_concat

end OpensAll

/-- **Events open the scopes of the trees that they are collected from**, if the parameters of closures are bare. -/
theorem Collected.opens {es : List Event} {ts : List Outline} (h : Collected true es ts) : OpensAll es ts := by
  induction h with
  | nil => exact .nil
  | append _ _ ih ih' => exact ih.append ih'
  | name span name => exact .leaf rfl
  | variableName span name => exact .use _ _ rfl
  | command c => exact c.opens
  | field f => exact f.opens
  | first hrole _ ih => exact .useFirst hrole ih
  | assignment span x operator _ ih => exact ih.assignment
  | loop span x _ _ _ _ ih ih' => exact ih.loop ih'
  | attempt span x _ _ _ _ ih ih' => exact ih.attempt ih'
  | closure span attributes params hbare _ _ ih =>
      have hdefines : OpensAll (params.map Parameter.event) [] :=
        .defines (List.forall_mem_map.mpr fun _ _ => ⟨_, _, _, rfl⟩)
      exact (Parameter.bare_opens (hbare rfl)).whole (hdefines.append ih) rfl
  | node harranged _ _ _ ihb iha ihs => exact .arranged harranged ihb iha ihs

/-- The events of a program that was read open the scopes of its tree. -/
theorem parse_opens (source file : String) (failFast : Bool) (isBuiltin : String → Bool) :
    let program := (parse source file failFast isBuiltin).program
    OpensAll (Node.allEvents program.statements) (Node.outlines program.statements) :=
  (parse_collected source file failFast isBuiltin).opens

end ShellFront
