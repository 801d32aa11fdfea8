import ShellFront.Proofs.Names.Told

/-!
# Events are collected from trees

The events of a program are collected by going through each construct by hand. Construct by construct they come from
the outline in few ways: a name is used where it stands; a node hands on the events of its parts, phase by phase, with
its own name and its own scope; and some nodes treat one part in a way of their own. These ways are the rules of a
relation between events and trees, so that whatever holds of all events and their trees is proved rule by rule, and
the constructs are gone through only once.

## Contents
- `Collected`: the rules.
- `Outline.plainEvents_first` and the like: what the nodes tell that treat one part in a way of their own.
- `Collected.plainEvents`: what is collected from trees is what they tell.
-/

namespace ShellFront

open Outline

/-! ## The rules -/

/-- Events are **collected** from trees. If the trees are `bare`, then the parameters of closures have nothing to fall
    back to. -/
inductive Collected (bare : Bool) : List Event → List Outline → Prop
  | nil : Collected bare [] []
  | append {es es' : List Event} {ts ts' : List Outline} (h : Collected bare es ts) (h' : Collected bare es' ts') :
      Collected bare (es ++ es') (ts ++ ts')
  /-- A bare name is not used by standing somewhere. -/
  | name (span : Span) (name : String) : Collected bare [] [.mk .identifier span [("name", .text name)] []]
  | variableName (span : Span) (name : String) :
      Collected bare [.use .variableName name ⟨.variableName, span⟩] [.mk .variableName span [("name", .text name)] []]
  | command (c : CommandName) : Collected bare [c.event] [c.outline]
  /-- A field of a pattern. -/
  | field (f : PatternField) : Collected bare f.events [f.outline]
  /-- A node that uses its first child, a name. -/
  | first {kind : NodeKind} {span : Span} {x : Ident} {us : List Outline} {role : Role} {es : List Event}
      (hrole : (branch kind span (x.outline :: us)).role? 0 x.outline = some role) (h : Collected bare es us) :
      Collected bare (.use role x.name ⟨.identifier, x.span⟩ :: es) [branch kind span (x.outline :: us)]
  /-- An assignment uses its target after its value, and a plain one may define it. -/
  | assignment {value : Outline} {es : List Event} (span : Span) (x : Ident) (operator : Symbol)
      (h : Collected bare es [value]) :
      Collected bare
        (es ++ [if operator = .assign then .assign x.name ⟨.variableAssignment, span⟩ ⟨.variableName, x.span⟩
          else .use .variableName x.name ⟨.variableName, x.span⟩])
        [.mk .variableAssignment span [("op", .text operator.text)] [x.variableOutline, value]]
  /-- A `for` binds its variable in the scope of its body. -/
  | loop {iterable body : Outline} {es es' : List Event} (span : Span) (x : LoopVariable)
      (hiterable : iterable.kind ≠ .parameter) (hbody : body.kind = .block) (h : Collected bare es [iterable])
      (h' : Collected bare es' [body]) :
      Collected bare (es ++ [.scope .forBody body.span (.define .variableName x.name ⟨x.kind, x.span⟩ :: es')])
        [branch .forStatement span [x.outline, iterable, body]]
  /-- A `try` binds the error in the scope of its handler. -/
  | attempt {body handler : Outline} {es es' : List Event} (span : Span) (x : Option Ident) (hbody : body.kind = .block)
      (hhandler : handler.kind = .block) (h : Collected bare es [body]) (h' : Collected bare es' [handler]) :
      Collected bare
        (es ++ [.scope .handler handler.span
          ((x.map fun x => .define .variableName x.name ⟨.identifier, x.span⟩).toList ++ es')])
        [branch .tryStatement span (body :: (x.map Ident.outline).toList ++ [handler])]
  /-- A closure binds its parameters in its scope; what they fall back to is not visited. -/
  | closure {body : Outline} {es : List Event} (span : Span) (attributes : List (String × Attribute))
      (params : List (Parameter Node)) (hbare : bare = true → ∀ p ∈ params, p.fallback = none)
      (hbody : body.kind = .block) (h : Collected bare es [body]) :
      Collected bare [.scope .closure span (params.map Parameter.event ++ es)]
        [.mk .closure span attributes (Parameter.outlines params ++ [body])]
  /-- All other nodes hand on the events of their children, phase by phase. -/
  | node {t : Outline} {us vs ws : List Outline} {eb ea es : List Event} (harranged : t.Arranged us vs ws)
      (hbefore : Collected bare eb us) (haround : Collected bare ea vs) (hinside : Collected bare es ws) :
      Collected bare (t.eventsOf eb ea es) [t]

/-! ## Events are what trees tell -/

/-- The name of a command is used; of a qualified name, the namespace. -/
theorem CommandName.plainEvents (c : CommandName) : c.outline.plainEvents = [c.event] := by
  obtain ⟨span, name, qualifier, builtin⟩ := c
  cases builtin <;> cases qualifier <;> rfl

theorem PatternField.plainEvents (f : PatternField) : f.outline.plainEvents = f.events := by
  obtain ⟨span, name, binding⟩ := f
  rcases binding with - | x | - <;> rfl

theorem Symbol.text_eq_assign {s : Symbol} : s.text = "=" ↔ s = .assign := by
  cases s <;> simp [Symbol.text]

namespace Outline

section

variable {kind : NodeKind} {span : Span} {x : Ident} {us : List Outline} {role : Role}
  (hrole : (branch kind span (x.outline :: us)).role? 0 x.outline = some role)

include hrole

/-- A bare name is used as a callee and as the name of a type. -/
theorem kind_of_role : kind = .call ∨ kind = .objectConstruction ∨ kind = .typedRecordPattern := by
  cases kind <;> first | contradiction | exact .inl rfl | exact .inr (.inl rfl) | exact .inr (.inr rfl)

/-- A node whose first child is used by its position. -/
theorem plainEvents_first : (branch kind span (x.outline :: us)).plainEvents =
    .use role x.name ⟨.identifier, x.span⟩ :: us.flatMap plainEvents := by
  let t := branch kind span (x.outline :: us)
  have hkind := kind_of_role hrole
  have hphase (i : Nat) (u : Outline) : t.phase i u = .around := by
    rcases hkind with rfl | rfl | rfl <;> rfl
  have hrest : t.Grouped 1 us .around (us.flatMap plainEvents) := by
    refine .regular (fun u _ i => hphase i u) fun u _ i hi => ?_
    obtain ⟨i, rfl⟩ := Nat.exists_eq_add_of_le' hi
    rcases hkind with rfl | rfl | rfl <;> rfl
  have hfirst : t.childEvents 0 x.outline = [.use role x.name ⟨.identifier, x.span⟩] := by
    rcases hkind with rfl | rfl | rfl <;> (obtain rfl := Option.some.inj hrole; rfl)
  have hphases (p : Phase) : t.phaseEvents 0 t.children p =
      if Phase.around = p then .use role x.name ⟨.identifier, x.span⟩ :: us.flatMap plainEvents else [] := by
    rw [show t.children = x.outline :: us from rfl, phaseEvents_cons, hphase, hfirst, hrest _ _ (Nat.le_refl 1)]
    split <;> rfl
  have hphased : t.Phased [] _ [] := ⟨hphases _, hphases _, hphases _⟩
  rcases hkind with rfl | rfl | rfl <;>
    exact (hphased.plainEvents rfl).trans ((List.append_nil _).trans (List.append_nil _))

end

/-- An assignment visits its value before its target. -/
theorem plainEvents_assignment {span : Span} {x : Ident} {operator : Symbol} {value : Outline} :
    (mk .variableAssignment span [("op", .text operator.text)] [x.variableOutline, value]).plainEvents =
      value.plainEvents ++ [if operator = .assign then .assign x.name ⟨.variableAssignment, span⟩ ⟨.variableName, x.span⟩
        else .use .variableName x.name ⟨.variableName, x.span⟩] := by
  let t := mk .variableAssignment span [("op", .text operator.text)] [x.variableOutline, value]
  have hregular : t.Regular 1 value := rfl
  have hphases (p : Phase) : t.phaseEvents 0 t.children p =
      (if Phase.around = p then t.childEvents 0 x.variableOutline else []) ++
        if Phase.before = p then value.plainEvents else [] := by
    rw [show t.children = [x.variableOutline, value] from rfl, phaseEvents_cons, phaseEvents_cons, phaseEvents_nil,
      hregular.childEvents, List.append_nil]
    rfl
  -- only a plain assignment can define its target
  have hassignment : t.assignment? 0 = if operator = .assign then some t.site else none := by
    have hplain : t.attributes = [("op", .text "=")] ↔ operator = .assign := by
      rw [← Symbol.text_eq_assign]
      simp [t, attributes]
    by_cases hoperator : operator = .assign
    · rw [if_pos hoperator]
      exact if_pos ⟨rfl, hplain.mpr hoperator, rfl⟩
    · rw [if_neg hoperator]
      exact if_neg fun h => hoperator (hplain.mp h.2.1)
  have htarget : t.childEvents 0 x.variableOutline =
      [if operator = .assign then .assign x.name ⟨.variableAssignment, span⟩ ⟨.variableName, x.span⟩
        else .use .variableName x.name ⟨.variableName, x.span⟩] := by
    have halone : t.alone? 0 x.variableOutline = t.effect? 0 x.variableOutline := rfl
    rw [childEvents_eq, halone, effect?, hassignment]
    by_cases hoperator : operator = .assign
    · rw [if_pos hoperator, if_pos hoperator]
      rfl
    · rw [if_neg hoperator, if_neg hoperator]
      rfl
  have hphased : t.Phased value.plainEvents _ [] := ⟨hphases _, (hphases _).trans (List.append_nil _), hphases _⟩
  rw [hphased.plainEvents rfl, eventsOf_late rfl, htarget]
  exact (List.append_nil _).trans (List.append_nil _)

end Outline

theorem LoopVariable.outline_not_parameter (x : LoopVariable) : x.outline.kind ≠ .parameter := by
  rw [LoopVariable.outline, Outline.kind, LoopVariable.kind]
  split <;> decide

namespace Outline

variable {span : Span} {body handler : Outline}

theorem not_parameter_of_block {u : Outline} (h : u.kind = .block) : u.kind ≠ .parameter := by
  rw [h]
  decide

/-- A `for` gives its iterable in the scope around it, and binds its variable in that of its body. -/
theorem plainEvents_loop {x : LoopVariable} {iterable : Outline} (hiterable : iterable.kind ≠ .parameter)
    (hbody : body.kind = .block) : (branch .forStatement span [x.outline, iterable, body]).plainEvents =
      iterable.plainEvents ++
        [.scope .forBody body.span (.define .variableName x.name ⟨x.kind, x.span⟩ :: body.plainEvents)] := by
  let t := branch .forStatement span [x.outline, iterable, body]
  have hregular (i : Nat) (u : Outline) : t.Regular (i + 1) u := rfl
  have hphases (p : Phase) : t.phaseEvents 0 t.children p =
      (if Phase.inside = p then t.childEvents 0 x.outline else []) ++
        ((if Phase.around = p then iterable.plainEvents else []) ++ if Phase.inside = p then body.plainEvents else []) := by
    rw [show t.children = [x.outline, iterable, body] from rfl, phaseEvents_cons, phaseEvents_cons, phaseEvents_cons,
      phaseEvents_nil, (hregular 0 iterable).childEvents, (hregular 1 body).childEvents, List.append_nil]
    rfl
  have hvariable : t.childEvents 0 x.outline = [.define .variableName x.name ⟨x.kind, x.span⟩] := by
    have hbinds : t.binds? 0 x.outline = some .variableName := by
      rw [binds?, if_neg fun h => x.outline_not_parameter h.1]
      rfl
    rw [childEvents_eq, alone?, if_neg x.outline_not_parameter, effect?, hbinds]
    rfl
  have hparameters : t.children.flatMap parameterEvent = [] :=
    parameterEvents_nil (List.forall_mem_cons.mpr ⟨x.outline_not_parameter,
      List.forall_mem_cons.mpr ⟨hiterable, List.forall_mem_singleton.mpr (not_parameter_of_block hbody)⟩⟩)
  have hphased : t.Phased [] iterable.plainEvents
      (.define .variableName x.name ⟨x.kind, x.span⟩ :: body.plainEvents) := by
    refine ⟨hphases _, (hphases _).trans (List.append_nil _), (hphases _).trans ?_⟩
    rw [hvariable]
    rfl
  rw [hphased.plainEvents rfl, eventsOf_late rfl, scopeEvents, hparameters]
  exact List.append_nil _

/-- A `try` binds the error in the scope of its handler. -/
theorem plainEvents_attempt {x : Option Ident} (hbody : body.kind = .block) (hhandler : handler.kind = .block) :
    (branch .tryStatement span (body :: (x.map Ident.outline).toList ++ [handler])).plainEvents =
      body.plainEvents ++ [.scope .handler handler.span
        ((x.map fun x => .define .variableName x.name ⟨.identifier, x.span⟩).toList ++ handler.plainEvents)] := by
  let t := branch .tryStatement span (body :: (x.map Ident.outline).toList ++ [handler])
  have hregular (i : Nat) {u : Outline} (hu : u.kind = .block) : t.Regular i u := by
    have hplaces : t.placesMatter i u = decide (u.kind = .identifier) := rfl
    rw [Regular, hplaces, hu]
    rfl
  have hname (x : Ident) : t.childEvents 1 x.outline = [.define .variableName x.name ⟨.identifier, x.span⟩] := rfl
  -- the body comes in the outer scope; the name of the error and the handler come inside
  have hphases (p : Phase) : t.phaseEvents 0 t.children p =
      (if Phase.around = p then body.plainEvents else []) ++
        if Phase.inside = p then
          (x.map fun x => .define .variableName x.name ⟨.identifier, x.span⟩).toList ++ handler.plainEvents
        else [] := by
    rw [show t.children = body :: ((x.map Ident.outline).toList ++ [handler]) from rfl, phaseEvents_cons,
      (hregular 0 hbody).childEvents]
    cases x with
    | none =>
        rw [Option.map_none, Option.toList_none, List.nil_append, phaseEvents_cons, phaseEvents_nil,
          (hregular _ hhandler).childEvents, List.append_nil]
        rfl
    | some x =>
        rw [Option.map_some, Option.toList_some, List.singleton_append, phaseEvents_cons, phaseEvents_cons,
          phaseEvents_nil, hname, (hregular _ hhandler).childEvents, List.append_nil]
        cases p <;> rfl
  have hparameters : t.children.flatMap parameterEvent = [] := by
    refine parameterEvents_nil (List.forall_mem_cons.mpr ⟨not_parameter_of_block hbody, List.forall_mem_append.mpr
      ⟨fun u hu => ?_, List.forall_mem_singleton.mpr (not_parameter_of_block hhandler)⟩⟩)
    obtain ⟨x, -, rfl⟩ := Option.map_eq_some_iff.mp (Option.mem_toList.mp hu)
    show NodeKind.identifier ≠ .parameter
    decide
  -- the scope lies over the handler, the last of the children
  have hopening : t.opening? = some (.handler, handler.span) := by
    rw [opening?]
    exact congrArg (Option.map _) List.getLast?_concat
  have hphased : t.Phased [] body.plainEvents _ := ⟨hphases _, (hphases _).trans (List.append_nil _), hphases _⟩
  rw [hphased.plainEvents rfl, eventsOf_late rfl, scopeEvents, hopening, hparameters]
  exact List.append_nil _

end Outline

theorem Parameter.outlines_kind {ps : List (Parameter Node)} :
    ∀ u ∈ Parameter.outlines ps, u.kind = .parameter := by
  induction ps with
  | nil => exact List.forall_mem_nil _
  | cons p ps ih => exact List.forall_mem_cons.mpr ⟨rfl, ih⟩

/-- The parameters of a callable are bound under their names. -/
theorem Parameter.outlines_parameterEvent (ps : List (Parameter Node)) :
    (Parameter.outlines ps).flatMap parameterEvent = ps.map Parameter.event := by
  induction ps with
  | nil => rfl
  | cons p ps ih => rw [Parameter.outlines, List.flatMap_cons, ih]; rfl

/-- The parameters of a closure have nothing to fall back to that would be visited. -/
theorem Parameter.grouped_closure {t : Outline} {opened : ScopeKind × Span} (hkind : t.kind = .closure)
    (hopening : t.opening? = some opened) (ps : List (Parameter Node)) :
    t.Grouped 0 (Parameter.outlines ps) .around [] := by
  induction ps with
  | nil => exact .nil
  | cons p ps ih =>
      intro i q _
      have hchild (u : Outline) (hu : u.kind = .parameter) (hname : u.name?.isSome) : t.childEvents i u = [] := by
        have hbinds : t.binds? i u = some .parameter := by rw [binds?, hopening]; exact if_pos ⟨hu, rfl⟩
        obtain ⟨name, hname⟩ := Option.isSome_iff_exists.mp hname
        rw [childEvents_eq, alone?, if_pos hu, goesOn, effect?, hbinds, hname, hkind]
        simp
      rw [Parameter.outlines, phaseEvents_cons, hchild _ rfl rfl, ite_self, List.nil_append]
      exact ih _ q (Nat.zero_le _)

/-- The parameters of a closure are bound in its scope, and nothing is visited below them. -/
theorem Outline.plainEvents_closure {span : Span} {attributes : List (String × Attribute)} {body : Outline}
    (params : List (Parameter Node)) (hbody : body.kind = .block) :
    (mk .closure span attributes (Parameter.outlines params ++ [body])).plainEvents =
      [.scope .closure span (params.map Parameter.event ++ body.plainEvents)] := by
  let t := mk .closure span attributes (Parameter.outlines params ++ [body])
  have hinside : t.Grouped 0 [body] .inside ([body].flatMap plainEvents) := by
    refine .regular (List.forall_mem_singleton.mpr fun i => ?_) (List.forall_mem_singleton.mpr fun i _ => ?_)
    · rw [phase, hbody]
      rfl
    · have hplaces : t.placesMatter i body = decide (body.kind = .parameter) := rfl
      rw [Regular, hplaces, hbody]
      rfl
  have hphased : t.Phased [] [] body.plainEvents := by
    have hchildren : t.children = [] ++ Parameter.outlines params ++ [body] := rfl
    rw [List.flatMap_singleton] at hinside
    exact .of_grouped hchildren .nil (Parameter.grouped_closure rfl rfl params) hinside
  have hparameters : t.children.flatMap parameterEvent = params.map Parameter.event := by
    rw [show t.children = Parameter.outlines params ++ [body] from rfl, List.flatMap_append,
      Parameter.outlines_parameterEvent, List.flatMap_singleton, parameterEvent, if_neg (not_parameter_of_block hbody),
      List.append_nil]
  rw [hphased.plainEvents rfl, eventsOf_late rfl, scopeEvents, hparameters]
  rfl

/-- **What is collected from trees is what they tell.** -/
theorem Collected.plainEvents {bare : Bool} {es : List Event} {ts : List Outline} (h : Collected bare es ts) :
    ts.flatMap Outline.plainEvents = es := by
  induction h with
  | nil => rfl
  | append _ _ ih ih' => rw [List.flatMap_append, ih, ih']
  | name span name => rfl
  | variableName span name => rfl
  | command c => rw [List.flatMap_singleton, c.plainEvents]
  | field f => rw [List.flatMap_singleton, f.plainEvents]
  | first hrole _ ih => rw [List.flatMap_singleton, plainEvents_first hrole, ih]
  | assignment span x operator _ ih =>
      rw [List.flatMap_singleton] at ih
      rw [List.flatMap_singleton, plainEvents_assignment, ih]
  | loop span x hiterable hbody _ _ ih ih' =>
      rw [List.flatMap_singleton] at ih ih'
      rw [List.flatMap_singleton, plainEvents_loop hiterable hbody, ih, ih']
  | attempt span x hbody hhandler _ _ ih ih' =>
      rw [List.flatMap_singleton] at ih ih'
      rw [List.flatMap_singleton, plainEvents_attempt hbody hhandler, ih, ih']
  | closure span attributes params _ hbody _ ih =>
      rw [List.flatMap_singleton] at ih
      rw [List.flatMap_singleton, plainEvents_closure params hbody, ih]
  | node harranged _ _ _ ihb iha ihs => rw [List.flatMap_singleton, harranged.plainEvents, ihb, iha, ihs]

end ShellFront
