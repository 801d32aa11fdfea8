import ShellFront.Proofs.Names.Collected
import ShellFront.Proofs.Twins.Views

/-!
# Constructs and their events

Each construct of a program hands on events by one of the rules of `Collected`. This is the only place where the
constructs are gone through one by one to relate their events to their outlines; all else that is known of events and
trees follows rule by rule.

## Contents
- `NodeKind.isPassive` and `Collected.passive`: nodes that only hand on what their parts do.
- `Collected.callable`, and one theorem for each construct that binds a name or opens a scope.
- `Node.view_collected`, with one theorem for each part of a tree.
- `Program.event_outline`: the event of a program is what its tree tells.
-/

namespace ShellFront

open Outline Outlined

/-! ## Ways to collect -/

/-- Whether nodes of a kind have no name and no scope of their own. -/
def NodeKind.isPassive : NodeKind → Bool
  | program | functionDefinition | macroDefinition | lambdaExpr | testDefinition | objectDefinition | matchArm
  | letStatement | aliasDefinition | enumDefinition | bindingPattern | restPattern | importItem | useStatement
  | sourceStatement => false
  | kind => kind.isSteady

namespace Collected

variable {bare : Bool} {es es' eb ea : List Event} {t : Outline} {ts ts' us vs ws : List Outline} {kind : NodeKind}
  {span : Span} {attributes : List (String × Attribute)}

/-- A node all of whose children are in the scope around it. -/
theorem around (h : Collected bare ea t.children) (hsteady : t.kind.isSteady = true)
    (haround : ∀ u ∈ t.children, ∀ i, t.phase i u = .around) : Collected bare (t.eventsOf [] ea []) [t] :=
  .node (.of_around hsteady haround) .nil h .nil

/-- A passive node hands on what its parts do. -/
theorem passive (h : Collected bare es ts) (hkind : kind.isPassive = true) :
    Collected bare es [.mk kind span attributes ts] := by
  have hsteady : kind.isSteady = true := by cases kind <;> first | rfl | contradiction
  have haround : Collected bare ((mk kind span attributes ts).eventsOf [] es []) [mk kind span attributes ts] :=
    .around h hsteady fun u _ i => by rw [phase]; cases kind <;> first | rfl | contradiction
  have hevents : (mk kind span attributes ts).eventsOf [] es [] = es := by
    have hlate : (mk kind span attributes ts).kind.bindsEarly = false := by
      rw [Outline.kind]
      cases kind <;> first | rfl | contradiction
    have hown : (mk kind span attributes ts).ownEvents = [] := by
      rw [ownEvents, does?, own?]
      cases kind <;> first | rfl | contradiction
    have hscope : (mk kind span attributes ts).scopeEvents [] = [] := by
      rw [scopeEvents, opening?]
      cases kind <;> first | rfl | contradiction
    rw [eventsOf_late hlate, hown, hscope, List.append_nil, List.append_nil, List.nil_append]
  rwa [hevents] at haround

theorem leaf (hkind : kind.isPassive = true) : Collected bare [] [.mk kind span attributes []] := nil.passive hkind

/-- Parts that give nothing. -/
theorem silent {α : Type} {outline : α → Outline} (h : ∀ a, Collected bare [] [outline a]) (as : List α) :
    Collected bare [] (as.map outline) := by
  induction as with
  | nil => exact .nil
  | cons a as ih => exact (h a).append ih

theorem option_silent {α : Type} {outline : α → Outline} (h : ∀ a, Collected bare [] [outline a]) (a : Option α) :
    Collected bare [] (a.map outline).toList := by
  cases a with
  | none => exact .nil
  | some a => exact h a

end Collected

/-! ## Leaves and patterns -/

section

variable {bare : Bool}

theorem Ident.collected (x : Ident) : Collected bare [] [x.outline] := .name _ _

theorem Literal.collected (span : Span) (value : Literal) : Collected bare [] [value.outline span] := by
  cases value <;> exact .leaf rfl

theorem StringLiteral.collected (s : StringLiteral) : Collected bare [] [s.outline] := .leaf rfl

theorem TypeHint.option_collected (t : Option TypeHint) : Collected bare [] (t.map TypeHint.outline).toList :=
  .option_silent (fun _ => .leaf rfl) t

theorem RecordKey.collected (key : RecordKey) : Collected bare [] [key.outline] := by
  cases key with
  | name x => exact x.collected
  | text s => exact s.collected

theorem ModuleRef.collected (ref : ModuleRef) : Collected bare [] [ref.outline] := by
  cases ref with
  | path => exact .leaf rfl
  | file name => exact name.collected

/-- An imported item binds its last name. -/
theorem ImportItem.collected (item : ImportItem) : Collected bare [item.event] [item.outline] := by
  have hparts : Collected bare [] item.outline.children :=
    item.name.collected.append (.option_silent Ident.collected item.rename)
  have hevents : item.outline.eventsOf [] [] [] = [item.event] := by
    obtain ⟨span, name, rename⟩ := item
    cases rename <;> rfl
  exact hevents ▸ .around hparts rfl fun _ _ _ => rfl

theorem ImportItem.list_collected (items : List ImportItem) :
    Collected bare (items.map ImportItem.event) (items.map ImportItem.outline) := by
  induction items with
  | nil => exact .nil
  | cons item items ih => exact item.collected.append ih

theorem RecordPattern.collected (r : RecordPattern) : Collected bare r.events [r.outline] := by
  have hfields (fs : List PatternField) :
      Collected bare (fs.flatMap PatternField.events) (fs.map PatternField.outline) := by
    induction fs with
    | nil => exact .nil
    | cons f fs ih => exact (Collected.field f).append ih
  exact (hfields r.fields).passive rfl

mutual

theorem Pattern.collected : ∀ p : Pattern, Collected bare p.events [p.outline]
  | .literal span value => (value.collected span).passive rfl
  | .wildcard _ => .leaf rfl
  | .binding span name sigil =>
      .around (t := (Pattern.binding span name sigil).outline) .nil rfl (List.forall_mem_nil _)
  | .rest span name sigil => .around (t := (Pattern.rest span name sigil).outline) .nil rfl (List.forall_mem_nil _)
  | .record r => r.collected
  | .typedRecord span typeName r => by
      rw [Pattern.outline, Pattern.events]
      exact .first rfl r.collected
  | .list span elements => by
      rw [Pattern.outline, Pattern.events]
      exact (Pattern.list_collected elements).passive rfl

theorem Pattern.list_collected : ∀ ps : List Pattern, Collected bare (Pattern.allEvents ps) (Pattern.outlines ps)
  | [] => .nil
  | p :: ps => p.collected.append (Pattern.list_collected ps)

end

end

/-! ## Kinds of parts -/

theorem Decorator.outlines_kind {ds : List (Decorator Node)} :
    ∀ u ∈ Decorator.outlines ds, u.kind = .decorator := by
  induction ds with
  | nil => exact List.forall_mem_nil _
  | cons d ds ih => exact List.forall_mem_cons.mpr ⟨rfl, ih⟩

theorem Block.outline_kind (b : Block Node) : (Block.outline b).kind = .block := by
  cases b
  rfl

/-- Whether nodes of a kind are parts of other nodes, not expressions or statements. -/
def NodeKind.isPart : NodeKind → Bool
  | parameter | decorator | block => true
  | _ => false

theorem Node.outline_not_part (n : Node) : n.outline.kind.isPart = false := by
  cases n with
  | literal span value => cases value <;> rfl
  | record r => cases r; rfl
  | functionDefinition f => cases f; rfl
  | _ => rfl

theorem Node.outline_not_parameter (n : Node) : n.outline.kind ≠ .parameter := by
  intro hkind
  have hpart := n.outline_not_part
  rw [hkind] at hpart
  contradiction

theorem Node.outline_not_decorator (n : Node) : n.outline.kind ≠ .decorator := by
  intro hkind
  have hpart := n.outline_not_part
  rw [hkind] at hpart
  contradiction

theorem TypeHint.option_kind {returns : Option TypeHint} :
    ∀ u ∈ (returns.map TypeHint.outline).toList, u.kind = .typeHint := by
  cases returns with
  | none => exact List.forall_mem_nil _
  | some t => exact List.forall_mem_singleton.mpr rfl

theorem Member.outlines_kind {ms : List (Member Node)} :
    ∀ u ∈ Member.outlines ms, u.kind = .functionDefinition ∨ u.kind = .objectField := by
  induction ms with
  | nil => exact List.forall_mem_nil _
  | cons m ms ih =>
      cases m with
      | field name => exact List.forall_mem_cons.mpr ⟨.inr rfl, ih⟩
      | method f => exact List.forall_mem_cons.mpr ⟨.inl (by cases f; rfl), ih⟩

theorem Pattern.outline_not_parameter (p : Pattern) : p.outline.kind ≠ .parameter := by
  have hpart : p.outline.kind.isPart = false := by cases p <;> rfl
  intro hkind
  rw [hkind] at hpart
  contradiction

/-- The title of a definition is its first name after the decorators. -/
theorem Outline.title?_after {t : Outline} {ds : List (Decorator Node)} {x : Ident} {us : List Outline}
    (hchildren : t.children = Decorator.outlines ds ++ x.outline :: us) : t.title? = some x.name := by
  rw [title?, hchildren, List.find?_append, List.find?_eq_none.mpr, List.find?_cons_of_pos rfl]
  · rfl
  · intro u hu
    rw [Decorator.outlines_kind u hu]
    decide

/-! ## Callables -/

/-- Whether nodes of a kind visit decorators first, blocks in their own scope, and all else in between. -/
def NodeKind.isCallable : NodeKind → Bool
  | functionDefinition | macroDefinition | testDefinition | lambdaExpr => true
  | _ => false

section

variable {bare : Bool} {t : Outline} {ds : List (Decorator Node)} {title : List Outline} {ps : List (Parameter Node)}
  {returns : Option TypeHint} {body : Block Node}
  (htitle : ∀ u ∈ title, u.kind = .identifier ∨ u.kind = .stringLiteral)
  (hchildren : t.children = Decorator.outlines ds ++ (title ++ Parameter.outlines ps ++
    (returns.map TypeHint.outline).toList) ++ [Block.outline body])

include htitle hchildren

/-- A callable binds its parameters in its scope. -/
theorem Outline.scopeEvents_callable {kind : ScopeKind} {span : Span} (hopening : t.opening? = some (kind, span))
    {es : List Event} : t.scopeEvents es = [.scope kind span (ps.map Parameter.event ++ es)] := by
  have hdecorators : (Decorator.outlines ds).flatMap parameterEvent = [] :=
    parameterEvents_nil fun u hu => by rw [Decorator.outlines_kind u hu]; decide
  have hname : title.flatMap parameterEvent = [] :=
    parameterEvents_nil fun u hu => by rcases htitle u hu with h | h <;> (rw [h]; decide)
  have hreturns : (returns.map TypeHint.outline).toList.flatMap parameterEvent = [] :=
    parameterEvents_nil fun u hu => by rw [TypeHint.option_kind u hu]; decide
  have hbody : (Block.outline body).parameterEvent = [] := if_neg (not_parameter_of_block body.outline_kind)
  rw [scopeEvents, hopening, hchildren, List.flatMap_append, List.flatMap_append, List.flatMap_append,
    List.flatMap_append, List.flatMap_singleton, hdecorators, hname, hreturns, hbody, Parameter.outlines_parameterEvent]
  simp

/-- A callable hands on the events of its decorators, its header and its body one after the other. -/
theorem Collected.callable (hkind : t.kind.isCallable = true) (hname : Collected bare [] title)
    (hdecorators : Collected bare (Decorator.allEvents ds) (Decorator.outlines ds))
    (hparams : Collected bare (Parameter.fallbackEvents ps) (Parameter.outlines ps))
    (hbody : Collected bare (Block.events body) [Block.outline body]) : Collected bare
      (t.eventsOf (Decorator.allEvents ds) (Parameter.fallbackEvents ps) (Block.events body)) [t] := by
  have hphase {u : Outline} {kind : NodeKind} (hu : u.kind = kind) (i : Nat) : t.phase i u =
      if kind = .decorator then .before else if kind = .block then .inside else .around := by
    rw [phase, hu]
    cases h : t.kind <;> rw [h] at hkind <;> first | rfl | contradiction
  have harranged : t.Arranged (Decorator.outlines ds)
      (title ++ Parameter.outlines ps ++ (returns.map TypeHint.outline).toList) [Block.outline body] := by
    refine ⟨?_, hchildren, fun u hu i => hphase (Decorator.outlines_kind u hu) i, ?_,
      List.forall_mem_singleton.mpr (hphase body.outline_kind), .inl ?_⟩
    · cases h : t.kind <;> rw [h] at hkind <;> first | rfl | contradiction
    · refine List.forall_mem_append.mpr ⟨List.forall_mem_append.mpr ⟨fun u hu => ?_, fun u hu => ?_⟩, fun u hu => ?_⟩
      · rcases htitle u hu with h | h <;> exact hphase h
      · exact hphase (Parameter.outlines_kind u hu)
      · exact hphase (TypeHint.option_kind u hu)
    · rw [opening?]
      cases h : t.kind <;> rw [h] at hkind <;> first | rfl | contradiction
  have haround := (hname.append hparams).append (TypeHint.option_collected returns)
  rw [List.nil_append, List.append_nil] at haround
  exact .node harranged hdecorators haround hbody

end

/-! ## Definitions -/

namespace Collected

variable {bare : Bool} {es : List Event} {value : Outline} {span : Span} {attributes : List (String × Attribute)}
  {ds : List (Decorator Node)} (name : Ident)

/-- A `let` binds its name after its value. -/
theorem binding (hvalue : Collected bare es [value]) :
    Collected bare (es ++ [.define .variableName name.name ⟨.letStatement, span⟩])
      [.mk .letStatement span attributes [name.outline, value]] := by
  let t := mk .letStatement span attributes [name.outline, value]
  have hnode : Collected bare (t.eventsOf [] es []) [t] :=
    .around (name.collected.append hvalue) rfl fun _ _ _ => rfl
  rw [eventsOf_late rfl, List.nil_append] at hnode
  rwa [show t.scopeEvents [] = [] from rfl, List.append_nil] at hnode

variable (hdecorators : Collected bare (Decorator.allEvents ds) (Decorator.outlines ds))

include hdecorators

/-- An alias binds its name after its decorators and its value. -/
theorem aliasDefinition (hkind : value.kind ≠ .decorator) (hvalue : Collected bare es [value]) :
    Collected bare (Decorator.allEvents ds ++ es ++ [.define .aliasName name.name ⟨.aliasDefinition, span⟩])
      [branch .aliasDefinition span (Decorator.outlines ds ++ [name.outline, value])] := by
  let t := branch .aliasDefinition span (Decorator.outlines ds ++ [name.outline, value])
  have harranged : t.Arranged (Decorator.outlines ds) [name.outline, value] [] :=
    { steady := rfl
      children := (List.append_nil _).symm
      before := fun u hu _ => if_pos (Decorator.outlines_kind u hu)
      around := List.forall_mem_cons.mpr ⟨fun _ => rfl, List.forall_mem_singleton.mpr fun _ => if_neg hkind⟩
      inside := List.forall_mem_nil _
      opens := .inr rfl }
  have hown : t.ownEvents = [.define .aliasName name.name ⟨.aliasDefinition, span⟩] := by
    have htitle : t.title? = some name.name := title?_after rfl
    rw [ownEvents, does?, own?]
    simp only [htitle]
    rfl
  have hnode : Collected bare (t.eventsOf (Decorator.allEvents ds) es []) [t] :=
    .node harranged hdecorators (name.collected.append hvalue) .nil
  rw [eventsOf_late rfl, hown] at hnode
  rwa [show t.scopeEvents [] = [] from rfl, List.append_nil] at hnode

/-- An enumeration binds its name after its decorators. -/
theorem enumDefinition (variants : List Ident) :
    Collected bare (Decorator.allEvents ds ++ [.define .enumeration name.name ⟨.enumDefinition, span⟩])
      [branch .enumDefinition span (Decorator.outlines ds ++ name.outline :: variants.map Ident.outline)] := by
  let t := branch .enumDefinition span (Decorator.outlines ds ++ name.outline :: variants.map Ident.outline)
  have harranged : t.Arranged (Decorator.outlines ds) ((name :: variants).map Ident.outline) [] :=
    { steady := rfl
      children := (List.append_nil _).symm
      before := fun u hu _ => if_pos (Decorator.outlines_kind u hu)
      around := List.forall_mem_map.mpr fun x _ _ => rfl
      inside := List.forall_mem_nil _
      opens := .inr rfl }
  have hown : t.ownEvents = [.define .enumeration name.name ⟨.enumDefinition, span⟩] := by
    have htitle : t.title? = some name.name := title?_after rfl
    rw [ownEvents, does?, own?]
    simp only [htitle]
    rfl
  have hnode : Collected bare (t.eventsOf (Decorator.allEvents ds) [] []) [t] :=
    .node harranged hdecorators (.silent Ident.collected _) .nil
  rw [eventsOf_early rfl, hown] at hnode
  rwa [show t.scopeEvents [] = [] from rfl, List.append_nil, List.append_nil] at hnode

/-- An object binds its name after its decorators, and its members stand in its scope. -/
theorem objectDefinition {members : List (Member Node)}
    (hmembers : Collected bare (Member.allEvents members) (Member.outlines members)) :
    Collected bare (Decorator.allEvents ds ++ [.define .object name.name ⟨.objectDefinition, span⟩,
        .scope .object span (Member.allEvents members)])
      [branch .objectDefinition span (Decorator.outlines ds ++ name.outline :: Member.outlines members)] := by
  let t := branch .objectDefinition span (Decorator.outlines ds ++ name.outline :: Member.outlines members)
  -- decorators come before the name is bound, members in the scope of the object
  have harranged : t.Arranged (Decorator.outlines ds) [name.outline] (Member.outlines members) :=
    { steady := rfl
      children := List.append_cons _ _ _
      before := fun u hu _ => if_pos (Decorator.outlines_kind u hu)
      around := List.forall_mem_singleton.mpr fun _ => rfl
      inside := fun u hu _ => by rcases Member.outlines_kind u hu with h | h <;> (rw [phase, h]; rfl)
      opens := .inl rfl }
  have hown : t.ownEvents = [.define .object name.name ⟨.objectDefinition, span⟩] := by
    have htitle : t.title? = some name.name := title?_after rfl
    rw [ownEvents, does?, own?]
    simp only [htitle]
    rfl
  have hparameters : t.children.flatMap parameterEvent = [] := by
    refine parameterEvents_nil (List.forall_mem_append.mpr ⟨fun u hu => ?_, List.forall_mem_cons.mpr
      ⟨?_, fun u hu => ?_⟩⟩)
    · rw [Decorator.outlines_kind u hu]
      decide
    · show NodeKind.identifier ≠ .parameter
      decide
    · rcases Member.outlines_kind u hu with h | h <;> (rw [h]; decide)
  have hnode : Collected bare (t.eventsOf (Decorator.allEvents ds) [] (Member.allEvents members)) [t] :=
    .node harranged hdecorators name.collected hmembers
  rw [eventsOf_early rfl, hown, scopeEvents, hparameters, List.append_nil, List.append_assoc] at hnode
  exact hnode

end Collected

namespace Collected

variable {bare : Bool} {span : Span} {params : List (Parameter Node)} {body : Block Node}
  {ds : List (Decorator Node)}

/-- A module is imported under the last name of its path. -/
theorem useModule (span : Span) (ref : ModuleRef) :
    Collected bare (ref.events span) [branch .useStatement span [ref.outline]] := by
  let t := branch .useStatement span [ref.outline]
  have hown : t.ownEvents = ref.events span := by
    cases ref with
    | file => rfl
    | path _ segments =>
        have hlast : t.own? = segments.getLast?.map (.importName, ·) := rfl
        rw [ownEvents, does?, hlast, Option.map_map]
        rfl
  have hnode : Collected bare (t.eventsOf [] [] []) [t] := .around ref.collected rfl fun _ _ _ => rfl
  rw [eventsOf_late rfl, hown] at hnode
  exact hnode

/-- A file that is read may have a name. -/
theorem sourceFile (path : StringLiteral) (rename : Option Ident) :
    Collected bare (rename.map fun x => .define .importName x.name ⟨.sourceStatement, span⟩).toList
      [branch .sourceStatement span (path.outline :: (rename.map Ident.outline).toList)] := by
  let t := branch .sourceStatement span (path.outline :: (rename.map Ident.outline).toList)
  have hown : t.ownEvents = (rename.map fun x => .define .importName x.name ⟨.sourceStatement, span⟩).toList := by
    cases rename <;> rfl
  have hnode : Collected bare (t.eventsOf [] [] []) [t] :=
    .around (path.collected.append (.option_silent Ident.collected rename)) rfl fun _ _ _ => rfl
  rw [eventsOf_late rfl, hown] at hnode
  exact hnode

/-- An arm holds all of its parts in its scope. -/
theorem matchArm {eg eb : List Event} {guard : Option Node} {body : ArmBody Node} (pattern : Pattern)
    (hguard : Collected bare eg (Node.outline? guard)) (hbody : Collected bare eb [ArmBody.outline body]) :
    Collected bare [.scope .matchArm span (pattern.events ++ eg ++ eb)]
      [branch .matchArm span (pattern.outline :: Node.outline? guard ++ [ArmBody.outline body])] := by
  let t := branch .matchArm span (pattern.outline :: Node.outline? guard ++ [ArmBody.outline body])
  have hparts := (pattern.collected.append hguard).append hbody
  have hparameters : t.children.flatMap parameterEvent = [] := by
    refine parameterEvents_nil (List.forall_mem_append.mpr ⟨List.forall_mem_cons.mpr ⟨?_, fun u hu => ?_⟩,
      List.forall_mem_singleton.mpr ?_⟩)
    · exact pattern.outline_not_parameter
    · cases guard with
      | none => contradiction
      | some n =>
          obtain rfl := List.mem_singleton.mp hu
          exact n.outline_not_parameter
    · cases body with
      | block b => exact not_parameter_of_block b.outline_kind
      | value n => exact n.outline_not_parameter
  have harranged : t.Arranged [] [] t.children :=
    ⟨rfl, rfl, List.forall_mem_nil _, List.forall_mem_nil _, fun _ _ _ => rfl, .inl rfl⟩
  have hnode : Collected bare (t.eventsOf [] [] _) [t] := .node harranged .nil .nil hparts
  rw [eventsOf_late rfl, scopeEvents, hparameters] at hnode
  exact hnode

variable (hbody : Collected bare (Block.events body) [Block.outline body])

include hbody

theorem lambda (hparams : Collected bare (Parameter.fallbackEvents params) (Parameter.outlines params))
    {returns : Option TypeHint} :
    Collected bare
      (Parameter.fallbackEvents params ++ [.scope .lambda span (params.map Parameter.event ++ Block.events body)])
      [branch .lambdaExpr span
        (Parameter.outlines params ++ (returns.map TypeHint.outline).toList ++ [Block.outline body])] := by
  let t := branch .lambdaExpr span
    (Parameter.outlines params ++ (returns.map TypeHint.outline).toList ++ [Block.outline body])
  have hchildren : t.children = Decorator.outlines [] ++ ([] ++ Parameter.outlines params ++
      (returns.map TypeHint.outline).toList) ++ [Block.outline body] := rfl
  have hnode := callable (List.forall_mem_nil _) hchildren rfl .nil .nil hparams hbody
  rw [eventsOf_late rfl, scopeEvents_callable (List.forall_mem_nil _) hchildren rfl,
    show t.ownEvents = [] from rfl, List.append_nil] at hnode
  exact hnode

variable (hdecorators : Collected bare (Decorator.allEvents ds) (Decorator.outlines ds))

include hdecorators

theorem testDefinition (name : StringLiteral) :
    Collected bare (Decorator.allEvents ds ++ [.scope .test span (Block.events body)])
      [branch .testDefinition span (Decorator.outlines ds ++ [name.outline, Block.outline body])] := by
  let t := branch .testDefinition span (Decorator.outlines ds ++ [name.outline, Block.outline body])
  have htitle : ∀ u ∈ [name.outline], u.kind = .identifier ∨ u.kind = .stringLiteral :=
    List.forall_mem_singleton.mpr (.inr rfl)
  have hchildren : t.children = Decorator.outlines ds ++ ([name.outline] ++ Parameter.outlines [] ++
      ((none : Option TypeHint).map TypeHint.outline).toList) ++ [Block.outline body] := List.append_cons _ _ _
  have hnode := callable htitle hchildren rfl name.collected hdecorators .nil hbody
  rw [eventsOf_late rfl, scopeEvents_callable htitle hchildren rfl, show t.ownEvents = [] from rfl, List.append_nil]
    at hnode
  exact (congrArg (· ++ _) (List.append_nil _)) ▸ hnode

variable (name : Ident) (hparams : Collected bare (Parameter.fallbackEvents params) (Parameter.outlines params))

include hparams

/-- A macro binds its name after its decorators and its parameters in its scope. -/
theorem macroDefinition {attributes : List (String × Attribute)} :
    Collected bare (Decorator.allEvents ds ++ .define .macroName name.name ⟨.macroDefinition, span⟩ ::
        Parameter.fallbackEvents params ++ [.scope .macroBody span (params.map Parameter.event ++ Block.events body)])
      [.mk .macroDefinition span attributes
        (Decorator.outlines ds ++ name.outline :: Parameter.outlines params ++ [Block.outline body])] := by
  let t := mk .macroDefinition span attributes
    (Decorator.outlines ds ++ name.outline :: Parameter.outlines params ++ [Block.outline body])
  have htitle : ∀ u ∈ [name.outline], u.kind = .identifier ∨ u.kind = .stringLiteral :=
    List.forall_mem_singleton.mpr (.inl rfl)
  have hchildren : t.children = Decorator.outlines ds ++ ([name.outline] ++ Parameter.outlines params ++
      ((none : Option TypeHint).map TypeHint.outline).toList) ++ [Block.outline body] := by
    rw [Option.map_none, Option.toList_none, List.append_nil]
    rfl
  have hown : t.ownEvents = [.define .macroName name.name ⟨.macroDefinition, span⟩] := by
    have htitle : t.title? = some name.name := title?_after (hchildren.trans (List.append_assoc _ _ _))
    rw [ownEvents, does?, own?]
    simp only [htitle]
    rfl
  have hnode := callable htitle hchildren rfl name.collected hdecorators hparams hbody
  rw [eventsOf_early rfl, hown, scopeEvents_callable htitle hchildren rfl, ← List.append_cons] at hnode
  exact hnode

/-- A function binds its name after its decorators and its parameters in its scope. -/
theorem function (returns : Option TypeHint) :
    Collected bare (Function.events ⟨span, name, params, returns, body, ds⟩)
      [Function.outline ⟨span, name, params, returns, body, ds⟩] := by
  let t := Function.outline ⟨span, name, params, returns, body, ds⟩
  have htitle : ∀ u ∈ [name.outline], u.kind = .identifier ∨ u.kind = .stringLiteral :=
    List.forall_mem_singleton.mpr (.inl rfl)
  have hchildren : t.children = Decorator.outlines ds ++ ([name.outline] ++ Parameter.outlines params ++
      (returns.map TypeHint.outline).toList) ++ [Block.outline body] := congrArg (· ++ _) (List.append_assoc _ _ _)
  have hown : t.ownEvents = [.define .function name.name ⟨.functionDefinition, span⟩] := by
    have htitle : t.title? = some name.name := title?_after (hchildren.trans (List.append_assoc _ _ _))
    rw [ownEvents, does?, own?]
    simp only [htitle]
    rfl
  have hnode := callable htitle hchildren rfl name.collected hdecorators hparams hbody
  rw [eventsOf_early rfl, hown, scopeEvents_callable htitle hchildren rfl, ← List.append_cons] at hnode
  exact hnode

end Collected

/-! ## Nodes -/

section

variable (g : View)

mutual

/-- **The events of a node are collected from its outline**, however it is seen. -/
theorem Node.view_collected : ∀ n : Node, Collected g.bare (n.view g).events [(n.view g).outline]
  | .literal span value => by
      rw [Node.view, Node.outline, Node.events]
      exact value.collected _
  | .word .. => by
      rw [Node.view, Node.outline, Node.events]
      exact .name _ _
  | .environmentUse .. | .specialUse .. | .path .. | .breakJump _ | .continueJump _ | .broken .. => by
      rw [Node.view, Node.outline, Node.events]
      exact .leaf rfl
  | .variableUse span name => by
      rw [Node.view, Node.outline, Node.events]
      exact .variableName _ _
  | .binary _ _ left right | .range _ left right _ => by
      rw [Node.view, Node.outline, Node.events]
      exact (left.view_collected.append right.view_collected).passive rfl
  | .unary _ _ inner | .paren _ inner | .commandSubstitution _ inner | .processSubstitution _ _ inner => by
      rw [Node.view, Node.outline, Node.events]
      exact inner.view_collected.passive rfl
  | .fieldAccess _ target field => by
      rw [Node.view, Node.outline, Node.events, ← List.append_nil (Node.events _)]
      exact (target.view_collected.append (Ident.collected _)).passive rfl
  | .methodCall _ target method args => by
      rw [Node.view, Node.outline, Node.events]
      have hargs := (Ident.collected (method.view g)).append (Node.views_collected args)
      exact (target.view_collected.append hargs).passive rfl
  | .call _ callee args => by
      rw [Node.view, Node.outline, Node.events]
      exact .first rfl (Node.views_collected args)
  | .pipeline _ nodes _ | .list _ nodes | .tuple _ nodes | .set _ nodes | .expansion _ nodes => by
      rw [Node.view, Node.outline, Node.events]
      exact (Node.views_collected nodes).passive rfl
  | .command _ stages _ => by
      rw [Node.view, Node.outline, Node.events]
      exact (CommandStage.views_collected stages).passive rfl
  | .flag _ _ _ value | .returnJump _ value => by
      rw [Node.view, Node.outline, Node.events]
      exact (Node.view?_collected value).passive rfl
  | .record r => by
      rw [Node.view, Node.outline, Node.events]
      exact Record.view_collected r
  | .construction _ typeName r => by
      rw [Node.view, Node.outline, Node.events]
      exact .first rfl (Record.view_collected r)
  | .closure span params body _ => by
      rw [Node.view, Node.outline, Node.events]
      refine .closure _ _ _ (fun hbare p hp => ?_) (Block.outline_kind _) (Block.view_collected body)
      rw [View.closureParams, if_pos hbare] at hp
      obtain ⟨p, -, rfl⟩ := List.mem_map.mp hp
      rfl
  | .lambda span params returns body => by
      rw [Node.view, Node.outline, Node.events]
      exact .lambda (Block.view_collected body) (Parameter.views_collected params)
  | .binding span _ name value => by
      rw [Node.view, Node.outline, Node.events]
      exact value.view_collected.binding _
  | .assignment span target operator value => by
      rw [Node.view, Node.outline, Node.events]
      exact .assignment _ _ _ value.view_collected
  | .conditional _ condition body elseIfs elseBody => by
      rw [Node.view, Node.outline, Node.events]
      have hmain := (condition.view_collected.append (Block.view_collected body)).append (ElseIf.views_collected elseIfs)
      exact (hmain.append (Block.view?_collected elseBody)).passive rfl
  | .forLoop span x iterable body => by
      rw [Node.view, Node.outline, Node.events, ← Block.outline_span]
      exact .loop _ _ (Node.outline_not_parameter _) (Block.outline_kind _) iterable.view_collected
        (Block.view_collected body)
  | .whileLoop _ condition body => by
      rw [Node.view, Node.outline, Node.events]
      exact (condition.view_collected.append (Block.view_collected body)).passive rfl
  | .endlessLoop _ body => by
      rw [Node.view, Node.outline, Node.events]
      exact (Block.view_collected body).passive rfl
  | .matching _ subject arms => by
      rw [Node.view, Node.outline, Node.events]
      exact (subject.view_collected.append (MatchArm.views_collected arms)).passive rfl
  | .attempt _ body errorName handler => by
      rw [Node.view, Node.outline, Node.events, ← Block.outline_span]
      exact .attempt _ _ (Block.outline_kind _) (Block.outline_kind _) (Block.view_collected body)
        (Block.view_collected handler)
  | .functionDefinition f => by
      rw [Node.view, Node.outline, Node.events]
      exact Function.view_collected f
  | .macroDefinition span name params body _ decorators => by
      rw [Node.view, Node.outline, Node.events]
      exact .macroDefinition (Block.view_collected body) (Decorator.views_collected decorators) _
        (Parameter.views_collected params)
  | .aliasDefinition span name value decorators => by
      rw [Node.view, Node.outline, Node.events]
      exact .aliasDefinition _ (Decorator.views_collected decorators) (Node.outline_not_decorator _) value.view_collected
  | .objectDefinition span name members decorators => by
      rw [Node.view, Node.outline, Node.events]
      exact .objectDefinition _ (Decorator.views_collected decorators) (Member.views_collected members)
  | .enumDefinition span name variants decorators => by
      rw [Node.view, Node.outline, Node.events]
      exact .enumDefinition _ (Decorator.views_collected decorators) _
  | .testDefinition span name body decorators => by
      rw [Node.view, Node.outline, Node.events]
      exact .testDefinition (Block.view_collected body) (Decorator.views_collected decorators) _
  | .useModule span ref => by
      rw [Node.view, Node.outline, Node.events]
      exact .useModule _ _
  | .importFrom _ ref items _ => by
      rw [Node.view, Node.outline, Node.events]
      exact ((ModuleRef.collected _).append (ImportItem.list_collected _)).passive rfl
  | .sourceFile span path rename => by
      rw [Node.view, Node.outline, Node.events]
      exact .sourceFile _ _

theorem Node.views_collected : ∀ ns : List Node,
    Collected g.bare (Node.allEvents (Node.views g ns)) (Node.outlines (Node.views g ns))
  | [] => .nil
  | n :: ns => n.view_collected.append (Node.views_collected ns)

theorem Node.view?_collected : ∀ n : Option Node,
    Collected g.bare (Node.optionEvents (Node.view? g n)) (Node.outline? (Node.view? g n))
  | none => .nil
  | some n => n.view_collected

theorem Block.view_collected : ∀ b : Block Node,
    Collected g.bare (Block.events (Block.view g b)) [Block.outline (Block.view g b)]
  | ⟨_, statements⟩ => (Node.views_collected statements).passive rfl

theorem Block.view?_collected : ∀ b : Option (Block Node),
    Collected g.bare (Block.optionEvents (Block.view? g b)) (Block.outline? (Block.view? g b))
  | none => .nil
  | some b => Block.view_collected b

theorem Parameter.views_collected : ∀ ps : List (Parameter Node),
    Collected g.bare (Parameter.fallbackEvents (Parameter.views g ps)) (Parameter.outlines (Parameter.views g ps))
  | [] => .nil
  | ⟨_, _, _, _, fallback⟩ :: ps =>
      .append (((TypeHint.option_collected _).append (Node.view?_collected fallback)).passive rfl)
        (Parameter.views_collected ps)

theorem Decorator.views_collected : ∀ ds : List (Decorator Node),
    Collected g.bare (Decorator.allEvents (Decorator.views g ds)) (Decorator.outlines (Decorator.views g ds))
  | [] => .nil
  | ⟨_, _, args⟩ :: ds => .append ((Node.views_collected args).passive rfl) (Decorator.views_collected ds)

theorem RecordField.views_collected : ∀ fs : List (RecordField Node),
    Collected g.bare (RecordField.allEvents (RecordField.views g fs)) (RecordField.outlines (RecordField.views g fs))
  | [] => .nil
  | ⟨_, _, value⟩ :: fs =>
      .append (((RecordKey.collected _).append value.view_collected).passive rfl) (RecordField.views_collected fs)

theorem Record.view_collected : ∀ r : Record Node,
    Collected g.bare (Record.events (Record.view g r)) [Record.outline (Record.view g r)]
  | ⟨_, fields⟩ => (RecordField.views_collected fields).passive rfl

theorem CommandStage.views_collected : ∀ cs : List (CommandStage Node),
    Collected g.bare (CommandStage.allEvents (CommandStage.views g cs)) (CommandStage.outlines (CommandStage.views g cs))
  | [] => .nil
  | ⟨_, _, args⟩ :: cs =>
      .append (((Collected.command _).append (Node.views_collected args)).passive rfl) (CommandStage.views_collected cs)

theorem ElseIf.views_collected : ∀ es : List (ElseIf Node),
    Collected g.bare (ElseIf.allEvents (ElseIf.views g es)) (ElseIf.outlines (ElseIf.views g es))
  | [] => .nil
  | ⟨_, condition, body⟩ :: es =>
      .append ((condition.view_collected.append (Block.view_collected body)).passive rfl) (ElseIf.views_collected es)

theorem ArmBody.view_collected : ∀ x : ArmBody Node,
    Collected g.bare (ArmBody.events (ArmBody.view g x)) [ArmBody.outline (ArmBody.view g x)]
  | .block b => Block.view_collected b
  | .value n => n.view_collected

theorem MatchArm.views_collected : ∀ as : List (MatchArm Node),
    Collected g.bare (MatchArm.allEvents (MatchArm.views g as)) (MatchArm.outlines (MatchArm.views g as))
  | [] => .nil
  | ⟨_, _, guard, body⟩ :: as =>
      .append (.matchArm _ (Node.view?_collected guard) (ArmBody.view_collected body)) (MatchArm.views_collected as)

theorem Function.view_collected : ∀ f : Function Node,
    Collected g.bare (Function.events (Function.view g f)) [Function.outline (Function.view g f)]
  | ⟨_, _, params, _, body, decorators⟩ =>
      .function (Block.view_collected body) (Decorator.views_collected decorators) _
        (Parameter.views_collected params) _

theorem Member.views_collected : ∀ ms : List (Member Node),
    Collected g.bare (Member.allEvents (Member.views g ms)) (Member.outlines (Member.views g ms))
  | [] => .nil
  | .field _ :: ms => .append ((Ident.collected _).passive rfl) (Member.views_collected ms)
  | .method f :: ms => (Function.view_collected f).append (Member.views_collected ms)

end

end

/-! ## Programs -/

/-- All that a program does is done in the scope of its module. -/
theorem Program.collected (p : Program) : Collected false [p.event] [p.outline] := by
  have hstatements : Collected false (Node.allEvents p.statements) (Node.outlines p.statements) := by
    have h := Node.views_collected .plain p.statements
    rwa [Node.views_plain] at h
  have harranged : p.outline.Arranged [] [] (Node.outlines p.statements) :=
    ⟨rfl, rfl, List.forall_mem_nil _, List.forall_mem_nil _, fun _ _ _ => rfl, .inl rfl⟩
  have hparameters : p.outline.children.flatMap parameterEvent = [] := by
    refine parameterEvents_nil fun u hu => ?_
    rw [show p.outline.children = shown p.statements from Node.outlines_eq _, shown_nodes] at hu
    obtain ⟨n, -, rfl⟩ := List.mem_map.mp hu
    exact n.outline_not_parameter
  have hnode : Collected false (p.outline.eventsOf [] [] (Node.allEvents p.statements)) [p.outline] :=
    .node harranged .nil .nil hstatements
  rw [eventsOf_late rfl, scopeEvents, hparameters] at hnode
  exact hnode

/-- **The event of a program is what its tree tells.** -/
theorem Program.event_outline (p : Program) : p.outline.events = [p.event] := by
  have htold := p.collected.plainEvents
  rwa [List.flatMap_singleton, plainEvents_eq rfl] at htold

end ShellFront
