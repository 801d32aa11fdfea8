import ShellFront.Proofs.Layout.Scripts
import ShellFront.Proofs.Names.Constructs
import ShellFront.Proofs.Names.Moments
import ShellFront.Proofs.Names.Uses
import ShellFront.Proofs.Twins.Scripts

/-!
# References are the uses of names

Every use of a name in a program that was read is recorded once, and nothing else is. The resolver keeps one
reference for each place, so this depends on where uses stand: no two of them share a place, nor do two
assignments, because the nodes of a tree follow one another in the source.

## Contents
- `NameUse.Lies`, `InOrder`: uses that follow one another.
- `Outline.usesBelow_inOrder`: the uses of a tree do.
- `Moment.Lead.recorded`, `Moment.Lead.defined`: what moments record and define.
- `resolve_references`.
-/

namespace ShellFront

open Outline Outlined

/-! ## Uses in order -/

namespace NameUse

/-- Where a use begins: the target of an assignment with the assignment. -/
def start (m : NameUse) : Int := (m.assignment.getD m.site).span.start

/-- A use lies between two offsets, is not empty, and its assignment begins no later than it does. -/
structure Lies (m : NameUse) (lo hi : Int) : Prop where
  lo_le : lo ≤ m.start
  start_le : m.start ≤ m.site.span.start
  nonempty : m.site.span.start < m.site.span.stop
  stop_le : m.site.span.stop ≤ hi

end NameUse

/-- Uses that stand one after the other between two offsets. -/
structure InOrder (ms : List NameUse) (lo hi : Int) : Prop where
  lies : ∀ m ∈ ms, m.Lies lo hi
  ordered : ms.Pairwise fun m m' => m.site.span.stop ≤ m'.start

namespace InOrder

variable {ms ms' : List NameUse} {lo hi lo' hi' : Int}

theorem nil : InOrder [] lo hi := ⟨by simp, .nil⟩

theorem single {m : NameUse} (h : m.Lies lo hi) : InOrder [m] lo hi :=
  ⟨List.forall_mem_singleton.mpr h, List.pairwise_singleton _ _⟩

theorem mono (h : InOrder ms lo hi) (hlo : lo' ≤ lo) (hhi : hi ≤ hi') : InOrder ms lo' hi' where
  lies m hm := ⟨Int.le_trans hlo (h.lies m hm).lo_le, (h.lies m hm).start_le, (h.lies m hm).nonempty,
    Int.le_trans (h.lies m hm).stop_le hhi⟩
  ordered := h.ordered

theorem append (h : InOrder ms lo hi) (h' : InOrder ms' lo' hi') (hle : hi ≤ lo') (hlo : lo ≤ lo') (hhi : hi ≤ hi') :
    InOrder (ms ++ ms') lo hi' where
  lies := List.forall_mem_append.mpr ⟨(h.mono (Int.le_refl _) hhi).lies, (h'.mono hlo (Int.le_refl _)).lies⟩
  ordered := List.pairwise_append.mpr ⟨h.ordered, h'.ordered, fun m hm m' hm' =>
    Int.le_trans (h.lies m hm).stop_le (Int.le_trans hle (h'.lies m' hm').lo_le)⟩

/-- No two uses share a place. -/
theorem spans_nodup (h : InOrder ms lo hi) : (ms.map fun m => m.site.span).Nodup := by
  refine List.pairwise_map.mpr (h.ordered.imp_of_mem fun {m m'} hm hm' hle heq => ?_)
  have hm := (h.lies m hm).nonempty
  have hm' := (h.lies m' hm').start_le
  rw [← heq] at hm'
  omega

/-- No two uses are targets of one assignment. -/
theorem assignments_nodup (h : InOrder ms lo hi) : (ms.filterMap NameUse.assignment).Nodup := by
  refine List.pairwise_filterMap.mpr (h.ordered.imp_of_mem fun {m m'} hm hm' hle s hs s' hs' heq => ?_)
  subst heq
  have hstart : m'.start = m.start := by rw [NameUse.start, NameUse.start, hs, hs']; rfl
  have hm := h.lies m hm
  have := hm.start_le
  have := hm.nonempty
  omega

end InOrder

namespace Outline

variable {t u : Outline} {us : List Outline} {i : Nat}

/-- What a child uses by itself and below it lies in its place; the first child may be the target of its node. -/
theorem use?_inOrder (hshaped : u.Shaped) (hnonempty : u.span.start < u.span.stop)
    (hbelow : InOrder u.usesBelow u.span.start u.span.stop) {lo : Int} (hlo : lo ≤ u.span.start)
    (htarget : i = 0 → lo ≤ t.span.start ∧ t.span.start ≤ u.span.start) :
    InOrder ((t.use? i u).toList ++ u.usesBelow) lo u.span.stop := by
  cases huse : t.use? i u with
  | none => exact hbelow.mono hlo (Int.le_refl _)
  | some m =>
      obtain ⟨role, hrole, rfl⟩ := Option.map_eq_some_iff.mp huse
      -- only names are used, and there is nothing below them
      have hname : u.kind.isName = true := by
        rw [role?] at hrole
        split at hrole <;> first | contradiction | (next h => rw [h]; rfl)
      have hnone : u.usesBelow = [] := by rw [usesBelow_eq, hshaped.leaf hname, usesFrom]
      rw [hnone, List.append_nil]
      refine .single ⟨?_, ?_, hnonempty, (Int.le_refl _)⟩
      · rw [NameUse.start, assignment?]
        split
        · next h => exact (htarget h.2.2).1
        · exact hlo
      · rw [NameUse.start, assignment?]
        split
        · next h => exact (htarget h.2.2).2
        · exact (Int.le_refl _)

/-- What children use that follow one another lies in order. -/
theorem usesFrom_inOrder {lo hi : Int} (hshaped : ∀ u ∈ us, u.Shaped)
    (hnonempty : ∀ u ∈ us, u.span.start < u.span.stop)
    (hbelow : ∀ u ∈ us, InOrder u.usesBelow u.span.start u.span.stop)
    (hinside : ∀ u ∈ us, lo ≤ u.span.start ∧ u.span.stop ≤ hi)
    (hordered : us.Pairwise fun u u' => u.span.stop ≤ u'.span.start)
    (htarget : i = 0 → lo = t.span.start) : InOrder (t.usesFrom i us) lo hi := by
  induction us generalizing i lo with
  | nil =>
      rw [usesFrom]
      exact .nil
  | cons u us ih =>
      obtain ⟨hshaped₁, hshaped⟩ := List.forall_mem_cons.mp hshaped
      obtain ⟨hnonempty₁, hnonempty⟩ := List.forall_mem_cons.mp hnonempty
      obtain ⟨hbelow₁, hbelow⟩ := List.forall_mem_cons.mp hbelow
      obtain ⟨⟨hlo, hhi⟩, hinside⟩ := List.forall_mem_cons.mp hinside
      obtain ⟨hbefore, hordered⟩ := List.pairwise_cons.mp hordered
      -- only the first child can be a target, which has the start of its parent
      have hfirst := use?_inOrder hshaped₁ hnonempty₁ hbelow₁ hlo (t := t) (i := i) fun hi => by
        have := htarget hi
        omega
      have hrest : InOrder (t.usesFrom (i + 1) us) u.span.stop hi :=
        ih hshaped hnonempty hbelow (fun u' hu' => ⟨hbefore u' hu', (hinside u' hu').2⟩) hordered
          fun h => absurd h (Nat.succ_ne_zero i)
      rw [usesFrom]
      exact hfirst.append hrest (Int.le_refl _) (by omega) hhi

variable {s : Script} {w : Watch}

/-- **The uses in a tree stand one after the other.** -/
theorem usesBelow_inOrder (t : Outline) (hseated : t.Seated s w) (hshaped : t.Everywhere Shaped) :
    InOrder t.usesBelow t.span.start t.span.stop := by
  induction t with
  | mk kind span attributes cs ih =>
      obtain ⟨⟨seg, hstands⟩, hseats⟩ := everywhere_mk.mp hseated
      obtain ⟨hself, hshapes⟩ := everywhere_mk.mp hshaped
      by_cases hclosure : kind = .closure
      · -- the parameters use no names, and the body has the place of the closure
        subst hclosure
        obtain ⟨params, body, rfl, hkind, hspan, -⟩ := hstands.closure rfl
        obtain ⟨params', body', heq, hparams⟩ := hself.closure rfl
        obtain ⟨rfl, -⟩ := List.append_inj' heq rfl
        have hbody : (mk .closure span attributes (params ++ [body])).usesBelow = body.usesBelow := by
          have hplain : (mk .closure span attributes (params ++ [body])).usesFrom 0 (params ++ [body]) =
              uses (params ++ [body]) := usesFrom_plain rfl
          have huse : body.use = [] := use_eq_nil (by rw [hkind]; rfl)
          rw [usesBelow, hplain, uses_append, hparams, uses_cons, huse, uses_nil, List.append_nil]
          rfl
        have hmem : body ∈ params ++ [body] := List.mem_append_right _ (List.mem_singleton_self body)
        rw [hbody, ← hspan]
        exact ih body hmem (hseats body hmem) (hshapes body hmem)
      · obtain ⟨hordered, hle⟩ := hstands.ordered
        have hlaid := hstands.children hclosure
        have hnest := hstands.nests.inside
        rw [usesBelow]
        refine usesFrom_inOrder (fun u hu => (hshapes u hu).self) (fun u hu => ?_)
          (fun u hu => ih u hu (hseats u hu) (hshapes u hu)) (fun u hu => ?_) (hlaid.ordered hordered) fun _ => rfl
        · obtain ⟨seg', hu⟩ := (hseats u hu).self
          exact hu.nonempty
        · simpa only [Span.contains, Bool.and_eq_true, decide_eq_true_eq] using hnest u hu

end Outline

/-! ## What a run records -/

/-- A reference at a place of its own comes last. -/
theorem Table.addReference_new {table : Table} {r : Reference}
    (h : ((table.references.toList ++ [r]).map fun r => r.site.span).Nodup) :
    (table.addReference r).references.toList = table.references.toList ++ [r] := by
  rw [List.map_append, List.nodup_append] at h
  have hnone : table.references.findIdx? (fun old => old.site.span == r.site.span) = none := by
    rw [Array.findIdx?_eq_none_iff]
    intro old hold
    have hmem := List.mem_map_of_mem (f := fun r : Reference => r.site.span) (Array.mem_toList_iff.mpr hold)
    exact beq_eq_false_iff_ne.mpr (h.2.2 _ hmem _ (List.mem_singleton_self _))
  rw [addReference]
  simp only [hnone, Array.toList_push]

namespace Moment

/-- The node that the event of a moment defines a name at. -/
def defined? (m : Moment) : Option Site :=
  match m.event with
  | .define _ _ site => some site
  | .assign name statement _ => if (lookup? m.frames name).isNone then some statement else none
  | .use .. | .scope .. => none

/-- Where a scope is open, a name is bound at the node that defines it. -/
theorem binding?_site {m : Moment} (h : m.frames ≠ []) : m.binding?.map Binding.site = m.defined? := by
  obtain ⟨resolver, frames, event⟩ := m
  obtain ⟨frame, outer, rfl⟩ := List.exists_cons_of_ne_nil h
  cases event with
  | define | use | scope => rfl
  | assign name statement target =>
      rw [binding?, defined?]
      dsimp only
      split <;> rfl

/-- A moment adds its reference at the end, if that has a place of its own. -/
theorem next_references {m : Moment}
    (h : ((m.table.references.toList ++ m.reference?.toList).map fun r => r.site.span).Nodup) :
    m.next.table.references.toList = m.table.references.toList ++ m.reference?.toList := by
  cases hmakes : m.reference? with
  | none =>
      rw [next_references_of_none hmakes]
      exact (List.append_nil _).symm
  | some r =>
      rw [hmakes] at h
      rw [next_of_reference? hmakes]
      exact Table.addReference_new h

/-- **Moments record their references**, in order, if these all have places of their own. -/
theorem Lead.recorded {start stop : Resolver} {ms : List Moment} (h : Lead start ms stop)
    (hnodup : ((start.table.references.toList ++ ms.filterMap reference?).map fun r => r.site.span).Nodup) :
    stop.table.references.toList = start.table.references.toList ++ ms.filterMap reference? := by
  refine h.gather_while (f := fun resolver => resolver.table.references.toList)
    (C := fun rs => (rs.map fun r => r.site.span).Nodup) (fun rs rs' hall => ?_) (fun _ _ => next_references) hnodup
  rw [List.map_append] at hall
  exact (List.nodup_append.mp hall).1

/-- **Moments define names at their nodes**, in order, where scopes are open. -/
theorem Lead.defined {start stop : Resolver} {ms : List Moment} (h : Lead start ms stop)
    (hopen : ∀ m ∈ ms, m.frames ≠ []) :
    stop.table.bindings.toList.map Binding.site =
      start.table.bindings.toList.map Binding.site ++ ms.filterMap defined? := by
  refine h.gather (f := fun resolver => resolver.table.bindings.toList.map Binding.site) fun m hm => ?_
  rw [← binding?_site (hopen m hm), show m.next.table.bindings.toList = _ from m.next_bindings, List.map_append]
  cases m.binding? <;> rfl

end Moment

namespace Resolver

/-- Scopes stay open. -/
theorem persists_open : Persists fun _ frames => frames ≠ [] where
  enter _ _ _ := List.cons_ne_nil _ _
  run {resolver frames} e h := by
    intro hnil
    have hscopes := (run_grows resolver frames e).2
    rw [hnil, List.map_nil] at hscopes
    exact h (List.map_eq_nil_iff.mp hscopes.symm)

mutual

/-- The uses that the moments of an event tell of. -/
theorem moments_nameUses (resolver : Resolver) (frames : List Frame) : ∀ e : Event,
    (moments resolver frames e).filterMap (fun m => m.event.nameUse?) = e.nameUses
  | .define .. | .use .. | .assign .. => rfl
  | .scope _ _ events => allMoments_nameUses _ _ events

theorem allMoments_nameUses (resolver : Resolver) (frames : List Frame) : ∀ es : List Event,
    (allMoments resolver frames es).filterMap (fun m => m.event.nameUse?) = Event.allNameUses es
  | [] => rfl
  | e :: es => by
      rw [allMoments, List.filterMap_append, moments_nameUses, allMoments_nameUses, Event.allNameUses]

end

mutual

/-- At the moments of tame events, definitions stand at nodes other than assignments. -/
theorem moments_tame (resolver : Resolver) (frames : List Frame) : ∀ e : Event, e.Tame →
    ∀ m ∈ moments resolver frames e, m.event.Tame
  | .define .. | .use .. | .assign .. => fun h m hm => (List.mem_singleton.mp hm).symm ▸ h
  | .scope _ _ events => fun h m hm => by
      rw [moments] at hm
      rcases List.mem_cons.mp hm with rfl | hm
      · exact h
      · exact allMoments_tame _ _ events h m hm

theorem allMoments_tame (resolver : Resolver) (frames : List Frame) : ∀ es : List Event, Event.AllTame es →
    ∀ m ∈ allMoments resolver frames es, m.event.Tame
  | [] => fun _ m hm => absurd hm (by rw [allMoments]; exact List.not_mem_nil)
  | e :: es => fun h m hm => by
      rw [allMoments] at hm
      rcases List.mem_append.mp hm with hm | hm
      · exact moments_tame _ _ e h.1 m hm
      · exact allMoments_tame _ _ es h.2 m hm

end

end Resolver

/-! ## References -/

/-- Whether something is defined at a node. -/
def Table.defines (table : Table) (site : Site) : Bool := table.bindings.any fun b => b.site == site

/-- The uses that are recorded: all but the targets of assignments that define them. -/
def Table.used (table : Table) (ms : List NameUse) : List NameUse :=
  ms.filter fun m => m.assignment.all fun s => !table.defines s

/-- All is seen as it is, but for fallback values of the parameters of closures. -/
def View.bareClosures : View := { View.plain with bare := true }

/-- A program is read without fallback values for the parameters of closures. -/
theorem parse_bareClosures (source file : String) (failFast : Bool) (isBuiltin : String → Bool) :
    let program := (parse source file failFast isBuiltin).program
    program.statements.map (Node.view .bareClosures) = program.statements := by
  obtain ⟨hseen, -⟩ := parse_seen .bareClosures .plain isBuiltin isBuiltin ⟨rfl, rfl⟩ ⟨rfl, rfl⟩ (fun _ => rfl)
    (fun _ _ => rfl) source file failFast
  rwa [List.map_id'' Node.view_plain (parse source file failFast isBuiltin).program.statements] at hseen

/-- The events of a program are collected from its tree, where the parameters of closures have nothing to fall back
    to. -/
theorem parse_collected (source file : String) (failFast : Bool) (isBuiltin : String → Bool) :
    let program := (parse source file failFast isBuiltin).program
    Collected true (Node.allEvents program.statements) (Node.outlines program.statements) := by
  intro program
  have hcollected := Node.views_collected .bareClosures program.statements
  rw [Node.views_eq, parse_bareClosures source file failFast isBuiltin] at hcollected
  exact hcollected

/-- The events of a program tell of its uses. -/
theorem parse_tells (source file : String) (failFast : Bool) (isBuiltin : String → Bool) :
    let program := (parse source file failFast isBuiltin).program
    Tells (Node.allEvents program.statements) (Node.outlines program.statements) :=
  (parse_collected source file failFast isBuiltin).tells

/-- The uses of a program stand one after the other. -/
theorem parse_inOrder (source file : String) (failFast : Bool) (isBuiltin : String → Bool) :
    let program := (parse source file failFast isBuiltin).program
    InOrder program.outline.usesBelow program.span.start program.span.stop := by
  obtain ⟨s, htokens, -⟩ := tokenize_script source file
  obtain ⟨hspan, ⟨ts, t, after, hts, hlaid⟩, hstands⟩ :=
    parse_laid htokens failFast isBuiltin (w := .nothing) fun _ => .inl rfl
  intro program
  have hshaped := (parse_tells source file failFast isBuiltin).shaped
  have hnests := Program.nests hspan htokens hts hlaid
  have hordered := (Script.segment (show s.tokens = [] ++ (ts ++ t :: after) from hts)).1
  have hseated : ∀ u ∈ shown program.statements, u.Seated s .nothing := fun u hu v hv =>
    hstands v (Program.mem_walk_tail.mpr ⟨u, hu, hv⟩)
  rw [Node.outlines_eq] at hshaped
  rw [Program.outline, Node.outlines_eq, usesBelow]
  refine usesFrom_inOrder (fun u hu => (hshaped u hu).self) (fun u hu => ?_)
    (fun u hu => usesBelow_inOrder u (hseated u hu) (hshaped u hu)) (fun u hu => ?_) (hlaid.ordered hordered) fun _ => rfl
  · obtain ⟨seg, hu⟩ := (hseated u hu).self
    exact hu.nonempty
  · have hinside := hnests.inside u (by rw [Program.outline, children, Node.outlines_eq]; exact hu)
    simp only [Span.contains, Bool.and_eq_true, decide_eq_true_eq] at hinside
    exact hinside

/-- Only one element of a list gives a value, if all that it gives are different. -/
theorem eq_of_nodup_filterMap {α β : Type} {f : α → Option β} {l : List α} {a a' : α} {b : β}
    (h : (l.filterMap f).Nodup) (ha : a ∈ l) (ha' : a' ∈ l) (hf : f a = some b) (hf' : f a' = some b) : a = a' := by
  have hpairwise := List.pairwise_filterMap.mp h
  clear h
  induction l with
  | nil => contradiction
  | cons x l ih =>
      obtain ⟨hx, hl⟩ := List.pairwise_cons.mp hpairwise
      rcases List.mem_cons.mp ha with rfl | hmem <;> rcases List.mem_cons.mp ha' with rfl | hmem'
      · rfl
      · exact absurd rfl (hx a' hmem' b hf b hf')
      · exact absurd rfl (hx a hmem b hf' b hf)
      · exact ih hmem hmem' hl

section

variable {resolver : Resolver} {frames : List Frame} {es : List Event} {table : Table} {m : Moment}
  (htame : Event.AllTame es) (hunique : ((Event.allNameUses es).filterMap NameUse.assignment).Nodup)
  (hdefined : table.bindings.toList.map Binding.site = (resolver.allMoments frames es).filterMap Moment.defined?)
  (hm : m ∈ resolver.allMoments frames es)

include htame hunique hdefined hm

/-- **A plain assignment defines its target** just if something is defined at its node in the end. -/
theorem Moment.defines_eq {name : String} {statement target : Site} (hevent : m.event = .assign name statement target) :
    table.defines statement = (lookup? m.frames name).isNone := by
  have hmem : table.defines statement = true ↔ ∃ m' ∈ resolver.allMoments frames es, m'.defined? = some statement := by
    rw [← List.mem_filterMap, ← hdefined, Table.defines, ← Array.any_toList, List.any_eq_true, List.mem_map]
    exact exists_congr fun b => and_congr_right fun _ => beq_iff_eq
  rw [Bool.eq_iff_iff, hmem]
  constructor
  · rintro ⟨m', hm', hsite⟩
    have htame' := Resolver.allMoments_tame resolver frames es htame
    have hkind : statement.kind = .variableAssignment := by
      have := htame' m hm
      rwa [hevent] at this
    have hassigns (m : Moment) {name target} (hevent : m.event = .assign name statement target) :
        (m.event.nameUse?.bind NameUse.assignment) = some statement := by rw [hevent]; rfl
    cases hevent' : m'.event with
    | define binding name' site =>
        -- definitions other than assignments stand elsewhere
        rw [Moment.defined?, hevent'] at hsite
        obtain rfl := Option.some.inj hsite
        have := htame' m' hm'
        rw [hevent'] at this
        exact absurd hkind this
    | use | scope =>
        rw [Moment.defined?, hevent'] at hsite
        contradiction
    | assign name' statement' target' =>
        -- and there is only one moment with this assignment
        rw [Moment.defined?, hevent'] at hsite
        dsimp only at hsite
        split at hsite
        · next hnone =>
            obtain rfl := Option.some.inj hsite
            rw [← Resolver.allMoments_nameUses resolver frames, List.filterMap_filterMap] at hunique
            obtain rfl := eq_of_nodup_filterMap hunique hm hm' (hassigns m hevent) (hassigns m' hevent')
            rw [hevent, Event.assign.injEq] at hevent'
            rwa [hevent'.1]
        · contradiction
  · intro hnone
    refine ⟨m, hm, ?_⟩
    rw [Moment.defined?, hevent]
    exact if_pos hnone

/-- The reference that a moment makes is the use that its event tells of, if that is recorded. -/
theorem Moment.reference?_use : (m.reference?.map fun r => (r.role, r.site)) =
    (m.event.nameUse?.filter fun u => u.assignment.all fun s => !table.defines s).map fun u => (u.role, u.site) := by
  cases hevent : m.event with
  | define | scope =>
      rw [Moment.reference?, hevent]
      rfl
  | use role name site =>
      rw [Moment.reference?, hevent]
      rfl
  | assign name statement target =>
      have hdefines := defines_eq htame hunique hdefined hm hevent
      rw [Moment.reference?, hevent]
      dsimp only [Event.nameUse?]
      rw [Option.filter_some, Option.all_some, hdefines]
      cases lookup? m.frames name <;> rfl

end

/-- **References are the uses of names.** In a program that was read, the references stand just where names are used
    and have the roles that they are used in, each once: no two share a place, and none is lost that was made.
    The target of an assignment is used unless the assignment defines it. -/
theorem resolve_references (source file : String) (failFast : Bool) (isBuiltin : String → Bool) (report : Report) :
    let program := (parse source file failFast isBuiltin).program
    let table := (resolve program report).table
    (table.references.toList.map fun r => (r.role, r.site)).Perm
        ((table.used program.outline.nameUses).map fun m => (m.role, m.site)) ∧
      (table.references.toList.map fun r => r.site.span).Nodup ∧
      ∀ m ∈ (Resolver.start report).moments [] program.event, ∀ r, m.reference? = some r → r ∈ table.references := by
  have htells := parse_tells source file failFast isBuiltin
  have hinOrder := parse_inOrder source file failFast isBuiltin
  intro program table
  let entered := (Resolver.start report).enter .module program.span []
  let frames : List Frame := [⟨0, []⟩]
  have htable : table = (entered.runAll frames (Node.allEvents program.statements)).1.table := by
    show (resolve program report).table = _
    rw [resolve, Resolver.resolve, Program.event, Resolver.run_scope]
    rfl
  have hlead := entered.allMoments_lead frames (Node.allEvents program.statements)
  have hdefined : table.bindings.toList.map Binding.site =
      (entered.allMoments frames (Node.allEvents program.statements)).filterMap Moment.defined? := by
    rw [htable, hlead.defined (Resolver.persists_open.allMoments (List.cons_ne_nil _ _) _)]
    rfl
  have huses : (Event.allNameUses (Node.allEvents program.statements)).Perm program.outline.usesBelow := by
    have hplain : program.outline.usesBelow = uses (Node.outlines program.statements) := usesFrom_plain rfl
    rw [hplain]
    exact htells.uses
  have hunique := (huses.filterMap NameUse.assignment).nodup_iff.mpr hinOrder.assignments_nodup
  have hspans := (huses.map fun m => m.site.span).nodup_iff.mpr hinOrder.spans_nodup
  -- moment by moment, the references are the uses that are recorded
  have hrecords : ((entered.allMoments frames (Node.allEvents program.statements)).filterMap Moment.reference?).map
      (fun r => (r.role, r.site)) =
      (table.used (Event.allNameUses (Node.allEvents program.statements))).map fun m => (m.role, m.site) := by
    rw [Table.used, ← Resolver.allMoments_nameUses entered frames, List.filter_filterMap, List.map_filterMap,
      List.map_filterMap]
    exact List.filterMap_congr fun m hm => Moment.reference?_use htells.tame hunique hdefined hm
  have hplaces : (((entered.allMoments frames (Node.allEvents program.statements)).filterMap Moment.reference?).map
      fun r => r.site.span).Nodup := by
    have hsame := congrArg (List.map fun p : Role × Site => p.2.span) hrecords
    rw [List.map_map, List.map_map] at hsame
    exact hsame.symm ▸ hspans.sublist (List.filter_sublist.map _)
  have hreferences : table.references.toList =
      (entered.allMoments frames (Node.allEvents program.statements)).filterMap Moment.reference? := by
    rw [htable, hlead.recorded hplaces]
    rfl
  refine ⟨?_, ?_, fun m hm r hr => ?_⟩
  · rw [hreferences, hrecords]
    exact (((huses.trans program.outline.nameUses_perm.symm).filter _).map _)
  · rw [hreferences]
    exact hplaces
  · rw [Program.event, Resolver.moments] at hm
    rcases List.mem_cons.mp hm with rfl | hm
    · contradiction
    · rw [← Array.mem_toList_iff, hreferences]
      exact List.mem_filterMap.mpr ⟨m, hm, hr⟩

end ShellFront
