import ShellFront.Proofs.Names.Collected

/-!
# Uses of names

Which nodes of a tree use a name can be read off the tree: a node and its position below another one say whether
it uses a name and in which role. The resolver takes its uses from events, which are collected from the
tree; the events of a tree **tell** of exactly the uses in it.

The target of a plain assignment is a use only if the assignment defines nothing, which depends on the run. So a
use comes with the assignment that it is the target of.

## Contents
- `NameUse`, `Outline.use?`, `Outline.nameUses`, and `Outline.usesBelow`, by recursion.
- `Outline.Assigns`, `Outline.Follow`: the order in which events tell of uses.
- `Event.nameUses`, `Tells` and how it is put together.
- `Collected.tells`: events tell of the uses in the trees that they are collected from.
-/

namespace ShellFront

/-! ## Uses in a tree -/

/-- A use of a name, and the plain assignment that it is the target of. -/
structure NameUse where
  role : Role
  site : Site
  assignment : Option Site
deriving DecidableEq

namespace Outline

/-- The use of a name that a node makes below another one at an index. -/
def use? (t : Outline) (i : Nat) (u : Outline) : Option NameUse :=
  (t.role? i u).map fun role => ⟨role, u.site, t.assignment? i⟩

/-- The uses of names that the children of a node make. -/
def childUses (t : Outline) : List NameUse := t.children.zipIdx.flatMap fun (u, i) => (t.use? i u).toList

/-- The uses of names in a tree. -/
def nameUses (t : Outline) : List NameUse := t.walk.flatMap childUses

mutual

/-- The uses of names below a node, in the order of the source. -/
def usesBelow : Outline → List NameUse
  | mk kind span attributes children => usesFrom (mk kind span attributes children) 0 children

/-- The uses of names in children of a node from an index on. -/
def usesFrom (t : Outline) (i : Nat) : List Outline → List NameUse
  | [] => []
  | u :: us => (t.use? i u).toList ++ u.usesBelow ++ usesFrom t (i + 1) us

end

/-- What a node uses by itself, when its position does not matter. -/
def use (u : Outline) : List NameUse :=
  match u.kind with
  | .variableName => [⟨.variableName, u.site, none⟩]
  | .commandName | .builtinCommand => [⟨.command, u.site, none⟩]
  | _ => []

/-- The uses in trees whose positions do not matter. -/
def uses (ts : List Outline) : List NameUse := ts.flatMap fun u => u.use ++ u.usesBelow

/-- The uses below a node, from its first child on. -/
theorem usesBelow_eq (t : Outline) : t.usesBelow = t.usesFrom 0 t.children := by
  cases t
  rw [usesBelow, children]

@[simp] theorem uses_nil : uses [] = [] := rfl

/-- A list of outlines uses what its first one does, what stands below that one, and what the others do. -/
@[simp] theorem uses_cons (u : Outline) (us : List Outline) : uses (u :: us) = u.use ++ u.usesBelow ++ uses us :=
  rfl

@[simp] theorem uses_append (ts us : List Outline) : uses (ts ++ us) = uses ts ++ uses us := List.flatMap_append

/-- The uses in children are those that they make and those below them. -/
theorem usesFrom_perm {t : Outline} {i : Nat} {us : List Outline} {below : Outline → List NameUse}
    (h : ∀ u ∈ us, (below u).Perm u.usesBelow) :
    ((us.zipIdx i).flatMap (fun (u, i) => (t.use? i u).toList) ++ us.flatMap below).Perm (t.usesFrom i us) := by
  induction us generalizing i with
  | nil => exact .nil
  | cons u us ih =>
      obtain ⟨hu, hus⟩ := List.forall_mem_cons.mp h
      rw [usesFrom, List.zipIdx_cons, List.flatMap_cons, List.flatMap_cons, List.append_assoc, List.append_assoc]
      refine List.Perm.append_left _ ?_
      rw [← List.append_assoc]
      refine (List.perm_append_comm.append_right _).trans ?_
      rw [List.append_assoc]
      exact hu.append (ih hus)

/-- **The walk meets the uses of a tree**, each as often as it is there. -/
theorem nameUses_perm (t : Outline) : t.nameUses.Perm t.usesBelow := by
  rw [nameUses, walk_eq_preorder]
  induction t with
  | mk kind span attributes cs ih =>
      have hall : (preorders cs).flatMap childUses = cs.flatMap fun u => u.preorder.flatMap childUses := by
        clear ih
        induction cs with
        | nil => rfl
        | cons u us ih => rw [preorders, List.flatMap_append, ih, List.flatMap_cons]
      rw [preorder, usesBelow, List.flatMap_cons, hall]
      exact usesFrom_perm ih

end Outline

/-! ### Where uses stand -/

/-- Whether a node is a name that may be used. -/
def NodeKind.isName : NodeKind → Bool
  | variableName | identifier | commandName | builtinCommand => true
  | _ => false

/-- Whether a name is used below nodes of a kind just as it stands. -/
def NodeKind.isPlain : NodeKind → Bool
  | patternField | forStatement | call | objectConstruction | typedRecordPattern | variableAssignment => false
  | _ => true

namespace Outline

variable {t u : Outline} {ts us : List Outline} {i : Nat}

theorem role?_eq (hplain : t.kind.isPlain = true ∨ (t.kind ≠ .patternField ∧ 0 < i)) :
    (t.role? i u).map (fun role => (⟨role, u.site, none⟩ : NameUse)) = u.use.head? := by
  have hbound : ¬ (t.kind = .patternField ∨ (t.kind = .forStatement ∧ i = 0)) := by
    rcases hplain with h | h
    · rintro (h' | ⟨h', -⟩) <;> (rw [h'] at h; contradiction)
    · rintro (h' | ⟨-, h'⟩)
      · exact h.1 h'
      · omega
  have hcall : ¬ (t.kind = .call ∧ i = 0) := by
    rcases hplain with h | h
    · rintro ⟨h', -⟩
      rw [h'] at h
      contradiction
    · omega
  have htype : ¬ ((t.kind = .objectConstruction ∨ t.kind = .typedRecordPattern) ∧ i = 0) := by
    rcases hplain with h | h
    · rintro ⟨h' | h', -⟩ <;> (rw [h'] at h; contradiction)
    · omega
  rw [role?, if_neg hbound, if_neg hcall, if_neg htype, use]
  cases u.kind <;> rfl

/-- Below a plain node, and after the first child of any other but the field of a pattern, names are used just
    as they stand. -/
theorem use?_eq (hplain : t.kind.isPlain = true ∨ (t.kind ≠ .patternField ∧ 0 < i)) :
    (t.use? i u).toList = u.use := by
  have hassignment : t.assignment? i = none := by
    rw [assignment?, if_neg]
    rintro ⟨h, -, hi⟩
    rcases hplain with hplain | hplain
    · rw [h] at hplain
      contradiction
    · omega
  rw [use?, hassignment, role?_eq hplain, use]
  split <;> rfl

/-- The children of a plain node use names as they would anywhere. -/
theorem usesFrom_plain (hkind : t.kind.isPlain = true) : t.usesFrom i us = uses us := by
  induction us generalizing i with
  | nil => rw [usesFrom, uses_nil]
  | cons u us ih => rw [usesFrom, use?_eq (.inl hkind), ih, uses_cons]

/-- The first child apart, the children of a node use names as they would anywhere. -/
theorem usesFrom_later (hkind : t.kind ≠ .patternField) (hi : 0 < i) : t.usesFrom i us = uses us := by
  induction us generalizing i with
  | nil => rw [usesFrom, uses_nil]
  | cons u us ih => rw [usesFrom, use?_eq (.inr ⟨hkind, hi⟩), ih (by omega), uses_cons]

/-- The uses below a node whose first child is of its own kind. -/
theorem usesBelow_cons (hchildren : t.children = u :: us) (hkind : t.kind ≠ .patternField) :
    t.usesBelow = (t.use? 0 u).toList ++ u.usesBelow ++ uses us := by
  rw [usesBelow_eq, hchildren, usesFrom, usesFrom_later hkind (by omega)]

/-- Only names are used by themselves. -/
theorem use_eq_nil (h : u.kind.isName = false) : u.use = [] := by
  rw [use]
  split <;> first | rfl | (next hkind => rw [hkind] at h; contradiction)

/-- A node that is no name itself and below which names are used as they stand. -/
theorem uses_plain {kind : NodeKind} {span : Span} {attributes : List (String × Attribute)}
    (hkind : kind.isPlain = true) (hname : kind.isName = false) : uses [mk kind span attributes us] = uses us := by
  have hchildren : (mk kind span attributes us).usesFrom 0 us = uses us := usesFrom_plain hkind
  have huse : (mk kind span attributes us).use = [] := use_eq_nil hname
  rw [uses_cons, huse, usesBelow, hchildren, uses_nil, List.append_nil, List.nil_append]

/-- A node that treats its first child, a name, in its own way. -/
theorem uses_first {kind : NodeKind} {span : Span} {attributes : List (String × Attribute)}
    (hkind : kind ≠ .patternField) (hname : kind.isName = false) (hleaf : u.children = []) :
    uses [mk kind span attributes (u :: us)] = ((mk kind span attributes (u :: us)).use? 0 u).toList ++ uses us := by
  have hbelow : u.usesBelow = [] := by rw [usesBelow_eq, hleaf, usesFrom]
  have hself : (mk kind span attributes (u :: us)).use = [] := use_eq_nil hname
  rw [uses_cons, hself, usesBelow_cons (t := .mk kind span attributes (u :: us)) rfl hkind, hbelow, uses_nil,
    List.nil_append, List.append_nil, List.append_nil]

/-- How nodes are **shaped**: there is nothing below a name, and in a closure names are used only in its last
    child, the body. -/
structure Shaped (u : Outline) : Prop where
  leaf : u.kind.isName = true → u.children = []
  closure : u.kind = .closure → ∃ params body, u.children = params ++ [body] ∧ uses params = []

/-- All shape that is asked for is asked of closures. -/
theorem shaped_mk {kind : NodeKind} {span : Span} {attributes : List (String × Attribute)}
    (hname : kind.isName = false) (hclosure : kind ≠ .closure) (hchildren : ∀ c ∈ ts, c.Everywhere Shaped) :
    (mk kind span attributes ts).Everywhere Shaped := by
  refine everywhere_mk.mpr ⟨⟨fun h => ?_, fun h => absurd h hclosure⟩, hchildren⟩
  exact absurd (show kind.isName = true from h) (by rw [hname]; decide)

theorem shaped_leaf {kind : NodeKind} {span : Span} {attributes : List (String × Attribute)}
    (hclosure : kind ≠ .closure) : (mk kind span attributes []).Everywhere Shaped :=
  everywhere_mk.mpr ⟨⟨fun _ => rfl, fun h => absurd h hclosure⟩, by simp⟩

/-! ### The order of uses -/

/-- A node is an assignment: one name is used in its value, and another one is its target. -/
structure Assigns (t : Outline) (m m' : NameUse) : Prop where
  kind : t.kind = .variableAssignment
  parts : ∃ target value, t.children = [target, value] ∧ t.use? 0 target = some m' ∧ m ∈ uses [value]

/-- Two uses of names **follow** one another: they stand in this order in the source, or the second one is the target
    of an assignment that uses the first one in its value. -/
def Follow (ts : List Outline) (m m' : NameUse) : Prop :=
  List.Sublist [m, m'] (uses ts) ∨ ∃ t ∈ preorders ts, t.Assigns m m'

/-- What follows in a part follows in the whole. -/
theorem Follow.mono {m m' : NameUse} (h : Follow ts m m') (huses : (uses ts).Sublist (uses us))
    (hnodes : ∀ t ∈ preorders ts, t ∈ preorders us) : Follow us m m' :=
  h.imp (fun h => h.trans huses) fun ⟨t, ht, hassigns⟩ => ⟨t, hnodes t ht, hassigns⟩

theorem mem_preorders_mk {kind : NodeKind} {span : Span} {attributes : List (String × Attribute)}
    (h : t ∈ preorders us) : t ∈ preorders [mk kind span attributes us] :=
  mem_preorders.mpr ⟨_, List.mem_singleton_self _, List.mem_cons_of_mem _ h⟩

/-- More outlines behind change nothing. -/
theorem Follow.append_left {m m' : NameUse} (h : Follow ts m m') : Follow (ts ++ us) m m' := by
  refine h.mono ?_ fun t ht => ?_
  · rw [uses_append]
    exact List.sublist_append_left _ _
  · rw [preorders_append]
    exact List.mem_append_left _ ht

/-- Nor do more outlines in front. -/
theorem Follow.append_right {m m' : NameUse} (h : Follow us m m') : Follow (ts ++ us) m m' := by
  refine h.mono ?_ fun t ht => ?_
  · rw [uses_append]
    exact List.sublist_append_right _ _
  · rw [preorders_append]
    exact List.mem_append_right _ ht

/-- A plain node around outlines uses nothing itself. -/
theorem Follow.plain {kind : NodeKind} {span : Span} {attributes : List (String × Attribute)} {m m' : NameUse}
    (hkind : kind.isPlain = true) (hname : kind.isName = false) (h : Follow us m m') :
    Follow [mk kind span attributes us] m m' := by
  have huses : uses [mk kind span attributes us] = uses us := uses_plain hkind hname
  exact h.mono (huses.symm ▸ .refl _) fun _ => mem_preorders_mk

/-- Uses follow one another that stand on the two sides of a cut through the uses. -/
theorem follow_of_mem {ms ms' : List NameUse} {m m' : NameUse} (huses : uses ts = ms ++ ms') (hm : m ∈ ms)
    (hm' : m' ∈ ms') : Follow ts m m' := by
  refine .inl ?_
  rw [huses]
  exact (List.singleton_sublist.mpr hm).append (List.singleton_sublist.mpr hm')

end Outline

/-! ## Uses in events -/

mutual

/-- The uses of names that events tell of, in order. -/
def Event.nameUses : Event → List NameUse
  | .define .. => []
  | .use role _ site => [⟨role, site, none⟩]
  | .assign _ statement target => [⟨.variableName, target, some statement⟩]
  | .scope _ _ events => Event.allNameUses events

def Event.allNameUses : List Event → List NameUse
  | [] => []
  | e :: es => e.nameUses ++ Event.allNameUses es

end

/-- The use that an event tells of by itself. -/
def Event.nameUse? : Event → Option NameUse
  | .use role _ site => some ⟨role, site, none⟩
  | .assign _ statement target => some ⟨.variableName, target, some statement⟩
  | .define .. | .scope .. => none

mutual

/-- Assignments stand at assignments, and definitions at other nodes. -/
def Event.Tame : Event → Prop
  | .define _ _ site => site.kind ≠ .variableAssignment
  | .use .. => True
  | .assign _ statement _ => statement.kind = .variableAssignment
  | .scope _ _ events => Event.AllTame events

def Event.AllTame : List Event → Prop
  | [] => True
  | e :: es => e.Tame ∧ Event.AllTame es

end

@[simp] theorem Event.allNameUses_append (es es' : List Event) :
    Event.allNameUses (es ++ es') = Event.allNameUses es ++ Event.allNameUses es' := by
  induction es with
  | nil => rfl
  | cons e es ih => rw [List.cons_append, allNameUses, ih, allNameUses, List.append_assoc]

theorem Event.allTame_append {es es' : List Event} : AllTame (es ++ es') ↔ AllTame es ∧ AllTame es' := by
  induction es with
  | nil => exact iff_of_eq (true_and _).symm
  | cons e es ih => rw [List.cons_append, AllTame, AllTame, ih, and_assoc]

/-! ## Telling -/

open Outline

/-- Events **tell** of the uses in trees: of all of them, and of no others; a use comes after those that it follows. -/
structure Tells (es : List Event) (ts : List Outline) : Prop where
  uses : (Event.allNameUses es).Perm (Outline.uses ts)
  ordered : (Event.allNameUses es).Pairwise (Follow ts)
  tame : Event.AllTame es
  shaped : ∀ t ∈ ts, t.Everywhere Shaped

namespace Tells

variable {es es' : List Event} {ts ts' : List Outline} {kind : NodeKind} {span : Span}
  {attributes : List (String × Attribute)}

theorem nil : Tells [] [] := ⟨.nil, .nil, trivial, by simp⟩

/-- What is told of two lists is told of both together. -/
theorem append (h : Tells es ts) (h' : Tells es' ts') : Tells (es ++ es') (ts ++ ts') where
  uses := by
    rw [Event.allNameUses_append, uses_append]
    exact h.uses.append h'.uses
  ordered := by
    rw [Event.allNameUses_append]
    refine List.pairwise_append.mpr ⟨h.ordered.imp .append_left, h'.ordered.imp .append_right, fun m hm m' hm' => ?_⟩
    exact follow_of_mem (uses_append ts ts') (h.uses.mem_iff.mp hm) (h'.uses.mem_iff.mp hm')
  tame := Event.allTame_append.mpr ⟨h.tame, h'.tame⟩
  shaped := List.forall_mem_append.mpr ⟨h.shaped, h'.shaped⟩

/-- A name is defined. -/
theorem define (binding : BindingKind) (name : String) (kind : NodeKind) (span : Span)
    (hkind : kind ≠ .variableAssignment) : Tells [.define binding name ⟨kind, span⟩] [] :=
  ⟨.nil, .nil, ⟨hkind, trivial⟩, by simp⟩

/-- Bindings tell nothing, except for those that an assignment makes. -/
theorem defines {α : Type} {as : List α} {f : α → Event}
    (hf : ∀ a, ∃ binding name kind span, f a = .define binding name ⟨kind, span⟩ ∧ kind ≠ .variableAssignment) :
    Tells (as.map f) [] := by
  induction as with
  | nil => exact .nil
  | cons a as ih =>
      obtain ⟨binding, name, kind, span, ha, hkind⟩ := hf a
      rw [List.map_cons, ha]
      exact (define binding name kind span hkind).append ih

theorem optional {α : Type} (a : Option α) {f : α → Event}
    (hf : ∀ a, ∃ binding name kind span, f a = .define binding name ⟨kind, span⟩ ∧ kind ≠ .variableAssignment) :
    Tells (a.map f).toList [] := by
  cases a with
  | none => exact .nil
  | some a => exact (defines hf : Tells ([a].map f) [])

/-- A scope tells what is told in it. -/
theorem scope (k : ScopeKind) (place : Span) (h : Tells es ts) : Tells [.scope k place es] ts where
  uses := by
    rw [Event.allNameUses, Event.nameUses, Event.allNameUses, List.append_nil]
    exact h.uses
  ordered := by
    rw [Event.allNameUses, Event.nameUses, Event.allNameUses, List.append_nil]
    exact h.ordered
  tame := ⟨h.tame, trivial⟩
  shaped := h.shaped

/-- A node below which names are used as they stand. -/
theorem plain (h : Tells es ts) (hkind : kind.isPlain = true) (hname : kind.isName = false)
    (hclosure : kind ≠ .closure) : Tells es [.mk kind span attributes ts] where
  uses := h.uses.trans (.of_eq (uses_plain hkind hname).symm)
  ordered := h.ordered.imp (.plain hkind hname)
  tame := h.tame
  shaped := List.forall_mem_singleton.mpr (shaped_mk hname hclosure h.shaped)

/-- A leaf that is no use by itself. -/
theorem leaf (huse : (Outline.mk kind span attributes []).use = []) (hclosure : kind ≠ .closure) :
    Tells [] [.mk kind span attributes []] where
  uses := by
    refine .of_eq ?_
    rw [Event.allNameUses, uses_cons, huse, usesBelow, usesFrom, uses_nil]
    rfl
  ordered := .nil
  tame := trivial
  shaped := List.forall_mem_singleton.mpr (shaped_leaf hclosure)

theorem option_ordered {α : Type} {o : Option α} {r : α → α → Prop} : o.toList.Pairwise r := by
  cases o with
  | none => exact .nil
  | some a => exact List.pairwise_singleton r a

section

variable {u v : Outline} {hd : List Event}

/-- A node that treats its first child, a name, in its own way. -/
theorem first (h : Tells es ts) (hd : List Event) (hkind : kind ≠ .patternField)
    (hname : kind.isName = false) (hclosure : kind ≠ .closure) (hu : u.kind ≠ .closure) (hleaf : u.children = [])
    (huse : ((Outline.mk kind span attributes (u :: ts)).use? 0 u).toList = Event.allNameUses hd)
    (htame : Event.AllTame hd) : Tells (hd ++ es) [.mk kind span attributes (u :: ts)] where
  uses := by
    rw [Event.allNameUses_append, uses_first hkind hname hleaf, huse]
    exact h.uses.append_left _
  ordered := by
    have huses : Outline.uses [.mk kind span attributes (u :: ts)] = _ := uses_first hkind hname hleaf
    rw [Event.allNameUses_append, ← huse]
    refine List.pairwise_append.mpr ⟨option_ordered, h.ordered.imp fun hfollow => ?_, fun m hm m' hm' => ?_⟩
    · exact hfollow.mono (by rw [huses]; exact List.sublist_append_right _ _) fun _ ht =>
        mem_preorders_mk (List.mem_append_right _ ht)
    · exact follow_of_mem huses hm (h.uses.mem_iff.mp hm')
  tame := Event.allTame_append.mpr ⟨htame, h.tame⟩
  shaped := by
    refine List.forall_mem_singleton.mpr (shaped_mk hname hclosure (List.forall_mem_cons.mpr ⟨?_, h.shaped⟩))
    obtain ⟨kind, span, attributes, children⟩ := u
    obtain rfl : children = [] := hleaf
    exact shaped_leaf hu

/-- An assignment, whose target is told of after its value. -/
theorem assign (h : Tells es [v]) (hd : List Event) (hu : u.kind ≠ .closure) (hleaf : u.children = [])
    (huse : ((Outline.mk .variableAssignment span attributes [u, v]).use? 0 u).toList = Event.allNameUses hd)
    (htame : Event.AllTame hd) : Tells (es ++ hd) [.mk .variableAssignment span attributes [u, v]] :=
  have hfirst := h.first hd (by decide) (by decide) (by decide) hu hleaf huse htame
  { uses := by
      refine .trans ?_ hfirst.uses
      rw [Event.allNameUses_append, Event.allNameUses_append]
      exact List.perm_append_comm
    ordered := by
      rw [Event.allNameUses_append, ← huse]
      refine List.pairwise_append.mpr ⟨h.ordered.imp fun hfollow => ?_, option_ordered, fun m hm m' hm' => ?_⟩
      · have huses : Outline.uses [.mk .variableAssignment span attributes [u, v]] = _ :=
          uses_first (by decide) (by decide) hleaf
        exact hfollow.mono (by rw [huses]; exact List.sublist_append_right _ _) fun _ ht =>
          mem_preorders_mk (List.mem_append_right _ ht)
      · exact .inr ⟨_, List.mem_cons_self, rfl, u, v, rfl, Option.mem_toList.mp hm', h.uses.mem_iff.mp hm⟩
    tame := Event.allTame_append.mpr ⟨h.tame, htame⟩
    shaped := hfirst.shaped }

end

end Tells

/-! ## Rules -/

theorem Ident.tells (x : Ident) : Tells [] [x.outline] := .leaf rfl (by decide)

theorem Ident.option_tells (x : Option Ident) : Tells [] (x.map Ident.outline).toList := by
  cases x with
  | none => exact .nil
  | some x => exact x.tells

theorem CommandName.tells (c : CommandName) : Tells [c.event] [c.outline] where
  uses := by
    refine .of_eq ?_
    obtain ⟨span, name, qualifier, builtin⟩ := c
    cases builtin <;> rfl
  ordered := List.pairwise_singleton _ _
  tame := ⟨trivial, trivial⟩
  shaped := by
    refine List.forall_mem_singleton.mpr (shaped_leaf ?_)
    rw [CommandName.kind]
    cases c.builtin <;> decide

theorem PatternField.tells (f : PatternField) : Tells f.events [f.outline] where
  uses := by
    refine .of_eq ?_
    obtain ⟨span, name, binding⟩ := f
    rcases binding with - | x | - <;> rfl
  ordered := by
    obtain ⟨span, name, binding⟩ := f
    rcases binding with - | x | - <;> exact .nil
  tame := (Tells.optional f.boundName? fun _ => ⟨_, _, _, _, rfl, by decide⟩).tame
  shaped := by
    refine List.forall_mem_singleton.mpr (shaped_mk (by decide) (by decide) (List.forall_mem_cons.mpr ⟨?_, ?_⟩))
    · exact shaped_leaf (by decide)
    · rcases f.binding with - | x | -
      · simp
      · exact List.forall_mem_singleton.mpr (shaped_leaf (by decide))
      · exact List.forall_mem_singleton.mpr (shaped_leaf (by decide))

/-- Parameters without fallback values use no names. -/
theorem Parameter.bare_tells {ps : List (Parameter Node)} (h : ∀ p ∈ ps, p.fallback = none) :
    Tells [] (Parameter.outlines ps) := by
  induction ps with
  | nil => exact .nil
  | cons p ps ih =>
      obtain ⟨hp, hps⟩ := List.forall_mem_cons.mp h
      have hhint : Tells [] ((p.hint.map TypeHint.outline).toList ++ Node.outline? p.fallback) := by
        rw [hp, Node.outline?, List.append_nil]
        cases p.hint with
        | none => exact .nil
        | some hint => exact .leaf rfl (by decide)
      exact (hhint.plain (by decide) (by decide) (by decide)).append (ih hps)

namespace Tells

variable {es es' eb ea : List Event} {t body : Outline} {us vs ws : List Outline} {span : Span}

/-- A node defines its own name, and at no assignment. -/
theorem own (hsteady : t.kind.isSteady = true) : Tells t.ownEvents [] := by
  have hkind : t.kind ≠ .variableAssignment := by
    intro hkind
    rw [hkind] at hsteady
    contradiction
  rw [ownEvents, does?]
  exact .optional t.own? fun _ => ⟨_, _, _, _, rfl, hkind⟩

/-- The parameters of a node are defined. -/
theorem parameters (us : List Outline) : Tells (us.flatMap parameterEvent) [] := by
  induction us with
  | nil => exact .nil
  | cons u us ih =>
      have hu : Tells u.parameterEvent [] := by
        rw [parameterEvent]
        split
        · next hkind =>
            rw [site, hkind]
            exact .optional u.name? fun _ => ⟨_, _, _, _, rfl, by decide⟩
        · exact .nil
      exact hu.append ih

/-- What is told of inside a scope is told of around it. -/
theorem inside (h : Tells es ws) (hopens : t.opening?.isSome = true ∨ ws = []) : Tells (t.scopeEvents es) ws := by
  rw [scopeEvents]
  cases hopening : t.opening? with
  | none =>
      rw [hopening] at hopens
      rcases hopens with hopens | rfl
      · contradiction
      · exact .nil
  | some opened => exact ((parameters t.children).append h).scope _ _

/-- A node whose children come in the order of their phases. -/
theorem node (harranged : t.Arranged us vs ws) (hbefore : Tells eb us) (haround : Tells ea vs) (hinside : Tells es ws) :
    Tells (t.eventsOf eb ea es) [t] := by
  have hown (b : Bool) : Tells (if b then t.ownEvents else []) [] := by
    cases b
    · exact .nil
    · exact .own harranged.steady
  have hlate (b : Bool) : Tells (if b then [] else t.ownEvents) [] := by
    cases b
    · exact .own harranged.steady
    · exact .nil
  have hall := (((hbefore.append (hown t.kind.bindsEarly)).append haround).append (hinside.inside harranged.opens)).append
    (hlate t.kind.bindsEarly)
  rw [List.append_nil, List.append_nil, ← harranged.children] at hall
  have hsteady := harranged.steady
  obtain ⟨kind, span, attributes, children⟩ := t
  have hkind : kind.isPlain = true ∧ kind.isName = false ∧ kind ≠ .closure := by
    rw [Outline.kind] at hsteady
    cases kind <;> first | contradiction | decide
  exact hall.plain hkind.1 hkind.2.1 hkind.2.2

/-- A node that uses its first child, a name. -/
theorem useFirst {kind : NodeKind} {x : Ident} {role : Role}
    (hrole : (branch kind span (x.outline :: us)).role? 0 x.outline = some role) (h : Tells es us) :
    Tells (.use role x.name ⟨.identifier, x.span⟩ :: es) [branch kind span (x.outline :: us)] := by
  have huse : ((branch kind span (x.outline :: us)).use? 0 x.outline).toList =
      Event.allNameUses [.use role x.name ⟨.identifier, x.span⟩] := by
    rw [use?, hrole, assignment?, if_neg fun hassign => nomatch hassign.2.1]
    rfl
  have hname : NodeKind.identifier ≠ .closure := by decide
  rcases kind_of_role hrole with rfl | rfl | rfl <;>
    exact h.first [_] (by decide) (by decide) (by decide) hname rfl huse ⟨trivial, trivial⟩

/-- A plain assignment names itself in the use of its target, and one with an operator does not. -/
theorem assignment {value : Outline} {x : Ident} {operator : Symbol} (h : Tells es [value]) :
    Tells (es ++ [if operator = .assign then .assign x.name ⟨.variableAssignment, span⟩ ⟨.variableName, x.span⟩
        else .use .variableName x.name ⟨.variableName, x.span⟩])
      [.mk .variableAssignment span [("op", .text operator.text)] [x.variableOutline, value]] := by
  have hname : NodeKind.variableName ≠ .closure := by decide
  refine h.assign _ hname rfl ?_ ?_
  · split
    · next h =>
        subst h
        rfl
    · next h =>
        have hplain : ¬ operator.text = "=" := fun htext => h (Symbol.text_eq_assign.mp htext)
        have hnone : (Outline.mk .variableAssignment span [("op", .text operator.text)]
            [x.variableOutline, value]).assignment? 0 = none := by
          rw [assignment?, if_neg]
          rintro ⟨-, htext, -⟩
          exact hplain (by simpa [attributes] using htext)
        rw [use?, hnone]
        rfl
  · split
    · exact ⟨rfl, trivial⟩
    · exact ⟨trivial, trivial⟩

/-- A `for` defines its variable in the scope of its body. -/
theorem loop {iterable : Outline} {x : LoopVariable} {k : ScopeKind} {place : Span} (h : Tells es [iterable])
    (h' : Tells es' [body]) : Tells (es ++ [.scope k place (.define .variableName x.name ⟨x.kind, x.span⟩ :: es')])
      [branch .forStatement span [x.outline, iterable, body]] := by
  have hkind : x.kind = .variableName ∨ x.kind = .identifier := by
    rw [LoopVariable.kind]
    split
    · exact .inl rfl
    · exact .inr rfl
  have hvariable : Tells [.define .variableName x.name ⟨x.kind, x.span⟩] [] :=
    define _ _ _ _ (by rcases hkind with hkind | hkind <;> (rw [hkind]; decide))
  refine (h.append ((hvariable.append h').scope k place)).first [] (by decide) (by decide) (by decide) ?_ rfl ?_ trivial
  · rw [LoopVariable.outline, Outline.kind]
    rcases hkind with hkind | hkind <;> (rw [hkind]; decide)
  · rcases hkind with hkind | hkind <;> (rw [LoopVariable.outline, hkind]; rfl)

/-- A `try` defines the error in the scope of its handler. -/
theorem attempt {handler : Outline} {x : Option Ident} {k : ScopeKind} {place : Span} (h : Tells es [body])
    (h' : Tells es' [handler]) :
    Tells (es ++ [.scope k place ((x.map fun x => .define .variableName x.name ⟨.identifier, x.span⟩).toList ++ es')])
      [branch .tryStatement span (body :: (x.map Ident.outline).toList ++ [handler])] := by
  have herror : Tells (x.map fun x => .define .variableName x.name ⟨.identifier, x.span⟩).toList [] :=
    .optional x fun _ => ⟨_, _, _, _, rfl, by decide⟩
  have hheader := h.append (Ident.option_tells x)
  rw [List.append_nil] at hheader
  exact (hheader.append ((herror.append h').scope k place)).plain (by decide) (by decide) (by decide)

/-- The parameters of a closure are bare, so that nothing is used before its body. -/
theorem closure {attributes : List (String × Attribute)} {params : List (Parameter Node)}
    (hbare : ∀ p ∈ params, p.fallback = none) (h : Tells es [body]) :
    Tells [.scope .closure span (params.map Parameter.event ++ es)]
      [.mk .closure span attributes (Parameter.outlines params ++ [body])] := by
  have hparams := Parameter.bare_tells hbare
  have hdefines : Tells (params.map Parameter.event) [] := .defines fun _ => ⟨_, _, _, _, rfl, by decide⟩
  have hall := hparams.append ((hdefines.append h).scope .closure span)
  refine ⟨?_, hall.ordered.imp (.plain (by decide) (by decide)), hall.tame,
    List.forall_mem_singleton.mpr (everywhere_mk.mpr ⟨⟨fun hname => ?_, fun _ => ?_⟩, hall.shaped⟩)⟩
  · exact hall.uses.trans (.of_eq (uses_plain (by decide) (by decide)).symm)
  · contradiction
  · exact ⟨_, _, rfl, List.perm_nil.mp hparams.uses.symm⟩

end Tells

/-- **Events tell of the uses in the trees that they are collected from**, if the parameters of closures are bare. -/
theorem Collected.tells {es : List Event} {ts : List Outline} (h : Collected true es ts) : Tells es ts := by
  induction h with
  | nil => exact .nil
  | append _ _ ih ih' => exact ih.append ih'
  | name span name => exact .leaf rfl (by decide)
  | variableName span name =>
      exact ⟨.refl _, List.pairwise_singleton _ _, ⟨trivial, trivial⟩,
        List.forall_mem_singleton.mpr (shaped_leaf (by decide))⟩
  | command c => exact c.tells
  | field f => exact f.tells
  | first hrole _ ih => exact .useFirst hrole ih
  | assignment span x operator _ ih => exact ih.assignment
  | loop span x _ _ _ _ ih ih' => exact ih.loop ih'
  | attempt span x _ _ _ _ ih ih' => exact ih.attempt ih'
  | closure span attributes params hbare _ _ ih => exact ih.closure (hbare rfl)
  | node harranged _ _ _ ihb iha ihs => exact .node harranged ihb iha ihs

end ShellFront
