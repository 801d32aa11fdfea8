import ShellFront.Names.Resolver

/-!
# Frames and the table

Frames are a quick way to look at the table. They are **faithful** to it when each open scope has one frame,
and the frame holds for every name the newest binding that the table has for that name in that scope. What
a name denotes then follows from the table alone.

Each step of the resolver keeps frames faithful. A definition adds to the innermost scope, so the frames
around it are not concerned; a scope that has been left bound nothing in the frames that are back in use,
since all it opened came later than they did.

## Contents
- `Table.Holds`, `Table.Newest`, `Table.Denotes`, which speak of bindings only.
- `Table.Within`, `Table.Grows`.
- `Faithful`, `Faithful.lookup?_denotes`, `Faithful.lookup?_eq_none`.
- What `Resolver.define`, `Resolver.use` and `Resolver.enter` keep.
-/

namespace ShellFront

/-! ## What the table says of a name -/

namespace Table

/-- Binding `i` binds a name in a scope. -/
def Holds (table : Table) (scope : Nat) (name : String) (i : Nat) : Prop :=
  ∃ b, table.bindings[i]? = some b ∧ b.scope = scope ∧ b.name = name

/-- Binding `i` is the newest one of a name in a scope. -/
def Newest (table : Table) (scope : Nat) (name : String) (i : Nat) : Prop :=
  table.Holds scope name i ∧ ∀ j, table.Holds scope name j → j ≤ i

/-- Binding `i` is what a name denotes where `scopes` are open, innermost first: the newest one in the
    nearest scope that holds any. -/
def Denotes (table : Table) (scopes : List Nat) (name : String) (i : Nat) : Prop :=
  ∃ nearer scope farther, scopes = nearer ++ scope :: farther ∧ table.Newest scope name i ∧
    ∀ s ∈ nearer, ∀ j, ¬ table.Holds s name j

end Table

/-! ## Growing tables -/

/-- What is in one table stands at the same index in another. -/
structure Table.Within (old new : Table) : Prop where
  bindings : old.bindings.toList <+: new.bindings.toList
  scopes : old.scopes.toList <+: new.scopes.toList

namespace Table.Within

variable {old mid new : Table}

theorem refl (table : Table) : table.Within table := ⟨List.prefix_rfl, List.prefix_rfl⟩

theorem trans (h : old.Within mid) (h' : mid.Within new) : old.Within new :=
  ⟨h.bindings.trans h'.bindings, h.scopes.trans h'.scopes⟩

theorem bindings_size (h : old.Within new) : old.bindings.size ≤ new.bindings.size := h.bindings.length_le

theorem scopes_size (h : old.Within new) : old.scopes.size ≤ new.scopes.size := h.scopes.length_le

theorem binding_stays (h : old.Within new) {i : Nat} {b : Binding} (hb : old.bindings[i]? = some b) :
    new.bindings[i]? = some b := by
  obtain ⟨added, hadded⟩ := h.bindings
  rw [← Array.getElem?_toList] at hb ⊢
  rw [← hadded, List.getElem?_append_left (List.getElem?_eq_some_iff.mp hb).1, hb]

theorem scope_stays (h : old.Within new) {i : Nat} {s : Scope} (hs : old.scopes[i]? = some s) :
    new.scopes[i]? = some s := by
  obtain ⟨added, hadded⟩ := h.scopes
  rw [← Array.getElem?_toList] at hs ⊢
  rw [← hadded, List.getElem?_append_left (List.getElem?_eq_some_iff.mp hs).1, hs]

end Table.Within

/-- A table **grows** into another while `scope` is the innermost open one: what is bound meanwhile is
    bound in that scope or in one that is opened meanwhile. -/
structure Table.Grows (old new : Table) (scope : Option Nat) : Prop extends old.Within new where
  added : ∀ i b, new.bindings[i]? = some b → old.bindings.size ≤ i →
    scope = some b.scope ∨ old.scopes.size ≤ b.scope

namespace Table.Grows

variable {old mid new : Table} {scope : Option Nat}

/-- A table grows when its bindings stay as they are. -/
theorem of_same (h : old.Within new) (hbindings : new.bindings = old.bindings) : old.Grows new scope where
  toWithin := h
  added := by
    intro i b hb hi
    have hlt := (Array.getElem?_eq_some_iff.mp (hbindings ▸ hb)).1
    omega

theorem refl (table : Table) (scope : Option Nat) : table.Grows table scope := of_same (.refl _) rfl

theorem trans (h : old.Grows mid scope) (h' : mid.Grows new scope) : old.Grows new scope where
  toWithin := h.toWithin.trans h'.toWithin
  added := by
    intro i b hb hi
    rcases Nat.lt_or_ge i mid.bindings.size with hmid | hmid
    · have hbefore : mid.bindings[i]? = some mid.bindings[i] := Array.getElem?_eq_getElem hmid
      have hsame : mid.bindings[i] = b := Option.some.inj ((h'.binding_stays hbefore).symm.trans hb)
      exact h.added i b (hsame ▸ hbefore) hi
    · exact (h'.added i b hb hmid).imp id (fun hlater => Nat.le_trans h.scopes_size hlater)

/-- What happens in a scope that was opened meanwhile leaves the scopes around it as they were. -/
theorem around {inner : Nat} (h : old.Grows new (some inner)) (hinner : old.scopes.size ≤ inner) :
    old.Grows new scope where
  toWithin := h.toWithin
  added := by
    intro i b hb hi
    rcases h.added i b hb hi with heq | hlater
    · rw [← Option.some.inj heq]
      exact .inr hinner
    · exact .inr hlater

/-- A scope that is open, but not the innermost one, holds what it held. -/
theorem holds_iff (h : old.Grows new scope) {s : Nat} (hs : s < old.scopes.size) (hne : scope ≠ some s)
    {name : String} {i : Nat} : new.Holds s name i ↔ old.Holds s name i := by
  refine ⟨fun ⟨b, hb, hscope, hname⟩ => ⟨b, ?_, hscope, hname⟩,
    fun ⟨b, hb, hscope, hname⟩ => ⟨b, h.binding_stays hb, hscope, hname⟩⟩
  rcases Nat.lt_or_ge i old.bindings.size with hi | hi
  · have hbefore : old.bindings[i]? = some old.bindings[i] := Array.getElem?_eq_getElem hi
    have hsame : old.bindings[i] = b := Option.some.inj ((h.binding_stays hbefore).symm.trans hb)
    exact hsame ▸ hbefore
  · -- a binding that was added is in the innermost scope or in a later one
    rcases h.added i b hb hi with heq | hlater
    · exact absurd (hscope ▸ heq) hne
    · omega

end Table.Grows

/-! ## Frames and the table -/

/-- A frame and the table agree on a name. -/
def Frame.Agrees (table : Table) (frame : Frame) (name : String) : Prop :=
  match frame.find? name with
  | none => ∀ i, ¬ table.Holds frame.scope name i
  | some i => table.Newest frame.scope name i

/-- Open frames are **faithful** to the table. -/
structure Faithful (table : Table) (frames : List Frame) : Prop where
  distinct : (frames.map Frame.scope).Nodup
  opened : ∀ frame ∈ frames, frame.scope < table.scopes.size
  known : ∀ b ∈ table.bindings.toList, b.scope < table.scopes.size
  agrees : ∀ frame ∈ frames, ∀ name, frame.Agrees table name

namespace Faithful

variable {table : Table} {frames : List Frame}

/-- What is looked up is the newest binding in the nearest scope that holds any. -/
theorem lookup?_denotes (h : Faithful table frames) {name : String} {i : Nat}
    (hi : lookup? frames name = some i) : table.Denotes (frames.map Frame.scope) name i := by
  obtain ⟨nearer, frame, farther, hframes, hfound, hmissed⟩ := List.findSome?_eq_some_iff.mp hi
  subst hframes
  have hagrees := h.agrees frame (by simp) name
  rw [Frame.Agrees, hfound] at hagrees
  refine ⟨nearer.map Frame.scope, frame.scope, farther.map Frame.scope, by simp, hagrees, ?_⟩
  rintro _ hs j
  obtain ⟨g, hg, rfl⟩ := List.mem_map.mp hs
  have hnone := h.agrees g (by simp [hg]) name
  rw [Frame.Agrees, hmissed g hg] at hnone
  exact hnone j

/-- Nothing is looked up only where no open scope holds the name. -/
theorem lookup?_eq_none (h : Faithful table frames) {name : String} :
    lookup? frames name = none ↔
      ∀ s ∈ frames.map Frame.scope, ∀ i, ¬ table.Holds s name i := by
  rw [lookup?, List.findSome?_eq_none_iff, List.forall_mem_map]
  refine forall₂_congr fun frame hframe => ?_
  have hagrees := h.agrees frame hframe name
  cases hfound : frame.find? name with
  | none =>
      rw [Frame.Agrees, hfound] at hagrees
      exact iff_of_true rfl hagrees
  | some i =>
      rw [Frame.Agrees, hfound] at hagrees
      exact iff_of_false (by simp) fun hnone => hnone i hagrees.1

/-- Frames stay faithful to a table that grows elsewhere. -/
theorem grows {new : Table} (h : Faithful table frames) (hgrows : table.Grows new none)
    (hknown : ∀ b ∈ new.bindings.toList, b.scope < new.scopes.size) : Faithful new frames where
  distinct := h.distinct
  opened := fun frame hframe => Nat.lt_of_lt_of_le (h.opened frame hframe) hgrows.scopes_size
  known := hknown
  agrees := by
    intro frame hframe name
    have hsame : ∀ i, new.Holds frame.scope name i ↔ table.Holds frame.scope name i := fun i =>
      hgrows.holds_iff (h.opened frame hframe) nofun
    have hagrees := h.agrees frame hframe name
    unfold Frame.Agrees Table.Newest at *
    simpa only [hsame] using hagrees

end Faithful

/-! ### Definitions -/

theorem Table.Holds.lt {table : Table} {s : Nat} {name : String} {i : Nat} (h : table.Holds s name i) :
    i < table.bindings.size := by
  obtain ⟨b, hb, -⟩ := h
  exact (Array.getElem?_eq_some_iff.mp hb).1

theorem Table.addBinding_holds {table : Table} {b : Binding} {s : Nat} {name : String} {i : Nat} :
    (table.addBinding b).Holds s name i ↔
      table.Holds s name i ∨ i = table.bindings.size ∧ b.scope = s ∧ b.name = name := by
  simp only [Holds, addBinding, Array.getElem?_push]
  constructor
  · rintro ⟨b', hb', hscope, hname⟩
    split at hb'
    · obtain rfl := Option.some.inj hb'
      exact .inr ⟨‹_›, hscope, hname⟩
    · exact .inl ⟨b', hb', hscope, hname⟩
  · rintro (⟨b', hb', hscope, hname⟩ | ⟨rfl, hscope, hname⟩)
    · have hlt := (Array.getElem?_eq_some_iff.mp hb').1
      exact ⟨b', by rw [if_neg (by omega), hb'], hscope, hname⟩
    · exact ⟨b, by rw [if_pos rfl], hscope, hname⟩

namespace Frame

variable {table : Table} {frame : Frame} {name : String}

/-- A frame agrees with a table that gets a binding in another scope. -/
theorem Agrees.elsewhere {b : Binding} (h : frame.Agrees table name) (hscope : b.scope ≠ frame.scope) :
    frame.Agrees (table.addBinding b) name := by
  simp only [Agrees, Table.Newest] at h
  simp only [Agrees, Table.Newest, Table.addBinding_holds, hscope, false_and, and_false, or_false]
  exact h

/-- A frame that gets a name agrees with the table that gets its binding. -/
theorem Agrees.bind {b : Binding} (h : frame.Agrees table name) (hscope : b.scope = frame.scope) :
    ({ frame with names := (b.name, table.bindings.size) :: frame.names } : Frame).Agrees
      (table.addBinding b) name := by
  by_cases hname : name = b.name
  · -- the new binding is the last of the table, hence the newest of its name
    subst hname
    simp only [Agrees, find?, List.lookup_cons_self, Table.Newest, Table.addBinding_holds]
    refine ⟨.inr ⟨trivial, hscope, trivial⟩, fun j hj => ?_⟩
    rcases hj with hj | ⟨rfl, -⟩
    · exact Nat.le_of_lt hj.lt
    · exact Nat.le_refl _
  · have hmiss : (name == b.name) = false := beq_false_of_ne hname
    simp only [Agrees, find?, Table.Newest] at h
    simp only [Agrees, find?, List.lookup_cons, hmiss, Table.Newest, Table.addBinding_holds,
      Ne.symm hname, and_false, or_false]
    exact h

end Frame

namespace Resolver

/-- A definition in the innermost frame keeps all frames faithful. -/
theorem define_faithful {resolver : Resolver} {kind : BindingKind} {name : String} {site : Site}
    {frames : List Frame} (h : Faithful resolver.table frames) :
    Faithful (resolver.define kind name site frames).1.table
      (resolver.define kind name site frames).2 := by
  cases frames with
  | nil => exact h
  | cons frame outer =>
      have hopened := h.opened frame List.mem_cons_self
      refine ⟨h.distinct, ?_, ?_, ?_⟩
      · intro f hf
        rcases List.mem_cons.mp hf with rfl | hf
        · exact hopened
        · exact h.opened f (List.mem_cons_of_mem _ hf)
      · intro b hb
        simp only [define, Table.addBinding, Array.toList_push, List.mem_append,
          List.mem_singleton] at hb
        rcases hb with hb | rfl
        · exact h.known b hb
        · exact hopened
      · intro f hf other
        rcases List.mem_cons.mp hf with rfl | hf
        · exact (h.agrees frame List.mem_cons_self other).bind
            (b := ⟨kind, name, site, frame.scope⟩) rfl
        · -- the other frames are those of other scopes
          have hne : frame.scope ≠ f.scope := fun heq =>
            (List.nodup_cons.mp h.distinct).1 (heq ▸ List.mem_map_of_mem hf)
          exact (h.agrees f (List.mem_cons_of_mem _ hf) other).elsewhere hne

theorem define_grows (resolver : Resolver) (kind : BindingKind) (name : String) (site : Site)
    (frames : List Frame) :
    resolver.table.Grows (resolver.define kind name site frames).1.table
      (frames.head?.map Frame.scope) := by
  cases frames with
  | nil => exact .refl _ _
  | cons frame outer =>
      refine ⟨⟨by simp [define, Table.addBinding], List.prefix_rfl⟩, fun i b hb hi => .inl ?_⟩
      simp only [define, Table.addBinding, Array.getElem?_push] at hb
      split at hb
      · obtain rfl := Option.some.inj hb
        rfl
      · have := (Array.getElem?_eq_some_iff.mp hb).1
        omega

theorem define_scopes (resolver : Resolver) (kind : BindingKind) (name : String) (site : Site)
    (frames : List Frame) :
    (resolver.define kind name site frames).2.map Frame.scope = frames.map Frame.scope := by
  cases frames <;> rfl

theorem define_references (resolver : Resolver) (kind : BindingKind) (name : String) (site : Site)
    (frames : List Frame) :
    (resolver.define kind name site frames).1.table.references = resolver.table.references := by
  cases frames <;> rfl

/-! ### Uses and scopes -/

theorem use_grows (resolver : Resolver) (role : Role) (name : String) (site : Site)
    (frames : List Frame) (scope : Option Nat) :
    resolver.table.Grows (resolver.use role name site frames).table scope :=
  .of_same ⟨List.prefix_rfl, List.prefix_rfl⟩ rfl

/-- A use leaves bindings and scopes alone. -/
theorem use_faithful {resolver : Resolver} {role : Role} {name : String} {site : Site}
    {frames : List Frame} (h : Faithful resolver.table frames) :
    Faithful (resolver.use role name site frames).table frames :=
  h.grows (use_grows ..) h.known

/-- The resolver once a scope is open. -/
def enter (resolver : Resolver) (kind : ScopeKind) (span : Span) (frames : List Frame) : Resolver :=
  { resolver with
    table := resolver.table.addScope ⟨kind, frames.head?.map Frame.scope, span⟩ }

/-- The frames once a scope is open. -/
def entered (resolver : Resolver) (frames : List Frame) : List Frame :=
  ⟨resolver.table.scopes.size, []⟩ :: frames

theorem run_scope (resolver : Resolver) (frames : List Frame) (kind : ScopeKind) (span : Span)
    (events : List Event) :
    resolver.run frames (.scope kind span events) =
      ((runAll (resolver.enter kind span frames) (resolver.entered frames) events).1, frames) := by
  rw [run]
  rfl

theorem enter_grows (resolver : Resolver) (kind : ScopeKind) (span : Span) (frames : List Frame)
    (scope : Option Nat) : resolver.table.Grows (resolver.enter kind span frames).table scope :=
  .of_same ⟨List.prefix_rfl, by simp [enter, Table.addScope]⟩ rfl

theorem enter_scope (resolver : Resolver) (kind : ScopeKind) (span : Span) (frames : List Frame) :
    (resolver.enter kind span frames).table.scopes[resolver.table.scopes.size]? =
      some ⟨kind, frames.head?.map Frame.scope, span⟩ := by
  simp [enter, Table.addScope]

/-- A scope that has just been opened holds nothing. -/
theorem enter_faithful {resolver : Resolver} {frames : List Frame} (kind : ScopeKind) (span : Span)
    (h : Faithful resolver.table frames) :
    Faithful (resolver.enter kind span frames).table (resolver.entered frames) := by
  have hsize : (resolver.enter kind span frames).table.scopes.size =
      resolver.table.scopes.size + 1 := by
    simp [enter, Table.addScope]
  have hknown : ∀ b ∈ (resolver.enter kind span frames).table.bindings.toList,
      b.scope < (resolver.enter kind span frames).table.scopes.size := by
    intro b hb
    rw [hsize]
    exact Nat.lt_succ_of_lt (h.known b hb)
  have houter := h.grows (enter_grows resolver kind span frames none) hknown
  refine ⟨?_, ?_, hknown, ?_⟩
  · -- the new scope has a number that no frame has yet
    rw [entered, List.map_cons, List.nodup_cons]
    refine ⟨fun hmem => ?_, h.distinct⟩
    obtain ⟨frame, hframe, heq⟩ := List.mem_map.mp hmem
    exact absurd heq (Nat.ne_of_lt (h.opened frame hframe))
  · intro frame hframe
    rcases List.mem_cons.mp hframe with rfl | hframe
    · exact hsize ▸ Nat.lt_succ_self _
    · exact houter.opened frame hframe
  · intro frame hframe name
    rcases List.mem_cons.mp hframe with rfl | hframe
    · -- and no binding stands in it
      rintro i ⟨b, hb, hscope, -⟩
      have hopened := h.known b (Array.mem_toList_iff.mpr (Array.mem_of_getElem? hb))
      exact absurd hscope (Nat.ne_of_lt hopened)
    · exact houter.agrees frame hframe name

end Resolver

end ShellFront
