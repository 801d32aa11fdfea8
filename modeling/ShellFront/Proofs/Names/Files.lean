import ShellFront.Proofs.Places.Scripts

/-!
# Several files, one resolver

A resolver may take program after program. All that one program leaves behind for the next is the length of
what is known so far: bindings and scopes get higher indices, and nothing else changes, since no scope stays
open between programs. So what one resolver makes of several files is what fresh ones make of each, put one
after the other.

References are kept by their place, so this needs places to differ from file to file. They do when the files have
different names, since the names that a program uses stand in its own file.

## Contents
- `Table.append`, `Table.join`, `Resolver.append`: one thing after another.
- `Resolver.run_after`: a run after others is the run by itself, put after them.
- `Resolver.fresh_bounded`, `Program.IsParsed.references_stay`: what a program refers to.
- `Resolver.resolve_each`: program after program.
- `resolve_files`.
-/

namespace ShellFront

/-! ## One after the other -/

/-- A binding when `old` comes before its table. -/
def Binding.after (old : Table) (b : Binding) : Binding := { b with scope := old.scopes.size + b.scope }

/-- A scope when `old` comes before its table. -/
def Scope.after (old : Table) (s : Scope) : Scope := { s with parent := s.parent.map (old.scopes.size + ·) }

/-- A reference when `old` comes before its table. -/
def Reference.after (old : Table) (r : Reference) : Reference :=
  { r with binding := r.binding.map (old.bindings.size + ·) }

/-- An open frame when `old` comes before its table. -/
def Frame.after (old : Table) (frame : Frame) : Frame where
  scope := old.scopes.size + frame.scope
  names := frame.names.map fun (name, i) => (name, old.bindings.size + i)

namespace Table

variable (old new : Table)

/-- One table after another: its indices go on where those of the other end. -/
def append (old new : Table) : Table where
  bindings := old.bindings ++ new.bindings.map (·.after old)
  scopes := old.scopes ++ new.scopes.map (·.after old)
  references := old.references ++ new.references.map (·.after old)

/-- Tables one after the other. -/
def join (tables : List Table) : Table := tables.foldl append empty

/-- No reference stands where one of `uses` does. -/
def Avoids (table : Table) (uses : List NameUse) : Prop :=
  ∀ r ∈ table.references, ∀ m ∈ uses, r.site.span ≠ m.site.span

theorem append_bindings_size : (old.append new).bindings.size = old.bindings.size + new.bindings.size := by
  rw [append, Array.size_append, Array.size_map]

theorem append_scopes_size : (old.append new).scopes.size = old.scopes.size + new.scopes.size := by
  rw [append, Array.size_append, Array.size_map]

theorem append_addBinding (b : Binding) :
    (old.append new).addBinding (b.after old) = old.append (new.addBinding b) := by
  simp only [append, addBinding, Array.map_push, Array.append_push]

theorem append_addScope (s : Scope) : (old.append new).addScope (s.after old) = old.append (new.addScope s) := by
  simp only [append, addScope, Array.map_push, Array.append_push]

/-- A reference is recorded in the second table if the first one has none at its place. -/
theorem append_addReference (r : Reference) (h : ∀ r' ∈ old.references, r'.site.span ≠ r.site.span) :
    (old.append new).addReference (r.after old) = old.append (new.addReference r) := by
  have hold : old.references.findIdx? (fun r' => r'.site.span == r.site.span) = none := by
    rw [Array.findIdx?_eq_none_iff]
    exact fun r' hr' => beq_eq_false_iff_ne.mpr (h r' hr')
  have hplace : (append old new).references.findIdx? (fun r' => r'.site.span == (r.after old).site.span) =
      (new.references.findIdx? fun r' => r'.site.span == r.site.span).map (· + old.references.size) := by
    rw [append, Array.findIdx?_append, Array.findIdx?_map]
    show (old.references.findIdx? fun r' => r'.site.span == r.site.span).or _ = _
    rw [hold]
    rfl
  unfold addReference
  rw [hplace]
  cases new.references.findIdx? fun r' => r'.site.span == r.site.span with
  | none => simp only [Option.map_none, append, Array.map_push, Array.append_push]
  | some i =>
      simp only [Option.map_some, append, Array.map_setIfInBounds]
      rw [Array.setIfInBounds_append_right (Nat.le_add_left _ _), Nat.add_sub_cancel]

end Table

/-- A name denotes in later frames what it denotes in the frames, put later. -/
theorem lookup?_after (old : Table) (frames : List Frame) (name : String) :
    lookup? (frames.map (Frame.after old)) name = (lookup? frames name).map (old.bindings.size + ·) := by
  have hnames (names : List (String × Nat)) :
      (names.map fun (name, i) => (name, old.bindings.size + i)).lookup name =
        (names.lookup name).map (old.bindings.size + ·) := by
    induction names with
    | nil => rfl
    | cons p names ih =>
        rw [List.map_cons, List.lookup_cons, List.lookup_cons]
        cases name == p.1 with
        | true => rfl
        | false => exact ih
  induction frames with
  | nil => rfl
  | cons frame frames ih =>
      rw [lookup?] at ih ⊢
      rw [List.map_cons, List.findSome?_cons, lookup?, List.findSome?_cons, ih]
      rw [show (frame.after old).find? name = (frame.find? name).map (old.bindings.size + ·) from hnames frame.names]
      cases frame.find? name <;> rfl

theorem head?_after (old : Table) (frames : List Frame) :
    (frames.map (Frame.after old)).head?.map Frame.scope =
      (frames.head?.map Frame.scope).map (old.scopes.size + ·) := by
  cases frames <;> rfl

/-! ## Runs -/

namespace Resolver

variable (first second : Resolver) (frames : List Frame)

/-- What one resolver knows after what another one does. -/
def append (first second : Resolver) : Resolver where
  table := first.table.append second.table
  report := ⟨first.report.entries ++ second.report.entries⟩

theorem append_define (kind : BindingKind) (name : String) (site : Site) :
    (first.append second).define kind name site (frames.map (Frame.after first.table)) =
      (first.append (second.define kind name site frames).1,
        (second.define kind name site frames).2.map (Frame.after first.table)) := by
  cases frames with
  | nil => rfl
  | cons frame outer =>
      have htable := first.table.append_addBinding second.table ⟨kind, name, site, frame.scope⟩
      have hindex := first.table.append_bindings_size second.table
      rw [List.map_cons, define, define, List.map_cons]
      refine Prod.ext ?_ ?_
      · exact congrArg (Resolver.mk · _) htable
      · refine congrArg (List.cons · _) ?_
        show Frame.mk _ ((name, (first.table.append second.table).bindings.size) :: _) = _
        rw [hindex]
        rfl

theorem append_use (role : Role) (name : String) (site : Site)
    (h : ∀ r ∈ first.table.references, r.site.span ≠ site.span) :
    (first.append second).use role name site (frames.map (Frame.after first.table)) =
      first.append (second.use role name site frames) := by
  have htable := first.table.append_addReference second.table ⟨role, name, site, lookup? frames name⟩ h
  have hlookup := lookup?_after first.table frames name
  unfold use
  dsimp only
  rw [hlookup, Option.isNone_map]
  refine (Resolver.mk.injEq ..).mpr ⟨htable, ?_⟩
  split
  · exact congrArg Report.mk Array.append_push.symm
  · rfl

theorem append_enter (kind : ScopeKind) (span : Span) :
    (first.append second).enter kind span (frames.map (Frame.after first.table)) =
      first.append (second.enter kind span frames) := by
  have htable := first.table.append_addScope second.table ⟨kind, frames.head?.map Frame.scope, span⟩
  unfold enter
  rw [head?_after]
  exact congrArg (Resolver.mk · _) htable

theorem append_entered :
    (first.append second).entered (frames.map (Frame.after first.table)) =
      (second.entered frames).map (Frame.after first.table) := by
  show Frame.mk (first.table.append second.table).scopes.size [] :: _ = _
  rw [Table.append_scopes_size]
  rfl

mutual

/-- **What an event does does not depend on what is known from before**: it is done after that. -/
theorem run_after (first second : Resolver) (frames : List Frame) : ∀ e : Event,
    first.table.Avoids e.nameUses →
    (first.append second).run (frames.map (Frame.after first.table)) e =
      (first.append (second.run frames e).1, (second.run frames e).2.map (Frame.after first.table))
  | .define kind name site => by
      intro _
      rw [run, run]
      exact append_define first second frames kind name site
  | .use role name site => by
      intro havoids
      rw [run, run, append_use first second frames role name site fun r hr =>
        havoids r hr _ (List.mem_singleton_self _)]
  | .assign name statement target => by
      intro havoids
      have huse := append_use first second frames .variableName name target fun r hr =>
        havoids r hr _ (List.mem_singleton_self _)
      rw [run, run, lookup?_after, Option.isNone_map]
      split
      · exact append_define first second frames .variableName name statement
      · exact congrArg (Prod.mk · _) huse
  | .scope kind span events => by
      intro havoids
      have hinside := runAll_after first (second.enter kind span frames) (second.entered frames) events havoids
      rw [run_scope, run_scope, append_enter, append_entered, hinside]

theorem runAll_after (first second : Resolver) (frames : List Frame) : ∀ es : List Event,
    first.table.Avoids (Event.allNameUses es) →
    (first.append second).runAll (frames.map (Frame.after first.table)) es =
      (first.append (second.runAll frames es).1, (second.runAll frames es).2.map (Frame.after first.table))
  | [] => by
      intro _
      rw [runAll, runAll]
  | e :: es => by
      intro havoids
      have hfirst := run_after first second frames e fun r hr m hm => havoids r hr m (List.mem_append_left _ hm)
      rw [runAll_cons, runAll_cons, hfirst]
      exact runAll_after first _ _ es fun r hr m hm => havoids r hr m (List.mem_append_right _ hm)

end

/-- What a resolver knows is what it knew by itself, put after nothing. -/
theorem append_start (first : Resolver) : first.append (start .empty) = first := by
  obtain ⟨⟨bindings, scopes, references⟩, ⟨entries⟩⟩ := first
  simp [append, start, Table.append, Table.empty, Report.empty]

/-- A resolver of its own for a program. -/
def fresh (p : Program) : Resolver := (start .empty).resolve p

/-- **A program is resolved as by itself**, after what is known already, if no reference stands where it uses a
    name. -/
theorem resolve_after (first : Resolver) (p : Program)
    (h : first.table.Avoids (Event.allNameUses (Node.allEvents p.statements))) :
    first.resolve p = first.append (fresh p) := by
  have hrun := run_after first (start .empty) [] p.event h
  rw [append_start, List.map_nil] at hrun
  rw [resolve, hrun]
  rfl

/-- References are made at moments of the program. -/
theorem fresh_references (p : Program) {r : Reference} (hr : r ∈ (fresh p).table.references) :
    ∃ m ∈ (start .empty).moments [] p.event, m.reference? = some r :=
  (run_references (start .empty) [] p.event r hr).resolve_left (Array.not_mem_empty r)

/-- What a reference denotes is in the table. -/
theorem fresh_bounded (p : Program) {r : Reference} (hr : r ∈ (fresh p).table.references) {i : Nat}
    (hi : r.binding = some i) : i < (fresh p).table.bindings.size := by
  have hempty : Faithful (start .empty).table [] := by
    constructor <;> simp [start, Table.empty]
  obtain ⟨m, hm, hmakes⟩ := fresh_references p hr
  rw [m.binding_of_reference? hmakes] at hi
  obtain ⟨_, _, _, -, hnewest, -⟩ := (moments_faithful hempty p.event m hm).lookup?_denotes hi
  exact Nat.lt_of_lt_of_le hnewest.1.lt (moments_within _ _ p.event m hm).2.bindings_size

end Resolver

/-- A reference stands at a use. -/
theorem Moment.reference?_place {m : Moment} {r : Reference} (h : m.reference? = some r) :
    ∃ u, m.event.nameUse? = some u ∧ r.site = u.site := by
  obtain ⟨resolver, frames, event⟩ := m
  cases event with
  | define | scope => exact nomatch h
  | use role name site =>
      obtain rfl := Option.some.inj h
      exact ⟨_, rfl, rfl⟩
  | assign name statement target =>
      obtain ⟨i, -, rfl⟩ := Option.map_eq_some_iff.mp h
      exact ⟨_, rfl, rfl⟩

/-! ## Programs of a file -/

theorem parse_file (source file : String) (failFast : Bool) (isBuiltin : String → Bool) :
    (parse source file failFast isBuiltin).program.file = file := by
  obtain ⟨s, htokens, -⟩ := tokenize_script source file
  obtain ⟨list, st', hrun⟩ := script_reads htokens failFast isBuiltin
  rw [(parse_of_run failFast hrun).1]

namespace Program

variable {p : Program}

/-- A program is what the parser made of some script. -/
def IsParsed (p : Program) : Prop :=
  ∃ source file failFast isBuiltin, p = (parse source file failFast isBuiltin).program

/-- A program uses names in its own file. -/
theorem IsParsed.uses_stay (h : p.IsParsed) :
    ∀ m ∈ Event.allNameUses (Node.allEvents p.statements), m.site.span.file = p.file := by
  obtain ⟨source, file, failFast, isBuiltin, rfl⟩ := h
  intro m hm
  obtain ⟨u, hu, hsite⟩ := parse_uses_stand source file failFast isBuiltin m hm
  rw [parse_file, hsite]
  exact (parse_nodes_exact source file failFast isBuiltin u hu).file

/-- The references of a program are in its own file. -/
theorem IsParsed.references_stay (h : p.IsParsed) :
    ∀ r ∈ (Resolver.fresh p).table.references, r.site.span.file = p.file := by
  intro r hr
  obtain ⟨m, hm, hmakes⟩ := Resolver.fresh_references p hr
  obtain ⟨u, hu, hsite⟩ := m.reference?_place hmakes
  rw [hsite]
  apply h.uses_stay
  have huses : _ = Event.allNameUses (Node.allEvents p.statements) :=
    Resolver.moments_nameUses (.start .empty) [] p.event
  rw [← huses]
  exact List.mem_filterMap.mpr ⟨m, hm, hu⟩

end Program

/-! ## Several files -/

namespace Table

theorem join_append (tables : List Table) (table : Table) :
    join (tables ++ [table]) = (join tables).append table := by
  rw [join, List.foldl_append]
  rfl

/-- A reference of tables one after the other is one of them, put after those before its own. -/
theorem mem_join_references {tables : List Table} {r : Reference} (hr : r ∈ (join tables).references) :
    ∃ k, ∃ table : Table, tables[k]? = some table ∧
      ∃ r' : Reference, r' ∈ table.references ∧ r = r'.after (join (tables.take k)) := by
  induction tables using List.reverseRecOn with
  | nil => exact absurd hr (Array.not_mem_empty r)
  | append_singleton tables table ih =>
      rw [join_append, append, Array.mem_append, Array.mem_map] at hr
      rcases hr with hr | ⟨r', hr', rfl⟩
      · obtain ⟨k, other, hk, hmade⟩ := ih hr
        have hlt := (List.getElem?_eq_some_iff.mp hk).1
        refine ⟨k, other, by rw [List.getElem?_append_left hlt, hk], ?_⟩
        rwa [List.take_append_of_le_length (Nat.le_of_lt hlt)]
      · refine ⟨tables.length, table, List.getElem?_concat_length, r', hr', ?_⟩
        rw [List.take_left]

end Table

namespace Resolver

theorem foldl_append_table (first : Resolver) (others : List Resolver) :
    (others.foldl append first).table = (others.map Resolver.table).foldl Table.append first.table := by
  rw [List.foldl_map]
  exact (List.foldl_hom Resolver.table (fun _ _ => rfl)).symm

theorem foldl_append_report (first : Resolver) (others : List Resolver) :
    (others.foldl append first).report.toList =
      first.report.toList ++ others.flatMap fun other => other.report.toList := by
  induction others generalizing first with
  | nil => exact (List.append_nil _).symm
  | cons other others ih =>
      have happend : (first.append other).report.toList = first.report.toList ++ other.report.toList :=
        Array.toList_append
      rw [List.foldl_cons, ih, happend, List.flatMap_cons, List.append_assoc]

/-- **Programs of different files are resolved each by itself**, one after the other. -/
theorem resolve_each (first : Resolver) (programs : List Program) (hparsed : ∀ p ∈ programs, p.IsParsed)
    (hdistinct : (programs.map Program.file).Nodup)
    (hapart : ∀ r ∈ first.table.references, ∀ p ∈ programs, r.site.span.file ≠ p.file) :
    programs.foldl resolve first = (programs.map fresh).foldl append first := by
  induction programs generalizing first with
  | nil => rfl
  | cons p programs ih =>
      obtain ⟨hp, hparsed⟩ := List.forall_mem_cons.mp hparsed
      obtain ⟨hother, hdistinct⟩ := List.nodup_cons.mp hdistinct
      have hafter : first.resolve p = first.append (fresh p) := by
        apply resolve_after
        intro r hr m hm heq
        exact hapart r hr p List.mem_cons_self (heq ▸ hp.uses_stay m hm)
      rw [List.foldl_cons, List.map_cons, List.foldl_cons, hafter]
      refine ih _ hparsed hdistinct fun r hr q hq => ?_
      rcases Array.mem_append.mp hr with hr | hr
      · exact hapart r hr q (List.mem_cons_of_mem _ hq)
      · -- a reference that was just made is in the file of its own program
        obtain ⟨r', hr', rfl⟩ := Array.mem_map.mp hr
        intro heq
        have hfile : r'.site.span.file = p.file := hp.references_stay r' hr'
        exact hother (List.mem_map.mpr ⟨q, hq, heq.symm.trans hfile⟩)

end Resolver

/-- **One resolver for several files does what one for each would do.** When programs of files with different names
    are resolved one after the other, their bindings, scopes and references follow one another in the table, with
    the indices of each program shifted by all that comes before it, and so do the warnings. So what a reference in
    one of the files denotes is defined in the same file. -/
theorem resolve_files (programs : List Program) (hparsed : ∀ p ∈ programs, p.IsParsed)
    (hdistinct : (programs.map Program.file).Nodup) (report : Report) :
    let resolver := programs.foldl Resolver.resolve (.start report)
    let tables := programs.map fun p => (Resolver.fresh p).table
    resolver.table = .join tables ∧
      resolver.report.toList = report.toList ++ programs.flatMap (fun p => (Resolver.fresh p).report.toList) ∧
      ∀ k p, programs[k]? = some p → ∀ r ∈ resolver.table.references, r.site.span.file = p.file →
        ∀ i, r.binding = some i →
          (Table.join (tables.take k)).bindings.size ≤ i ∧
            i < (Table.join (tables.take k)).bindings.size + (Resolver.fresh p).table.bindings.size := by
  intro resolver tables
  have heach : resolver = (programs.map Resolver.fresh).foldl Resolver.append (.start report) :=
    Resolver.resolve_each (.start report) programs hparsed hdistinct fun r hr => absurd hr (Array.not_mem_empty r)
  have htable : resolver.table = .join tables := by
    rw [heach, Resolver.foldl_append_table, List.map_map]
    rfl
  refine ⟨htable, ?_, ?_⟩
  · rw [heach, Resolver.foldl_append_report, List.flatMap_map]
    rfl
  · intro k p hk r hr hfile i hi
    rw [htable] at hr
    obtain ⟨k', table, hk', r', hr', rfl⟩ := Table.mem_join_references hr
    rw [List.getElem?_map, Option.map_eq_some_iff] at hk'
    obtain ⟨q, hq, rfl⟩ := hk'
    -- only one of the programs has the file of the reference
    have hstays : r'.site.span.file = q.file := (hparsed q (List.mem_of_getElem? hq)).references_stay r' hr'
    have hsame : (programs.map Program.file)[k]? = (programs.map Program.file)[k']? := by
      rw [List.getElem?_map, List.getElem?_map, hk, hq, Option.map_some, Option.map_some, ← hstays, ← hfile]
      rfl
    have hlt : k < (programs.map Program.file).length := by
      rw [List.length_map]
      exact (List.getElem?_eq_some_iff.mp hk).1
    obtain rfl := (List.getElem?_inj hlt hdistinct).mp hsame
    obtain rfl : p = q := Option.some.inj (hk.symm.trans hq)
    obtain ⟨j, hj, rfl⟩ := Option.map_eq_some_iff.mp hi
    exact ⟨Nat.le_add_right _ _, Nat.add_lt_add_left (Resolver.fresh_bounded p hr' hj) _⟩

/-- The second file defines a name of its own that the first one defines as well, and uses it; it does not see the
    other name of the first file. -/
theorem resolve_files_shared_name :
    let first := (parse "let x = 1\nlet y = $x" "a" false fun _ => false).program
    let second := (parse "let x = 2\nlet z = $x + $y" "b" false fun _ => false).program
    let resolver := [first, second].foldl Resolver.resolve (.start .empty)
    (first.IsParsed ∧ second.IsParsed) ∧ ([first, second].map Program.file).Nodup ∧
      resolver.table = .join [(Resolver.fresh first).table, (Resolver.fresh second).table] ∧
      resolver.table.references.toList.map Reference.binding = [some 0, some 2, none] ∧
      resolver.report.size = 1 := by
  intro first second resolver
  have hfirst : first.IsParsed := ⟨_, _, _, _, rfl⟩
  have hsecond : second.IsParsed := ⟨_, _, _, _, rfl⟩
  have hparsed : ∀ p ∈ [first, second], p.IsParsed :=
    List.forall_mem_cons.mpr ⟨hfirst, List.forall_mem_singleton.mpr hsecond⟩
  have hdistinct : ([first, second].map Program.file).Nodup := by
    rw [List.map_cons, List.map_singleton, parse_file, parse_file]
    decide
  obtain ⟨htable, -, -⟩ := resolve_files [first, second] hparsed hdistinct .empty
  have hbindings : resolver.table.references.toList.map Reference.binding = [some 0, some 2, none] := by decide +kernel
  have hsize : resolver.report.size = 1 := by decide +kernel
  exact ⟨⟨hfirst, hsecond⟩, hdistinct, htable, hbindings, hsize⟩

end ShellFront
