import ShellFront.Proofs.Names.Warnings
import ShellFront.Proofs.Places.Exact
import ShellFront.Proofs.Places.Trees

/-!
# Places in a script

Whatever is made of tokens takes its places from them, and places are only ever covered. So a script is its own
twin in a further way: seen with the exact places of its offsets, it is the script as it is. That makes the places
of all nodes exact, and of all messages of the parser; the resolver reports at nodes of the tree.

## Contents
- `Seam.measured`, a script and itself with exact places.
- `parse_measured`, `parse_nodes_exact`, `parse_report_exact`.
- `places_exact`.
-/

namespace ShellFront

open Outlined Parse

variable {source file : String}

/-! ## Scripts with exact places -/

/-- An exact span is the one that its offsets call for. -/
theorem Span.Exact.eq {text : List Char} {span : Span} (h : span.Exact file text) :
    span.exactly file text = span := by
  obtain ⟨i, hi, hstart, hline, hcolumn⟩ := h.start
  obtain ⟨j, hj, hstop, hendLine, hendColumn⟩ := h.stop
  obtain ⟨name, line, column, start, stop, endLine, endColumn⟩ := span
  dsimp only at hstart hline hcolumn hstop hendLine hendColumn
  obtain rfl : name = file := h.file
  subst hstart hline hcolumn hstop hendLine hendColumn
  simp [exactly, between, Position.after, Nat.min_eq_left hi, Nat.min_eq_left hj]

/-- A script and itself with the exact places of its offsets. -/
def Seam.measured (s : Script) (file : String) (text : List Char) (isBuiltin : String → Bool)
    (hexact : ∀ t ∈ s.tokens, t.span.Exact file text) (hstarts : ∀ t ∈ s.body.head?, t.kind ≠ .newline) : Seam :=
  { Seam.same s .plain .plain isBuiltin isBuiltin View.plain_steady View.plain_steady (View.builtin_self .plain isBuiltin)
      (View.qualified_self .plain) hstarts with
    left := .placing id
    right := .placing (Span.exactly file text)
    alike := by
      refine List.map_congr_left fun t ht => ?_
      have heq := (hexact t (List.mem_append_left _ ht)).eq
      rw [Token.view, Token.view]
      exact congrArg (fun span => { t with span := span }) heq.symm
    cover := by
      intro span other span' other' h h'
      have hcover := Span.exactly_cover file text span' other'
      exact (congrArg₂ Span.cover h h').trans hcover.symm
    text := fun _ => rfl
    builtin := fun _ => rfl
    qualified := fun _ _ => rfl
    whole := by
      refine fun _ => ⟨?_, rfl⟩
      have heq := (hexact s.last (List.mem_append_right _ (List.mem_singleton_self _))).eq
      exact congrArg (fun span => { s.last with span := span }) heq.symm }

/-! ## Trees and messages -/

/-- Every message about a script has a place. -/
theorem parse_report_placed (source file : String) (failFast : Bool) (isBuiltin : String → Bool) :
    ∀ d ∈ (parse source file failFast isBuiltin).report.toList, d.span.isSome := by
  obtain ⟨s, htokens, -⟩ := tokenize_script source file
  obtain ⟨list, st', hrun, hended⟩ := script_lenient htokens ⟨.top true, isBuiltin⟩
  obtain ⟨es, hes⟩ := hended.grows
  have hlenient : ∀ d ∈ st'.report.toList, d.span.isSome := by
    intro d hd
    rw [hes] at hd
    rcases List.mem_append.mp hd with hd | hd
    · obtain ⟨span, hspan, -⟩ := (tokenize_measured source file).2 d hd
      rw [hspan]
      rfl
    · obtain ⟨e, -, rfl⟩ := List.mem_map.mp hd
      rfl
  cases failFast with
  | false => rwa [(parse_of_run false hrun).2]
  | true =>
      -- a strict reading reports no more than the lenient one
      obtain ⟨kept, -, st₁, hstrict, -, -, -, ⟨es', hes'⟩, -⟩ :=
        (hrun ▸ script_runs htokens ⟨.top true, isBuiltin⟩).strict
      rw [(parse_of_run true hstrict).2]
      intro d hd
      exact hlenient d (by rw [hes']; exact List.mem_append_left _ hd)

/-- **A script is read with exact places**: seen with the places that its offsets call for, its nodes and the
    messages about it are as they are. -/
theorem parse_measured (source file : String) (failFast : Bool) (isBuiltin : String → Bool) :
    let parsed := parse source file failFast isBuiltin
    parsed.program.statements.map (Node.view (.placing id)) =
        parsed.program.statements.map (Node.view (.placing (Span.exactly file source.toList))) ∧
      parsed.report.toList.map (Diagnostic.view (.placing (Span.exactly file source.toList))) =
        parsed.report.toList.map (Diagnostic.view (.placing id)) := by
  obtain ⟨s, htokens, -⟩ := tokenize_script source file
  obtain ⟨hexact, hlexical⟩ := tokenize_measured source file
  rw [htokens] at hexact
  let b := Seam.measured s file source.toList isBuiltin hexact (Script.starts htokens)
  have hreport : b.Agrees (tokenize source file).report (tokenize source file).report := by
    refine List.map_congr_left fun d hd => ?_
    obtain ⟨span, hspan, heq⟩ := hlexical d hd
    rw [Diagnostic.view, Diagnostic.view, hspan]
    exact congrArg (fun span => { d with span := some span }) heq.eq
  obtain ⟨list, list', st₁, st₁', hrun, hrun', hlike, hagrees⟩ :=
    Seam.reads_alike (b := b) htokens rfl rfl rfl hreport failFast
  -- both readings are the same one
  rw [show b.isBuiltin' = b.isBuiltin from rfl, hrun] at hrun'
  obtain ⟨rfl, rfl⟩ := EStateM.Result.ok.inj hrun'
  obtain ⟨hprogram, hreported⟩ := @parse_of_run source file failFast isBuiltin list st₁ hrun
  dsimp only
  rw [hprogram, hreported]
  exact ⟨hlike, hagrees⟩

/-- The places of trees that are seen alike are seen alike. -/
theorem Moved.congr {place place' : Span → Span} {ts us : List Outline} (h : Moved place ts us)
    (h' : Moved place' ts us) : ∀ u ∈ Outline.preorders ts, place u.span = place' u.span := by
  intro u hu
  have hsame : (Outline.places ts).map place = (Outline.places ts).map place' := h.symm.trans h'
  exact List.map_inj_left.mp hsame u.span (List.mem_map_of_mem hu)

/-- The span of a script is exact. -/
theorem scriptSpan_exact (source file : String) : (scriptSpan source file).Exact file source.toList := by
  obtain ⟨s, htokens, -⟩ := tokenize_script source file
  obtain ⟨hbefore, hfirst⟩ := first_cursor htokens
  have hlast : s.last.span.Exact file source.toList := by
    apply (tokenize_measured source file).1
    rw [htokens]
    exact List.mem_append_right _ (List.mem_singleton_self _)
  rw [scriptSpan, Cursor.last_of_before_nil hfirst hbefore]
  constructor
  · rfl
  · exact ⟨0, Nat.zero_le _, rfl, rfl, rfl⟩
  · exact hlast.stop

/-- **The nodes of a script** say exactly where they are. -/
theorem parse_nodes_exact (source file : String) (failFast : Bool) (isBuiltin : String → Bool) :
    ∀ u ∈ (parse source file failFast isBuiltin).program.outline.walk, u.span.Exact file source.toList := by
  obtain ⟨hseen, -⟩ := parse_measured source file failFast isBuiltin
  obtain ⟨s, htokens, -⟩ := tokenize_script source file
  have hspan := (parse_laid htokens failFast isBuiltin (w := .nothing) fun _ => .inl rfl).1
  generalize (parse source file failFast isBuiltin).program = p at hseen hspan ⊢
  rw [Outline.walk_eq_preorder, Outline.preorder_eq]
  refine List.forall_mem_cons.mpr ⟨?_, fun u hu => ?_⟩
  · show p.span.Exact file source.toList
    rw [hspan]
    exact scriptSpan_exact source file
  · have hplain := (Node.views_seen (g := .placing id) p.statements).moved rfl
    have hexact := (Node.views_seen (g := .placing (Span.exactly file source.toList)) p.statements).moved rfl
    rw [Node.views_eq, hseen] at hplain
    rw [Node.views_eq] at hexact
    exact Span.exact_of_eq (hplain.congr hexact u hu)

/-- **What is reported about a script** says exactly where it belongs. -/
theorem parse_report_exact (source file : String) (failFast : Bool) (isBuiltin : String → Bool) :
    ∀ d ∈ (parse source file failFast isBuiltin).report.toList, d.Exact file source.toList := by
  intro d hd
  obtain ⟨span, hspan⟩ := Option.isSome_iff_exists.mp (parse_report_placed source file failFast isBuiltin d hd)
  have hseen := congrArg Diagnostic.span
    (List.map_inj_left.mp (parse_measured source file failFast isBuiltin).2 d hd)
  rw [Diagnostic.view, Diagnostic.view, hspan] at hseen
  exact ⟨span, hspan, Span.exact_of_eq (Option.some.inj hseen).symm⟩

/-- The names that a program uses stand at nodes of its tree. -/
theorem parse_uses_stand (source file : String) (failFast : Bool) (isBuiltin : String → Bool) :
    let program := (parse source file failFast isBuiltin).program
    ∀ m ∈ Event.allNameUses (Node.allEvents program.statements), ∃ u ∈ program.outline.walk, m.site = u.site := by
  have htells := parse_tells source file failFast isBuiltin
  intro program m hm
  have hplain : program.outline.usesBelow = Outline.uses (Node.outlines program.statements) :=
    Outline.usesFrom_plain rfl
  rw [htells.uses.mem_iff, ← hplain] at hm
  obtain ⟨u, hu, hsite⟩ := program.outline.site_of_usesBelow m hm
  refine ⟨u, ?_, hsite⟩
  rw [Outline.walk_eq_preorder, Outline.preorder_eq]
  exact List.mem_cons_of_mem _ hu

/-- **Positions agree with offsets everywhere.** The tokens of a script, the nodes of its tree in both modes, and
    all that the lexer, the parser and the resolver report about it carry the name of its file, and the lines and
    columns at which they begin and end are those of the text before their offsets. -/
theorem places_exact (source file : String) (failFast : Bool) (isBuiltin : String → Bool) :
    let parsed := parse source file failFast isBuiltin
    (∀ t ∈ (tokenize source file).tokens, t.span.Exact file source.toList) ∧
      (∀ u ∈ parsed.program.outline.walk, u.span.Exact file source.toList) ∧
      ∀ d ∈ (resolve parsed.program parsed.report).report.toList, d.Exact file source.toList := by
  intro parsed
  have hnodes := parse_nodes_exact source file failFast isBuiltin
  refine ⟨(tokenize_measured source file).1, hnodes, fun d hd => ?_⟩
  rcases resolve_reported parsed.program parsed.report hd with hd | ⟨m, hm, hspan⟩
  · exact parse_report_exact source file failFast isBuiltin d hd
  · obtain ⟨u, hu, hsite⟩ := parse_uses_stand source file failFast isBuiltin m hm
    refine ⟨u.span, ?_, hnodes u hu⟩
    rw [hspan, hsite]
    rfl

end ShellFront
