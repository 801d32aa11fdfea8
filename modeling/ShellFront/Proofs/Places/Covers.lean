import ShellFront.Source.Span

/-!
# Covers of many spans

A cover is the join of two spans in the order of containment. The lines and columns of a span take no part in that order
but are not lost: a cover begins in lines and columns where a span with the least start does, and it ends where one with
the greatest end does. That settles all fields of the cover of many spans, however they are joined, if spans that begin
or end at one offset do so on one line and column.

## Contents
- `Span.BeginsAs`, `Span.EndsAs`, and `Span.Hull`, what a cover of many spans is.
- `Span.hull_cover` and `Span.Hull.cover`: covers of two spans, and of two hulls.
- `Span.Joins`, every way to join spans in pairs, and `Span.Joins.hull`.
- `Span.cover_join`.
-/

namespace ShellFront.Span

variable {a b c s s' : Span} {as bs : List Span}

/-! ## Where a span begins and ends -/

/-- A span begins at the offset, in the line and in the column where another one begins. -/
structure BeginsAs (s a : Span) : Prop where
  start : s.start = a.start
  line : s.line = a.line
  column : s.column = a.column

/-- A span ends at the offset, in the line and in the column where another one ends. -/
structure EndsAs (s a : Span) : Prop where
  stop : s.stop = a.stop
  endLine : s.endLine = a.endLine
  endColumn : s.endColumn = a.endColumn

theorem BeginsAs.trans (h : s.BeginsAs a) (h' : a.BeginsAs b) : s.BeginsAs b :=
  ⟨h.start.trans h'.start, h.line.trans h'.line, h.column.trans h'.column⟩

theorem EndsAs.trans (h : s.EndsAs a) (h' : a.EndsAs b) : s.EndsAs b :=
  ⟨h.stop.trans h'.stop, h.endLine.trans h'.endLine, h.endColumn.trans h'.endColumn⟩

/-- A span is a **hull** of others: it is of the file of one of them, begins as one with the least start and ends as one
    with the greatest end. -/
structure Hull (as : List Span) (s : Span) : Prop where
  file : ∃ a ∈ as, s.file = a.file
  first : ∃ a ∈ as, s.BeginsAs a ∧ ∀ b ∈ as, a.start ≤ b.start
  last : ∃ a ∈ as, s.EndsAs a ∧ ∀ b ∈ as, b.stop ≤ a.stop

theorem hull_single (a : Span) : Hull [a] a where
  file := ⟨a, List.mem_singleton_self a, rfl⟩
  first := ⟨a, List.mem_singleton_self a, ⟨rfl, rfl, rfl⟩, fun _ hb => (List.mem_singleton.mp hb) ▸ Int.le_refl _⟩
  last := ⟨a, List.mem_singleton_self a, ⟨rfl, rfl, rfl⟩, fun _ hb => (List.mem_singleton.mp hb) ▸ Int.le_refl _⟩

/-- Only which spans there are matters to a hull. -/
theorem Hull.congr (h : Hull as s) (hmem : ∀ a, a ∈ as ↔ a ∈ bs) : Hull bs s := by
  obtain ⟨⟨a, ha, hfile⟩, ⟨b, hb, hbegins, hleast⟩, ⟨c, hc, hends, hgreatest⟩⟩ := h
  exact ⟨⟨a, (hmem a).mp ha, hfile⟩, ⟨b, (hmem b).mp hb, hbegins, fun d hd => hleast d ((hmem d).mpr hd)⟩,
    ⟨c, (hmem c).mp hc, hends, fun d hd => hgreatest d ((hmem d).mpr hd)⟩⟩

/-! ## Covers -/

/-- A cover begins as the first of the two spans does. -/
theorem cover_beginsAs (a b : Span) :
    (a.start ≤ b.start ∧ (a.cover b).BeginsAs a) ∨ (b.start ≤ a.start ∧ (a.cover b).BeginsAs b) := by
  by_cases h : a.start ≤ b.start
  · exact .inl ⟨h, by constructor <;> simp only [cover, if_pos h]⟩
  · exact .inr ⟨by omega, by constructor <;> simp only [cover, if_neg h]⟩

/-- A cover ends as the last of the two spans does. -/
theorem cover_endsAs (a b : Span) :
    (b.stop ≤ a.stop ∧ (a.cover b).EndsAs a) ∨ (a.stop ≤ b.stop ∧ (a.cover b).EndsAs b) := by
  -- which one that is when both ends are equal depends on the starts
  by_cases hstart : a.start ≤ b.start
  · by_cases hstop : a.stop > b.stop
    · exact .inl ⟨by omega, by constructor <;> simp only [cover, if_pos hstart, if_pos hstop]⟩
    · exact .inr ⟨by omega, by constructor <;> simp only [cover, if_pos hstart, if_neg hstop]⟩
  · by_cases hstop : b.stop > a.stop
    · exact .inr ⟨by omega, by constructor <;> simp only [cover, if_neg hstart, if_pos hstop]⟩
    · exact .inl ⟨by omega, by constructor <;> simp only [cover, if_neg hstart, if_neg hstop]⟩

/-- **A cover of two hulls is a hull of all.** -/
theorem Hull.cover (ha : Hull as a) (hb : Hull bs b) : Hull (as ++ bs) (a.cover b) := by
  obtain ⟨⟨c, hc, hfile⟩, ⟨first, hfirst, hbegins, hleast⟩, ⟨last, hlast, hends, hgreatest⟩⟩ := ha
  obtain ⟨-, ⟨first', hfirst', hbegins', hleast'⟩, ⟨last', hlast', hends', hgreatest'⟩⟩ := hb
  have hstart := hbegins.start
  have hstart' := hbegins'.start
  have hstop := hends.stop
  have hstop' := hends'.stop
  refine ⟨⟨c, List.mem_append_left bs hc, hfile⟩, ?_, ?_⟩
  · -- the cover begins as the earlier of the two does
    rcases cover_beginsAs a b with ⟨hle, hcover⟩ | ⟨hle, hcover⟩
    · refine ⟨first, List.mem_append_left bs hfirst, hcover.trans hbegins, fun d hd => ?_⟩
      rcases List.mem_append.mp hd with hd | hd
      · exact hleast d hd
      · have := hleast' d hd
        omega
    · refine ⟨first', List.mem_append_right as hfirst', hcover.trans hbegins', fun d hd => ?_⟩
      rcases List.mem_append.mp hd with hd | hd
      · have := hleast d hd
        omega
      · exact hleast' d hd
  · -- and ends as the later one does
    rcases cover_endsAs a b with ⟨hle, hcover⟩ | ⟨hle, hcover⟩
    · refine ⟨last, List.mem_append_left bs hlast, hcover.trans hends, fun d hd => ?_⟩
      rcases List.mem_append.mp hd with hd | hd
      · exact hgreatest d hd
      · have := hgreatest' d hd
        omega
    · refine ⟨last', List.mem_append_right as hlast', hcover.trans hends', fun d hd => ?_⟩
      rcases List.mem_append.mp hd with hd | hd
      · have := hgreatest d hd
        omega
      · exact hgreatest' d hd

theorem hull_cover (a b : Span) : Hull [a, b] (a.cover b) := (hull_single a).cover (hull_single b)

theorem contains_iff : s.contains a = true ↔ s.start ≤ a.start ∧ a.stop ≤ s.stop := by
  rw [contains, Bool.and_eq_true, decide_eq_true_iff, decide_eq_true_iff]

/-- A span contains a cover just when it contains both of its parts. -/
theorem contains_cover_iff : s.contains (a.cover b) = true ↔ s.contains a = true ∧ s.contains b = true := by
  rw [contains_iff, contains_iff, contains_iff, cover_start, cover_stop]
  omega

/-! ## Joining many spans -/

/-- The spans that come out when the spans of a list are joined in pairs until one is left. -/
inductive Joins : List Span → Span → Prop where
  | single (a : Span) : Joins [a] a
  | cover {as bs : List Span} {a b : Span} (ha : Joins as a) (hb : Joins bs b) : Joins (as ++ bs) (a.cover b)

theorem Joins.hull (h : Joins as s) : Hull as s := by
  induction h with
  | single a => exact hull_single a
  | cover _ _ iha ihb => exact iha.cover ihb

/-- Joining one span after the other is one of the ways. -/
theorem joins_foldl (h : Joins as a) (bs : List Span) : Joins (as ++ bs) (bs.foldl Span.cover a) := by
  induction bs generalizing as a with
  | nil => rwa [List.append_nil]
  | cons b bs ih =>
      rw [List.append_cons, List.foldl_cons]
      exact ih (h.cover (.single b))

/-- Two spans **agree**: they are of one file, where their starts are equal so are line and column, and where their ends
    are equal so are the lines and columns of the ends. -/
structure Agrees (a b : Span) : Prop where
  file : a.file = b.file
  start : a.start = b.start → a.line = b.line ∧ a.column = b.column
  stop : a.stop = b.stop → a.endLine = b.endLine ∧ a.endColumn = b.endColumn

theorem agrees_iff : a.Agrees b ↔ a.file = b.file ∧ (a.start = b.start → a.line = b.line ∧ a.column = b.column) ∧
    (a.stop = b.stop → a.endLine = b.endLine ∧ a.endColumn = b.endColumn) :=
  ⟨fun ⟨hfile, hstart, hstop⟩ => ⟨hfile, hstart, hstop⟩, fun ⟨hfile, hstart, hstop⟩ => ⟨hfile, hstart, hstop⟩⟩

instance (a b : Span) : Decidable (a.Agrees b) := decidable_of_iff _ agrees_iff.symm

/-- **Spans that agree have one hull.** -/
theorem Hull.unique (hagree : ∀ a ∈ as, ∀ b ∈ as, a.Agrees b) (h : Hull as s) (h' : Hull as s') : s = s' := by
  obtain ⟨⟨c, hc, hfile⟩, ⟨first, hfirst, hbegins, hleast⟩, ⟨last, hlast, hends, hgreatest⟩⟩ := h
  obtain ⟨⟨c', hc', hfile'⟩, ⟨first', hfirst', hbegins', hleast'⟩, ⟨last', hlast', hends', hgreatest'⟩⟩ := h'
  have hstart : first.start = first'.start := Int.le_antisymm (hleast _ hfirst') (hleast' _ hfirst)
  have hstop : last.stop = last'.stop := Int.le_antisymm (hgreatest' _ hlast) (hgreatest _ hlast')
  obtain ⟨hline, hcolumn⟩ := (hagree _ hfirst _ hfirst').start hstart
  obtain ⟨hendLine, hendColumn⟩ := (hagree _ hlast _ hlast').stop hstop
  have hfiles := (hagree _ hc _ hc').file
  have hleft := hbegins.trans ⟨hstart, hline, hcolumn⟩
  have hright := hends.trans ⟨hstop, hendLine, hendColumn⟩
  cases s
  cases s'
  rw [Span.mk.injEq]
  exact ⟨(hfile.trans hfiles).trans hfile'.symm, hleft.line.trans hbegins'.line.symm,
    hleft.column.trans hbegins'.column.symm, hleft.start.trans hbegins'.start.symm, hright.stop.trans hends'.stop.symm,
    hright.endLine.trans hends'.endLine.symm, hright.endColumn.trans hends'.endColumn.symm⟩

/-- **A cover is the join of two spans, in whatever order many are joined.** It contains both spans, every span that
    contains both contains it, it begins in lines and columns as one of them with the least start, and it ends as one
    with the greatest end. If spans agree, whatever comes out when they are joined in pairs, in any order and any
    grouping, is the same span as when they are joined one after the other. -/
theorem cover_join :
    (∀ a b : Span, (a.cover b).contains a = true ∧ (a.cover b).contains b = true ∧
      (∀ s : Span, s.contains a = true → s.contains b = true → s.contains (a.cover b) = true) ∧
      Hull [a, b] (a.cover b)) ∧
    ∀ (a : Span) (as : List Span), (∀ b ∈ a :: as, ∀ c ∈ a :: as, b.Agrees c) →
      Joins (a :: as) (as.foldl Span.cover a) ∧
        ∀ (bs : List Span) (b : Span), bs.Perm (a :: as) → Joins bs b → b = as.foldl Span.cover a := by
  refine ⟨fun a b => ?_, fun a as hagree => ?_⟩
  · have hparts := contains_cover_iff.mp (contains_iff.mpr ⟨Int.le_refl (a.cover b).start, Int.le_refl _⟩)
    exact ⟨hparts.1, hparts.2, fun s ha hb => contains_cover_iff.mpr ⟨ha, hb⟩, hull_cover a b⟩
  · have hfold : Joins (a :: as) (as.foldl Span.cover a) := joins_foldl (.single a) as
    refine ⟨hfold, fun bs b hperm hjoins => ?_⟩
    have hhull : Hull (a :: as) b := hjoins.hull.congr fun _ => hperm.mem_iff
    exact hhull.unique hagree hfold.hull

/-- Three spans on two lines, one of them empty and one reversed: the last two are joined first. -/
theorem cover_join_reversed :
    let a : Span := ⟨"f", 1, 3, 2, 2, some 1, some 3⟩
    let b : Span := ⟨"f", 2, 1, 9, 2, some 1, some 3⟩
    let c : Span := ⟨"f", 1, 3, 2, 9, none, none⟩
    (∀ d ∈ [a, b, c], ∀ e ∈ [a, b, c], d.Agrees e) ∧ [b, c, a].Perm [a, b, c] ∧ Joins [b, c, a] (b.cover (c.cover a)) ∧
      b.cover (c.cover a) = [b, c].foldl Span.cover a := by
  intro a b c
  have hagree : ∀ d ∈ [a, b, c], ∀ e ∈ [a, b, c], d.Agrees e := by decide
  have hperm : [b, c, a].Perm [a, b, c] := by decide
  have hjoins : Joins [b, c, a] (b.cover (c.cover a)) := .cover (.single b) (.cover (.single c) (.single a))
  exact ⟨hagree, hperm, hjoins, (cover_join.2 a [b, c] hagree).2 _ _ hperm hjoins⟩

end ShellFront.Span
