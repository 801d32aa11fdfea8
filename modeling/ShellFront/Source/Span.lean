/-!
# Spans of source text

A `Span` is a region of one source text: where it begins and ends, both as offsets and as lines and
columns. Spans are ordered by containment, and `Span.cover` joins two of them.

## Contents
- `Span`, `Span.contains`, `Span.cover`, `Span.label`.
- The offsets of a cover: `cover_start`, `cover_stop`.
-/

namespace ShellFront

/-- A region of a source text. Offsets count characters from zero and exclude `stop`; lines and
    columns count from one. The end in lines and columns may be unknown. -/
structure Span where
  file : String
  line : Int
  column : Int
  start : Int
  stop : Int
  endLine : Option Int
  endColumn : Option Int
deriving DecidableEq, Inhabited

namespace Span

/-- An empty span at the first character of a file, with no known end in lines and columns. -/
def origin (file : String) : Span := ⟨file, 1, 1, 0, 0, none, none⟩

/-- Whether every offset of `other` lies in `span`. -/
def contains (span other : Span) : Bool :=
  decide (span.start ≤ other.start) && decide (other.stop ≤ span.stop)

/-- The least span that contains both: it begins where the first of the two begins and ends where
    the last one ends. -/
def cover (span other : Span) : Span :=
  let first := if span.start ≤ other.start then span else other
  let second := if span.start ≤ other.start then other else span
  let last := if first.stop > second.stop then first else second
  { file := span.file
    line := first.line
    column := first.column
    start := first.start
    stop := last.stop
    endLine := last.endLine
    endColumn := last.endColumn }

/-- The place where a span begins, as messages show it. -/
def label (span : Span) : String := s!"{span.file}:{span.line}:{span.column}"

/-- A cover begins at the lesser start. -/
theorem cover_start (a b : Span) : (a.cover b).start = min a.start b.start := by
  simp only [cover]
  split <;> omega

/-- A cover ends at the greater end. -/
theorem cover_stop (a b : Span) : (a.cover b).stop = max a.stop b.stop := by
  simp only [cover]
  split <;> split <;> omega

end Span

end ShellFront
