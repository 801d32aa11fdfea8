import ShellFront.Source.Span

/-!
# Positions in a text

A `Position` counts the characters read so far and the line and column that they lead to. Reading a
line feed starts the next line; every other character moves one column on.

## Contents
- `Position`, `Position.advance`, `Position.advanceBy`.
- `Span.between`, the span from one position to another.
-/

namespace ShellFront

/-- A place between two characters of a text. -/
structure Position where
  offset : Nat
  line : Nat
  column : Nat
deriving DecidableEq

namespace Position

/-- The place before the first character. -/
def first : Position := ⟨0, 1, 1⟩

/-- The place after reading one more character. -/
def advance (place : Position) (c : Char) : Position :=
  if c = '\n' then ⟨place.offset + 1, place.line + 1, 1⟩
  else ⟨place.offset + 1, place.line, place.column + 1⟩

/-- The place after reading a text. -/
def advanceBy (place : Position) (text : List Char) : Position := text.foldl advance place

theorem advance_offset (place : Position) (c : Char) :
    (place.advance c).offset = place.offset + 1 := by
  unfold advance
  split <;> rfl

theorem advanceBy_append (place : Position) (s t : List Char) :
    place.advanceBy (s ++ t) = (place.advanceBy s).advanceBy t := List.foldl_append

/-- Reading a text moves the offset by its length. -/
theorem advanceBy_offset (place : Position) (text : List Char) :
    (place.advanceBy text).offset = place.offset + text.length := by
  induction text generalizing place with
  | nil => rfl
  | cons c cs ih =>
      rw [advanceBy, List.foldl_cons, ← advanceBy, ih, advance_offset, List.length_cons]
      omega

end Position

/-- The span from one place of a file to another. -/
def Span.between (file : String) (first last : Position) : Span where
  file := file
  line := first.line
  column := first.column
  start := first.offset
  stop := last.offset
  endLine := some last.line
  endColumn := some last.column

end ShellFront
