/-!
# Line ends

A text can end its lines with a line feed, a carriage return or both. Reading turns each of them
into one line feed.

## Contents
- `uniformLineEnds`.
- `not_mem_uniformLineEnds`: no carriage return is left.
-/

namespace ShellFront.Text

/-- A text with a line feed for every line end. -/
def uniformLineEnds : List Char → List Char
  | [] => []
  | '\r' :: '\n' :: cs => '\n' :: uniformLineEnds cs
  | '\r' :: cs => '\n' :: uniformLineEnds cs
  | c :: cs => c :: uniformLineEnds cs

theorem not_mem_uniformLineEnds (cs : List Char) : '\r' ∉ uniformLineEnds cs := by
  fun_induction uniformLineEnds cs with
  | case1 => simp
  | case2 cs ih => simpa using ih
  | case3 cs _ ih => simpa using ih
  | case4 c cs _ hc ih =>
      have : '\r' ≠ c := fun h => hc h.symm
      simp [this, ih]

end ShellFront.Text
