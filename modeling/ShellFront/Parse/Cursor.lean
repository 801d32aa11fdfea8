import ShellFront.Token

/-!
# Cursors

A `Cursor` is a place in a list of tokens: what was read, the token that comes next, and the tokens
after it. It never moves past the end of the input.

## Contents
- `Cursor`, `Cursor.ofTokens`, `Cursor.seek`, `Cursor.advance`, `Cursor.skipWhile`.
- What a cursor sees: `next`, `previous`, `rest`, `blamed`, `since`.
- How moves change the tokens left: `length_ahead_advance`, `length_ahead_skipWhile`.
-/

namespace ShellFront

/-- A place in a list of tokens; what was read is kept with the latest token first. -/
structure Cursor where
  before : List Token
  current : Token
  ahead : List Token

namespace Cursor

/-! ## Making cursors -/

/-- An end of input after a token, or by itself. -/
def endAfter (last : Option Token) : Token :=
  let span := (last.map Token.span).getD (.origin "<string>")
  { kind := .endOfInput
    lexeme := ""
    span :=
      { span with
        line := span.endLine.getD span.line
        column := span.endColumn.getD span.column
        start := span.stop }
    value := none }

/-- The start of a list of tokens. An end of input is added where there is none. -/
def ofTokens : List Token → Cursor
  | [] => ⟨[], endAfter none, []⟩
  | t :: ts =>
      let last := ts.getLast?.getD t
      if last.kind = .endOfInput then ⟨[], t, ts⟩ else ⟨[], t, ts ++ [endAfter (some last)]⟩

/-- The cursor some tokens further on, or at the last token. -/
def seek : Nat → Cursor → Cursor
  | n + 1, ⟨before, current, t :: ts⟩ => seek n ⟨current :: before, t, ts⟩
  | _, c => c

/-! ## What a cursor sees -/

/-- How many tokens were read. -/
def index (c : Cursor) : Nat := c.before.length

/-- The kind of the current token. -/
def kind (c : Cursor) : TokenKind := c.current.kind

/-- The token after the current one; the end of input is its own successor. -/
def next (c : Cursor) : Token := c.ahead.head?.getD c.current

/-- The token read last; before any was read, the current one. -/
def previous (c : Cursor) : Token := c.before.head?.getD c.current

/-- The tokens that are left. -/
def rest (c : Cursor) : List Token := c.current :: c.ahead

/-- The last token of the input. -/
def last (c : Cursor) : Token := c.ahead.getLast?.getD c.current

/-- Takes line breaks off the end of tokens given in reverse, but never the very first token. -/
def trimNewlines : List Token → List Token
  | t :: u :: ts => if t.kind = .newline then trimNewlines (u :: ts) else t :: u :: ts
  | ts => ts

/-- The place to blame for an error here. At the end of a statement it is the last token before it
    that is no line break. -/
def blamed (c : Cursor) : Span :=
  if c.kind.isTerminator then ((trimNewlines c.before).head?.getD c.current).span
  else c.current.span

/-- The tokens read since an earlier place, latest first. -/
def since (c start : Cursor) : List Token := c.before.take (c.index - start.index)

/-! ## Moving -/

/-- Reads the current token, unless it is the end of the input. -/
def advance (c : Cursor) : Cursor :=
  if c.kind = .endOfInput then c
  else match c.ahead with
    | [] => c
    | t :: ts => ⟨c.current :: c.before, t, ts⟩

/-- Reads tokens as long as their kind is in a class. -/
def skipWhile (p : TokenKind → Bool) : Cursor → Cursor
  | ⟨before, current, []⟩ => ⟨before, current, []⟩
  | ⟨before, current, t :: ts⟩ =>
      if p current.kind then skipWhile p ⟨current :: before, t, ts⟩ else ⟨before, current, t :: ts⟩
termination_by c => c.ahead.length

/-- The first token that is no line break. -/
def significant (c : Cursor) : Token := (c.skipWhile (· == .newline)).current

theorem length_ahead_advance (c : Cursor) : c.advance.ahead.length ≤ c.ahead.length := by
  unfold advance
  split
  · exact Nat.le_refl _
  · split <;> simp_all

theorem length_ahead_skipWhile (p : TokenKind → Bool) (c : Cursor) :
    (c.skipWhile p).ahead.length ≤ c.ahead.length := by
  fun_induction skipWhile p c with
  | case1 => exact Nat.le_refl _
  | case2 before current t ts _ ih => exact Nat.le_trans ih (Nat.le_succ _)
  | case3 => exact Nat.le_refl _

end Cursor

end ShellFront
