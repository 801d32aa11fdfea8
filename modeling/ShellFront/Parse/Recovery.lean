import ShellFront.Parse.Cursor
import ShellFront.Token.Group

/-!
# Recovery

After a syntax error the rest of the statement is skipped, up to a separator outside every group that
the statement opened. A closing brace of a group that was opened before the statement is left for the
block that it closes.

## Contents
- `Cursor.resynchronize`, where parsing goes on.
- `Cursor.coveredSince` and `sourceText`, what was skipped and how it is shown.
-/

namespace ShellFront

/-- The groups that tokens open and leave open, and whether the last of them was a line break that
    closed all of them. -/
def openedBy (tokens : List Token) : Groups × Bool :=
  tokens.foldl
    (fun (groups, _) t =>
      let after := groups.repair t.kind
      (after, t.kind == .newline && !groups.isEmpty && after.isEmpty))
    ([], false)

namespace Cursor

/-- Whether skipping stops at a token of some kind, with the groups that are open before it. -/
def endsSkip (groups : Groups) : TokenKind → Bool
  | .endOfInput => true
  | .symbol .closeBrace => !groups.contains .openBrace
  | .newline => groups.abandon.isEmpty
  | .symbol .semicolon => groups.isEmpty
  | _ => false

/-- Skips tokens up to the end of a statement, with the groups that it has open. Nothing ends the
    statement at its first token. -/
def skipStatement (atStart : Bool) (groups : Groups) (before : List Token) (current : Token) :
    List Token → Cursor
  | [] => ⟨before, current, []⟩
  | t :: ts =>
      if !atStart && endsSkip groups current.kind then ⟨before, current, t :: ts⟩
      else skipStatement false (groups.repair current.kind) (current :: before) t ts

/-- Where parsing goes on after an error at `now` in a statement that begins at `start`. When the
    statement already ended with a line break that closed all its groups, that is here. -/
def resynchronize (start now : Cursor) : Cursor :=
  let consumed := (now.since start).reverse
  let (groups, resumed) := openedBy consumed
  if resumed then now
  else skipStatement consumed.isEmpty groups now.before now.current now.ahead

/-- The tokens of a skipped statement, without line breaks at its end; at least its first token. -/
def coveredSince (now start : Cursor) : List Token :=
  match (trimNewlines (now.since start)).reverse with
  | [] => [start.current]
  | ts => ts

end Cursor

/-- The text of tokens, with one space where any blanks stood between them. -/
def sourceText (tokens : List Token) : String :=
  let pieces := tokens.foldl
    (fun (text, stop) t =>
      match stop with
      | some n => (text ++ (if n < t.span.start then " " else "") ++ t.lexeme, some t.span.stop)
      | none => (text ++ t.lexeme, some t.span.stop))
    ("", (none : Option Int))
  pieces.1

end ShellFront
