import ShellFront.Token

/-!
# Open groups

The brackets that are open at some place of a script form a stack, innermost first. The lexer follows
it to know whether a line break counts; recovery from a syntax error follows it again to know where
the broken statement ends.

## Contents
- `Groups`, `Groups.follow`, `Groups.abandon`, `Groups.hidesNewline`.
- `Groups.repair`, the stack as recovery sees it.
-/

namespace ShellFront

/-- The open brackets, innermost first. -/
abbrev Groups := List Symbol

namespace Groups

/-- The stack after one token, as the lexer keeps it: a closer closes the innermost group whatever
    its kind. -/
def follow (groups : Groups) : TokenKind → Groups
  | .symbol s => if s.isOpener then s :: groups else if s.isCloser then groups.tail else groups
  | _ => groups

/-- Gives up every group that was opened inside the innermost braces. -/
def abandon (groups : Groups) : Groups := groups.dropWhile (fun s => s != .openBrace)

/-- Whether a line break is of no account: directly inside parentheses or brackets. -/
def hidesNewline : Groups → Bool
  | [] => false
  | innermost :: _ => innermost != .openBrace

/-- The stack after one token, as recovery keeps it. A closing brace closes everything up to the
    innermost braces; another closer closes only a group of parentheses or brackets; a line break,
    which the lexer leaves inside such groups only when it gave them up, closes all of them up to the
    innermost braces. -/
def repair (groups : Groups) : TokenKind → Groups
  | .newline => groups.abandon
  | .symbol .closeBrace => groups.abandon.tail
  | .symbol s =>
      if s.isOpener then s :: groups
      else if s.isCloser && groups.hidesNewline then groups.tail
      else groups
  | _ => groups

/-- What a symbol does to the open groups, unless it closes braces. -/
theorem repair_symbol {groups : Groups} {s : Symbol} (h : s ≠ .closeBrace) : groups.repair (.symbol s) =
    if s.isOpener then s :: groups else if s.isCloser && groups.hidesNewline then groups.tail else groups := by
  cases s <;> first | rfl | contradiction

end Groups

end ShellFront
