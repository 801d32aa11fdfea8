import ShellFront.Text.Printable

/-!
# Quoted text

How messages and listings show a text: between quotes, on one line, with everything invisible
written as an escape. Single quotes are used unless the text holds a single quote and no double one.

## Contents
- `hexDigits`, numbers in lower-case hexadecimal with a least width.
- `escapeChar`, `escape`, `quote`.
-/

namespace ShellFront.Text

/-- A number in lower-case hexadecimal, filled up with zeros to a width. -/
def hexDigits (width n : Nat) : List Char :=
  let digits := Nat.toDigits 16 n
  List.replicate (width - digits.length) '0' ++ digits

/-- How one character is written between quotes of the kind `delimiter`. -/
def escapeChar (delimiter c : Char) : List Char :=
  if c = delimiter ∨ c = '\\' then ['\\', c]
  else if c = '\n' then ['\\', 'n']
  else if c = '\r' then ['\\', 'r']
  else if c = '\t' then ['\\', 't']
  else if isPrintable c then [c]
  else
    let n := c.toNat
    if n ≤ 0xff then '\\' :: 'x' :: hexDigits 2 n
    else if n ≤ 0xffff then '\\' :: 'u' :: hexDigits 4 n
    else '\\' :: 'U' :: hexDigits 8 n

/-- A text as it stands between quotes. -/
def escape (delimiter : Char) (text : List Char) : List Char :=
  text.flatMap (escapeChar delimiter)

/-- The quotes put around a text. -/
def delimiterFor (text : List Char) : Char :=
  if text.contains '\x27' && !text.contains '\x22' then '\x22' else '\x27'

/-- A text between quotes. -/
def quote (text : String) : String :=
  let delimiter := delimiterFor text.toList
  String.ofList (delimiter :: escape delimiter text.toList ++ [delimiter])

end ShellFront.Text
