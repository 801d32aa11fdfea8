import ShellFront.Parse.Cursor

/-!
# Looking ahead

Some constructs begin alike, and what they are shows only further on. These questions are asked about
the tokens that are left; none of them reads any.

## Contents
- `lambdaAhead`: parameters between bars, followed by an arrow or a brace.
- `recordAhead`: a brace that can only open a record.
- `braceBody`, `BraceShape` and `braceShape`: what stands directly between braces.
- `pipeFolds`: whether a pipe goes on with a command.
-/

namespace ShellFront

namespace Cursor

/-! ## Lambdas -/

/-- Whether the first token of a list has a kind. -/
def headIs (kind : TokenKind) : List Token → Bool
  | [] => false
  | t :: _ => t.kind == kind

/-- Whether what follows can begin the rest of a lambda after its parameters. -/
def opensLambdaBody (ts : List Token) : Bool :=
  headIs (.symbol .arrow) ts || headIs (.symbol .openBrace) ts

/-- The tokens after a type hint, if there is one: a colon, some token, perhaps a question mark. -/
def afterHint (ts : List Token) : List Token :=
  if headIs (.symbol .colon) ts then
    if headIs (.symbol .question) (ts.drop 2) then ts.drop 3 else ts.drop 2
  else ts

theorem length_afterHint (ts : List Token) : (afterHint ts).length ≤ ts.length := by
  unfold afterHint
  split
  · split <;> simp only [List.length_drop] <;> omega
  · exact Nat.le_refl _

/-- Whether the parameters of a lambda and the beginning of its body follow. -/
def parametersAhead (ts : List Token) : Bool :=
  match ts with
  | [] => false
  | t :: more =>
      if t.kind == .variableName || t.kind == .identifier then
        let rest := afterHint more
        if headIs (.symbol .comma) rest then parametersAhead (rest.drop 1)
        else headIs (.symbol .pipe) rest && opensLambdaBody (rest.drop 1)
      else false
termination_by ts.length
decreasing_by
  have := length_afterHint more
  simp only [List.length_drop, List.length_cons]
  omega

/-- Whether a lambda begins here. -/
def lambdaAhead (c : Cursor) : Bool :=
  match c.kind with
  | .symbol .orOr => opensLambdaBody c.ahead
  | .symbol .pipe => parametersAhead c.ahead
  | _ => false

/-! ## Braces -/

/-- Whether tokens after an opening brace make it a record: it closes at once, or a key and a colon
    follow. -/
def recordShaped (ts : List Token) : Bool :=
  match ts.dropWhile (fun t => t.kind == .newline) with
  | [] => false
  | t :: more =>
      match t.kind with
      | .symbol .closeBrace => true
      | .identifier | .string _ => headIs (.symbol .colon) more
      | _ => false

/-- The kinds of the tokens directly between braces, given the tokens after the opening one and how
    deep they are in further groups. Every closer counts, whatever it closes. -/
def braceBody (depth : Int) : List Token → List TokenKind
  | [] => []
  | t :: ts =>
      if t.kind = .endOfInput ∨ (depth = 0 ∧ t.kind = .symbol .closeBrace) then []
      else
        let deeper := if t.kind.isOpener then depth + 1 else if t.kind.isCloser then depth - 1
          else depth
        if depth = 0 then t.kind :: braceBody deeper ts else braceBody deeper ts

/-- What the content of braces looks like. -/
inductive BraceShape where
  /-- Something with a colon: a record, or a closure. -/
  | colon
  /-- Alternatives separated by commas, or a range of integers. -/
  | expansion
  /-- Anything else. -/
  | other
deriving DecidableEq

/-- Whether kinds are a range of integers. -/
def isIntegerRange : List TokenKind → Bool
  | [.integer _, .symbol .dotDot, .integer _] => true
  | _ => false

/-- What the content of braces looks like, given the tokens after the opening one. -/
def braceShape (ts : List Token) : BraceShape :=
  let body := braceBody 0 ts
  if body.contains (.symbol .colon) then .colon
  else if !body.any TokenKind.isSeparator
      && (body.contains (.symbol .comma) || isIntegerRange body) then .expansion
  else .other

/-! ## Pipes -/

/-- Whether a pipe goes on with a command, given the tokens after it: a name follows that is neither
    called nor the start of a tuple. -/
def pipeFolds (ts : List Token) : Bool :=
  match ts.dropWhile (fun t => t.kind == .newline) with
  | [] => false
  | name :: more =>
      name.kind == .identifier &&
        match more with
        | [] => true
        | after :: _ =>
            !(after.kind == .symbol .openParen && name.touches after) &&
              !(name.lexeme == "tuple" && after.kind == .symbol .openBracket)

end Cursor

end ShellFront
