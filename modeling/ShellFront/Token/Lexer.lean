import ShellFront.Log
import ShellFront.Report
import ShellFront.Source.Position
import ShellFront.Token.Group
import ShellFront.Token.Piece

/-!
# Cutting a script into tokens

The lexer never fails. Text that is no token becomes an `invalid` token with an error in the report,
and the tokens always end with the end of the input. Line breaks count as tokens where a statement
can end: not at the start of a line, and not inside parentheses or brackets. When the next line opens
with a keyword that only a statement can begin with, such open groups are given up first.

## Contents
- `Lexer.Step` and `Lexer.step`, what is done at one place of the text.
- `Lexer.State` and `Lexer.run`, the walk over the whole text.
- `tokenize`.
-/

namespace ShellFront

namespace Lexer

/-! ## One step -/

/-- What the lexer does at one place: how many characters it takes, the token that they make if they
    make one, and how the place looks after them. -/
structure Step where
  length : Nat
  piece : Option Piece
  groups : Groups
  atLineStart : Bool
  abandons : Bool := false

/-- Whether a flag or a path can begin after a character, or at the start of the text. -/
def isWordStart : Option Char → Bool
  | none => true
  | some c => isWordBoundary c

/-- Whether the next line that is not blank opens with a keyword that only a statement begins
    with. -/
def opensStatement (text : List Char) : Bool :=
  let line := text.dropWhile (fun c => isBlank c || c == '\n')
  match Keyword.ofText? (String.ofList (line.takeWhile isNameChar)) with
  | some k => k.opensStatement
  | none => false

/-- The step at a number sign, where `cs` follows it: a comment to the end of the line, or a block
    comment between triple number signs. -/
def comment (groups : Groups) (atLineStart : Bool) (cs : List Char) : Step :=
  if ['#', '#'].isPrefixOf cs then
    match findText ['#', '#', '#'] (cs.drop 2) with
    | some n => ⟨n + 6, none, groups, atLineStart, false⟩
    | none => ⟨1 + cs.length, some (Piece.bad .openComment (1 + cs.length)), groups, false, false⟩
  else ⟨1 + runLength (· != '\n') cs, none, groups, atLineStart, false⟩

/-- The step at a line feed, where `cs` follows it. -/
def lineBreak (groups : Groups) (atLineStart : Bool) (cs : List Char) : Step :=
  let abandons := groups.hidesNewline && opensStatement cs
  let groups := if abandons then groups.abandon else groups
  if atLineStart || groups.hidesNewline then ⟨1, none, groups, atLineStart, abandons⟩
  else ⟨1, some ⟨.newline, 1, none, none⟩, groups, true, abandons⟩

/-- The step at a character `c`, where `cs` follows it. -/
def step (previous : Option Char) (groups : Groups) (atLineStart : Bool) (c : Char)
    (cs : List Char) : Step :=
  if isBlank c then ⟨1, none, groups, atLineStart, false⟩
  else if c = '#' then comment groups atLineStart cs
  else if c = '\n' then lineBreak groups atLineStart cs
  else
    let piece := Piece.next (isWordStart previous) c cs
    ⟨piece.length, some piece, groups.follow piece.kind, false, false⟩

/-- Every step takes at least one character. -/
theorem step_length_pos (previous : Option Char) (groups : Groups) (atLineStart : Bool) (c : Char)
    (cs : List Char) : 0 < (step previous groups atLineStart c cs).length := by
  unfold step
  split
  · exact Nat.one_pos
  · split
    · unfold comment
      split
      · split
        · exact Nat.succ_pos _
        · exact Nat.add_pos_left Nat.one_pos _
      · exact Nat.add_pos_left Nat.one_pos _
    · split
      · unfold lineBreak
        dsimp only
        split <;> split <;> exact Nat.one_pos
      · exact Piece.next_length_pos _ c cs

/-! ## The walk -/

/-- How far the lexer is: its place, the character before it, the open groups, whether nothing stands
    on the line yet, and all that it has found. -/
structure State where
  place : Position
  previous : Option Char
  groups : Groups
  atLineStart : Bool
  tokens : Array Token
  report : Report
  log : Array LogEntry

/-- The state at the start of a text. -/
def State.first (report : Report) : State := ⟨.first, none, [], true, #[], report, #[]⟩

/-- A piece at its place. -/
def placed (file : String) (first last : Position) (lexeme : List Char) (piece : Piece) : Token where
  kind := piece.kind
  lexeme := String.ofList lexeme
  span := Span.between file first last
  value := piece.value.map String.ofList

/-- The state after a step over `lexeme`. -/
def State.take (file : String) (st : State) (s : Step) (lexeme : List Char) : State :=
  let last := st.place.advanceBy lexeme
  { place := last
    previous := lexeme.getLast?
    groups := s.groups
    atLineStart := s.atLineStart
    tokens := match s.piece with
      | some piece => st.tokens.push (placed file st.place last lexeme piece)
      | none => st.tokens
    report := match s.piece.bind Piece.problem with
      | some problem =>
          st.report.add (.error .lexical problem.message (Span.between file st.place last))
      | none => st.report
    log := if s.abandons then st.log.push (.groupAbandoned last.line) else st.log }

/-- Walks over a text. -/
def run (file : String) (st : State) (text : List Char) : State :=
  match text with
  | [] => st
  | c :: cs =>
      let s := step st.previous st.groups st.atLineStart c cs
      run file (st.take file s ((c :: cs).take s.length)) ((c :: cs).drop s.length)
termination_by text.length
decreasing_by
  have := step_length_pos st.previous st.groups st.atLineStart c cs
  simp only [List.length_drop, List.length_cons]
  omega

end Lexer

/-- The tokens of a script, what was reported about them, and the log of the work. -/
structure Lexing where
  tokens : List Token
  report : Report
  log : Array LogEntry

/-- The mark after the last token. -/
def Token.endMark (file : String) (place : Position) : Token :=
  ⟨.endOfInput, "", Span.between file place place, none⟩

/-- Cuts a script into tokens; the last one is the end of the input. -/
def tokenize (source file : String) (report : Report := .empty) : Lexing :=
  let st := Lexer.run file (.first report) source.toList
  let tokens := st.tokens.push (.endMark file st.place)
  { tokens := tokens.toList
    report := st.report
    log := st.log.push (.lexed file tokens.size) }

end ShellFront
