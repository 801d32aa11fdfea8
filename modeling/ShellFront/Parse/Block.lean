import ShellFront.Parse.Basic
import ShellFront.Parse.Recovery

/-!
# Blocks, parameters and bracketed lists

The parts of the grammar that expressions and statements share.

## Contents
- `commaValues`, `bracketed`, `callArguments`: expressions separated by commas.
- `typeHint`, `parameter`, `parameters`.
- `fieldSeparator`, `bracedItem`: parts between braces.
- `recover`, `statementTurn`, `statementList`, `block`.
-/

namespace ShellFront.Grammar

open Parse

/-! ## Lists of expressions -/

/-- Expressions separated by commas and their closer; the opener was read. -/
def commaValues (r : Rules) (closer : Symbol) (inside : Sequence) : Parse (List Node) := do
  let values ← within Mode.nested (r.commaList (.symbol closer) r.expression)
  let _ ← expect (.symbol closer) (.unfinished closer inside)
  return values

/-- Expressions between square brackets. -/
def bracketed (r : Rules) : Parse (List Node) := do
  let _ ← expect (.symbol .openBracket) (.opener .openBracket)
  commaValues r .closeBracket .list

/-- The arguments of a call, between parentheses. -/
def callArguments (r : Rules) : Parse (List Node) := do
  let _ ← expect (.symbol .openParen) (.opener .openParen)
  commaValues r .closeParen .arguments

/-! ## Parameters -/

/-- A type hint: a type name, perhaps with a question mark. -/
def typeHint : Parse TypeHint := do
  let token ← peek
  if !token.kind.isName then fail (.name .type)
  else if !typeNames.contains token.lexeme then fail .unknownType
  else
    let _ ← advance
    let optional ← accept (.symbol .question)
    return ⟨← spanFrom token.span, token.lexeme, optional⟩

/-- A type hint after a mark, if the mark is there. -/
def typeHintAfter? (mark : Symbol) : Parse (Option TypeHint) := do
  if ← accept (.symbol mark) then return some (← typeHint) else return none

/-- The name of a parameter and whether it has a dollar sign. -/
def parameterName : Parse (String × Bool) := do
  let token ← peek
  match token.kind with
  | .variableName =>
      let _ ← advance
      return (token.payload, true)
  | .identifier =>
      let _ ← advance
      return (token.lexeme, false)
  | _ => fail (.name .parameter)

/-- The value that a parameter has when none is given. -/
def fallback? (r : Rules) (allowed : Bool) : Parse (Option Node) := do
  if allowed then
    if ← accept (.symbol .assign) then return some (← within Mode.nested r.expression)
  return none

/-- A parameter. -/
def parameter (r : Rules) (fallbacks : Bool) : Parse (Parameter Node) := do
  let start ← peek
  let (name, sigil) ← parameterName
  let hint ← typeHintAfter? .colon
  let fallback ← fallback? r fallbacks
  return ⟨← spanFrom start.span, name, sigil, hint, fallback⟩

/-- Parameters and their closer; the opener was read. -/
def parameters (r : Rules) (closer : Symbol) (fallbacks : Bool) : Parse (List (Parameter Node)) := do
  let params ← r.commaList (.symbol closer) (parameter r fallbacks)
  let _ ← expect (.symbol closer) (.unfinished closer .parameters)
  return params

/-! ## Between braces -/

/-- Reads what separates the fields of a record: a comma, line breaks or both. Nothing is needed
    before the closing brace. -/
def fieldSeparator (problem : Problem) : Parse Unit := do
  let separated ← check .newline
  skipNewlines
  if ← accept (.symbol .comma) then skipNewlines
  else if separated then return
  else if ← check (.symbol .closeBrace) then return
  else fail problem

/-- A part between braces with what separates it from the next one, unless the closing brace comes
    next. -/
def bracedItem {α : Type} (part : Parse α) (problem : Problem) : Parse (Option α) := do
  if ← check (.symbol .closeBrace) then return none
  else
    let a ← part
    fieldSeparator problem
    return some a

/-! ## Statements -/

/-- Skips the rest of a statement after an error and gives a node in its place. -/
def recover (start : Cursor) (e : SyntaxError) : Parse Node := do
  let resumed := Cursor.resynchronize start (← here)
  move fun _ => resumed
  let covered := resumed.coveredSince start
  let span := start.current.span.cover (covered.getLast?.getD start.current).span
  note (.recovered span (resumed.index - start.index))
  return .broken span e.message (sourceText covered)

/-- What a list of statements does with an error in the statement that begins at `start`. When errors
    are not to be recovered from, a block gives up as well, and a script ends before the error. -/
def afterError (inBlock : Bool) (statements : Array Node) (start : Cursor) (e : SyntaxError) :
    Parse (Turn (Array Node) (List Node)) := do
  if (← mode).recovering then return .again (statements.push (← recover start e))
  else if inBlock then throw e
  else return .done statements.toList

/-- Whether a list of statements ends at a kind of token. -/
def endsList (inBlock : Bool) (kind : TokenKind) : Bool :=
  kind == .endOfInput || (inBlock && kind == .symbol .closeBrace)

/-- What a list of statements does after a statement, which a separator must follow, or the end of the
    list. -/
def afterStatement (inBlock : Bool) (statements : Array Node) : Parse (Turn (Array Node) (List Node)) := do
  let after ← here
  if after.kind.isSeparator || endsList inBlock after.kind then return .again statements
  else
    let e ← refuse .statementEnd
    afterError inBlock statements after e

/-- One turn of the loop over statements. -/
def statementTurn (r : Rules) (inBlock : Bool) (statements : Array Node) :
    Parse (Turn (Array Node) (List Node)) := do
  skipSeparators
  let start ← here
  if endsList inBlock start.kind then return .done statements.toList
  else
    match ← attempt r.statement with
    | .error e => afterError inBlock statements start e
    | .ok node => afterStatement inBlock (statements.push node)

/-- Statements up to the end of a block or of the input. -/
def statementList (r : Rules) (inBlock : Bool) : Parse (List Node) :=
  r.loop #[] (statementTurn r inBlock)

/-- Statements between braces. -/
def block (r : Rules) : Parse (Block Node) := do
  let start ← expect (.symbol .openBrace) (.opener .openBrace)
  let statements ← within Mode.nested (statementList r true)
  let _ ← expectCloser .block
  return ⟨← spanFrom start.span, statements⟩

end ShellFront.Grammar
