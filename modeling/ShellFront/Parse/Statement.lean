import ShellFront.Parse.Expression
import ShellFront.Parse.Pattern

/-!
# Statements

Bindings and assignments, control flow, definitions with their decorators, imports and jumps. What is
none of these is an expression.

## Contents
- Values: `assignment`, `assigned`, `letBinding`.
- Control flow: `conditional`, `forLoop`, `matching`, `attemptCatch`, …
- Definitions: `function`, `macroDefinition`, `objectDefinition`, …, `decorated`.
- Modules and jumps.
- `statement`.
-/

namespace ShellFront.Grammar

open Parse

/-! ## Bindings and assignments -/

/-- Whether an assignment begins at a cursor. -/
def assignmentAhead (c : Cursor) : Bool :=
  c.kind == .variableName && c.next.kind.isAssignment

/-- The assignment operator that a token is. -/
def assignmentOperator (token : Token) : Symbol :=
  match token.kind with
  | .symbol s => s
  | _ => .assign

/-- An assignment to a variable; the value may be an assignment again. -/
def assignment (r : Rules) : Parse Node := do
  let target ← advance
  let operator ← advance
  let value ← r.assigned
  return .assignment (← spanFrom target.span) ⟨target.span, target.payload⟩
    (assignmentOperator operator) value

/-- What can be assigned: another assignment, or an expression. -/
def assigned (r : Rules) : Parse Node := do
  if assignmentAhead (← here) then assignment r else expression r

/-- The definition of a variable. -/
def letBinding (r : Rules) (keyword : Keyword) : Parse Node := do
  let start ← advance
  let name ← expect .identifier (.nameAfter start.lexeme)
  let _ ← expectAfter .boundName
  let value ← r.assigned
  return .binding (← spanFrom start.span) keyword ⟨name.span, name.lexeme⟩ value

/-! ## Control flow -/

/-- An expression in the head of a statement. -/
def condition (r : Rules) : Parse Node := within Mode.header r.expression

/-- Reads line breaks and a keyword if the keyword is what follows them. -/
def acceptPastNewlines (k : Keyword) : Parse (Option Token) := do
  let c ← here
  if c.significant.kind == .keyword k then
    skipNewlines
    return some (← advance)
  else return none

/-- A further condition with its block. -/
def elseIf? (r : Rules) : Parse (Option (ElseIf Node)) := do
  match ← acceptPastNewlines .elifKw with
  | some start =>
      let test ← condition r
      let body ← block r
      return some ⟨← spanFrom start.span, test, body⟩
  | none => return none

/-- The block for when no condition holds. -/
def elseBlock? (r : Rules) : Parse (Option (Block Node)) := do
  match ← acceptPastNewlines .elseKw with
  | some _ => return some (← block r)
  | none => return none

/-- A conditional statement. -/
def conditional (r : Rules) : Parse Node := do
  let start ← advance
  let test ← condition r
  let body ← block r
  let elseIfs ← r.collect (elseIf? r)
  let elseBody ← elseBlock? r
  return .conditional (← spanFrom start.span) test body elseIfs elseBody

/-- The variable of a loop. -/
def loopVariable : Parse LoopVariable := do
  let token ← peek
  match token.kind with
  | .variableName =>
      let _ ← advance
      return ⟨token.span, token.payload, true⟩
  | .identifier =>
      let _ ← advance
      return ⟨token.span, token.lexeme, false⟩
  | _ => fail .loopVariable

/-- A loop over the elements of a value. -/
def forLoop (r : Rules) : Parse Node := do
  let start ← advance
  let element ← loopVariable
  let _ ← expectAfter .loopVariable
  let iterable ← condition r
  let body ← block r
  return .forLoop (← spanFrom start.span) element iterable body

/-- A loop with a condition. -/
def whileLoop (r : Rules) : Parse Node := do
  let start ← advance
  let test ← condition r
  let body ← block r
  return .whileLoop (← spanFrom start.span) test body

/-- A loop without a condition. -/
def endlessLoop (r : Rules) : Parse Node := do
  let start ← advance
  let body ← block r
  return .endlessLoop (← spanFrom start.span) body

/-- The guard of a match arm. -/
def guard? (r : Rules) : Parse (Option Node) := do
  if ← accept (.keyword .ifKw) then return some (← r.expression) else return none

/-- The body of a match arm. A brace that can only open a record is a value. -/
def armBody (r : Rules) : Parse (ArmBody Node) := do
  let c ← here
  if c.kind == .symbol .openBrace && !Cursor.recordShaped c.ahead then return .block (← block r)
  else return .value (← r.expression)

/-- An arm of a match. -/
def matchArm (r : Rules) : Parse (MatchArm Node) := do
  let start ← peek
  let shape ← r.pattern
  let guard ← guard? r
  let _ ← expectAfter .matchPattern
  skipNewlines
  let body ← armBody r
  return ⟨← spanFrom start.span, shape, guard, body⟩

/-- An arm of a match with what separates it from the next one, unless the match ends. -/
def matchArm? (r : Rules) : Parse (Option (MatchArm Node)) := do
  skipSeparators
  if ← check (.symbol .closeBrace) then return none
  else
    let arm ← matchArm r
    if ← accept (.symbol .comma) then return some arm
    else
      let token ← peek
      if token.kind.isSeparator || token.kind == .symbol .closeBrace then return some arm
      else fail (.between .matchArms)

/-- A match. -/
def matching (r : Rules) : Parse Node := do
  let start ← advance
  let subject ← condition r
  let _ ← expectAfter .matchSubject
  let arms ← within Mode.nested (r.collect (matchArm? r))
  let _ ← expectCloser .matching
  return .matching (← spanFrom start.span) subject arms

/-- The name that an error gets in its handler. -/
def errorName? : Parse (Option Ident) := do
  let token ← peek
  match token.kind with
  | .identifier =>
      let _ ← advance
      return some ⟨token.span, token.lexeme⟩
  | .variableName | .specialName =>
      let _ ← advance
      return some ⟨token.span, token.payload⟩
  | _ => return none

/-- A block and the handler of its errors, which may stand on the next line. -/
def attemptCatch (r : Rules) : Parse Node := do
  let start ← advance
  let body ← block r
  if (← here).significant.kind == .keyword .catchKw then skipNewlines
  let _ ← expectAfter .tryBlock
  let errorName ← errorName?
  let handler ← block r
  return .attempt (← spanFrom start.span) body errorName handler

/-! ## Definitions -/

/-- The arguments of a decorator: in parentheses that touch its name, or one literal. -/
def decoratorArguments (r : Rules) (name : Token) : Parse (List Node) := do
  if ← callTouches name then callArguments r
  else
    match (← peek).kind with
    | .string _ | .integer _ | .float => return [← primary r]
    | _ => return []

/-- A decorator and the line breaks after it, if one comes next. -/
def decorator? (r : Rules) : Parse (Option (Decorator Node)) := do
  if ← check (.symbol .atSign) then
    let start ← advance
    let name ← expect .identifier .decoratorName
    let args ← decoratorArguments r name
    let span ← spanFrom start.span
    skipNewlines
    return some ⟨span, name.lexeme, args⟩
  else return none

/-- Where a definition begins: at its first decorator, or at its keyword. -/
def definitionStart (decorators : List (Decorator Node)) (keyword : Token) : Span :=
  match decorators with
  | d :: _ => d.span
  | [] => keyword.span

/-- A function. -/
def function (r : Rules) (decorators : List (Decorator Node)) : Parse (Function Node) := do
  let start ← advance
  let name ← ident .function
  let _ ← expectAfter .functionName
  let params ← parameters r .closeParen true
  let returns ← typeHintAfter? .arrow
  let body ← block r
  return ⟨← spanFrom (definitionStart decorators start), name, params, returns, body, decorators⟩

/-- A parameter of a macro in the style of commands: a bare variable. -/
def shellParameter? : Parse (Option (Parameter Node)) := do
  let token ← peek
  if token.kind == .variableName then
    let _ ← advance
    return some ⟨token.span, token.payload, true, none, none⟩
  else return none

/-- The parameters of a macro, and whether they are in the style of commands. -/
def macroParameters (r : Rules) : Parse (List (Parameter Node) × Bool) := do
  if ← accept (.symbol .openParen) then return (← parameters r .closeParen true, false)
  else return (← r.collect shellParameter?, true)

/-- A macro. -/
def macroDefinition (r : Rules) (decorators : List (Decorator Node)) : Parse Node := do
  let start ← advance
  let name ← ident .macroKind
  let (params, shellStyle) ← macroParameters r
  let body ← block r
  return .macroDefinition (← spanFrom (definitionStart decorators start)) name params body
    shellStyle decorators

/-- An alias. -/
def aliasDefinition (r : Rules) (decorators : List (Decorator Node)) : Parse Node := do
  let start ← advance
  let name ← ident .aliasKind
  let _ ← expectAfter .aliasName
  let value ← r.expression
  return .aliasDefinition (← spanFrom (definitionStart decorators start)) name value decorators

/-- A member of an object. -/
def objectMember (r : Rules) : Parse (Member Node) := do
  let token ← peek
  match token.kind with
  | .keyword .fnKw => return .method (← function r [])
  | .identifier =>
      let _ ← advance
      return .field ⟨token.span, token.lexeme⟩
  | _ => fail .member

/-- An object. -/
def objectDefinition (r : Rules) (decorators : List (Decorator Node)) : Parse Node := do
  let start ← advance
  let name ← ident .object
  let _ ← expectAfter .objectName
  let members ← within Mode.nested do
    skipNewlines
    r.collect (bracedItem (objectMember r) (.between .objectMembers))
  let _ ← expectCloser .object
  return .objectDefinition (← spanFrom (definitionStart decorators start)) name members decorators

/-- An enumeration. -/
def enumDefinition (r : Rules) (decorators : List (Decorator Node)) : Parse Node := do
  let start ← advance
  let name ← ident .enumeration
  let _ ← expectAfter .enumName
  skipNewlines
  let variants ← r.collect (bracedItem (ident .variant) (.between .enumVariants))
  let _ ← expectCloser .enumeration
  return .enumDefinition (← spanFrom (definitionStart decorators start)) name variants decorators

/-- A string that must come next. -/
def stringToken (problem : Problem) : Parse StringLiteral := do
  let token ← peek
  match token.kind with
  | .string style =>
      let _ ← advance
      return ⟨token.span, token.payload, style⟩
  | _ => fail problem

/-- A test. -/
def testDefinition (r : Rules) (decorators : List (Decorator Node)) : Parse Node := do
  let start ← advance
  let name ← stringToken .testName
  let body ← block r
  return .testDefinition (← spanFrom (definitionStart decorators start)) name body decorators

/-- A definition after its decorators. -/
def definition (r : Rules) (decorators : List (Decorator Node)) : Parse Node := do
  match (← peek).kind with
  | .keyword .fnKw => return .functionDefinition (← function r decorators)
  | .keyword .macroKw => macroDefinition r decorators
  | .keyword .aliasKw => aliasDefinition r decorators
  | .keyword .objKw => objectDefinition r decorators
  | .keyword .enumKw => enumDefinition r decorators
  | .keyword .testKw => testDefinition r decorators
  | _ => fail .definition

/-- A definition with decorators before it. -/
def decorated (r : Rules) : Parse Node := do
  let decorators ← r.collect (decorator? r)
  definition r decorators

/-! ## Modules and jumps -/

/-- A further name of a module path. -/
def pathSegment? : Parse (Option String) := do
  if ← accept (.symbol .doubleColon) then
    return some (← expect .identifier (.nameAfter "::")).lexeme
  else return none

/-- A module, by a path of names or by the name of its file. -/
def moduleRef (r : Rules) : Parse ModuleRef := do
  let token ← peek
  match token.kind with
  | .string style =>
      let _ ← advance
      return .file ⟨token.span, token.payload, style⟩
  | _ =>
      let first ← expect .identifier .modulePath
      let others ← r.collect pathSegment?
      return .path (← spanFrom first.span) (first.lexeme :: others)

/-- The use of a module. -/
def useModule (r : Rules) : Parse Node := do
  let start ← advance
  let ref ← moduleRef r
  return .useModule (← spanFrom start.span) ref

/-- Another name for something, if one is given. -/
def rename? (what : Named) : Parse (Option Ident) := do
  if ← accept (.keyword .asKw) then return some (← ident what) else return none

/-- A name taken from a module. -/
def importItem : Parse ImportItem := do
  let name ← ident .imported
  let rename ← rename? .aliasKind
  return ⟨← spanFrom name.span, name, rename⟩

/-- One name taken from a module, and whether a comma goes on with another one. -/
def importTurn (items : Array ImportItem) : Parse (Turn (Array ImportItem) (List ImportItem)) := do
  let item ← importItem
  if ← accept (.symbol .comma) then return .again (items.push item)
  else return .done (items.push item).toList

/-- Names taken from a module, or all of them. -/
def importFrom (r : Rules) : Parse Node := do
  let start ← advance
  let ref ← moduleRef r
  let _ ← expectAfter .importModule
  if ← accept (.symbol .star) then return .importFrom (← spanFrom start.span) ref [] true
  else
    let items ← r.loop #[] importTurn
    return .importFrom (← spanFrom start.span) ref items false

/-- Another script, run here. -/
def sourceFile : Parse Node := do
  let start ← advance
  let path ← stringToken .filePath
  let rename ← rename? .namespaceKind
  return .sourceFile (← spanFrom start.span) path rename

/-- A return, perhaps with a value. -/
def returnJump (r : Rules) : Parse Node := do
  let start ← advance
  let token ← peek
  let value ←
    if token.kind.isTerminator || token.kind == .symbol .closeBrace then pure none
    else pure (some (← r.assigned))
  return .returnJump (← spanFrom start.span) value

/-! ## Statements -/

/-- A statement that begins with a keyword. -/
def keywordStatement (r : Rules) (k : Keyword) : Parse Node := do
  let c ← here
  match k with
  | .fnKw | .macroKw | .aliasKw | .objKw | .enumKw | .testKw => definition r []
  | .letKw | .constKw => letBinding r k
  | .setKw => if c.next.kind == .identifier then letBinding r k else expression r
  | .ifKw => conditional r
  | .forKw => forLoop r
  | .whileKw => whileLoop r
  | .loopKw => endlessLoop r
  | .matchKw => matching r
  | .tryKw => attemptCatch r
  | .useKw => useModule r
  | .fromKw => importFrom r
  | .sourceKw => sourceFile
  | .returnKw => returnJump r
  | .breakKw =>
      let _ ← advance
      return .breakJump c.current.span
  | .continueKw =>
      let _ ← advance
      return .continueJump c.current.span
  | _ => expression r

/-- A statement, after any separators. -/
def statement (r : Rules) : Parse Node := do
  skipSeparators
  match (← peek).kind with
  | .symbol .atSign => decorated r
  | .keyword k => keywordStatement r k
  | .variableName => assigned r
  | _ => expression r

end ShellFront.Grammar
