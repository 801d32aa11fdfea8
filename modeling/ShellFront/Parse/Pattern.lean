import ShellFront.Parse.Basic

/-!
# Reading patterns

The patterns of match arms: literals, wildcards, bindings, records, typed records, and lists with at
most one rest element.

## Contents
- `numberPattern`, `patternField`, `recordPattern`, `restPattern`, `listPattern`, `pattern`.
-/

namespace ShellFront.Grammar

open Parse

/-- The literal of a number token that was just read. -/
def numberLiteral (token : Token) (negative : Bool) : Parse Literal :=
  match token.kind with
  | .integer radix => integerLiteral token radix negative
  | _ => return floatLiteral token negative

/-- A number, perhaps with a minus sign, as a pattern. -/
def numberPattern (negative : Bool) : Parse Pattern := do
  let start ← peek
  if negative then
    let _ ← advance
  let token ← advance
  let value ← numberLiteral token negative
  return .literal (start.span.cover token.span) value

/-- What a field of a record pattern is bound to, after its colon. -/
def fieldBinding : Parse FieldBinding := do
  let token ← peek
  match token.kind with
  | .variableName =>
      let _ ← advance
      return .named ⟨token.span, token.payload⟩
  | .identifier =>
      if token.lexeme == "_" then
        let _ ← advance
        return .wildcard token.span
      else fail .patternBinding
  | _ => fail .patternBinding

/-- A field of a record pattern. -/
def patternField : Parse PatternField := do
  let token ← peek
  if !token.kind.isName then fail .patternField
  else
    let _ ← advance
    let binding ←
      if ← accept (.symbol .colon) then pure (some (← fieldBinding)) else pure none
    return ⟨← spanFrom token.span, ⟨token.span, token.lexeme⟩, binding⟩

/-- A turn over the fields of a record pattern. -/
def fieldTurn (fields : Array PatternField) : Parse (Turn (Array PatternField) (List PatternField)) := do
  if ← check (.symbol .closeBrace) then return .done fields.toList
  else
    let field ← patternField
    skipNewlines
    if ← accept (.symbol .comma) then
      skipNewlines
      return .again (fields.push field)
    else return .done (fields.push field).toList

/-- A record pattern. -/
def recordPattern (r : Rules) : Parse RecordPattern := do
  let start ← expect (.symbol .openBrace) .recordPatternOpener
  skipNewlines
  let fields ← r.loop #[] fieldTurn
  let _ ← expect (.symbol .closeBrace) (.unfinished .closeBrace .recordPattern)
  return ⟨← spanFrom start.span, fields⟩

/-- A rest element of a list pattern. -/
def restPattern : Parse Pattern := do
  let start ← advance
  let token ← peek
  match token.kind with
  | .identifier =>
      let _ ← advance
      return .rest (← spanFrom start.span) token.lexeme false
  | .variableName =>
      let _ ← advance
      return .rest (← spanFrom start.span) token.payload true
  | _ => fail (.nameAfter "...")

/-- An element of a list pattern, and whether a rest element was among the elements up to it. -/
def listElement (r : Rules) (restSeen : Bool) : Parse (Pattern × Bool) := do
  let token ← peek
  if token.kind == .symbol .ellipsis then
    let rest ← restPattern
    if restSeen then failAt token .secondRest else return (rest, true)
  else return (← r.pattern, restSeen)

/-- A turn over the elements of a list pattern. -/
def elementTurn (r : Rules) : Array Pattern × Bool → Parse (Turn (Array Pattern × Bool) (List Pattern)) :=
  fun (elements, restSeen) => do
    if ← check (.symbol .closeBracket) then return .done elements.toList
    else
      let (element, restSeen) ← listElement r restSeen
      if ← accept (.symbol .comma) then return .again (elements.push element, restSeen)
      else return .done (elements.push element).toList

/-- A list pattern. -/
def listPattern (r : Rules) : Parse Pattern := do
  let start ← expect (.symbol .openBracket) (.opener .openBracket)
  let elements ← r.loop (#[], false) (elementTurn r)
  let _ ← expect (.symbol .closeBracket) (.unfinished .closeBracket .listPattern)
  return .list (← spanFrom start.span) elements

/-- A name as a pattern: the wildcard, a typed record, or a binding. -/
def namePattern (r : Rules) : Parse Pattern := do
  let c ← here
  let token := c.current
  let _ ← advance
  if token.lexeme == "_" then return .wildcard token.span
  else if c.next.kind == .symbol .openBrace then
    let record ← recordPattern r
    return .typedRecord (← spanFrom token.span) ⟨token.span, token.lexeme⟩ record
  else return .binding token.span token.lexeme false

/-- A pattern. -/
def pattern (r : Rules) : Parse Pattern := do
  let c ← here
  let token := c.current
  match token.kind with
  | .symbol .minus => if c.next.kind.isNumber then numberPattern true else fail .pattern
  | .integer _ | .float => numberPattern false
  | .string style =>
      let _ ← advance
      return .literal token.span (.string token.payload style)
  | .keyword .trueKw =>
      let _ ← advance
      return .literal token.span (.boolean true)
  | .keyword .falseKw =>
      let _ ← advance
      return .literal token.span (.boolean false)
  | .keyword .nullKw =>
      let _ ← advance
      return .literal token.span .null
  | .identifier => namePattern r
  | .variableName =>
      let _ ← advance
      return .binding token.span token.payload true
  | .symbol .openBrace => return .record (← recordPattern r)
  | .symbol .openBracket => listPattern r
  | _ => fail .pattern

end ShellFront.Grammar
