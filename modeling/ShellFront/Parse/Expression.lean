import ShellFront.Parse.Block

/-!
# Expressions

Operators bind by precedence and to the left; pipelines bind looser than all of them and stay flat.
A name in the place of a value is a call when a parenthesis touches it, the construction of an object
when it has a capital and a record follows, and a command otherwise.

## Contents
- Literals and ranges, brackets and substitutions.
- Braces: records, closures, expansions.
- Lambdas.
- Names: words, calls, constructions, commands and their arguments, `foldedStage`.
- `primary`, `access`, `unary`, `binary`, `pipeline`, `expression`.
-/

namespace ShellFront.Grammar

open Parse

/-! ## Literals and ranges -/

/-- The end of a range, after its dots. -/
def rangeEnd (dots : Symbol) : Parse Node := do
  let token ← peek
  match token.kind with
  | .integer radix =>
      let _ ← advance
      return .literal token.span (← integerLiteral token radix false)
  | .variableName =>
      let _ ← advance
      return .variableUse token.span token.payload
  | _ => fail (.rangeEnd dots.text)

/-- A range that begins with a value, or the value by itself. -/
def rangeFrom (first : Node) : Parse Node := do
  let token ← peek
  let inclusive := token.kind == .symbol .dotDotEqual
  if inclusive || token.kind == .symbol .dotDot then
    let _ ← advance
    let last ← rangeEnd (if inclusive then .dotDotEqual else .dotDot)
    return .range (first.span.cover last.span) first last inclusive
  else return first

/-! ## Brackets -/

/-- A list. -/
def listLiteral (r : Rules) : Parse Node := do
  let start ← peek
  let elements ← bracketed r
  return .list (← spanFrom start.span) elements

/-- A set, after a keyword that a bracket follows. -/
def setLiteral (r : Rules) : Parse Node := do
  let start ← advance
  let elements ← bracketed r
  return .set (← spanFrom start.span) elements

/-- What follows the first expression in parentheses: the closer, or more elements of a tuple. -/
def parenRest (r : Rules) (start : Span) (first : Node) : Parse Node := do
  if ← accept (.symbol .comma) then
    let others ← commaValues r .closeParen .tuple
    return .tuple (← spanFrom start) (first :: others)
  else
    let _ ← expect (.symbol .closeParen) .unclosedParen
    return .paren (← spanFrom start) first

/-- A parenthesised expression or a tuple. -/
def parenthesised (r : Rules) : Parse Node := do
  let start ← advance
  if ← accept (.symbol .closeParen) then return .tuple (← spanFrom start.span) []
  else
    within Mode.nested do
      let first ← r.expression
      parenRest r start.span first

/-- The result of a command. -/
def commandSubstitution (r : Rules) : Parse Node := do
  let start ← advance
  let inner ← within Mode.nested r.expression
  let _ ← expectCloser .commandSubstitution
  return .commandSubstitution (← spanFrom start.span) inner

/-- A command in the place of a file. -/
def processSubstitution (r : Rules) (direction : Direction) : Parse Node := do
  let start ← advance
  let inner ← within Mode.nested r.expression
  let _ ← expectCloser .processSubstitution
  return .processSubstitution (← spanFrom start.span) direction inner

/-! ## Records -/

/-- The key of a record field. -/
def recordKey : Parse RecordKey := do
  let token ← peek
  match token.kind with
  | .string style =>
      let _ ← advance
      return .text ⟨token.span, token.payload, style⟩
  | .identifier | .keyword _ =>
      let _ ← advance
      return .name ⟨token.span, token.lexeme⟩
  | _ => fail .recordKey

/-- A field of a record. -/
def recordField (r : Rules) : Parse (RecordField Node) := do
  let start ← peek
  let key ← recordKey
  let _ ← expectAfter .recordKey
  skipNewlines
  let value ← r.expression
  return ⟨← spanFrom start.span, key, value⟩

/-- A field of a record with what separates it from the next one, unless the record closes. -/
def fieldItem (r : Rules) : Parse (Option (RecordField Node)) :=
  bracedItem (recordField r) (.unfinished .closeBrace .record)

/-- A record. -/
def record (r : Rules) : Parse (Record Node) := do
  let start ← expect (.symbol .openBrace) (.opener .openBrace)
  let fields ← within Mode.nested do
    skipNewlines
    let fields ← r.collect (fieldItem r)
    let _ ← expectCloser .record
    return fields
  return ⟨← spanFrom start.span, fields⟩

/-- A record as a value. -/
def recordLiteral (r : Rules) : Parse Node := do return .record (← record r)

/-! ## Closures -/

/-- The parameters of a closure between bars, if there are any bars. -/
def closureParameters (r : Rules) : Parse (List (Parameter Node) × Bool) := do
  if ← accept (.symbol .pipe) then return (← parameters r .pipe false, true)
  else return ([], ← accept (.symbol .orOr))

/-- A closure. Its body spans the whole of it. -/
def closure (r : Rules) : Parse Node := do
  let start ← expect (.symbol .openBrace) (.opener .openBrace)
  let (params, explicitParams) ← closureParameters r
  let statements ← within Mode.nested (statementList r true)
  let _ ← expectCloser .closure
  let span ← spanFrom start.span
  return .closure span params ⟨span, statements⟩ explicitParams

/-- The first part of a lambda: its opening bar and its parameters, or the two bars in their place. -/
def lambdaHeader (r : Rules) : Parse (Token × List (Parameter Node)) := do
  let start ← advance
  if start.kind == .symbol .pipe then return (start, ← parameters r .pipe false) else return (start, [])

/-- A lambda. -/
def lambda (r : Rules) : Parse Node := do
  let (start, params) ← lambdaHeader r
  let returns ← typeHintAfter? .arrow
  let body ← block r
  return .lambda (← spanFrom start.span) params returns body

/-- A lambda, read part by part. -/
theorem lambda_eq (r : Rules) : lambda r = (do
    let start ← advance
    let params ← if start.kind == .symbol .pipe then parameters r .pipe false else pure []
    let returns ← typeHintAfter? .arrow
    let body ← block r
    return .lambda (← spanFrom start.span) params returns body) := by
  rw [lambda, lambdaHeader, bind_assoc]
  refine bind_congr fun start => ?_
  split <;> simp only [bind_assoc, pure_bind]

/-! ## Words and commands -/

/-- Whether a dot and a further part are glued to what was read last. -/
def gluedPart (c : Cursor) (part : TokenKind → Bool) : Bool :=
  c.kind == .symbol .dot && c.previous.touches c.current && c.current.touches c.next
    && part c.next.kind

/-- Reads a dot and the part after it. -/
def dottedPart : Parse Token := do
  let _ ← advance
  advance

/-- Whether a call's parenthesis touches a token that was just read. -/
def callTouches (token : Token) : Parse Bool := do
  let c ← here
  return c.kind == .symbol .openParen && token.touches c.current

/-- A call of a name that was just read. -/
def callOf (r : Rules) (name : Token) : Parse Node := do
  let args ← callArguments r
  return .call (← spanFrom name.span) ⟨name.span, name.lexeme⟩ args

/-- A further part of a bare word, if one is glued to it by a dot. -/
def wordPart : Parse (Option Token) := do
  if gluedPart (← here) TokenKind.isWordPart then return some (← dottedPart) else return none

/-- A bare word with the parts glued to it by dots, or a call. -/
def bareWord (r : Rules) : Parse Node := do
  let start ← advance
  let parts ← r.collect wordPart
  if parts.isEmpty && (← callTouches start) then callOf r start
  else
    return .word (← spanFrom start.span)
      (parts.foldl (fun text part => text ++ "." ++ part.lexeme) start.lexeme)

/-- The name of a command, perhaps with a namespace. -/
def commandName : Parse CommandName := do
  let token ← expect .identifier (.name .command)
  if gluedPart (← here) (· == .identifier) then
    let member ← dottedPart
    return ⟨← spanFrom token.span, member.lexeme, some token.lexeme, false⟩
  else
    let ctx ← read
    return ⟨token.span, token.lexeme, none, ctx.isBuiltin token.lexeme⟩

/-- A further part of a word of marks, if one is glued to it. -/
def pathPart : Parse (Option Token) := do
  let c ← here
  let fits := match c.kind with
    | .symbol .dot | .symbol .dotDot | .symbol .star => true
    | kind => kind.isWordPart
  if fits && c.previous.touches c.current then return some (← advance) else return none

/-- A word of marks and what is glued to them, such as a dot file or a pattern of files. -/
def pathWord (r : Rules) : Parse Node := do
  let start ← advance
  let parts ← r.collect pathPart
  return .path (← spanFrom start.span)
    (parts.foldl (fun text part => text ++ part.lexeme) start.lexeme)

/-- The value of a long flag: after an equals sign that touches it, or a number, a string or a word
    after it. -/
def flagValue (r : Rules) (name : Token) : Parse (Option Node) := do
  let token ← peek
  match token.kind with
  | .symbol .assign =>
      if name.touches token then
        let _ ← advance
        return some (← r.unary)
      else return none
  | .integer _ | .float | .string _ | .identifier => return some (← r.access)
  | .keyword k => if k.isOperatorOrValue then return none else return some (← r.access)
  | _ => return none

/-- A long flag. -/
def longFlag (r : Rules) : Parse Node := do
  let token ← advance
  let value ← flagValue r token
  return .flag (← spanFrom token.span) token.payload true value

/-- An argument of a command. It takes in comparisons and operators that bind tighter. -/
def argument (r : Rules) : Parse Node := do
  let token ← peek
  match token.kind with
  | .longFlag => longFlag r
  | .shortFlag =>
      let _ ← advance
      return .flag token.span token.payload false none
  | .symbol .dot | .symbol .dotDot | .symbol .star | .symbol .slash => pathWord r
  | _ => r.binary Operator.equal.precedence

/-- Whether an argument begins at a cursor. -/
def startsArgument (mode : Mode) (c : Cursor) : Bool :=
  match c.kind with
  | .integer _ | .float | .string _ | .identifier | .variableName | .environmentName
  | .specialName | .shortFlag | .longFlag | .path => true
  | .keyword k => k != .andKw && k != .orKw
  | .symbol s =>
      match s with
      | .openBracket | .openParen | .openSubstitution | .openProcessIn | .openProcessOut | .dot
      | .dotDot | .star | .slash | .minus | .bang => true
      | .openBrace => !mode.braceless
      | .pipe | .orOr => c.lambdaAhead
      | _ => false
  | _ => false

/-- A further argument of a command, if one begins here. -/
def argument? (r : Rules) : Parse (Option Node) := do
  if startsArgument (← mode) (← here) then return some (← argument r) else return none

/-- The arguments of a command. -/
def commandArguments (r : Rules) : Parse (List Node) := within Mode.arguments (r.collect (argument? r))

/-- A command with its arguments. -/
def commandStage (r : Rules) : Parse (CommandStage Node) := do
  let name ← commandName
  let args ← commandArguments r
  return ⟨← spanFrom name.span, name, args⟩

/-- Reads a pipe symbol and the line breaks after it, when one comes next and may be read. -/
def pipe? (goesOn : Cursor → Bool) : Parse (Option Symbol) := do
  let c ← here
  match c.kind with
  | .symbol s =>
      if s.isPipe && goesOn c then
        let _ ← advance
        skipNewlines
        return some s
      else return none
  | _ => return none

/-- A pipe and one more stage of the same command, if the pipe goes on with the command. -/
def foldedStage (r : Rules) : Parse (Option (Symbol × CommandStage Node)) := do
  match ← pipe? (fun c => Cursor.pipeFolds c.ahead) with
  | some s => return some (s, ← commandStage r)
  | none => return none

/-- A command and the commands that it is piped into. -/
def commandExpression (r : Rules) : Parse Node := do
  let first ← commandStage r
  let others ← r.collect (foldedStage r)
  let last := (others.getLast?.map (fun (_, stage) => stage)).getD first
  return .command (first.span.cover last.span) (first :: others.map (·.2)) (others.map (·.1))

/-- Whether a name begins with a capital letter. -/
def isCapitalised (name : String) : Bool :=
  match name.toList with
  | c :: _ => 'A' ≤ c && c ≤ 'Z'
  | [] => false

/-- What a name stands for where a value is expected. -/
inductive NameUse where
  | tuple
  | call
  | construction
  | command
deriving DecidableEq

/-- What the name at a cursor stands for where a value is expected. -/
def nameUse (mode : Mode) (c : Cursor) : NameUse :=
  if c.current.lexeme == "tuple" && c.next.kind == .symbol .openBracket then .tuple
  else if c.next.kind == .symbol .openParen && c.current.touches c.next then .call
  else if isCapitalised c.current.lexeme && c.next.kind == .symbol .openBrace && !mode.braceless
      && Cursor.recordShaped (c.ahead.drop 1) then .construction
  else .command

/-- A name where a value is expected. -/
def nameExpression (r : Rules) : Parse Node := do
  match nameUse (← mode) (← here) with
  | .tuple =>
      let start ← advance
      let elements ← bracketed r
      return .tuple (← spanFrom start.span) elements
  | .call =>
      let name ← advance
      callOf r name
  | .construction =>
      let name ← advance
      let value ← record r
      return .construction (← spanFrom name.span) ⟨name.span, name.lexeme⟩ value
  | .command => commandExpression r

/-! ## Braces in the place of a value -/

/-- One alternative, and whether a comma goes on with another one. -/
def alternativeTurn (r : Rules) (items : Array Node) : Parse (Turn (Array Node) (List Node)) := do
  let item ← argument r
  if ← accept (.symbol .comma) then return .again (items.push item)
  else return .done (items.push item).toList

/-- Alternatives between braces. -/
def braceExpansion (r : Rules) : Parse Node := do
  let start ← expect (.symbol .openBrace) (.opener .openBrace)
  let items ← within Mode.alternatives (r.loop #[] (alternativeTurn r))
  let _ ← expectCloser .braceExpansion
  return .expansion (← spanFrom start.span) items

/-- Runs a reading that may fail, without recovery. If it fails, its moves and reports are taken
    back. -/
def tentatively {α : Type} (reading : Parse α) : Parse (Option α) := fun ctx st =>
  match within Mode.tentative reading ctx st with
  | .ok a after => .ok (some a) after
  | .error _ after => .ok none { after with cursor := st.cursor, report := st.report }

/-- A brace whose content has a colon: a record, or else a closure. -/
def recordOrClosure (r : Rules) : Parse Node := do
  let start ← peek
  match ← tentatively (recordLiteral r) with
  | some node => return node
  | none =>
      note (.recordRefused start.span)
      match ← tentatively (closure r) with
      | some node => return node
      | none => failAt start .ambiguousBrace

/-- Whether a token list begins, after line breaks, with the bar of closure parameters. -/
def barAhead (ts : List Token) : Bool :=
  match ts.dropWhile (fun t => t.kind == .newline) with
  | t :: _ => t.kind == .symbol .pipe || t.kind == .symbol .orOr
  | [] => false

/-- A brace in the place of a value. -/
def braceValue (r : Rules) : Parse Node := do
  let c ← here
  if Cursor.recordShaped c.ahead then recordLiteral r
  else if barAhead c.ahead then closure r
  else
    match Cursor.braceShape c.ahead with
    | .expansion => braceExpansion r
    | .other => closure r
    | .colon => recordOrClosure r

/-! ## Primary expressions -/

/-- A keyword where a value is expected. -/
def keywordValue (r : Rules) (k : Keyword) : Parse Node := do
  let c ← here
  let token := c.current
  match k with
  | .trueKw | .falseKw =>
      let _ ← advance
      return .literal token.span (.boolean (k == .trueKw))
  | .nullKw =>
      let _ ← advance
      return .literal token.span .null
  | .setKw =>
      if c.next.kind == .symbol .openBracket then setLiteral r
      else if (← mode).words then bareWord r
      else fail .expression
  | _ => if !k.isOperatorOrValue && (← mode).words then bareWord r else fail .expression

/-- A symbol where a value is expected. -/
def symbolValue (r : Rules) (s : Symbol) : Parse Node := do
  match s with
  | .openBracket => listLiteral r
  | .openParen => parenthesised r
  | .openSubstitution => commandSubstitution r
  | .openProcessIn => processSubstitution r .input
  | .openProcessOut => processSubstitution r .output
  | .openBrace => if (← mode).braceless then fail .expression else braceValue r
  | .pipe | .orOr => lambda r
  | _ => fail .expression

/-- An expression without operators. -/
def primary (r : Rules) : Parse Node := do
  let token ← peek
  match token.kind with
  | .integer radix =>
      let _ ← advance
      rangeFrom (.literal token.span (← integerLiteral token radix false))
  | .float =>
      let _ ← advance
      return .literal token.span (floatLiteral token false)
  | .string style =>
      let _ ← advance
      return .literal token.span (.string token.payload style)
  | .variableName =>
      let _ ← advance
      rangeFrom (.variableUse token.span token.payload)
  | .environmentName =>
      let _ ← advance
      return .environmentUse token.span token.payload
  | .specialName =>
      let _ ← advance
      return .specialUse token.span token.payload
  | .path =>
      let _ ← advance
      return .path token.span token.lexeme
  | .identifier => if (← mode).words then bareWord r else nameExpression r
  | .keyword k => keywordValue r k
  | .symbol s => symbolValue r s
  | _ => fail .expression

/-- What a field or a method can be called. -/
def isMember : TokenKind → Bool
  | .integer .decimal => true
  | kind => kind.isName

/-- What comes after the dot and the name of a part: a method's arguments, if they touch the name. -/
def memberTurn (r : Rules) (target : Node) (name : Token) : Parse (Turn Node Node) := do
  let field : Ident := ⟨name.span, name.lexeme⟩
  if ← callTouches name then
    let args ← callArguments r
    return .again (.methodCall (← spanFrom target.span) target field args)
  else return .again (.fieldAccess (← spanFrom target.span) target field)

/-- A field or a method that is glued to an expression by a dot, if there is one. -/
def accessTurn (r : Rules) (target : Node) : Parse (Turn Node Node) := do
  if gluedPart (← here) isMember then
    let name ← dottedPart
    memberTurn r target name
  else return .done target

/-- A primary expression with the fields and methods glued to it by dots. -/
def access (r : Rules) : Parse Node := do
  let target ← primary r
  r.loop target (accessTurn r)

/-! ## Operators -/

/-- An operand with the operators before it. -/
def unary (r : Rules) : Parse Node := do
  let token ← peek
  match UnaryOperator.ofToken? token.kind with
  | some operator =>
      let _ ← advance
      let operand ← r.unary
      return .unary (token.span.cover operand.span) operator operand
  | none => access r

/-- Whether a minus sign among the arguments of a command begins a negative one: it stands apart from
    what was read before it and touches what follows. -/
def startsNegative (c : Cursor) : Bool :=
  c.kind == .symbol .minus && !c.previous.touches c.current && c.current.touches c.next

/-- The operator that goes on with an expression at a cursor, if it binds tightly enough. -/
def continuing? (mode : Mode) (least : Nat) (c : Cursor) : Option Operator :=
  match Operator.ofToken? c.kind with
  | some operator =>
      if operator.precedence < least || (mode.words && startsNegative c) then none
      else some operator
  | none => none

/-- An operator of at least some precedence and its right operand, if they follow. -/
def binaryTurn (r : Rules) (least : Nat) (left : Node) : Parse (Turn Node Node) := do
  match continuing? (← mode) least (← here) with
  | some operator =>
      let _ ← advance
      skipNewlines
      let right ← r.binary (operator.precedence + 1)
      return .again (.binary (left.span.cover right.span) operator left right)
  | none => return .done left

/-- Operands joined to the left by operators of at least some precedence. -/
def binary (r : Rules) (least : Nat) : Parse Node := do
  let left ← unary r
  r.loop left (binaryTurn r least)

/-- A pipe and what comes after it, if there is one. -/
def pipedOperand (r : Rules) : Parse (Option (Symbol × Node)) := do
  match ← pipe? (fun _ => true) with
  | some s => return some (s, ← r.binary 0)
  | none => return none

/-- An expression, and what it is piped through. -/
def pipeline (r : Rules) : Parse Node := do
  let first ← binary r 0
  let others ← r.collect (pipedOperand r)
  match others.getLast? with
  | none => return first
  | some (_, last) =>
      return .pipeline (first.span.cover last.span) (first :: others.map (·.2)) (others.map (·.1))

/-- An expression. -/
def expression (r : Rules) : Parse Node := pipeline r

end ShellFront.Grammar
