import ShellFront.Parse.Program
import ShellFront.Proofs.Parse.Agreement

/-!
# Reports and logs are only written

What a reader finds, and where it ends, depends on the mode and on the place where it begins. Nothing is decided by
what was reported or logged before. An action with this property is **blind**. The property passes from the parts of
an action to the action, so it is a class, and for each production an instance puts the parts together.

This holds of any list of tokens, whether a lexer made it or not.

## Contents
- `Parse.seen`, `Parse.Blind`, with instances for the actions that all others are made of.
- `Rules.Blind`, with instances for the grammar and `Rules.upTo_blind`.
-/

namespace ShellFront

namespace Parse

variable {α β γ : Type}

/-- What is seen of a result: what was given, and where the reader is. -/
def seen : EStateM.Result SyntaxError State α → Except SyntaxError α × Cursor
  | .ok a st => (.ok a, st.cursor)
  | .error e st => (.error e, st.cursor)

/-- Results that look the same give the same at the same place. -/
inductive Alike : EStateM.Result SyntaxError State α → EStateM.Result SyntaxError State α → Prop where
  | ok {a : α} {st st' : State} (hcursor : st'.cursor = st.cursor) : Alike (.ok a st) (.ok a st')
  | error {e : SyntaxError} {st st' : State} (hcursor : st'.cursor = st.cursor) : Alike (.error e st) (.error e st')

theorem alike_of_seen {x x' : EStateM.Result SyntaxError State α} (h : seen x' = seen x) : Alike x x' := by
  cases x <;> cases x' <;> obtain ⟨hvalue, hcursor⟩ := Prod.mk.inj h
  · obtain rfl := Except.ok.inj hvalue
    exact .ok hcursor
  · contradiction
  · contradiction
  · obtain rfl := Except.error.inj hvalue
    exact .error hcursor

/-- What a **blind** action gives depends only on the context and the place. -/
class Blind (m : Parse α) : Prop where
  same : ∀ (ctx : Context) (st st' : State), st'.cursor = st.cursor → seen (m ctx st') = seen (m ctx st)

namespace Blind

variable {m : Parse α} {f : α → Parse β} {ctx : Context} {st st' : State} {a : α}

theorem alike [h : Blind m] (ctx : Context) (hcursor : st'.cursor = st.cursor) : Alike (m ctx st) (m ctx st') :=
  alike_of_seen (h.same ctx st st' hcursor)

/-- What a blind action gives in one state it gives in every other one at the same place. -/
theorem ok_of [Blind m] (hcursor : st'.cursor = st.cursor) {after : State} (hrun : m ctx st = .ok a after) :
    ∃ after', m ctx st' = .ok a after' ∧ after'.cursor = after.cursor := by
  have halike := alike (m := m) ctx hcursor
  rw [hrun] at halike
  generalize m ctx st' = x at halike
  cases halike with
  | ok hplace => exact ⟨_, rfl, hplace⟩

/-! ## Small actions -/

/-- An action that gives something that it finds in the context and at the place, and goes to some place. -/
theorem of_run (found : Context → Cursor → α) (place : Cursor → Cursor)
    (h : ∀ ctx st, ∃ st', m ctx st = .ok (found ctx st.cursor) st' ∧ st'.cursor = place st.cursor) : Blind m where
  same := fun ctx st st' hcursor => by
    obtain ⟨after, hrun, hafter⟩ := h ctx st
    obtain ⟨after', hrun', hafter'⟩ := h ctx st'
    rw [hrun, hrun', seen, seen, hafter, hafter', hcursor]

instance : Blind here := .of_run (fun _ c => c) id fun _ st => ⟨st, rfl, rfl⟩
instance : Blind peek := .of_run (fun _ c => c.current) id fun _ st => ⟨st, rfl, rfl⟩
instance : Blind mode := .of_run (fun ctx _ => ctx.mode) id fun _ st => ⟨st, rfl, rfl⟩
instance : Blind (read : Parse Context) := .of_run (fun ctx _ => ctx) id fun _ st => ⟨st, rfl, rfl⟩
instance : Blind advance := .of_run (fun _ c => c.current) Cursor.advance fun _ _ => ⟨_, rfl, rfl⟩
instance (kind : TokenKind) : Blind (check kind) := .of_run (fun _ c => c.kind == kind) id fun _ st => ⟨st, rfl, rfl⟩
instance (step : Cursor → Cursor) : Blind (move step) := .of_run (fun _ _ => ()) step fun _ _ => ⟨_, rfl, rfl⟩
instance : Blind skipNewlines := inferInstanceAs (Blind (move _))
instance : Blind skipSeparators := inferInstanceAs (Blind (move _))
instance (entry : LogEntry) : Blind (note entry) := .of_run (fun _ _ => ()) id fun _ _ => ⟨_, rfl, rfl⟩
instance (a : α) : Blind (pure a) := .of_run (fun _ _ => a) id fun _ st => ⟨st, rfl, rfl⟩

instance (start : Span) : Blind (spanFrom start) :=
  .of_run (fun _ c => start.cover c.previous.span) id fun _ st => ⟨st, rfl, rfl⟩

instance (kind : TokenKind) : Blind (accept kind) :=
  .of_run (fun _ c => decide (c.kind = kind)) (fun c => if c.kind = kind then c.advance else c) fun ctx st => by
    by_cases h : st.cursor.kind = kind
    · exact ⟨_, by rw [accept, if_pos h, decide_eq_true h], (if_pos h).symm⟩
    · exact ⟨_, by rw [accept, if_neg h, decide_eq_false h], (if_neg h).symm⟩

instance (e : SyntaxError) : Blind (reportError e) :=
  .of_run (fun _ _ => ()) id fun _ st => ⟨_, rfl, by split <;> rfl⟩

instance (e : SyntaxError) : Blind (throw e : Parse α) where
  same := fun _ _ _ hcursor => Prod.ext rfl hcursor

/-! ## Actions put together -/

instance bind [Blind m] [hf : ∀ a, Blind (f a)] : Blind (m >>= f) where
  same := fun ctx st st' hcursor => by
    have halike := alike (m := m) ctx hcursor
    rw [bind_run, bind_run]
    generalize m ctx st = x, m ctx st' = x' at halike
    cases halike with
    | ok hplace => exact (hf _).same ctx _ _ hplace
    | error hplace => exact Prod.ext rfl hplace

instance ite {b : Prop} [Decidable b] {m' : Parse α} [h : Blind m] [h' : Blind m'] : Blind (if b then m else m') := by
  split
  · exact h
  · exact h'

instance (change : Mode → Mode) [h : Blind m] : Blind (within change m) where
  same := fun ctx => h.same { ctx with mode := change ctx.mode }

instance [Blind m] : Blind (attempt m) where
  same := fun ctx st st' hcursor => by
    have halike := alike (m := m) ctx hcursor
    rw [attempt, attempt]
    generalize m ctx st = x, m ctx st' = x' at halike
    cases halike with
    | ok hplace => exact Prod.ext rfl hplace
    | error hplace => exact Prod.ext rfl hplace

instance [Blind m] : Blind (Grammar.tentatively m) where
  same := fun ctx st st' hcursor => by
    have halike := alike (m := within Mode.tentative m) ctx hcursor
    rw [Grammar.tentatively, Grammar.tentatively]
    generalize within Mode.tentative m ctx st = x, within Mode.tentative m ctx st' = x' at halike
    cases halike with
    | ok hplace => exact Prod.ext rfl hplace
    | error => exact Prod.ext rfl hcursor

instance (problem : Problem) : Blind (refuse problem) := by
  unfold refuse
  infer_instance

instance (problem : Problem) : Blind (fail problem : Parse α) := by
  unfold fail
  infer_instance

instance (token : Token) (problem : Problem) : Blind (failAt token problem : Parse α) := by
  unfold failAt
  infer_instance

instance (kind : TokenKind) (problem : Problem) : Blind (expect kind problem) := by
  unfold expect
  infer_instance

instance (place : Landmark) : Blind (expectAfter place) := inferInstanceAs (Blind (expect _ _))
instance (construct : Construct) : Blind (expectCloser construct) := inferInstanceAs (Blind (expect _ _))

instance (what : Named) : Blind (ident what) := by
  unfold ident
  infer_instance

instance (token : Token) (radix : Radix) (negative : Bool) : Blind (integerLiteral token radix negative) := by
  unfold integerLiteral
  split <;> infer_instance

/-- A loop is as blind as its turns. -/
instance iterate {turn : β → Parse (Turn β γ)} [h : ∀ b, Blind (turn b)] (n : Nat) (b : β) :
    Blind (iterate turn n b) := by
  induction n generalizing b with
  | zero => exact inferInstanceAs (Blind (fail .tooDeep))
  | succ n ih =>
      refine @bind _ _ _ _ (h b) fun t => ?_
      cases t with
      | again b' => exact ih b'
      | done c => exact inferInstanceAs (Blind (pure c))

instance loop (r : Rules) (start : β) {turn : β → Parse (Turn β γ)} [∀ b, Blind (turn b)] :
    Blind (r.loop start turn) := inferInstanceAs (Blind (Parse.iterate turn _ start))

instance {item : Parse (Option α)} [Blind item] (items : Array α) : Blind (collectTurn item items) := by
  refine @bind _ _ _ _ inferInstance fun a? => ?_
  cases a? <;> infer_instance

instance (closer : TokenKind) {item : Parse α} [Blind item] (items : Array α) : Blind (commaTurn closer item items) := by
  unfold commaTurn
  infer_instance

instance collect (r : Rules) {item : Parse (Option α)} [Blind item] : Blind (r.collect item) := by
  unfold Rules.collect
  infer_instance

instance commaList (r : Rules) (closer : TokenKind) {item : Parse α} [Blind item] : Blind (r.commaList closer item) := by
  unfold Rules.commaList
  infer_instance

end Blind

end Parse

open Parse

/-- The rules of the grammar are blind. -/
class Rules.Blind (r : Rules) : Prop where
  expression : Parse.Blind r.expression
  binary : ∀ least, Parse.Blind (r.binary least)
  unary : Parse.Blind r.unary
  access : Parse.Blind r.access
  statement : Parse.Blind r.statement
  assigned : Parse.Blind r.assigned
  pattern : Parse.Blind r.pattern

attribute [instance] Rules.Blind.expression Rules.Blind.binary Rules.Blind.unary Rules.Blind.access
  Rules.Blind.statement Rules.Blind.assigned Rules.Blind.pattern

namespace Grammar

-- long productions are put together from more parts than the search for an instance takes in by default
set_option synthInstance.maxSize 512

variable (r : Rules) [r.Blind]

/-! ## Lists, parameters, blocks -/

instance (problem : Problem) : Blind (fieldSeparator problem) := by
  unfold fieldSeparator
  infer_instance

instance {α : Type} {part : Parse α} [Blind part] (problem : Problem) : Blind (bracedItem part problem) := by
  unfold bracedItem
  infer_instance

instance (closer : Symbol) (inside : Sequence) : Blind (commaValues r closer inside) := by
  unfold commaValues
  infer_instance

instance : Blind (bracketed r) := by
  unfold bracketed
  infer_instance

instance : Blind (callArguments r) := by
  unfold callArguments
  infer_instance

instance : Blind typeHint := by
  unfold typeHint
  infer_instance

instance (mark : Symbol) : Blind (typeHintAfter? mark) := by
  unfold typeHintAfter?
  infer_instance

instance : Blind parameterName := by
  refine @Blind.bind _ _ _ _ _ fun token => ?_
  split <;> infer_instance

instance (allowed : Bool) : Blind (fallback? r allowed) := by
  unfold fallback?
  dsimp only
  infer_instance

instance (fallbacks : Bool) : Blind (parameter r fallbacks) := by
  unfold parameter
  infer_instance

instance (closer : Symbol) (fallbacks : Bool) : Blind (parameters r closer fallbacks) := by
  unfold parameters
  infer_instance

instance (start : Cursor) (e : SyntaxError) : Blind (recover start e) := by
  unfold recover
  infer_instance

instance (inBlock : Bool) (statements : Array Node) (start : Cursor) (e : SyntaxError) :
    Blind (afterError inBlock statements start e) := by
  unfold afterError
  infer_instance

instance (inBlock : Bool) (statements : Array Node) : Blind (afterStatement inBlock statements) := by
  unfold afterStatement
  infer_instance

instance (inBlock : Bool) (statements : Array Node) : Blind (statementTurn r inBlock statements) := by
  refine @Blind.bind _ _ _ _ _ fun _ => @Blind.bind _ _ _ _ _ fun start => @Blind.ite _ _ _ _ _ _ ?_
  refine @Blind.bind _ _ _ _ _ fun outcome => ?_
  cases outcome <;> infer_instance

instance (inBlock : Bool) : Blind (statementList r inBlock) := by
  unfold statementList
  infer_instance

instance : Blind (block r) := by
  unfold block
  infer_instance

/-! ## Patterns -/

instance (token : Token) (negative : Bool) : Blind (numberLiteral token negative) := by
  unfold numberLiteral
  split <;> infer_instance

instance (negative : Bool) : Blind (numberPattern negative) := by
  unfold numberPattern
  dsimp only
  infer_instance

instance : Blind fieldBinding := by
  refine @Blind.bind _ _ _ _ _ fun token => ?_
  split <;> infer_instance

instance : Blind patternField := by
  unfold patternField
  dsimp only
  infer_instance

instance (fields : Array PatternField) : Blind (fieldTurn fields) := by
  unfold fieldTurn
  infer_instance

instance : Blind (recordPattern r) := by
  unfold recordPattern
  infer_instance

instance : Blind restPattern := by
  refine @Blind.bind _ _ _ _ _ fun start => @Blind.bind _ _ _ _ _ fun token => ?_
  split <;> infer_instance

instance (restSeen : Bool) : Blind (listElement r restSeen) := by
  unfold listElement
  infer_instance

instance (elements : Array Pattern × Bool) : Blind (elementTurn r elements) := by
  unfold elementTurn
  infer_instance

instance : Blind (listPattern r) := by
  unfold listPattern
  infer_instance

instance : Blind (namePattern r) := by
  unfold namePattern
  dsimp only
  infer_instance

instance : Blind (pattern r) := by
  refine @Blind.bind _ _ _ _ _ fun c => ?_
  dsimp only
  split <;> infer_instance

/-! ## Literals, ranges, brackets -/

instance (dots : Symbol) : Blind (rangeEnd dots) := by
  refine @Blind.bind _ _ _ _ _ fun token => ?_
  split <;> infer_instance

instance (first : Node) : Blind (rangeFrom first) := by
  unfold rangeFrom
  dsimp only
  infer_instance

instance : Blind (listLiteral r) := by
  unfold listLiteral
  infer_instance

instance : Blind (setLiteral r) := by
  unfold setLiteral
  infer_instance

instance (start : Span) (first : Node) : Blind (parenRest r start first) := by
  unfold parenRest
  infer_instance

instance : Blind (parenthesised r) := by
  unfold parenthesised
  infer_instance

instance : Blind (commandSubstitution r) := by
  unfold commandSubstitution
  infer_instance

instance (direction : Direction) : Blind (processSubstitution r direction) := by
  unfold processSubstitution
  infer_instance

/-! ## Records and closures -/

instance : Blind recordKey := by
  refine @Blind.bind _ _ _ _ _ fun token => ?_
  split <;> infer_instance

instance : Blind (recordField r) := by
  unfold recordField
  infer_instance

instance : Blind (fieldItem r) := inferInstanceAs (Blind (bracedItem _ _))

instance : Blind (record r) := by
  unfold record
  infer_instance

instance : Blind (recordLiteral r) := by
  unfold recordLiteral
  infer_instance

instance : Blind (closureParameters r) := by
  unfold closureParameters
  infer_instance

instance : Blind (closure r) := by
  unfold closure
  infer_instance

instance : Blind (lambdaHeader r) := by
  unfold lambdaHeader
  infer_instance

instance : Blind (lambda r) := by
  unfold lambda
  infer_instance

/-! ## Words and commands -/

instance : Blind dottedPart := by
  unfold dottedPart
  infer_instance

instance (token : Token) : Blind (callTouches token) := by
  unfold callTouches
  infer_instance

instance (name : Token) : Blind (callOf r name) := by
  unfold callOf
  infer_instance

instance : Blind wordPart := by
  unfold wordPart
  infer_instance

instance : Blind (bareWord r) := by
  unfold bareWord
  infer_instance

instance : Blind commandName := by
  unfold commandName
  infer_instance

instance : Blind pathPart := by
  unfold pathPart
  dsimp only
  infer_instance

instance : Blind (pathWord r) := by
  unfold pathWord
  infer_instance

instance (name : Token) : Blind (flagValue r name) := by
  refine @Blind.bind _ _ _ _ _ fun token => ?_
  split <;> infer_instance

instance : Blind (longFlag r) := by
  unfold longFlag
  infer_instance

instance : Blind (argument r) := by
  refine @Blind.bind _ _ _ _ _ fun token => ?_
  split <;> infer_instance

instance : Blind (argument? r) := by
  unfold argument?
  infer_instance

instance : Blind (commandArguments r) := by
  unfold commandArguments
  infer_instance

instance : Blind (commandStage r) := by
  unfold commandStage
  infer_instance

instance (goesOn : Cursor → Bool) : Blind (pipe? goesOn) := by
  refine @Blind.bind _ _ _ _ _ fun c => ?_
  split <;> infer_instance

instance : Blind (foldedStage r) := by
  refine @Blind.bind _ _ _ _ _ fun joint => ?_
  cases joint <;> infer_instance

instance : Blind (commandExpression r) := by
  unfold commandExpression
  infer_instance

instance : Blind (nameExpression r) := by
  refine @Blind.bind _ _ _ _ _ fun mode => @Blind.bind _ _ _ _ _ fun c => ?_
  split <;> infer_instance

/-! ## Values -/

instance (items : Array Node) : Blind (alternativeTurn r items) := by
  unfold alternativeTurn
  infer_instance

instance : Blind (braceExpansion r) := by
  unfold braceExpansion
  infer_instance

instance : Blind (recordOrClosure r) := by
  refine @Blind.bind _ _ _ _ _ fun start => @Blind.bind _ _ _ _ _ fun first => ?_
  cases first with
  | some node => exact inferInstanceAs (Blind (pure node))
  | none =>
      refine @Blind.bind _ _ _ _ _ fun _ => @Blind.bind _ _ _ _ _ fun second => ?_
      cases second <;> infer_instance

instance : Blind (braceValue r) := by
  refine @Blind.bind _ _ _ _ _ fun c => @Blind.ite _ _ _ _ _ _ (@Blind.ite _ _ _ _ _ _ ?_)
  split <;> infer_instance

instance (k : Keyword) : Blind (keywordValue r k) := by
  refine @Blind.bind _ _ _ _ _ fun c => ?_
  dsimp only
  split <;> infer_instance

instance (s : Symbol) : Blind (symbolValue r s) := by
  unfold symbolValue
  split <;> infer_instance

instance : Blind (primary r) := by
  refine @Blind.bind _ _ _ _ _ fun token => ?_
  split <;> infer_instance

instance (target : Node) (name : Token) : Blind (memberTurn r target name) := by
  unfold memberTurn
  dsimp only
  infer_instance

instance (target : Node) : Blind (accessTurn r target) := by
  unfold accessTurn
  infer_instance

instance : Blind (access r) := by
  unfold access
  infer_instance

instance : Blind (unary r) := by
  refine @Blind.bind _ _ _ _ _ fun token => ?_
  split <;> infer_instance

/-! ## Operators -/

instance (least : Nat) (left : Node) : Blind (binaryTurn r least left) := by
  refine @Blind.bind _ _ _ _ _ fun mode => @Blind.bind _ _ _ _ _ fun c => ?_
  split <;> infer_instance

instance (least : Nat) : Blind (binary r least) := by
  unfold binary
  infer_instance

instance : Blind (pipedOperand r) := by
  refine @Blind.bind _ _ _ _ _ fun joint => ?_
  cases joint <;> infer_instance

instance : Blind (pipeline r) := by
  refine @Blind.bind _ _ _ _ _ fun first => @Blind.bind _ _ _ _ _ fun others => ?_
  split <;> infer_instance

instance : Blind (expression r) := inferInstanceAs (Blind (pipeline r))

/-! ## Statements -/

instance : Blind (assignment r) := by
  unfold assignment
  infer_instance

instance : Blind (assigned r) := by
  unfold assigned
  infer_instance

instance (keyword : Keyword) : Blind (letBinding r keyword) := by
  unfold letBinding
  infer_instance

instance : Blind (condition r) := by
  unfold condition
  infer_instance

instance (k : Keyword) : Blind (acceptPastNewlines k) := by
  unfold acceptPastNewlines
  infer_instance

instance : Blind (elseIf? r) := by
  refine @Blind.bind _ _ _ _ _ fun token => ?_
  cases token <;> infer_instance

instance : Blind (elseBlock? r) := by
  refine @Blind.bind _ _ _ _ _ fun token => ?_
  cases token <;> infer_instance

instance : Blind (conditional r) := by
  unfold conditional
  infer_instance

instance : Blind loopVariable := by
  refine @Blind.bind _ _ _ _ _ fun token => ?_
  split <;> infer_instance

instance : Blind (forLoop r) := by
  unfold forLoop
  infer_instance

instance : Blind (whileLoop r) := by
  unfold whileLoop
  infer_instance

instance : Blind (endlessLoop r) := by
  unfold endlessLoop
  infer_instance

instance : Blind (guard? r) := by
  unfold guard?
  infer_instance

instance : Blind (armBody r) := by
  refine @Blind.bind _ _ _ _ _ fun c => ?_
  infer_instance

instance : Blind (matchArm r) := by
  unfold matchArm
  infer_instance

instance : Blind (matchArm? r) := by
  unfold matchArm?
  infer_instance

instance : Blind (matching r) := by
  unfold matching
  infer_instance

instance : Blind errorName? := by
  refine @Blind.bind _ _ _ _ _ fun token => ?_
  split <;> infer_instance

instance : Blind (attemptCatch r) := by
  unfold attemptCatch
  dsimp only
  infer_instance

/-! ## Definitions -/

instance (name : Token) : Blind (decoratorArguments r name) := by
  refine @Blind.bind _ _ _ _ _ fun touches => @Blind.ite _ _ _ _ _ _ (@Blind.bind _ _ _ _ _ fun token => ?_)
  split <;> infer_instance

instance : Blind (decorator? r) := by
  unfold decorator?
  infer_instance

instance (decorators : List (Decorator Node)) : Blind (function r decorators) := by
  unfold function
  infer_instance

instance : Blind shellParameter? := by
  unfold shellParameter?
  infer_instance

instance : Blind (macroParameters r) := by
  unfold macroParameters
  infer_instance

instance (decorators : List (Decorator Node)) : Blind (macroDefinition r decorators) := by
  refine @Blind.bind _ _ _ _ _ fun start => @Blind.bind _ _ _ _ _ fun name => @Blind.bind _ _ _ _ _ fun params => ?_
  infer_instance

instance (decorators : List (Decorator Node)) : Blind (aliasDefinition r decorators) := by
  unfold aliasDefinition
  infer_instance

instance : Blind (objectMember r) := by
  refine @Blind.bind _ _ _ _ _ fun token => ?_
  split <;> infer_instance

instance (decorators : List (Decorator Node)) : Blind (objectDefinition r decorators) := by
  unfold objectDefinition
  infer_instance

instance (decorators : List (Decorator Node)) : Blind (enumDefinition r decorators) := by
  unfold enumDefinition
  infer_instance

instance (problem : Problem) : Blind (stringToken problem) := by
  refine @Blind.bind _ _ _ _ _ fun token => ?_
  split <;> infer_instance

instance (decorators : List (Decorator Node)) : Blind (testDefinition r decorators) := by
  unfold testDefinition
  infer_instance

instance (decorators : List (Decorator Node)) : Blind (definition r decorators) := by
  refine @Blind.bind _ _ _ _ _ fun token => ?_
  split <;> infer_instance

instance : Blind (decorated r) := by
  unfold decorated
  infer_instance

/-! ## Modules and jumps -/

instance : Blind pathSegment? := by
  unfold pathSegment?
  infer_instance

instance : Blind (moduleRef r) := by
  refine @Blind.bind _ _ _ _ _ fun token => ?_
  split <;> infer_instance

instance : Blind (useModule r) := by
  unfold useModule
  infer_instance

instance (what : Named) : Blind (rename? what) := by
  unfold rename?
  infer_instance

instance : Blind importItem := by
  unfold importItem
  infer_instance

instance (items : Array ImportItem) : Blind (importTurn items) := by
  unfold importTurn
  infer_instance

instance : Blind (importFrom r) := by
  unfold importFrom
  infer_instance

instance : Blind sourceFile := by
  unfold sourceFile
  infer_instance

instance : Blind (returnJump r) := by
  unfold returnJump
  dsimp only
  infer_instance

instance (k : Keyword) : Blind (keywordStatement r k) := by
  refine @Blind.bind _ _ _ _ _ fun c => ?_
  split <;> infer_instance

instance : Blind (statement r) := by
  refine @Blind.bind _ _ _ _ _ fun _ => @Blind.bind _ _ _ _ _ fun token => ?_
  split <;> infer_instance

end Grammar

namespace Rules

instance exhausted_blind : exhausted.Blind where
  expression := inferInstanceAs (Parse.Blind (fail .tooDeep))
  binary := fun _ => inferInstanceAs (Parse.Blind (fail .tooDeep))
  unary := inferInstanceAs (Parse.Blind (fail .tooDeep))
  access := inferInstanceAs (Parse.Blind (fail .tooDeep))
  statement := inferInstanceAs (Parse.Blind (fail .tooDeep))
  assigned := inferInstanceAs (Parse.Blind (fail .tooDeep))
  pattern := inferInstanceAs (Parse.Blind (fail .tooDeep))

/-- **The rules are blind to every depth.** -/
instance upTo_blind (n : Nat) : (upTo n).Blind := by
  induction n with
  | zero => exact exhausted_blind
  | succ n ih =>
      exact ⟨inferInstanceAs (Parse.Blind (Grammar.expression (upTo n))),
        fun least => inferInstanceAs (Parse.Blind (Grammar.binary (upTo n) least)),
        inferInstanceAs (Parse.Blind (Grammar.unary (upTo n))), inferInstanceAs (Parse.Blind (Grammar.access (upTo n))),
        inferInstanceAs (Parse.Blind (Grammar.statement (upTo n))),
        inferInstanceAs (Parse.Blind (Grammar.assigned (upTo n))),
        inferInstanceAs (Parse.Blind (Grammar.pattern (upTo n)))⟩

end Rules

end ShellFront
