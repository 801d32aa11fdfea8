import ShellFront.Proofs.Values.Gives
import ShellFront.Proofs.Written.Values

/-!
# Tokens that spell values

Tokens **spell** a value when every reader of expressions that may meet the value there makes it of them. Values
are built on the left, by operators and by what is glued to them, and these are loops of the grammar; so for the
left part of a value it is only said that the loop is reached again, with the part read and no more turns used than
tokens. Where the loop ends is seen from the kind of the token after the value.

## Contents
- Classes of kinds: `TokenKind.isPart`, `opensPrimary`, `opensValue`, `closesValue`, `endsOperand`, `endsPrimary`.
- `Grammar.ComesTo`, `Grammar.Chained`, `Grammar.Spells`.
- `Grammar.Spells.whole`, `Grammar.Spells.bound`: values as they stand in brackets and next to operators.
-/

namespace ShellFront

/-! ## Kinds of tokens -/

namespace TokenKind

/-- What values are made of. -/
def isPart : TokenKind → Bool
  | .newline | .invalid | .endOfInput => false
  | kind => !kind.isAssignment

/-- What an expression without operators begins with, if it is a value. -/
def opensPrimary : TokenKind → Bool
  | .integer .decimal | .string .double | .variableName | .identifier => true
  | .keyword .trueKw | .keyword .falseKw | .keyword .nullKw => true
  | .symbol .openBracket | .symbol .openParen | .symbol .openBrace => true
  | _ => false

/-- What a value begins with. -/
def opensValue (kind : TokenKind) : Bool := kind.opensPrimary || (UnaryOperator.ofToken? kind).isSome

/-- What comes after a whole value. -/
def closesValue : TokenKind → Bool
  | .symbol .comma | .symbol .closeParen | .symbol .closeBracket | .symbol .closeBrace | .endOfInput => true
  | _ => false

/-- What comes after an operand. -/
def endsOperand (kind : TokenKind) : Bool := kind.closesValue || (Operator.ofToken? kind).isSome

/-- What comes after an expression without operators. -/
def endsPrimary (kind : TokenKind) : Bool := kind.endsOperand || kind == .symbol .dot

variable {kind : TokenKind}

theorem ne_endOfInput_of_isPart (h : kind.isPart = true) : kind ≠ .endOfInput := by
  rintro rfl
  contradiction

theorem opensPrimary_part (h : kind.opensPrimary = true) : UnaryOperator.ofToken? kind = none := by
  unfold opensPrimary at h
  split at h <;> first | rfl | contradiction

theorem opensValue_of_primary (h : kind.opensPrimary = true) : kind.opensValue = true := by
  rw [opensValue, h, Bool.true_or]

theorem opensValue_of_unary {operator : UnaryOperator} (h : UnaryOperator.ofToken? kind = some operator) :
    kind.opensValue = true := by
  rw [opensValue, h, Option.isSome_some, Bool.or_true]

/-- What closes a value opens none, nor does a line break. -/
theorem opensValue_open (h : kind.opensValue = true) : kind.closesValue = false ∧ kind ≠ .newline := by
  unfold opensValue opensPrimary UnaryOperator.ofToken? at h
  constructor
  · unfold closesValue
    split <;> first | rfl | contradiction
  · rintro rfl
    contradiction

theorem closesValue_plain (h : kind.closesValue = true) :
    Operator.ofToken? kind = none ∧ kind.isPipe = false := by
  unfold closesValue at h
  split at h <;> first | contradiction | exact ⟨rfl, rfl⟩

theorem endsOperand_of_closes (h : kind.closesValue = true) : kind.endsOperand = true := by
  rw [endsOperand, h, Bool.true_or]

theorem endsOperand_of_operator {operator : Operator} (h : Operator.ofToken? kind = some operator) :
    kind.endsOperand = true := by
  rw [endsOperand, h, Option.isSome_some, Bool.or_true]

theorem endsPrimary_of_operand (h : kind.endsOperand = true) : kind.endsPrimary = true := by
  rw [endsPrimary, h, Bool.true_or]

/-- Nothing is glued to an operand but with a dot. -/
theorem endsOperand_free (h : kind.endsOperand = true) : kind ≠ .symbol .dot := by
  rintro rfl
  contradiction

/-- An expression without operators is no range and is not called. -/
theorem endsPrimary_free (h : kind.endsPrimary = true) :
    kind ≠ .symbol .dotDot ∧ kind ≠ .symbol .dotDotEqual ∧ kind ≠ .symbol .openParen := by
  refine ⟨?_, ?_, ?_⟩ <;> rintro rfl <;> contradiction

end TokenKind

/-- Names are no words and braces are values: so it is between brackets, and at the top of a script. -/
structure Parse.Context.Valued (ctx : Parse.Context) : Prop where
  words : ctx.mode.words = false
  braceless : ctx.mode.braceless = false

theorem Parse.Context.nested_valued (ctx : Parse.Context) :
    Parse.Context.Valued { ctx with mode := ctx.mode.nested } := ⟨rfl, rfl⟩

namespace Grammar

open Parse

/-! ## Loops that are come to -/

/-- An action comes to the turns of a loop with a value like `e`. Of the turns that the loop may take at first, two for
    each token are still to come, but for the tokens that were read. -/
def ComesTo (m : Parse Node) (turn : Node → Parse (Turn Node Node)) (n : Nat) (ctx : Context) (c : Cursor) (e : Node)
    (ts : List Token) (c' : Cursor) : Prop :=
  ∀ (P : Node → Prop) (c'' : Cursor),
    (∀ k a, e.Alike a → n + 2 ≤ k + ts.length → Gives (iterate turn k a) ctx c' P c'') → Gives m ctx c P c''

/-! ## Spelling -/

/-- Tokens spell a value that fields and methods can be glued to. -/
structure Chained (e : Node) (ts : List Token) : Prop where
  parts : ∀ t ∈ ts, t.kind.isPart = true
  opens : ∃ t, ts.head? = some t ∧ t.kind.opensPrimary = true
  comesTo : ∀ {n : Nat} {ctx : Context} {c c' : Cursor}, ctx.Valued → ts.length ≤ n → c.Reads ts c' →
    c'.kind.endsPrimary = true → ComesTo (access (.upTo n)) (accessTurn (.upTo n)) n ctx c e ts c'

/-- Tokens **spell** a value. -/
structure Spells (e : Node) (ts : List Token) : Prop where
  parts : ∀ t ∈ ts, t.kind.isPart = true
  opens : ∃ t, ts.head? = some t ∧ t.kind.opensValue = true
  chained : e.isTarget = true → Chained e ts
  operand : e.isOperand = true → ∀ {n : Nat} {ctx : Context} {c c' : Cursor}, ctx.Valued → ts.length ≤ n →
    c.Reads ts c' → c'.kind.endsOperand = true → Gives (unary (.upTo n)) ctx c e.Alike c'
  comesTo : ∀ {least n : Nat} {ctx : Context} {c c' : Cursor}, least ≤ e.tightness → ctx.Valued → ts.length ≤ n →
    c.Reads ts c' → c'.kind.endsOperand = true →
    (∀ operator, Operator.ofToken? c'.kind = some operator → operator.precedence ≤ e.tightness) →
    ComesTo (binary (.upTo n) least) (binaryTurn (.upTo n) least) n ctx c e ts c'

variable {e : Node} {ts : List Token} {n least : Nat} {ctx : Context} {c c' : Cursor} {P : Node → Prop}

theorem ne_nil_of_opens {p : TokenKind → Bool} (h : ∃ t, ts.head? = some t ∧ p t.kind = true) : ts ≠ [] := by
  rintro rfl
  obtain ⟨t, hhead, -⟩ := h
  contradiction

theorem length_pos_of_opens {p : TokenKind → Bool} (h : ∃ t, ts.head? = some t ∧ p t.kind = true) :
    0 < ts.length := List.length_pos_of_ne_nil (ne_nil_of_opens h)

namespace Chained

/-- A value that is made by itself leads to the loop. -/
theorem of_primary (hparts : ∀ t ∈ ts, t.kind.isPart = true)
    (hopens : ∃ t, ts.head? = some t ∧ t.kind.opensPrimary = true)
    (h : ∀ {n : Nat} {ctx : Context} {c c' : Cursor}, ctx.Valued → ts.length ≤ n → c.Reads ts c' →
      c'.kind.endsPrimary = true → Gives (primary (.upTo n)) ctx c e.Alike c') : Chained e ts where
  parts := hparts
  opens := hopens
  comesTo := by
    intro n ctx c c' hctx hn hread hend P c'' hloop
    have hpos := length_pos_of_opens hopens
    rw [access]
    refine .bind (h hctx hn hread hend) fun a ha => ?_
    rw [Rules.loop, Rules.upTo_fuel]
    exact hloop (n + 1) a ha (by omega)

/-- The value by itself, where nothing is glued to it. -/
theorem access (h : Chained e ts) (hctx : ctx.Valued) (hn : ts.length ≤ n) (hread : c.Reads ts c')
    (hend : c'.kind.endsOperand = true) : Gives (access (.upTo n)) ctx c e.Alike c' := by
  refine h.comesTo hctx hn hread (TokenKind.endsPrimary_of_operand hend) e.Alike c' fun k a ha hk => ?_
  obtain ⟨k, rfl⟩ : ∃ i, k = i + 1 := ⟨k - 1, by omega⟩
  exact .done (accessTurn_done (TokenKind.endsOperand_free hend) ha)

end Chained

namespace Spells

/-- A value that is an operand leads to the loop over operators. -/
theorem of_operand (hparts : ∀ t ∈ ts, t.kind.isPart = true)
    (hopens : ∃ t, ts.head? = some t ∧ t.kind.opensValue = true) (hchained : e.isTarget = true → Chained e ts)
    (h : ∀ {n : Nat} {ctx : Context} {c c' : Cursor}, ctx.Valued → ts.length ≤ n → c.Reads ts c' →
      c'.kind.endsOperand = true → Gives (unary (.upTo n)) ctx c e.Alike c') : Spells e ts where
  parts := hparts
  opens := hopens
  chained := hchained
  operand := fun _ => h
  comesTo := by
    intro least n ctx c c' _ hctx hn hread hend _ P c'' hloop
    have hpos := length_pos_of_opens hopens
    rw [binary]
    refine .bind (h hctx hn hread hend) fun a ha => ?_
    rw [Rules.loop, Rules.upTo_fuel]
    exact hloop (n + 1) a ha (by omega)

/-- A value that something can be glued to is an operand. -/
theorem of_chained (h : Chained e ts) : Spells e ts := by
  obtain ⟨t, hhead, hopens⟩ := h.opens
  refine of_operand h.parts ⟨t, hhead, TokenKind.opensValue_of_primary hopens⟩ (fun _ => h) ?_
  intro n ctx c c' hctx hn hread hend
  have hkind : c.current = t := by
    have hhead' := hread.head (ne_nil_of_opens h.opens)
    exact Option.some.inj (hhead'.symm.trans hhead)
  refine .peek ?_
  rw [hkind, TokenKind.opensPrimary_part hopens]
  exact h.access hctx hn hread hend

/-- The value next to an operator that binds no tighter than what is asked for. -/
theorem bound (h : Spells e ts) (hleast : least ≤ e.tightness) (hctx : ctx.Valued) (hn : ts.length ≤ n)
    (hread : c.Reads ts c') (hend : c'.kind.endsOperand = true)
    (hstop : ∀ operator, Operator.ofToken? c'.kind = some operator → operator.precedence < least) :
    Gives (binary (.upTo n) least) ctx c e.Alike c' := by
  have hle : ∀ operator, Operator.ofToken? c'.kind = some operator → operator.precedence ≤ e.tightness :=
    fun operator hoperator => Nat.le_trans (Nat.le_of_lt (hstop operator hoperator)) hleast
  refine h.comesTo hleast hctx hn hread hend hle e.Alike c' fun k a ha hk => ?_
  obtain ⟨k, rfl⟩ : ∃ i, k = i + 1 := ⟨k - 1, by omega⟩
  exact .done (binaryTurn_done hstop ha)

/-- **The value as a whole expression.** -/
theorem whole (h : Spells e ts) (hctx : ctx.Valued) (hn : ts.length ≤ n) (hread : c.Reads ts c')
    (hclose : c'.kind.closesValue = true) : Gives (expression (.upTo n)) ctx c e.Alike c' := by
  obtain ⟨hoperator, hpipe⟩ := TokenKind.closesValue_plain hclose
  have hfirst : Gives (binary (.upTo n) 0) ctx c e.Alike c' :=
    h.bound (Nat.zero_le _) hctx hn hread (TokenKind.endsOperand_of_closes hclose) fun operator hsome =>
      absurd (hoperator.symm.trans hsome) (Option.some_ne_none _).symm
  exact expression_of_binary hfirst hpipe

end Spells

end Grammar

end ShellFront
