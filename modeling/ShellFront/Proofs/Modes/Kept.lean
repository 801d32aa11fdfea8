import ShellFront.Proofs.Modes.Obeyed
import ShellFront.Proofs.Parse.StatementLists
import ShellFront.Proofs.Twins.Expressions
import ShellFront.Proofs.Values.Gives
import ShellFront.Proofs.Values.Outcomes

/-!
# Expressions keep their mode

An expression **keeps** the mode it is read in: where braces end the head of a statement it shows none, among words it
shows no command, and elsewhere it is no word. All other parts of the grammar are read where names are commands, and
what they give **obeys**. That passes from the parts of an action to the action, so it is a class.

## Contents
- `Outline.Suits`, `Node.Keeps`: what is known of an expression.
- `Parse.Obeying`, with instances for the actions that all others are made of; `Rules.Keep`.
- `Grammar.argument_keeps`, `Grammar.commandStage_obeys`, `Grammar.braceExpansion_curly`: where the mode is changed.
- `Grammar.primary_keeps`, `Grammar.access_keeps`, `Grammar.binary_keeps`, `Grammar.pipeline_keeps`.
-/

namespace ShellFront

open Outline Parse

variable {mode : Mode}

/-! ## What suits a mode -/

/-- What may stand outside of brackets in a mode. -/
structure Outline.Suits (mode : Mode) (t : Outline) : Prop where
  commandless : mode.words = true → t.Commandless
  braceless : mode.braceless = true → t.Braceless

/-- A bare node suits a mode that all its parts outside of brackets suit. -/
theorem Outline.Suits.of_parts {t : Outline} (hbare : t.kind.isBare = true) (hparts : ∀ c ∈ t.unbracketed, c.Suits mode) :
    t.Suits mode := by
  obtain ⟨hbraced, hcommand⟩ := NodeKind.bare_iff.mp hbare
  exact {
    commandless := fun hwords =>
      commandless_iff.mpr ⟨hcommand, fun c hc => (hparts c (unbraced_subset t hc)).commandless hwords⟩
    braceless := fun hbraceless => braceless_iff.mpr ⟨hbraced, fun c hc => (hparts c hc).braceless hbraceless⟩ }

/-- A node suits every mode when all its parts stand inside of brackets. -/
theorem Outline.Suits.of_closed {t : Outline} (hbare : t.kind.isBare = true) (hclosed : t.unbracketed = []) :
    t.Suits mode := .of_parts hbare (by simp [hclosed])

theorem Ident.outline_suits (x : Ident) : x.outline.Suits mode := .of_closed rfl rfl

theorem TypeHint.outline_suits (t : TypeHint) : t.outline.Suits mode := .of_closed rfl rfl

/-- Parameters without fallback values. -/
theorem Parameter.outlines_suit {params : List (Parameter Node)} (h : params.map Parameter.bare = params) :
    ∀ c ∈ Parameter.outlines params, c.Suits mode := by
  induction params with
  | nil => exact List.forall_mem_nil _
  | cons p ps ih =>
      obtain ⟨hp, hps⟩ := List.cons.inj h
      obtain ⟨span, name, sigil, hint, fallback⟩ := p
      obtain rfl : none = fallback := congrArg Parameter.fallback hp
      refine List.forall_mem_cons.mpr ⟨.of_parts rfl ?_, ih hps⟩
      cases hint with
      | none => exact List.forall_mem_nil _
      | some hint => exact List.forall_mem_singleton.mpr hint.outline_suits

/-- **What an expression keeps of the mode it is read in.** -/
structure Node.Keeps (mode : Mode) (n : Node) : Prop where
  obeyed : n.outline.Everywhere ModesObeyed
  wordless : mode.words = false → n.outline.Wordless
  suits : n.outline.Suits mode

namespace Node.Keeps

variable {n first last : Node} {ns : List Node} {span : Span}

/-- What obeys, and suits the mode it is read in, keeps that mode. -/
theorem of_obeys [h : Obeys n] (hsuits : n.outline.Suits mode) : n.Keeps mode :=
  ⟨(Obeys.node n).obeyed, fun _ => (Obeys.node n).wordless, hsuits⟩

/-- What keeps some mode and is no word is proper. -/
theorem obeys_of_wordless (h : n.Keeps mode) (hwordless : n.outline.Wordless) : Obeys n :=
  .single rfl ⟨h.obeyed, hwordless⟩

/-- Out of the words mode, what keeps the mode obeys. -/
theorem obeys (h : n.Keeps mode) (hwords : mode.words = false) : Obeys n := h.obeys_of_wordless (h.wordless hwords)

/-- A node that shows nothing outside of its brackets keeps every mode. -/
theorem closed [Obeys n] (hbare : n.outline.kind.isBare = true) (hclosed : n.outline.unbracketed = []) (mode : Mode) :
    n.Keeps mode :=
  .of_obeys (.of_closed hbare hclosed)

theorem literal {value : Literal} (mode : Mode) : (Node.literal span value).Keeps mode := by
  cases value <;> exact closed rfl rfl mode

/-- A word keeps the modes in which names are words, and no other. -/
theorem word {text : String} (hwords : mode.words = true) : (Node.word span text).Keeps mode where
  obeyed := obeyed_leaf rfl
  wordless := fun hnot => by rw [hwords] at hnot; contradiction
  suits := .of_closed rfl rfl

/-- The ends of a range are read in whatever mode the range is. -/
theorem range {inclusive : Bool} (hfirst : ∀ mode, first.Keeps mode) (hlast : ∀ mode, last.Keeps mode) (mode : Mode) :
    (Node.range span first last inclusive).Keeps mode := by
  have := (hfirst (.top false)).obeys rfl
  have := (hlast (.top false)).obeys rfl
  refine .of_obeys (.of_parts rfl ?_)
  exact List.forall_mem_cons.mpr ⟨(hfirst mode).suits, List.forall_mem_singleton.mpr (hlast mode).suits⟩

/-- Arguments stand inside of the parentheses, so a call keeps every mode. -/
theorem call (name : Ident) [Obeys ns] (mode : Mode) : (Node.call span name ns).Keeps mode :=
  .of_obeys (.of_parts rfl (List.forall_mem_singleton.mpr name.outline_suits))

/-- The field is a name, but in the place of a field; only the target has to keep the mode. -/
theorem fieldAccess {target : Node} (field : Ident) (h : target.Keeps mode) (hwordless : target.outline.Wordless) :
    (Node.fieldAccess span target field).Keeps mode := by
  have := h.obeys_of_wordless hwordless
  refine .of_obeys (.of_parts rfl ?_)
  exact List.forall_mem_cons.mpr ⟨h.suits, List.forall_mem_singleton.mpr field.outline_suits⟩

/-- As `fieldAccess`, with arguments inside of the parentheses. -/
theorem methodCall {target : Node} (method : Ident) [Obeys ns] (h : target.Keeps mode)
    (hwordless : target.outline.Wordless) : (Node.methodCall span target method ns).Keeps mode := by
  have := h.obeys_of_wordless hwordless
  refine .of_obeys (.of_parts rfl ?_)
  exact List.forall_mem_cons.mpr ⟨h.suits, List.forall_mem_singleton.mpr method.outline_suits⟩

/-- A lambda shows its parameters, which have no fallback values. -/
theorem lambda {params : List (Parameter Node)} {returns : Option TypeHint} {body : Block Node} [Obeys params]
    [Obeys body] (hbare : params.map Parameter.bare = params) (mode : Mode) :
    (Node.lambda span params returns body).Keeps mode := by
  refine .of_obeys (.of_parts rfl ?_)
  show ∀ c ∈ (Parameter.outlines params ++ (returns.map TypeHint.outline).toList ++ [Block.outline body]).dropLast, _
  rw [List.dropLast_concat]
  refine List.forall_mem_append.mpr ⟨Parameter.outlines_suit hbare, ?_⟩
  cases returns with
  | none => exact List.forall_mem_nil _
  | some hint => exact List.forall_mem_singleton.mpr hint.outline_suits

/-- Where braces are values, a value with braces keeps the mode. -/
theorem curly [Obeys n] (hbraceless : mode.braceless = false) (hcurly : n.outline.kind.isCurly = true) :
    n.Keeps mode := by
  refine .of_obeys ⟨fun _ => commandless_of_curly hcurly, fun hnot => ?_⟩
  rw [hbraceless] at hnot
  contradiction

/-- Where names are commands and braces are values, nothing but obeying is asked. -/
theorem free [Obeys n] (hwords : mode.words = false) (hbraceless : mode.braceless = false) : n.Keeps mode :=
  .of_obeys ⟨fun h => by rw [hwords] at h; contradiction, fun h => by rw [hbraceless] at h; contradiction⟩

/-- The value of a flag may be a word, as the flag itself may stand among words. -/
theorem flag {text : String} {long : Bool} {value : Option Node} (h : ∀ n, value = some n → n.Keeps mode) :
    (Node.flag span text long value).Keeps mode := by
  have hparts {p : Outline → Prop} (hp : ∀ n, value = some n → p n.outline) : ∀ c ∈ Node.outline? value, p c := by
    cases value with
    | none => exact List.forall_mem_nil _
    | some n => exact List.forall_mem_singleton.mpr (hp n rfl)
  refine ⟨obeyed_mk rfl (.inl rfl) (hparts fun n hn => (h n hn).obeyed), fun _ => wordless_of_solid rfl, ?_⟩
  exact .of_parts rfl (hparts fun n hn => (h n hn).suits)

/-- The operand is read in the mode of the operator. -/
theorem unary {operator : UnaryOperator} (h : n.Keeps mode) : (Node.unary span operator n).Keeps mode where
  obeyed := obeyed_mk rfl (.inl rfl) (List.forall_mem_singleton.mpr h.obeyed)
  wordless := fun hwords => wordless_of_operands rfl (List.forall_mem_singleton.mpr (h.wordless hwords))
  suits := .of_parts rfl (List.forall_mem_singleton.mpr h.suits)

theorem binary {operator : Operator} (h : first.Keeps mode) (h' : last.Keeps mode) :
    (Node.binary span operator first last).Keeps mode where
  obeyed := obeyed_mk rfl (.inl rfl) (List.forall_mem_cons.mpr ⟨h.obeyed, List.forall_mem_singleton.mpr h'.obeyed⟩)
  wordless := fun hwords => wordless_of_operands rfl
    (List.forall_mem_cons.mpr ⟨h.wordless hwords, List.forall_mem_singleton.mpr (h'.wordless hwords)⟩)
  suits := .of_parts rfl (List.forall_mem_cons.mpr ⟨h.suits, List.forall_mem_singleton.mpr h'.suits⟩)

/-- A pipeline is made only where names are commands. -/
theorem pipeline {operators : List Symbol} (hwords : mode.words = false) (h : ∀ n ∈ ns, n.Keeps mode) :
    (Node.pipeline span ns operators).Keeps mode := by
  have := Obeys.of_forall fun n hn => (h n hn).obeys hwords
  refine .of_obeys (.of_parts rfl ?_)
  show ∀ c ∈ Node.outlines ns, c.Suits mode
  rw [Node.outlines_eq, Outlined.shown_nodes]
  exact List.forall_mem_map.mpr fun n hn => (h n hn).suits

end Node.Keeps

/-! ## Actions that obey -/

/-- A mode in which names are commands. -/
class Mode.Wordless (mode : Mode) : Prop where
  words_eq : mode.words = false

namespace Mode

instance (recovering : Bool) : (top recovering).Wordless := ⟨rfl⟩
instance (mode : Mode) : mode.nested.Wordless := ⟨rfl⟩
instance (mode : Mode) : mode.header.Wordless := ⟨rfl⟩

end Mode

namespace Parse

variable {α β γ : Type} {m : Parse α} {f : α → Parse β} {ctx : Context} {c : Cursor}

/-- Everything that the action gives in a mode obeys. -/
class Obeying [Outlined α] (mode : Mode) (m : Parse α) : Prop where
  obeys : ∀ isBuiltin c, Yields c (fun a _ => Obeys a) (under ⟨mode, isBuiltin⟩ m)

namespace Obeying

variable [Outlined α] [Outlined β] [Outlined γ]

/-- What an obeying action gives in its mode obeys, wherever it begins. -/
theorem yields [hm : Obeying ctx.mode m] : Yields c (fun a _ => Obeys a) (under ctx m) := hm.obeys ctx.isBuiltin c

theorem obeys_of_ok {isBuiltin : String → Bool} [hm : Obeying mode m] {st st' : State} {a : α}
    (hrun : m ⟨mode, isBuiltin⟩ st = .ok a st') : Obeys a :=
  hm.obeys isBuiltin _ ⟨mode, isBuiltin⟩ st a st' rfl hrun

instance (priority := low) blank [Blank α] (m : Parse α) : Obeying mode m where
  obeys := fun _ _ => Yields.any.imp fun _ _ _ => inferInstance

instance pure (a : α) [Obeys a] : Obeying mode (Pure.pure a : Parse α) := ⟨fun _ _ => .pure ‹_›⟩

instance bind [hm : Obeying mode m] [hf : ∀ a : { a : α // Obeys a }, Obeying mode (f a.1)] :
    Obeying mode (m >>= f) where
  obeys := fun isBuiltin c => .bindIn (hm.obeys isBuiltin c) fun a c₁ ha => (hf ⟨a, ha⟩).obeys isBuiltin c₁

instance ite {b : Prop} [Decidable b] {m' : Parse α} [hm : Obeying mode m] [hm' : Obeying mode m'] :
    Obeying mode (if b then m else m') := by
  split <;> assumption

instance (change : Mode → Mode) [hm : Obeying (change mode) m] : Obeying mode (within change m) := ⟨hm.obeys⟩

instance (problem : Problem) : Obeying mode (fail problem : Parse α) := ⟨fun _ _ => Yields.fail.under⟩

instance (token : Token) (problem : Problem) : Obeying mode (failAt token problem : Parse α) :=
  ⟨fun _ _ => Yields.failAt.under⟩

instance (e : SyntaxError) : Obeying mode (throw e : Parse α) where
  obeys := fun _ _ _ _ _ _ _ hrun => by contradiction

instance loop (r : Rules) (b : β) [hb : Obeys b] {turn : β → Parse (Turn β γ)}
    [hturn : ∀ b : { b : β // Obeys b }, Obeying mode (turn b.1)] : Obeying mode (r.loop b turn) where
  obeys := fun isBuiltin c => by
    rw [under_loop]
    refine .loop (I := fun b _ => Obeys b) (fun b c₁ hb => ?_) hb
    refine ((hturn ⟨b, hb⟩).obeys isBuiltin c₁).imp fun t _ ht => ?_
    cases t with
    | again b => exact ⟨ht.all⟩
    | done g => exact ⟨ht.all⟩

instance {item : Parse (Option α)} [Obeying mode item] (items : Array α) [Obeys items] :
    Obeying mode (collectTurn item items) := by
  refine @bind _ _ _ _ _ _ _ _ fun a? => ?_
  obtain ⟨_ | a, ha⟩ := a?
  · infer_instance
  · have := ha.of_some
    infer_instance

instance (closer : TokenKind) {item : Parse α} [Obeying mode item] (items : Array α) [Obeys items] :
    Obeying mode (commaTurn closer item items) := by
  unfold commaTurn
  infer_instance

instance collect (r : Rules) {item : Parse (Option α)} [Obeying mode item] : Obeying mode (r.collect item) := by
  unfold Rules.collect
  infer_instance

instance commaList (r : Rules) (closer : TokenKind) {item : Parse α} [Obeying mode item] :
    Obeying mode (r.commaList closer item) := by
  unfold Rules.commaList
  infer_instance

end Obeying

end Parse

/-! ## The rules -/

namespace Grammar

/-- What the action gives has a property that depends on the mode it is run in. -/
def Leaves (P : Mode → Node → Prop) (m : Parse Node) : Prop := ∀ ctx c, Yields c (fun n _ => P ctx.mode n) (under ctx m)

end Grammar

/-- What the rules of the grammar keep. -/
class Rules.Keep (r : Rules) : Prop where
  expression : ∀ ctx c, ctx.mode.words = false → Yields c (fun n _ => n.Keeps ctx.mode) (under ctx r.expression)
  binary : ∀ least, Grammar.Leaves (fun mode n => n.Keeps mode) (r.binary least)
  unary : Grammar.Leaves (fun mode n => n.Keeps mode) r.unary
  access : Grammar.Leaves (fun mode n => n.Keeps mode) r.access
  statement : ∀ (mode : Mode) [mode.Wordless], Obeying mode r.statement
  assigned : ∀ (mode : Mode) [mode.Wordless], Obeying mode r.assigned

attribute [instance] Rules.Keep.statement Rules.Keep.assigned

namespace Grammar

-- long productions are put together from more parts than the search for an instance takes in by default
set_option synthInstance.maxSize 512

variable (r : Rules) [hr : r.Keep]

instance [hmode : mode.Wordless] : Obeying mode r.expression where
  obeys := fun isBuiltin c =>
    (hr.expression ⟨mode, isBuiltin⟩ c hmode.words_eq).imp fun _ _ h => h.obeys hmode.words_eq

/-! ## Lists, parameters, blocks -/

instance (closer : Symbol) (inside : Sequence) : Obeying mode (commaValues r closer inside) := by
  unfold commaValues
  infer_instance

instance : Obeying mode (bracketed r) := by
  unfold bracketed
  infer_instance

instance : Obeying mode (callArguments r) := by
  unfold callArguments
  infer_instance

instance (allowed : Bool) : Obeying mode (fallback? r allowed) := by
  unfold fallback?
  dsimp only
  infer_instance

instance (fallbacks : Bool) : Obeying mode (parameter r fallbacks) := by
  unfold parameter
  infer_instance

instance (closer : Symbol) (fallbacks : Bool) : Obeying mode (parameters r closer fallbacks) := by
  unfold parameters
  infer_instance

instance (start : Cursor) (e : SyntaxError) : Obeying mode (recover start e) := by
  unfold recover
  infer_instance

instance (inBlock : Bool) (statements : Array Node) [Obeys statements] (start : Cursor) (e : SyntaxError) :
    Obeying mode (afterError inBlock statements start e) := by
  unfold afterError
  infer_instance

instance (inBlock : Bool) (statements : Array Node) [Obeys statements] :
    Obeying mode (afterStatement inBlock statements) := by
  unfold afterStatement
  infer_instance

instance (inBlock : Bool) (statements : Array Node) [Obeys statements] [mode.Wordless] :
    Obeying mode (statementTurn r inBlock statements) where
  obeys := fun isBuiltin c _ st t st' _ hrun => by
    rw [under, statementTurn_run] at hrun
    dsimp only at hrun
    split at hrun
    · obtain ⟨rfl, rfl⟩ := EStateM.Result.ok.inj hrun
      infer_instance
    · split at hrun
      · exact Obeying.obeys_of_ok hrun
      · next node _ hnode =>
          have := Obeying.obeys_of_ok hnode
          exact Obeying.obeys_of_ok hrun

instance (inBlock : Bool) [mode.Wordless] : Obeying mode (statementList r inBlock) := by
  rw [statementList]
  infer_instance

instance : Obeying mode (block r) := by
  unfold block
  infer_instance

/-! ## Records and closures -/

omit hr in
instance {α : Type} [Outlined α] {part : Parse α} [Obeying mode part] (problem : Problem) :
    Obeying mode (bracedItem part problem) := by
  unfold bracedItem
  infer_instance

instance [mode.Wordless] : Obeying mode (recordField r) := by
  unfold recordField
  infer_instance

instance [mode.Wordless] : Obeying mode (fieldItem r) := inferInstanceAs (Obeying mode (bracedItem _ _))

instance : Obeying mode (record r) := by
  unfold record
  infer_instance

instance : Obeying mode (closureParameters r) := by
  unfold closureParameters
  infer_instance

/-! ## What actions leave -/

namespace Leaves

variable {α : Type} {P Q : Mode → Node → Prop} {m m' : Parse Node} {k : Parse α} {f : α → Parse Node}

/-- What is known of the node that an action leaves may be weakened. -/
theorem imp (h : Leaves P m) (hPQ : ∀ mode n, P mode n → Q mode n) : Leaves Q m :=
  fun ctx c => (h ctx c).imp fun n _ hn => hPQ ctx.mode n hn

/-- Only the last of two actions leaves a node. -/
theorem last (hf : ∀ a, Leaves P (f a)) : Leaves P (k >>= f) := fun ctx _ => .skipIn fun a c₁ => hf a ctx c₁

/-- What was given before obeys. -/
theorem obeying [Outlined α] [hk : ∀ mode, Obeying mode k] (hf : ∀ a, Obeys a → Leaves P (f a)) : Leaves P (k >>= f) :=
  fun ctx c => .bindIn ((hk ctx.mode).obeys ctx.isBuiltin c) fun a c₁ ha => hf a ha ctx c₁

theorem pure {n : Node} (h : ∀ mode, P mode n) : Leaves P (Pure.pure n) := fun ctx _ => .pure (h ctx.mode)

theorem fail {problem : Problem} : Leaves P (Parse.fail problem) := fun _ _ => Yields.fail.under

theorem failAt {token : Token} {problem : Problem} : Leaves P (Parse.failAt token problem) :=
  fun _ _ => Yields.failAt.under

/-- Both ways leave what is claimed. -/
theorem ite {b : Prop} [Decidable b] (h : Leaves P m) (h' : Leaves P m') : Leaves P (if b then m else m') :=
  fun ctx c => by split; exacts [h ctx c, h' ctx c]

/-- An attempt gives what it attempts, if it gives anything. -/
theorem tentatively {P : Node → Prop} {f : Option Node → Parse Node} (h : Leaves (fun _ => P) m)
    (hf : Leaves (fun _ => P) (f none)) (hf' : ∀ n, f (some n) = Pure.pure n) :
    Leaves (fun _ => P) (Grammar.tentatively m >>= f) := by
  refine fun ctx c => .bindIn (.tentatively (h _ c)) fun n? c₁ hn => ?_
  cases n? with
  | none => exact hf ctx c₁
  | some n =>
      rw [hf']
      exact .pure (hn n rfl)

end Leaves

/-- What the action gives keeps every mode. -/
abbrev Steady (m : Parse Node) : Prop := Leaves (fun _ n => ∀ mode, n.Keeps mode) m

/-- A value with braces around everything. -/
structure IsCurly (n : Node) : Prop where
  obeys : Obeys n
  curly : n.outline.kind.isCurly = true

/-! ## Values that keep every mode -/

variable {r} {ctx : Context} {c : Cursor}

omit hr in
theorem rangeEnd_steady (dots : Symbol) : Steady (rangeEnd dots) := by
  refine .last fun token => ?_
  split
  · exact .last fun _ => .last fun value => .pure fun _ => .literal
  · exact .last fun _ => .pure fun _ => .closed rfl rfl
  · exact .fail

omit hr in
/-- An end that keeps every mode is kept alone, and so is the range that begins with it. -/
theorem rangeFrom_steady {first : Node} (h : ∀ mode, first.Keeps mode) : Steady (rangeFrom first) := by
  refine .last fun token => .ite (.last fun _ => fun ctx c => ?_) (.pure fun _ => h)
  exact .bindIn (rangeEnd_steady _ ctx c) fun last c₁ hlast => .pure (.range h hlast)

theorem listLiteral_steady : Steady (listLiteral r) :=
  .last fun _ => .obeying fun _ _ => .last fun _ => .pure fun _ => .closed rfl rfl

theorem setLiteral_steady : Steady (setLiteral r) :=
  .last fun _ => .obeying fun _ _ => .last fun _ => .pure fun _ => .closed rfl rfl

/-- Parentheses take the mode back, so what is inside does not matter outside. -/
theorem parenthesised_steady : Steady (parenthesised r) := by
  refine .last fun start => .last fun closes => .ite (.last fun _ => .pure fun _ => .closed rfl rfl) ?_
  intro ctx c
  rw [under_within]
  refine .bindIn Obeying.yields fun first c₁ hfirst => .skipIn fun comma c₂ => ?_
  split
  · exact .bindIn Obeying.yields fun others _ hothers => .skipIn fun _ _ => .pure (.closed rfl rfl)
  · exact .skipIn fun _ _ => .skipIn fun _ _ => .pure (.closed rfl rfl)

theorem commandSubstitution_steady : Steady (commandSubstitution r) :=
  .last fun _ => .obeying fun _ _ => .last fun _ => .last fun _ => .pure fun _ => .closed rfl rfl

theorem processSubstitution_steady (direction : Direction) : Steady (processSubstitution r direction) :=
  .last fun _ => .obeying fun _ _ => .last fun _ => .last fun _ => .pure fun _ => .closed rfl rfl

/-- So do the parentheses of a call. -/
theorem callOf_steady (name : Token) : Steady (callOf r name) :=
  .obeying fun _ _ => .last fun _ => .pure fun _ => .call _

theorem lambda_steady : Steady (lambda r) := by
  have hrest (start : Token) (params : List (Parameter Node)) [Obeys params]
      (hbare : params.map Parameter.bare = params) : Steady (do
        let returns ← typeHintAfter? .arrow
        let body ← block r
        return .lambda (← spanFrom start.span) params returns body) :=
    .last fun _ => .obeying fun _ _ => .last fun _ => .pure fun _ => .lambda hbare
  rw [lambda_eq]
  refine .last fun start => .ite (fun ctx c => ?_) (hrest start [] rfl)
  refine .bindIn (Obeying.yields.and (parameters_bare _ c).under) fun params c₁ h => ?_
  have := h.1
  exact hrest start params h.2 ctx c₁

/-! ## Values with braces -/

/-- What the action gives has braces around everything. -/
abbrev Curly (m : Parse Node) : Prop := Leaves (fun _ => IsCurly) m

theorem recordLiteral_curly : Curly (recordLiteral r) :=
  .obeying fun fields _ => .pure fun _ => ⟨inferInstance, by cases fields; rfl⟩

theorem closure_curly : Curly (closure r) := by
  refine .last fun start => .obeying ?_
  rintro ⟨params, explicitParams⟩ hparams
  have : Obeys params := Obeys.fst (params, explicitParams)
  refine .obeying fun statements _ => .last fun _ => .last fun span => .pure fun _ => ?_
  exact ⟨inferInstance, rfl⟩

/-! ## Words -/

omit hr in
/-- What can be a member can be a part of a word, and the other way round. -/
theorem gluedPart_isMember (c : Cursor) : gluedPart c isMember = gluedPart c TokenKind.isWordPart := by
  have hpart : isMember = TokenKind.isWordPart := by
    funext kind
    cases kind with
    | integer radix => cases radix <;> rfl
    | _ => rfl
  rw [hpart]

/-- A value, with what a field or a method needs: that it is no word, or that none is glued to it. -/
def TakesMembers (mode : Mode) (n : Node) (c : Cursor) : Prop :=
  n.Keeps mode ∧ (n.outline.Wordless ∨ gluedPart c isMember = false)

omit hr in
/-- What keeps every mode may have fields and methods after it in any of them. -/
theorem TakesMembers.of_steady {m : Parse Node} (h : Steady m) : Yields c (TakesMembers ctx.mode) (under ctx m) :=
  (h ctx c).imp fun _ _ hn => ⟨hn ctx.mode, .inl ((hn (.top false)).wordless rfl)⟩

/-- **A word takes in all that is glued to it by dots**, so it is no target of fields. -/
theorem bareWord_takes (hwords : ctx.mode.words = true) :
    Yields c (TakesMembers ctx.mode) (under ctx (bareWord r)) := by
  refine .skipIn fun start c₁ => ?_
  refine .bindIn (P := fun _ c₂ => gluedPart c₂ isMember = false) ?_ fun parts c₂ hends => ?_
  · rw [under_collect]
    refine .collect_stops fun c₂ => .hereIn ?_
    split
    · exact .skipIn fun part c₃ => .pure fun hnone => by contradiction
    · next hends => exact .pure fun _ => by rw [gluedPart_isMember]; simpa using hends
  · refine .bindIn (P := fun _ c₃ => c₃ = c₂) (.hereIn (.pure rfl)) fun touches c₃ hc => ?_
    subst hc
    split
    · exact .of_steady (callOf_steady start)
    · exact .spanIn fun span => .pure ⟨.word hwords, .inr hends⟩

omit hr in
theorem pathWord_steady : Steady (pathWord r) :=
  .last fun _ => .last fun _ => .last fun _ => .pure fun _ => .closed rfl rfl

end Grammar

end ShellFront
