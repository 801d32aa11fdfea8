import ShellFront.Proofs.Values.GivesUp

/-!
# Records and closures that cannot be read

A record can be read where its first field begins and nowhere else. A closure cannot be read where its first statement
is a plain expression that ends before something that no statement ends with.

## Contents
- `Grammar.record_ahead`: what the tokens are where a record can be read.
- `Grammar.closure_givesUp`: closures whose first statement leads nowhere.
-/

namespace ShellFront.Grammar

open Parse

variable {r : Rules} {ctx : Context} {c : Cursor} {t : Token} {more : List Token} {st st' : State} {node : Node}

/-! ## Records -/

/-- Whether a kind of token can be the key of a record. -/
def isKey : TokenKind → Bool
  | .string _ | .identifier | .keyword _ => true
  | _ => false

theorem isKey_cases {kind : TokenKind} (h : isKey kind = true) :
    (kind = .identifier ∨ ∃ style, kind = .string style) ∨ ∃ k, kind = .keyword k := by
  unfold isKey at h
  split at h
  · exact .inl (.inr ⟨_, rfl⟩)
  · exact .inl (.inl rfl)
  · exact .inr ⟨_, rfl⟩
  · contradiction

theorem recordKey_reads (h : isKey c.kind = true) : Gives recordKey ctx c (fun _ => True) c.advance := by
  refine .peek ?_
  obtain (hkind | ⟨style, hkind⟩) | ⟨k, hkind⟩ := isKey_cases h <;> rw [show c.current.kind = _ from hkind]
  · exact .advance (.pure trivial)
  · exact .advance (.pure trivial)
  · exact .advance (.pure trivial)

theorem recordKey_givesUp (h : isKey c.kind = false) : GivesUp recordKey ctx c := by
  refine .peek ?_
  split
  · next hkind =>
      rw [Cursor.kind, hkind] at h
      contradiction
  · next hkind =>
      rw [Cursor.kind, hkind] at h
      contradiction
  · next hkind =>
      rw [Cursor.kind, hkind] at h
      contradiction
  · exact .fail

/-- A field needs a key and a colon. -/
theorem recordField_givesUp (h : isKey c.kind = false ∨ c.advance.kind ≠ .symbol .colon) :
    GivesUp (recordField r) ctx c := by
  refine .peek ?_
  cases hkey : isKey c.kind with
  | false => exact .first (recordKey_givesUp hkey)
  | true =>
      refine .next (recordKey_reads hkey) fun key _ => .first (.expect ?_)
      rw [hkey] at h
      exact h.resolve_left nofun

/-- A record needs a field, unless it closes at once. -/
theorem record_givesUp (hbrace : c.kind = .symbol .openBrace)
    (hclose : (c.advance.skipWhile (· == .newline)).kind ≠ .symbol .closeBrace)
    (hfield : ∀ ctx, GivesUp (recordField r) ctx (c.advance.skipWhile (· == .newline))) :
    GivesUp (recordLiteral r) ctx c := by
  refine .first (.mark hbrace (.first (.within (.move (.first (.collect (.check ?_)))))))
  rw [beq_eq_false_iff_ne.mpr hclose]
  exact .first (hfield _)

/-- **Where a record can be read** it closes at once, or a key and a colon come first. -/
theorem record_ahead (hbrace : c.kind = .symbol .openBrace) (h : ¬ GivesUp (recordLiteral r) ctx c) :
    ∃ t more, inside c = t :: more ∧
      (t.kind = .symbol .closeBrace ∨ isKey t.kind = true ∧ Cursor.headIs (.symbol .colon) more = true) := by
  cases hinside : inside c with
  | nil =>
      -- only line breaks are left, or nothing at all, so that the brace is read again
      have hkind : (c.advance.skipWhile (· == .newline)).kind = .newline ∨
          (c.advance.skipWhile (· == .newline)).kind = .symbol .openBrace := by
        by_cases hahead : c.ahead = []
        · rw [Cursor.advance_last hahead, Cursor.skipWhile_of_not (by rw [hbrace]; rfl)]
          exact .inr hbrace
        · refine .inl (Cursor.kind_skipWhile_breaks ?_)
          rw [Cursor.rest_advance (by rw [hbrace]; nofun) hahead]
          exact hinside
      refine absurd (record_givesUp hbrace ?_ fun _ => recordField_givesUp (.inl ?_)) h
      · rcases hkind with hkind | hkind <;> rw [hkind] <;> nofun
      · rcases hkind with hkind | hkind <;> rw [hkind] <;> rfl
  | cons t more =>
      refine ⟨t, more, rfl, ?_⟩
      by_cases hclose : t.kind = .symbol .closeBrace
      · exact .inl hclose
      · by_contra hnone
        rw [not_or] at hnone
        have hbreak : (t.kind == .newline) = false := by
          have hstop := List.head?_dropWhile_not (fun t : Token => t.kind == .newline) c.ahead
          rw [show List.dropWhile _ c.ahead = t :: more from hinside] at hstop
          simpa using hstop
        obtain ⟨before, hskip⟩ := skip_inside (p := (· == .newline)) hbrace rfl hbreak hinside
        refine h (record_givesUp hbrace (by rw [hskip]; exact hclose) fun _ => ?_)
        rw [hskip]
        refine recordField_givesUp ?_
        cases hkey : isKey t.kind with
        | false => exact .inl hkey
        | true =>
            refine .inr fun hcolon => hnone.2 ⟨hkey, ?_⟩
            cases more with
            | nil =>
                rw [Cursor.advance_last rfl] at hcolon
                rw [show t.kind = .symbol .colon from hcolon] at hkey
                contradiction
            | cons u us =>
                have hrest := @Cursor.rest_advance ⟨before, t, u :: us⟩ (fun hend => by
                  rw [show t.kind = .endOfInput from hend] at hkey
                  contradiction) (List.cons_ne_nil u us)
                exact beq_of_eq ((congrArg Token.kind (List.cons.inj hrest).1).symm.trans hcolon)

/-! ## Closures -/

/-- Whether a statement that begins with a kind of token is an expression without operators before it. -/
def opensPlainly : TokenKind → Bool
  | .integer _ | .string _ | .identifier => true
  | _ => false

/-- Whether nothing goes on with an expression at a kind of token: no part, no operator and no pipe. -/
def endsExpression (kind : TokenKind) : Bool :=
  kind != .symbol .dot && (Operator.ofToken? kind).isNone && !kind.isPipe

theorem opensPlainly_cases {kind : TokenKind} (h : opensPlainly kind = true) :
    kind = .identifier ∨ (∃ style, kind = .string style) ∨ ∃ radix, kind = .integer radix := by
  unfold opensPlainly at h
  split at h
  · exact .inr (.inr ⟨_, rfl⟩)
  · exact .inr (.inl ⟨_, rfl⟩)
  · exact .inl rfl
  · contradiction

/-- No operator, no separator and no closer begins such a statement. -/
theorem opensPlainly_open {kind : TokenKind} (h : opensPlainly kind = true) :
    UnaryOperator.ofToken? kind = none ∧ kind.isSeparator = false ∧ endsList true kind = false := by
  obtain rfl | ⟨style, rfl⟩ | ⟨radix, rfl⟩ := opensPlainly_cases h <;> exact ⟨rfl, rfl, rfl⟩

theorem unary_plain (h : opensPlainly c.kind = true) (ctx : Context) (report : Report) (log : Array LogEntry) :
    unary r ctx ⟨c, report, log⟩ = access r ctx ⟨c, report, log⟩ := by
  have hnone : UnaryOperator.ofToken? c.current.kind = none := (opensPlainly_open h).1
  rw [unary, bind_run, peek]
  dsimp only
  rw [hnone]

theorem statement_plain (h : opensPlainly c.kind = true) (ctx : Context) (report : Report) (log : Array LogEntry) :
    statement r ctx ⟨c, report, log⟩ = expression r ctx ⟨c, report, log⟩ := by
  have hstays : c.skipWhile TokenKind.isSeparator = c := Cursor.skipWhile_of_not (opensPlainly_open h).2.1
  rw [statement, bind_run, skipSeparators, move]
  dsimp only
  rw [hstays, bind_run, peek]
  dsimp only
  obtain hkind | ⟨style, hkind⟩ | ⟨radix, hkind⟩ := opensPlainly_cases h <;> rw [show c.current.kind = _ from hkind]

variable {c' : Cursor} {P : Node → Prop} {least : Nat}

/-- An operand that is made by itself is all of an expression where nothing goes on with it. -/
theorem binary_plain (h : opensPlainly c.kind = true) (hend : endsExpression c'.kind = true)
    (hprimary : Gives (primary r) ctx c P c') : Gives (binary r least) ctx c P c' := by
  simp only [endsExpression, Bool.and_eq_true, bne_iff_ne, Option.isNone_iff_eq_none] at hend
  obtain ⟨⟨hdot, hoperator⟩, -⟩ := hend
  have haccess : Gives (access r) ctx c P c' :=
    .bind hprimary fun a ha => .done (accessTurn_done hdot ha)
  have hunary : Gives (unary r) ctx c P c' := fun report log => by
    rw [unary_plain h]
    exact haccess report log
  refine .bind hunary fun a ha => .done (binaryTurn_done ?_ ha)
  intro operator hsome
  rw [hoperator] at hsome
  contradiction

theorem statement_gives (h : opensPlainly c.kind = true) (hend : endsExpression c'.kind = true)
    (hprimary : Gives (primary r) ctx c P c') : Gives (statement r) ctx c P c' := by
  intro report log
  rw [statement_plain h]
  have hpipe : c'.kind.isPipe = false := by
    simp only [endsExpression, Bool.and_eq_true, Bool.not_eq_true'] at hend
    exact hend.2
  exact expression_of_binary (binary_plain h hend hprimary) hpipe report log

theorem statement_givesUp (h : opensPlainly c.kind = true) (hprimary : GivesUp (primary r) ctx c) :
    GivesUp (statement r) ctx c := by
  have hunary : GivesUp (unary r) ctx c := fun report log => by
    rw [unary_plain h]
    exact GivesUp.first hprimary report log
  intro report log
  rw [statement_plain h]
  exact GivesUp.first (.first hunary) report log

/-! ### The first statement of a closure -/

variable {d d' : Cursor} {statements : Array Node} {n : Nat}

/-- Without recovery a block gives up with the error of its statement. -/
theorem afterError_block (hstrict : ctx.mode.recovering = false) (start : Cursor) (e : SyntaxError) (st : State) :
    afterError true statements start e ctx st = .error e st := by
  rw [afterError, bind_run, mode]
  dsimp only
  rw [hstrict]
  rfl

/-- The statements of a block give up with the first one. -/
theorem turn_givesUp (hstrict : ctx.mode.recovering = false) (hd : c.skipWhile TokenKind.isSeparator = d)
    (hends : endsList true d.kind = false) (h : GivesUp r.statement ctx d) :
    GivesUp (statementTurn r true statements) ctx c := by
  intro report log
  obtain ⟨e, st, hrun⟩ := h report log
  refine ⟨e, st, ?_⟩
  rw [statementTurn_run]
  dsimp only
  rw [hd, hends, if_neg Bool.false_ne_true, hrun]
  exact afterError_block hstrict d e st

/-- They give up as well after a statement that neither a separator nor the closing brace follows. -/
theorem turn_givesUp_after (hstrict : ctx.mode.recovering = false) (hd : c.skipWhile TokenKind.isSeparator = d)
    (hends : endsList true d.kind = false) (h : Gives r.statement ctx d P d')
    (hstray : (d'.kind.isSeparator || endsList true d'.kind) = false) :
    GivesUp (statementTurn r true statements) ctx c := by
  intro report log
  obtain ⟨node, hrun, -⟩ := h report log
  rw [statementTurn_run]
  dsimp only
  rw [hd, hends, if_neg Bool.false_ne_true, hrun]
  dsimp only
  rw [afterStatement, bind_run]
  simp only [here, hstray, Bool.false_eq_true, if_false]
  rw [bind_run, refuse_run]
  dsimp only
  exact ⟨_, _, afterError_block hstrict d' _ _⟩

/-- A closure without bars has no parameters. -/
theorem closureParameters_none (hpipe : c.kind ≠ .symbol .pipe) (hbars : c.kind ≠ .symbol .orOr) :
    Gives (closureParameters r) ctx c (· = ([], false)) c := by
  refine .decline hpipe ?_
  rw [if_neg Bool.false_ne_true]
  exact .decline hbars (.pure rfl)

/-- A primary expression gives up at a cursor, or leads where neither it goes on nor a block. -/
def Stuck (d : Cursor) : Prop :=
  (∀ (r : Rules) (ctx : Context), ctx.mode.words = false → GivesUp (primary r) ctx d) ∨
    ∃ (d' : Cursor) (P : Node → Prop),
      (∀ (r : Rules) (ctx : Context), ctx.mode.words = false → Gives (primary r) ctx d P d') ∧
      endsExpression d'.kind = true ∧ d'.kind.isSeparator = false ∧ d'.kind ≠ .symbol .closeBrace

/-- A closure without parameters gives up with its first statement. -/
theorem closure_turn (hbrace : c.kind = .symbol .openBrace) (hpipe : c.advance.kind ≠ .symbol .pipe)
    (hbars : c.advance.kind ≠ .symbol .orOr)
    (h : GivesUp (statementTurn r true #[]) { ctx with mode := ctx.mode.nested } c.advance) :
    GivesUp (closure r) ctx c := by
  refine .mark hbrace (.next (closureParameters_none hpipe hbars) ?_)
  rintro _ rfl
  exact .first (.within (.loop h))

/-- Without rules left no statement can be read. -/
theorem closure_exhausted (hbrace : c.kind = .symbol .openBrace) (hpipe : c.advance.kind ≠ .symbol .pipe)
    (hbars : c.advance.kind ≠ .symbol .orOr) (hstrict : ctx.mode.recovering = false)
    (hd : c.advance.skipWhile TokenKind.isSeparator = d) (hplain : opensPlainly d.kind = true) :
    GivesUp (closure (.upTo 0)) ctx c :=
  closure_turn hbrace hpipe hbars (turn_givesUp hstrict hd (opensPlainly_open hplain).2.2 .fail)

/-- **A closure gives up** when its first statement is a primary expression that is stuck. -/
theorem closure_givesUp (hbrace : c.kind = .symbol .openBrace) (hpipe : c.advance.kind ≠ .symbol .pipe)
    (hbars : c.advance.kind ≠ .symbol .orOr) (hstrict : ctx.mode.recovering = false)
    (hd : c.advance.skipWhile TokenKind.isSeparator = d) (hplain : opensPlainly d.kind = true) (h : Stuck d) (n : Nat) :
    GivesUp (closure (.upTo n)) ctx c := by
  have hends := (opensPlainly_open hplain).2.2
  cases n with
  | zero => exact closure_exhausted hbrace hpipe hbars hstrict hd hplain
  | succ n =>
      rcases h with hfails | ⟨d', P, hgives, hend, hseparator, hclose⟩
      · exact closure_turn hbrace hpipe hbars
          (turn_givesUp hstrict hd hends (statement_givesUp hplain (hfails _ _ rfl)))
      · have hstatement : Gives (Rules.upTo (n + 1)).statement { ctx with mode := ctx.mode.nested } d P d' :=
          statement_gives hplain hend (hgives _ _ rfl)
        by_cases hlast : d'.kind = .endOfInput
        · -- the list of statements ends there, but the brace is not closed
          refine .mark hbrace (.next (closureParameters_none hpipe hbars) ?_)
          rintro _ rfl
          refine .next (.within (statementList_single hd hends hstatement hlast)) fun _ _ => .first (.expect ?_)
          rw [hlast]
          nofun
        · refine closure_turn hbrace hpipe hbars (turn_givesUp_after hstrict hd hends hstatement ?_)
          rw [hseparator, endsList, beq_eq_false_iff_ne.mpr hlast, beq_eq_false_iff_ne.mpr hclose]
          rfl

/-- A name before a colon is a command without arguments. -/
theorem commandExpression_colon (hname : c.kind = .identifier) (hcolon : c.advance.kind = .symbol .colon) :
    Gives (commandExpression r) ctx c (fun _ => True) c.advance := by
  have hglued : gluedPart c.advance (· == .identifier) = false := by
    rw [gluedPart, hcolon]
    rfl
  have hargs : Gives (commandArguments r) ctx c.advance (· = []) c.advance := by
    refine .within (.collected (.mode (.here ?_)) rfl)
    rw [startsArgument, hcolon]
    exact .pure rfl
  have hstage : Gives (commandStage r) ctx c (fun _ => True) c.advance := by
    refine .bind (P := fun _ => True) (.expect hname (.here ?_)) fun name _ => .bind hargs fun args _ => ?_
    · rw [hglued, if_neg Bool.false_ne_true]
      exact fun _ _ => ⟨_, rfl, trivial⟩
    · exact .spanFrom fun _ => .pure trivial
  have hpipe : Gives (pipe? fun c => Cursor.pipeFolds c.ahead) ctx c.advance (· = none) c.advance := by
    refine .here ?_
    rw [hcolon]
    exact .pure rfl
  refine .bind hstage fun stage _ => .bind (P := fun _ => True) (.collected (.bind hpipe ?_) trivial) fun _ _ => .pure trivial
  rintro _ rfl
  exact .pure rfl

/-- A key with a colon is stuck at the colon. -/
theorem stuck_key {before : List Token} {u : Token} {us : List Token}
    (hkind : t.kind = .identifier ∨ ∃ style, t.kind = .string style) (hcolon : u.kind = .symbol .colon) :
    Stuck ⟨before, t, u :: us⟩ := by
  have hstop : (Cursor.advance ⟨before, t, u :: us⟩).kind = .symbol .colon := by
    rw [Cursor.advance_cons (by rcases hkind with hkind | ⟨style, hkind⟩ <;> simp [hkind])]
    exact hcolon
  refine .inr ⟨Cursor.advance ⟨before, t, u :: us⟩, fun _ => True, fun r ctx hwords => .peek ?_, ?_, ?_, ?_⟩
  · rcases hkind with hkind | ⟨style, hkind⟩
    · rw [show (Cursor.current ⟨before, t, u :: us⟩).kind = _ from hkind]
      refine .mode ?_
      have huse : nameUse ctx.mode ⟨before, t, u :: us⟩ = .command := by
        simp [nameUse, Cursor.next, hcolon]
      rw [hwords, if_neg Bool.false_ne_true]
      refine .mode (.here ?_)
      rw [huse]
      exact commandExpression_colon hkind hstop
    · rw [show (Cursor.current ⟨before, t, u :: us⟩).kind = _ from hkind]
      exact .advance (.pure trivial)
  · rw [hstop]
    rfl
  · rw [hstop]
    rfl
  · simp [hstop]

end ShellFront.Grammar
