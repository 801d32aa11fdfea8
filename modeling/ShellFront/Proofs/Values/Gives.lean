import ShellFront.Proofs.Parse.Scripts
import ShellFront.Proofs.Twins.Loops

/-!
# Readings that succeed

An action **gives** a value when it succeeds where it stands, and reports and logs nothing. This is followed from
one primitive action to the next: each lemma takes the first one off an action and asks for the rest.

## Contents
- `Cursor.Reads.step`, `Cursor.Reads.split`: tokens read one by one.
- `Parse.Gives` with a lemma for each primitive action.
- `Parse.Gives.again`, `Parse.Gives.done`: the turns of a loop.
- `Grammar.accessTurn_done`, `Grammar.binaryTurn_done`, `Grammar.expression_of_binary` and `Grammar.expression_of_primary`: where
  expressions end.
- `Grammar.statementList_single`: where a list of statements does.
- `Session.run_of_gives`: what a session reads up to the end of the input.
-/

namespace ShellFront

namespace Cursor

variable {c c' : Cursor} {t : Token} {ts us : List Token}

/-- The first of some tokens is the current one, and the others are read after it. -/
theorem Reads.step (h : c.Reads (t :: ts) c') (ht : t.kind ≠ .endOfInput) :
    c.current = t ∧ c.advance.Reads ts c' := by
  obtain ⟨before, current, ahead⟩ := c
  obtain ⟨hbefore, hrest⟩ := h
  obtain ⟨rfl, rfl⟩ : current = t ∧ ahead = ts ++ c'.rest := List.cons.inj hrest
  refine ⟨rfl, ?_⟩
  rw [List.reverse_cons, List.append_assoc] at hbefore
  cases htail : ts ++ c'.rest with
  | nil => exact absurd (List.append_eq_nil_iff.mp htail).2 (List.cons_ne_nil _ _)
  | cons u us =>
      have hadvance : advance ⟨before, current, u :: us⟩ = ⟨current :: before, u, us⟩ := if_neg ht
      rw [hadvance]
      exact ⟨hbefore, htail.symm⟩

/-- What comes next after the first of some tokens. -/
theorem Reads.next (h : c.Reads (t :: ts) c') : c.next = ts.head?.getD c'.current := by
  have hahead : c.ahead = ts ++ c'.rest := (List.cons.inj h.rest).2
  rw [Cursor.next, hahead]
  cases ts <;> rfl

theorem Reads.kind (h : c.Reads (t :: ts) c') : c.kind = t.kind :=
  congrArg Token.kind (List.cons.inj h.rest).1

/-- Tokens are read one part after the other. -/
theorem Reads.split (h : c.Reads (ts ++ us) c') : ∃ c₁, c.Reads ts c₁ ∧ c₁.Reads us c' := by
  obtain ⟨u, rest, hrest⟩ : ∃ u rest, us ++ c'.rest = u :: rest :=
    List.exists_cons_of_ne_nil (List.append_ne_nil_of_right_ne_nil _ (List.cons_ne_nil _ _))
  refine ⟨⟨ts.reverse ++ c.before, u, rest⟩, ⟨rfl, ?_⟩, ⟨?_, hrest.symm⟩⟩
  · rw [h.rest, List.append_assoc, hrest]
    rfl
  · rw [h.before, List.reverse_append, List.append_assoc]

/-- The last of some tokens is the one that is left after the others. -/
theorem Reads.concat (h : c.Reads (ts ++ [t]) c') (ht : t.kind ≠ .endOfInput) :
    ∃ c₁, c.Reads ts c₁ ∧ c₁.kind = t.kind ∧ c' = c₁.advance := by
  obtain ⟨c₁, hread, hlast⟩ := h.split
  obtain ⟨-, hrest⟩ := hlast.step ht
  exact ⟨c₁, hread, hlast.kind, hrest.eq_of_nil⟩

end Cursor

namespace Parse

variable {α β γ : Type} {ctx : Context} {c c₁ c' : Cursor} {P : α → Prop} {Q : β → Prop}

/-- An action **gives** a value with some property and leads to another cursor. -/
def Gives (m : Parse α) (ctx : Context) (c : Cursor) (P : α → Prop) (c' : Cursor) : Prop :=
  ∀ report log, ∃ a, m ctx ⟨c, report, log⟩ = .ok a ⟨c', report, log⟩ ∧ P a

namespace Gives

/-! ## Actions one after the other -/

theorem mono {P' : α → Prop} {m : Parse α} (h : Gives m ctx c P c') (hP : ∀ a, P a → P' a) :
    Gives m ctx c P' c' := fun report log =>
  let ⟨a, hrun, ha⟩ := h report log
  ⟨a, hrun, hP a ha⟩

theorem pure {a : α} (ha : P a) : Gives (Pure.pure a) ctx c P c := fun _ _ => ⟨a, rfl, ha⟩

theorem bind {m : Parse α} {f : α → Parse β} (hm : Gives m ctx c P c₁)
    (hf : ∀ a, P a → Gives (f a) ctx c₁ Q c') : Gives (m >>= f) ctx c Q c' := by
  intro report log
  obtain ⟨a, hrun, ha⟩ := hm report log
  obtain ⟨b, hrun', hb⟩ := hf a ha report log
  exact ⟨b, by rw [bind_run, hrun]; exact hrun', hb⟩

variable {f : α → Parse β}

theorem here {f : Cursor → Parse β} (hf : Gives (f c) ctx c Q c') : Gives (Parse.here >>= f) ctx c Q c' := hf

theorem peek {f : Token → Parse β} (hf : Gives (f c.current) ctx c Q c') : Gives (Parse.peek >>= f) ctx c Q c' := hf

theorem mode {f : Mode → Parse β} (hf : Gives (f ctx.mode) ctx c Q c') : Gives (Parse.mode >>= f) ctx c Q c' := hf

theorem check {kind : TokenKind} {f : Bool → Parse β} (hf : Gives (f (c.kind == kind)) ctx c Q c') :
    Gives (Parse.check kind >>= f) ctx c Q c' := hf

theorem advance {f : Token → Parse β} (hf : Gives (f c.current) ctx c.advance Q c') :
    Gives (Parse.advance >>= f) ctx c Q c' := hf

theorem spanFrom {start : Span} {f : Span → Parse β} (hf : ∀ span, Gives (f span) ctx c Q c') :
    Gives (Parse.spanFrom start >>= f) ctx c Q c' := hf (start.cover c.previous.span)

theorem skipWhile {p : TokenKind → Bool} {f : Unit → Parse β} (hp : p c.kind = false)
    (hf : Gives (f ()) ctx c Q c') : Gives (Parse.move (Cursor.skipWhile p) >>= f) ctx c Q c' := by
  intro report log
  obtain ⟨b, hrun, hb⟩ := hf report log
  refine ⟨b, ?_, hb⟩
  rw [bind_run, Parse.move]
  dsimp only
  rw [Cursor.skipWhile_of_not hp]
  exact hrun

theorem accept {kind : TokenKind} {f : Bool → Parse β} (hkind : c.kind = kind)
    (hf : Gives (f true) ctx c.advance Q c') : Gives (Parse.accept kind >>= f) ctx c Q c' := by
  intro report log
  obtain ⟨b, hrun, hb⟩ := hf report log
  refine ⟨b, ?_, hb⟩
  rw [bind_run, Parse.accept, if_pos hkind]
  exact hrun

theorem decline {kind : TokenKind} {f : Bool → Parse β} (hkind : c.kind ≠ kind)
    (hf : Gives (f false) ctx c Q c') : Gives (Parse.accept kind >>= f) ctx c Q c' := by
  intro report log
  obtain ⟨b, hrun, hb⟩ := hf report log
  refine ⟨b, ?_, hb⟩
  rw [bind_run, Parse.accept, if_neg hkind]
  exact hrun

theorem expect {kind : TokenKind} {problem : Problem} {f : Token → Parse β} (hkind : c.kind = kind)
    (hf : Gives (f c.current) ctx c.advance Q c') : Gives (Parse.expect kind problem >>= f) ctx c Q c' := by
  intro report log
  obtain ⟨b, hrun, hb⟩ := hf report log
  refine ⟨b, ?_, hb⟩
  rw [bind_run, Parse.expect, bind_run, Parse.check, hkind]
  dsimp only
  rw [if_pos (beq_self_eq_true _)]
  exact hrun

theorem within {change : Mode → Mode} {m : Parse α} (hm : Gives m { ctx with mode := change ctx.mode } c P c') :
    Gives (Parse.within change m) ctx c P c' := hm

/-- A reading that may be taken back is kept when it succeeds. -/
theorem tentatively {m : Parse α} (hm : Gives m { ctx with mode := ctx.mode.tentative } c P c') :
    Gives (Grammar.tentatively m) ctx c (fun x => ∃ a, x = some a ∧ P a) c' := by
  intro report log
  obtain ⟨a, hrun, ha⟩ := hm report log
  refine ⟨some a, ?_, a, rfl, ha⟩
  have hwithin : Parse.within Mode.tentative m ctx ⟨c, report, log⟩ = .ok a ⟨c', report, log⟩ := hrun
  rw [Grammar.tentatively, hwithin]

/-! ## Loops -/

variable {turn : α → Parse (Turn α γ)} {R : γ → Prop} {k : Nat} {a : α}

theorem again (hturn : Gives (turn a) ctx c (fun t => ∃ b, t = .again b ∧ P b) c₁)
    (hrest : ∀ b, P b → Gives (iterate turn k b) ctx c₁ R c') : Gives (iterate turn (k + 1) a) ctx c R c' := by
  intro report log
  obtain ⟨_, hrun, b, rfl, hb⟩ := hturn report log
  obtain ⟨g, hrun', hg⟩ := hrest b hb report log
  exact ⟨g, by rw [Grammar.iterate_run, hrun]; exact hrun', hg⟩

theorem done (hturn : Gives (turn a) ctx c (fun t => ∃ g, t = .done g ∧ R g) c') :
    Gives (iterate turn (k + 1) a) ctx c R c' := by
  intro report log
  obtain ⟨_, hrun, g, rfl, hg⟩ := hturn report log
  exact ⟨g, by rw [Grammar.iterate_run, hrun], hg⟩

variable {item : Parse (Option α)} {items : Array α} {S : List α → Prop}

/-- One more item is collected. -/
theorem collect (hitem : Gives item ctx c (fun x => ∃ a, x = some a ∧ P a) c₁)
    (hrest : ∀ a, P a → Gives (iterate (collectTurn item) k (items.push a)) ctx c₁ S c') :
    Gives (iterate (collectTurn item) (k + 1) items) ctx c S c' := by
  have hturn : Gives (collectTurn item items) ctx c
      (fun t => ∃ items', t = .again items' ∧ ∃ a, items' = items.push a ∧ P a) c₁ := by
    refine .bind hitem ?_
    rintro _ ⟨a, rfl, ha⟩
    exact .pure ⟨_, rfl, a, rfl, ha⟩
  refine .again hturn ?_
  rintro _ ⟨a, rfl, ha⟩
  exact hrest a ha

/-- All items are collected. -/
theorem collected (hitem : Gives item ctx c (· = none) c') (hS : S items.toList) :
    Gives (iterate (collectTurn item) (k + 1) items) ctx c S c' := by
  refine .done (.bind hitem ?_)
  rintro _ rfl
  exact .pure ⟨_, rfl, hS⟩

end Gives

end Parse

namespace Grammar

open Parse

/-! ## Loops of the grammar -/

variable {r : Rules} {ctx : Context} {c c' : Cursor} {P : Node → Prop} {least : Nat} {a : Node}

/-- The loop over what is glued ends where there is no dot. -/
theorem accessTurn_done (h : c.kind ≠ .symbol .dot) (ha : P a) :
    Gives (accessTurn r a) ctx c (fun t => ∃ b, t = .done b ∧ P b) c := by
  have hglued : gluedPart c isMember = false := by
    rw [gluedPart, beq_eq_false_iff_ne.mpr h, Bool.false_and, Bool.false_and, Bool.false_and]
  refine .here ?_
  rw [hglued]
  exact .pure ⟨a, rfl, ha⟩

/-- The loop over operators ends where there is none that binds tightly enough. -/
theorem binaryTurn_done
    (h : ∀ operator, Operator.ofToken? c.kind = some operator → operator.precedence < least) (ha : P a) :
    Gives (binaryTurn r least a) ctx c (fun t => ∃ b, t = .done b ∧ P b) c := by
  have hnone : continuing? ctx.mode least c = none := by
    rw [continuing?]
    split
    · next operator hoperator => rw [decide_eq_true (h operator hoperator), Bool.true_or, if_pos rfl]
    · rfl
  refine .mode (.here ?_)
  rw [hnone]
  exact .pure ⟨a, rfl, ha⟩

/-- An expression that no pipe follows is what operators make of it. -/
theorem expression_of_binary (h : Gives (binary r 0) ctx c P c') (hpipe : c'.kind.isPipe = false) :
    Gives (expression r) ctx c P c' := by
  have hnone : Gives (pipe? fun _ => true) ctx c' (· = none) c' := by
    refine .here ?_
    unfold TokenKind.isPipe at hpipe
    split
    · next s hs =>
        rw [hs] at hpipe
        dsimp only at hpipe
        rw [hpipe, Bool.false_and]
        exact .pure rfl
    · exact .pure rfl
  refine .bind h fun a ha => ?_
  have hothers (item : Parse (Option (Symbol × Node))) (hitem : Gives item ctx c' (· = none) c') :
      Gives (r.collect item) ctx c' (· = []) c' := Gives.collected hitem rfl
  refine .bind (hothers _ (.bind hnone ?_)) ?_
  · rintro _ rfl
    exact .pure rfl
  · rintro _ rfl
    exact .pure ha

/-- What no operator begins is an expression by itself, where the input ends after it. -/
theorem expression_of_primary {n : Nat} (h : Gives (primary (.upTo n)) ctx c P c')
    (hoperator : UnaryOperator.ofToken? c.kind = none) (hend : c'.kind = .endOfInput) :
    Gives (expression (.upTo n)) ctx c P c' := by
  have haccess : Gives (access (.upTo n)) ctx c P c' := by
    rw [access]
    refine .bind h fun a ha => ?_
    rw [Rules.loop, Rules.upTo_fuel]
    exact .done (accessTurn_done (by rw [hend]; decide) ha)
  have hunary : Gives (unary (.upTo n)) ctx c P c' := by
    refine .peek ?_
    rw [show UnaryOperator.ofToken? c.current.kind = none from hoperator]
    exact haccess
  refine expression_of_binary ?_ (by rw [hend]; rfl)
  rw [binary]
  refine .bind hunary fun a ha => ?_
  rw [Rules.loop, Rules.upTo_fuel]
  refine .done (binaryTurn_done (fun operator hoperator => ?_) ha)
  rw [hend] at hoperator
  contradiction

/-- A list of statements is the first one, where the input ends after it. -/
theorem statementList_single {inBlock : Bool} {n : Nat} {d d' : Cursor} (hd : c.skipWhile TokenKind.isSeparator = d)
    (hends : endsList inBlock d.kind = false) (h : Gives (Rules.upTo (n + 1)).statement ctx d P d')
    (hend : d'.kind = .endOfInput) :
    Gives (statementList (.upTo (n + 1)) inBlock) ctx c (fun nodes => ∃ a, nodes = [a] ∧ P a) d' := by
  have hended : endsList inBlock d'.kind = true := by
    rw [hend]
    rfl
  have hstays : d'.skipWhile TokenKind.isSeparator = d' := Cursor.skipWhile_of_not (by rw [hend]; rfl)
  -- the first turn reads the statement, the second one finds the end
  have hagain : Gives (statementTurn (.upTo (n + 1)) inBlock #[]) ctx c
      (fun t => ∃ nodes, t = .again nodes ∧ ∃ a, nodes.toList = [a] ∧ P a) d' := by
    intro report log
    obtain ⟨a, hrun, ha⟩ := h report log
    refine ⟨.again (#[].push a), ?_, _, rfl, a, rfl, ha⟩
    rw [statementTurn_run]
    dsimp only
    rw [hd, hends, if_neg Bool.false_ne_true, hrun]
    dsimp only
    rw [afterStatement, bind_run]
    simp only [here, hended, Bool.or_true, if_true]
    rfl
  refine Gives.again hagain fun nodes hnodes => Gives.done fun report log => ?_
  refine ⟨.done nodes.toList, ?_, _, rfl, hnodes⟩
  rw [statementTurn_run]
  dsimp only
  rw [hstays, hended, if_pos rfl]

end Grammar

/-- Before tokens that end with the input, the first one is the current one. -/
theorem Cursor.seek_ofTokens_concat (t : Token) (ts : List Token) {last : Token} (hlast : last.kind = .endOfInput) :
    (Cursor.ofTokens (t :: ts ++ [last])).seek 0 = ⟨[], t, ts ++ [last]⟩ := by
  have hends : ((ts ++ [last]).getLast?.getD t).kind = .endOfInput := by
    rw [List.getLast?_concat]
    exact hlast
  rw [Cursor.seek_zero, List.cons_append, Cursor.ofTokens]
  exact if_pos hends

open Parse in
/-- A session reads tokens up to the end of the input. -/
theorem Session.run_of_gives {α : Type} (action : Rules → Parse α) {P : α → Prop} {ts : List Token} {last : Token}
    (hts : ts ≠ []) (hlast : last.kind = .endOfInput) (recovering : Bool) (isBuiltin : String → Bool)
    (h : ∀ c c' : Cursor, c.Reads ts c' → c'.kind = .endOfInput →
      Gives (action (.upTo (ts.length + 2))) ⟨.top recovering, isBuiltin⟩ c P c') (report : Report)
    (log : Array LogEntry) :
    ∃ a after, (Session.start (ts ++ [last]) 0 recovering isBuiltin report log).run (withRules action) =
        (.ok a, after) ∧ P a ∧ after.state = ⟨⟨ts.reverse, last, []⟩, report, log⟩ := by
  obtain ⟨t, more, rfl⟩ := List.exists_cons_of_ne_nil hts
  have hread : Cursor.Reads ⟨[], t, more ++ [last]⟩ (t :: more) ⟨(t :: more).reverse, last, []⟩ :=
    ⟨(List.append_nil _).symm, rfl⟩
  have hdepth : Cursor.depth ⟨[], t, more ++ [last]⟩ = (t :: more).length + 2 := by
    rw [Cursor.depth, List.length_append]
    rfl
  obtain ⟨a, hrun, ha⟩ := h _ _ hread hlast report log
  refine ⟨a, _, Session.run_of_ok ?_, ha, rfl⟩
  rw [Session.start, Cursor.seek_ofTokens_concat t more hlast, withRules, hdepth]
  exact hrun

end ShellFront
