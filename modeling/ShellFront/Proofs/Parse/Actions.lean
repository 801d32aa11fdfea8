import ShellFront.Parse.Expression
import ShellFront.Proofs.Parse.Agreement

/-!
# How small actions read

The rules for the actions that all others are made of. An action that asks about the place, or moves on,
turns what is known `From` a cursor into what is known from the next one. Actions that may be followed by
anything come with a rule for what follows; those that are parts of their own gather.

## Contents
- Asking and moving: `From.peek`, `From.advance`, `From.accept`, `From.expect`, …
- Places: `Located`, `Parses`, `From.opens`, `Spec.finish`.
- Modes, attempts and loops: `Gathers.within`, `From.tentatively`, `Spec.loop`, `Spec.collect`, ….
-/

namespace ShellFront

open Outlined

namespace Parse

variable {α β : Type} [Outlined α] [Outlined β] {s : Script} {c c' c₀ : Cursor} {held : List Outline}
  {P : Cursor → Prop} {Q : α → Cursor → Prop} {Q' : Token → Cursor → Prop}

/-! ## Asking about the place -/

theorem From.here {f : Cursor → Parse α} (hf : From s c held (f c) Q) : From s c held (here >>= f) Q :=
  .step (fun st hst => ⟨st, fun _ => hst ▸ rfl, hst, rfl⟩) (fun _ => .refl c) hf

theorem From.peek {f : Token → Parse α} (hf : From s c held (f c.current) Q) :
    From s c held (peek >>= f) Q :=
  .step (fun st hst => ⟨st, fun _ => hst ▸ rfl, hst, rfl⟩) (fun _ => .refl c) hf

theorem From.check {kind : TokenKind} {f : Bool → Parse α} (hf : From s c held (f (c.kind == kind)) Q) :
    From s c held (check kind >>= f) Q :=
  .step (fun st hst => ⟨st, fun _ => hst ▸ rfl, hst, rfl⟩) (fun _ => .refl c) hf

/-- The mode may be asked for where recovering from errors makes no difference. -/
theorem From.mode {f : Mode → Parse α}
    (hmode : ∀ mode : Mode, f { mode with recovering := false } = f { mode with recovering := true })
    (hf : ∀ mode, From s c held (f mode) Q) : From s c held (mode >>= f) Q := by
  intro ctx st hst hc
  have h := hf ctx.strict.mode ctx st hst hc
  rw [bind_run, bind_run]
  show Matches s held Q st (f ctx.strict.mode ctx.strict st) (f ctx.lenient.mode ctx.lenient st)
  have heq : f ctx.lenient.mode = f ctx.strict.mode := (hmode ctx.mode).symm
  rwa [heq]

/-- The context may be read where both readings make the same of it. -/
theorem From.read {f : Context → Parse α} (hread : ∀ ctx : Context, f ctx.strict = f ctx.lenient)
    (hf : ∀ ctx, From s c held (f ctx) Q) : From s c held (read >>= f) Q := by
  intro ctx st hst hc
  have h := hf ctx.strict ctx st hst hc
  rw [bind_run, bind_run]
  show Matches s held Q st (f ctx.strict ctx.strict st) (f ctx.lenient ctx.lenient st)
  rwa [← hread ctx]

/-! ## Moving on -/

/-- A token of a kind that is known is read over. -/
theorem From.advance {kind : TokenKind} {f : Token → Parse α} (h : c.kind = kind)
    (hkind : kind.Solid) (hf : From s c.advance held (f c.current) Q) :
    From s c held (advance >>= f) Q :=
  .step (fun st hst => ⟨{ st with cursor := c.advance }, fun _ => hst ▸ rfl, rfl, rfl⟩)
    (fun hc => Cursor.advance_passes hc (h ▸ hkind)) hf

/-- A step that passes over whole tokens. -/
theorem From.move {step : Cursor → Cursor} {f : Unit → Parse α} (hstep : c.Passes (step c))
    (hf : From s (step c) held (f ()) Q) : From s c held (move step >>= f) Q :=
  .step (fun st hst => ⟨{ st with cursor := step c }, fun _ => hst ▸ rfl, rfl, rfl⟩) (fun _ => hstep) hf

/-- What is noted in the log makes no difference. -/
theorem From.note {entry : LogEntry} {f : Unit → Parse α} (hf : From s c held (f ()) Q) :
    From s c held (note entry >>= f) Q :=
  .step (fun _ hst => ⟨_, fun _ => rfl, hst, rfl⟩) (fun _ => .refl c) hf

theorem From.spanFrom {start : Span} {f : Span → Parse α}
    (hf : From s c held (f (start.cover c.previous.span)) Q) : From s c held (spanFrom start >>= f) Q :=
  .step (fun st hst => ⟨st, fun _ => hst ▸ rfl, hst, rfl⟩) (fun _ => .refl c) hf

/-- A mark is read where it stands, and nothing is read where it does not. -/
theorem From.accept {kind : TokenKind} {f : Bool → Parse α} (hkind : kind.Solid)
    (hyes : c.kind = kind → From s c.advance held (f true) Q)
    (hno : c.kind ≠ kind → From s c held (f false) Q) : From s c held (accept kind >>= f) Q := by
  by_cases h : c.kind = kind
  · refine .step (fun st hst => ⟨{ st with cursor := c.advance }, fun _ => ?_, rfl, rfl⟩)
      (fun hc => Cursor.advance_passes hc (h ▸ hkind)) (hyes h)
    rw [Parse.accept, hst, if_pos h]
  · refine .step (fun st hst => ⟨st, fun _ => ?_, hst, rfl⟩) (fun _ => .refl c) (hno h)
    rw [Parse.accept, hst, if_neg h]

/-! ## Giving up -/

/-- Reporting an error changes the report only. -/
theorem reportError_run (e : SyntaxError) (ctx : Context) (st : State) :
    reportError e ctx st = .ok () { st with report := st.report.after e } := by
  rw [reportError, Report.after]
  split <;> rfl

/-- Refusing makes an error of the current token and reports it. -/
theorem refuse_run (problem : Problem) (ctx : Context) (st : State) :
    refuse problem ctx st =
      let e : SyntaxError := ⟨problem, st.cursor.current, st.cursor.blamed⟩
      .ok e { st with report := st.report.after e } := by
  rw [refuse, bind_run]
  simp only [here]
  rw [bind_run, reportError_run]
  rfl

/-- Whoever gives up gives up in both readings. -/
theorem From.fail {problem : Problem} (hproblem : problem.category = .grammar) :
    From s c held (fail problem) Q := by
  let e : SyntaxError := ⟨problem, c.current, c.blamed⟩
  refine .fails (e := e) (fun st hst => ⟨{ st with report := st.report.after e }, fun ctx => ?_, hst, rfl⟩)
    (fun _ => .refl c) (fun hc _ => Cursor.mem_tokens_of_mem_rest hc List.mem_cons_self)
    (fun hc => Cursor.lies_blamed hc (.refl c)) (.of_grammar hproblem)
  subst hst
  rw [Parse.fail, bind_run, refuse_run]
  rfl

theorem Spec.fail {problem : Problem} (hproblem : problem.category = .grammar) :
    Spec s P held (fail problem) Q := fun _ _ => .fail hproblem

omit [Outlined α] in
/-- Giving up because of a token that was read before. -/
theorem failAt_run (token : Token) (problem : Problem) (ctx : Context) (st : State) :
    (failAt token problem : Parse α) ctx st = .error ⟨problem, token, token.span⟩
      { st with report := st.report.after ⟨problem, token, token.span⟩ } := by
  rw [failAt, bind_run, reportError_run]
  rfl

/-- Both readings give up because of the current token. -/
theorem From.failAt {problem : Problem} (hterminator : c.kind.isTerminator = false) (hvalid : c.kind ≠ .invalid)
    (hbrace : BlamesBrace ⟨problem, c.current, c.current.span⟩ c) : From s c held (failAt c.current problem) Q := by
  let e : SyntaxError := ⟨problem, c.current, c.current.span⟩
  refine .fails (e := e) (fun st hst => ⟨{ st with report := st.report.after e },
    fun ctx => failAt_run c.current problem ctx st, hst, rfl⟩) (fun _ => .refl c) (fun _ h => absurd h hvalid)
    (fun hc => Cursor.lies_current hterminator hc (.refl c)) hbrace

/-- Both readings give up because of a token after which something was read that is read alike in all modes. -/
theorem From.blame {m : Parse α} {R : α → Cursor → Prop} {f : α → Parse β} {Q : β → Cursor → Prop} {problem : Problem}
    (hterminator : c.kind.isTerminator = false) (hvalid : c.kind ≠ .invalid) (hm : From s c [] m R)
    (hsame : ∀ ctx : Context, m ctx.lenient = m ctx.strict)
    (hf : ∀ a c', R a c' → ∀ ctx st, f a ctx st = Parse.failAt c.current problem ctx st)
    (hproblem : problem.category = .grammar) : From s c held (m >>= f) Q := by
  intro ctx st hst hc
  have hmatch := hm ctx st hst hc
  rw [bind_run, bind_run, hsame]
  rw [hsame] at hmatch
  generalize m ctx.strict st = x at hmatch
  cases hmatch with
  | @agree a st' hpass hreport _ hpost =>
      subst hst
      dsimp only
      rw [hf _ _ hpost, hf _ _ hpost, failAt_run, failAt_run]
      let e : SyntaxError := ⟨problem, st.cursor.current, st.cursor.current.span⟩
      have hafter : st'.report.after e = st.report.after e := by rw [hreport]
      have hproceeds : Proceeds s st { st' with report := st'.report.after e } :=
        .of_after hc hpass.reaches hafter fun _ => Cursor.lies_current hterminator hc hpass.reaches
      exact .fail ⟨hproceeds, hafter, fun h => absurd h hvalid, .of_grammar hproblem⟩ hproceeds (.refl _)
  | fail hfails hproceeds hgrows => exact .fail hfails hproceeds hgrows

/-! ## Marks -/

/-- A token that is read on the way. -/
theorem From.next {kind : TokenKind} {f : Token → Parse α} (h : c.kind = kind) (hkind : kind.Solid)
    (hf : Spec s (fun _ => True) held (f c.current) Q) : From s c held (Parse.advance >>= f) Q :=
  .advance h hkind (hf _ trivial)

/-- A token that is read on the way, where something holds from now on. -/
theorem From.take [hstable : Stable s P] {kind : TokenKind} {f : Token → Parse α} (hP : P c)
    (h : c.kind = kind) (hkind : kind.Solid) (hf : Spec s P held (f c.current) Q) :
    From s c held (Parse.advance >>= f) Q :=
  .tokens fun hc => .advance h hkind
    (hf _ (hstable.reach hc hP (Cursor.advance_passes hc (h ▸ hkind)).reaches))

/-- What is stable stays so over a mark, whether it stands there or not. -/
theorem Spec.accept [Stable s P] {kind : TokenKind} {f : Bool → Parse α} (hkind : kind.Solid)
    (hf : ∀ b, Spec s P held (f b) Q) : Spec s P held (Parse.accept kind >>= f) Q := by
  refine fun c hP => .tokens fun hc => .accept hkind (fun h => hf true _ ?_) fun _ => hf false c hP
  exact Stable.reach hc hP (Cursor.advance_passes hc (h ▸ hkind)).reaches

theorem Spec.spanFrom {start : Span} {f : Span → Parse α} (hf : ∀ span, Spec s P held (f span) Q) :
    Spec s P held (Parse.spanFrom start >>= f) Q :=
  fun c hP => .spanFrom (hf _ c hP)

/-- One way to go on when a mark was there, another when it was not. -/
theorem Spec.ifAccept [Stable s P] {kind : TokenKind} {yes no : Parse α} (hkind : kind.Solid)
    (hyes : Spec s P held yes Q) (hno : Spec s P held no Q) :
    Spec s P held (Parse.accept kind >>= fun b => if b then yes else no) Q :=
  .accept hkind fun b => match b with
    | true => hyes
    | false => hno

/-- One way to go on where a mark stands, another where it does not; nothing is read. -/
theorem From.ifCheck {kind : TokenKind} {yes no : Parse α} (hyes : c.kind = kind → From s c held yes Q)
    (hno : c.kind ≠ kind → From s c held no Q) :
    From s c held (Parse.check kind >>= fun b => if b then yes else no) Q := by
  refine .check ?_
  split
  · exact hyes (eq_of_beq ‹_›)
  · exact hno fun h => ‹¬_› (beq_of_eq h)

theorem Spec.ifCheck {kind : TokenKind} {yes no : Parse α} (hyes : Spec s P held yes Q)
    (hno : Spec s P held no Q) :
    Spec s P held (Parse.check kind >>= fun b => if b then yes else no) Q :=
  fun c hP => .ifCheck (fun _ => hyes c hP) fun _ => hno c hP

/-- A mark that must stand here. -/
theorem From.expect {kind : TokenKind} {problem : Problem} (hkind : kind.Solid)
    (hproblem : problem.category = .grammar) (hQ : c.kind = kind → Q' c.current c.advance) :
    From s c [] (Parse.expect kind problem) Q' :=
  .ifCheck (fun h => .last (.advance h hkind (.pure (.parts (by simp)) (hQ h)))) fun _ => .fail hproblem

/-- A mark that must come next, with what follows it. -/
theorem From.mark {kind : TokenKind} {problem : Problem} {f : Token → Parse α} (hkind : kind.Solid)
    (hproblem : problem.category = .grammar) (hf : c.kind = kind → From s c.advance held (f c.current) Q) :
    From s c held (Parse.expect kind problem >>= f) Q := by
  refine .bind (R := fun t c' => t = c.current ∧ c' = c.advance ∧ c.kind = kind)
    (.expect hkind hproblem fun h => ⟨rfl, rfl, h⟩) ?_
  rintro _ _ ⟨rfl, rfl, h⟩
  simpa using hf h

theorem expect_gathers {kind : TokenKind} {problem : Problem} (hkind : kind.Solid)
    (hproblem : problem.category = .grammar) : Gathers s (expect kind problem) :=
  fun _ _ => .expect hkind hproblem fun _ => trivial

/-- The marks between the parts of a construct are single tokens. -/
theorem expectAfter_gathers (place : Landmark) : Gathers s (expectAfter place) :=
  expect_gathers (by cases place <;> trivial) rfl

/-- So are the marks that close one. -/
theorem expectCloser_gathers (construct : Construct) : Gathers s (expectCloser construct) :=
  expect_gathers (by cases construct <;> trivial) rfl

/-- Line breaks may be skipped at any place. -/
theorem skipNewlines_gathers : Gathers s skipNewlines := fun c _ =>
  .last (.move (c.skipWhile_passes rfl) (.pure (.parts (by simp)) trivial))

/-- So may separators. -/
theorem skipSeparators_gathers : Gathers s skipSeparators := fun c _ =>
  .last (.move (c.skipWhile_passes rfl) (.pure (.parts (by simp)) trivial))

theorem ident_gathers (what : Named) : Gathers s (ident what) :=
  .bind (expect_gathers trivial rfl) fun _ => .pure (.parts (by simp)) fun _ _ => trivial

/-! ## Places -/

/-- What stands at a place. -/
class Located (α : Type) where
  span : α → Span

instance : Located Node := ⟨Node.span⟩
instance : Located (Record Node) := ⟨Record.span⟩
instance : Located (CommandStage Node) := ⟨CommandStage.span⟩
instance : Located (Function Node) := ⟨Function.span⟩

/-- From tokens of some kinds, both readings of an action match, and what it gives **spans** just the tokens
    read. -/
def Parses [Located α] (s : Script) (K : TokenKind → Prop) (m : Parse α) : Prop :=
  ∀ c, K c.kind → From s c [] m fun a c' => c.Spans (Located.span a) c'

/-- What spans the tokens that it reads passes over whole tokens. -/
theorem Parses.gathers [Located α] {m : Parse α} (h : Parses s (fun _ => True) m) : Gathers s m :=
  .of_from fun c => h c trivial

/-- The first token opens what it begins. -/
theorem From.opens {kind : TokenKind} {f : Token → Parse α} (h : c.kind = kind)
    (hkind : kind.Begins) (hf : Spec s (c.Opens c.current.span) held (f c.current) Q) :
    From s c held (Parse.advance >>= f) Q :=
  .tokens fun hc => .advance h hkind.solid (hf _ (Cursor.advance_spans hc (h ▸ hkind)).toOpens)

/-- The first token opens what it begins, and must have some kind. -/
theorem From.opensWith {kind : TokenKind} {problem : Problem} {f : Token → Parse α} (hkind : kind.Begins)
    (hproblem : problem.category = .grammar) (hf : Spec s (c.Opens c.current.span) held (f c.current) Q) :
    From s c held (Parse.expect kind problem >>= f) Q :=
  .tokens fun hc => .mark hkind.solid hproblem fun h => hf _ (Cursor.advance_spans hc (h ▸ hkind)).toOpens

/-- A token that is all there is to read. -/
theorem From.alone [Located α] {kind : TokenKind} {a : α} (h : c.kind = kind) (hkind : kind.Begins)
    (hcarries : Carries s held (shown a)) (hspan : Located.span a = c.current.span) :
    From s c held (Parse.advance >>= fun _ => Pure.pure a) fun a c' => c.Spans (Located.span a) c' :=
  .tokens fun hc => .advance h hkind.solid
    (.pure hcarries (hspan ▸ Cursor.advance_spans hc (h ▸ hkind)))

/-- What was opened is finished where the reader is. -/
theorem Spec.finish [Located α] {start : Span} {make : Span → α}
    (hcarries : ∀ span, Carries s held (shown (make span)))
    (hspan : ∀ span, Located.span (make span) = span) :
    Spec s (c₀.Opens start) held (Parse.spanFrom start >>= fun span => Pure.pure (make span))
      fun a c => c₀.Spans (Located.span a) c :=
  fun _ hopens => .tokens fun hc => .spanFrom
    (.pure (hcarries _) (hspan _ ▸ hopens.spans hc))

/-- What was opened stays open. -/
theorem Spec.stay [Stable s P] {m : Parse α} (hm : Gathers s m) : Spec s P [] m fun _ => P :=
  fun c hP => .imp (.frame hP (hm c trivial)) fun _ _ _ _ h => h.1

/-- What was opened goes on with a part that spans all of the rest. -/
theorem Spec.cover [Located α] {start : Span} {m : Parse α} {f : α → Parse β} {Q : β → Cursor → Prop}
    (hm : Parses s (fun _ => True) m)
    (hf : ∀ a, Spec s (c₀.Spans (start.cover (Located.span a))) (held ++ shown a) (f a) Q) :
    Spec s (c₀.Opens start) held (m >>= f) Q := by
  refine fun c hopens => .tokens fun hc => .bind (hm c trivial) fun a c' hspans => ?_
  exact hf a c' (hopens.cover hc hspans)

/-! ## Modes and attempts -/

/-- A change of the mode that leaves recovering from errors as it is. -/
theorem From.within {change : Mode → Mode} {m : Parse α}
    (hchange : ∀ mode b, change { mode with recovering := b } = { change mode with recovering := b })
    (h : From s c held m Q) : From s c held (Parse.within change m) Q := by
  intro ctx st hst hc
  have hmatch := h { ctx with mode := change ctx.mode } st hst hc
  show Matches s held Q st (m { ctx with mode := change ctx.strict.mode } st)
    (m { ctx with mode := change ctx.lenient.mode } st)
  have hstrict : change ctx.strict.mode = { change ctx.mode with recovering := false } := hchange _ _
  have hlenient : change ctx.lenient.mode = { change ctx.mode with recovering := true } := hchange _ _
  rw [hstrict, hlenient]
  exact hmatch

theorem Spec.within {change : Mode → Mode} {m : Parse α}
    (hchange : ∀ mode b, change { mode with recovering := b } = { change mode with recovering := b })
    (h : Spec s P held m Q) : Spec s P held (Parse.within change m) Q :=
  fun c hP => .within hchange (h c hP)

/-- Whatever the mode, a reading passes over whole tokens. -/
theorem Gathers.within {change : Mode → Mode} {m : Parse α}
    (hchange : ∀ mode b, change { mode with recovering := b } = { change mode with recovering := b })
    (h : Gathers s m) : Gathers s (Parse.within change m) :=
  fun c hc => .within hchange (h c hc)

/-- A reading that may be taken back is strict in both modes. When it gives up, nothing was read. -/
theorem From.tentatively {m : Parse α} (h : From s c [] m Q) :
    From s c [] (Grammar.tentatively m) fun a? c' => match a? with
      | some a => Q a c'
      | none => c' = c := by
  intro ctx st hst hc
  have hmatch := h ctx st hst hc
  -- Both modes run the strict reading, so the lenient one is of no interest.
  have hboth : Grammar.tentatively m ctx.lenient st = Grammar.tentatively m ctx.strict st := rfl
  have hstrict : Parse.within Mode.tentative m ctx.strict st = m ctx.strict st := rfl
  rw [hboth, Grammar.tentatively, hstrict]
  generalize m ctx.strict st = x, m ctx.lenient st = y at hmatch
  cases hmatch with
  | agree hpass hreport hcarries hpost =>
      exact .agree hpass hreport (by rwa [shown_some]) hpost
  | fail => exact .agree (.refl _) rfl (.parts (by simp)) hst
  | part => exact .agree (.refl _) rfl (.parts (by simp)) hst

/-! ## Loops -/

instance : Outlined (Turn α β) := ⟨fun
  | .again a => shown a
  | .done b => shown b⟩

@[simp] theorem shown_again (a : α) : shown (.again a : Turn α β) = shown a := rfl
@[simp] theorem shown_done (b : β) : shown (.done b : Turn α β) = shown b := rfl

/-- What a turn of a loop ends with. -/
def Turn.Post (I : α → Cursor → Prop) (Q : β → Cursor → Prop) (turn : Turn α β) (c : Cursor) : Prop :=
  match turn with
  | .again a => I a c
  | .done b => Q b c

/-- A loop keeps what each of its turns keeps, however often it goes round. -/
theorem iterate_spec {turn : α → Parse (Turn α β)} {I : α → Cursor → Prop} {Q : β → Cursor → Prop}
    (hturn : ∀ a, Spec s (I a) (shown a) (turn a) (Turn.Post I Q)) (n : Nat) (a : α) :
    Spec s (I a) (shown a) (iterate turn n a) Q := by
  induction n generalizing a with
  | zero => exact .fail rfl
  | succ n ih =>
      -- What the turn gives is all that the next one is concerned with.
      refine fun c hI => From.follow (hturn a c hI) fun t c' hpost => ?_
      match t with
      | .again a' => exact ih a' c' hpost
      | .done b => exact .pure (.parts (by simp)) hpost

/-- A loop keeps what each of its turns keeps. -/
theorem From.loop (r : Rules) {start : α} {turn : α → Parse (Turn α β)} {I : α → Cursor → Prop}
    {Q : β → Cursor → Prop} (hstart : shown start = held) (hI : I start c)
    (hturn : ∀ a, Spec s (I a) (shown a) (turn a) (Turn.Post I Q)) :
    From s c held (r.loop start turn) Q := by
  subst hstart
  exact iterate_spec hturn (r.fuel + 1) start c hI

/-- A loop passes over whole tokens if each of its turns does. -/
theorem loop_gathers (r : Rules) {start : α} {turn : α → Parse (Turn α β)} (hstart : shown start = [])
    (hturn : ∀ a, Spec s (fun _ => True) (shown a) (turn a) fun _ _ => True) :
    Gathers s (r.loop start turn) :=
  fun _ _ => .loop r (I := fun _ _ => True) hstart trivial fun a c hc =>
    .imp (hturn a c hc) fun t _ _ _ _ => by cases t <;> trivial

/-- Items that are collected one by one. -/
theorem From.collect (r : Rules) {item : Parse (Option α)} {I : List α → Cursor → Prop}
    {Q : List α → Cursor → Prop} (hI : I [] c)
    (hitem : ∀ as, Spec s (I as) [] item fun a? c' => match a? with
      | some a => I (as ++ [a]) c'
      | none => Q as c') : From s c [] (r.collect item) Q := by
  refine .loop r (I := fun (as : Array α) c => I as.toList c) shown_emptyArray hI fun as c' hI' => ?_
  refine .bind (hitem as.toList c' hI') fun a? c'' hpost => ?_
  match a? with
  | some a => exact .pure (.parts (by simp)) (by simpa [Turn.Post] using hpost)
  | none => exact .pure (.parts (by simp)) hpost

/-- So do items that are collected, if each of them does. -/
theorem collect_gathers (r : Rules) {item : Parse (Option α)} (hitem : Gathers s item) :
    Gathers s (r.collect item) := fun c _ =>
  .collect r (I := fun _ _ => True) trivial fun _ c hc =>
    .imp (hitem c hc) fun a? _ _ _ _ => by cases a? <;> trivial

/-- So do items between commas. -/
theorem commaList_gathers (r : Rules) (closer : TokenKind) {item : Parse α} (hitem : Gathers s item) :
    Gathers s (r.commaList closer item) := by
  refine loop_gathers r rfl fun as => .ifCheck (.pure (.parts (by simp)) fun _ _ => trivial) ?_
  refine .bind hitem fun a => .ifAccept trivial ?_ ?_
  · exact .pure (.parts (by simp)) fun _ _ => trivial
  · exact .pure (.parts (by simp)) fun _ _ => trivial

end Parse

end ShellFront
