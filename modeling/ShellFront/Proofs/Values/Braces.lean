import ShellFront.Proofs.Values.Closures

/-!
# Braces in the place of a value

What a brace opens is guessed from the kinds of the tokens directly inside it, and read only then. A guess is harmless
if it never turns away what one of the readings takes. For records this holds. A closure is turned away where a comma
stands directly inside, and neither a colon nor the end of a statement: there only an expansion is tried, although the
comma may stand in a list of imports or between the parameters of a lambda.

That a reading is not turned away is shown from the other side: wherever the guess leaves it out, it gives up.

## Contents
- `Grammar.primary_range`: ranges of integers.
- `Grammar.braceValue_of_record`, `Grammar.braceValue_of_closure` and `Grammar.brace_kept`.
-/

namespace ShellFront

namespace Grammar

open Parse

variable {r : Rules} {ctx : Context} {c : Cursor} {t : Token} {more : List Token} {st st' : State} {node : Node}

/-! ## Ranges of integers between braces -/

variable {ts : List Token} {kind : TokenKind} {kinds : List TokenKind}

/-- Where nothing stands directly between braces, they close or nothing is left. -/
theorem braceBody_nil (h : Cursor.braceBody 0 ts = []) :
    ts = [] ∨ ∃ u us, ts = u :: us ∧ (u.kind = .endOfInput ∨ u.kind = .symbol .closeBrace) := by
  cases ts with
  | nil => exact .inl rfl
  | cons u us =>
      rw [Cursor.braceBody.eq_def] at h
      dsimp only at h
      split at h
      · next hend => exact .inr ⟨u, us, rfl, hend.imp_right And.right⟩
      · rw [if_pos rfl] at h
        contradiction

/-- What stands directly between braces begins with the first token, if that is no mark that goes in pairs. -/
theorem braceBody_cons (hend : t.kind ≠ .endOfInput) (hopener : t.kind.isOpener = false)
    (hcloser : t.kind.isCloser = false) : Cursor.braceBody 0 (t :: ts) = t.kind :: Cursor.braceBody 0 ts := by
  have hinside : ¬(t.kind = .endOfInput ∨ ((0 : Int) = 0 ∧ t.kind = .symbol .closeBrace)) := by
    rintro (h | ⟨-, h⟩)
    · exact hend h
    · rw [h] at hcloser
      contradiction
  rw [Cursor.braceBody.eq_def]
  dsimp only
  rw [if_neg hinside, if_pos rfl, hopener, hcloser]
  rfl

/-- What stands directly between braces first is the first token. -/
theorem braceBody_eq_cons (h : Cursor.braceBody 0 ts = kind :: kinds) (hopener : kind.isOpener = false)
    (hcloser : kind.isCloser = false) : ∃ t more, ts = t :: more ∧ t.kind = kind ∧ Cursor.braceBody 0 more = kinds := by
  cases ts with
  | nil => contradiction
  | cons t more =>
      rw [Cursor.braceBody.eq_def] at h
      dsimp only at h
      split at h
      · contradiction
      · rw [if_pos rfl] at h
        obtain ⟨rfl, hrest⟩ := List.cons.inj h
        rw [hopener, hcloser, if_neg Bool.false_ne_true, if_neg Bool.false_ne_true] at hrest
        exact ⟨t, more, rfl, rfl, hrest⟩

/-- The tokens of a range of integers between braces. -/
structure RangeAhead (ts : List Token) (first dots last : Token) (rest : List Token) : Prop where
  tokens : ts = first :: dots :: last :: rest
  first : ∃ radix, first.kind = .integer radix
  dots : dots.kind = .symbol .dotDot
  last : ∃ radix, last.kind = .integer radix
  ends : rest = [] ∨ ∃ u us, rest = u :: us ∧ (u.kind = .endOfInput ∨ u.kind = .symbol .closeBrace)

theorem range_ahead (h : Cursor.isIntegerRange (Cursor.braceBody 0 ts) = true) :
    ∃ first dots last rest, RangeAhead ts first dots last rest := by
  have hkinds : ∃ radix radix', Cursor.braceBody 0 ts = [.integer radix, .symbol .dotDot, .integer radix'] := by
    generalize Cursor.braceBody 0 ts = kinds at h
    unfold Cursor.isIntegerRange at h
    split at h
    · exact ⟨_, _, rfl⟩
    · contradiction
  obtain ⟨radix, radix', hkinds⟩ := hkinds
  obtain ⟨first, more, rfl, hfirst, hmore⟩ := braceBody_eq_cons hkinds rfl rfl
  obtain ⟨dots, more, rfl, hdots, hmore⟩ := braceBody_eq_cons hmore rfl rfl
  obtain ⟨last, rest, rfl, hlast, hrest⟩ := braceBody_eq_cons hmore rfl rfl
  exact ⟨first, dots, last, rest, rfl, ⟨radix, hfirst⟩, hdots, ⟨radix', hlast⟩, braceBody_nil hrest⟩

/-- The literal of an integer token is valid, or not. -/
theorem integerLiteral_cases (token : Token) (radix : Radix) (negative : Bool) :
    (∀ ctx c, GivesUp (integerLiteral token radix negative) ctx c) ∨
      ∃ value, ∀ ctx c, Gives (integerLiteral token radix negative) ctx c (· = value) c := by
  unfold integerLiteral
  split
  · exact .inr ⟨_, fun ctx c => .pure rfl⟩
  · exact .inl fun ctx c => .failAt

/-- After a literal the dots of a range are read, and its last integer, if this is valid. -/
theorem rangeFrom_dots {radix : Radix} (hdots : c.kind = .symbol .dotDot) (hlast : c.advance.kind = .integer radix)
    (node : Node) :
    (∀ ctx, GivesUp (rangeFrom node) ctx c) ∨
      ∀ ctx, Gives (rangeFrom node) ctx c (fun _ => True) c.advance.advance := by
  have hexclusive : (c.current.kind == .symbol .dotDotEqual) = false := by
    rw [show c.current.kind = .symbol .dotDot from hdots]
    rfl
  have hrange : (c.current.kind == .symbol .dotDot) = true := beq_of_eq hdots
  rcases integerLiteral_cases c.advance.current radix false with hfails | ⟨value, hgives⟩
  · refine .inl fun ctx => .peek ?_
    rw [hexclusive, hrange]
    refine .advance (.first (.peek ?_))
    rw [show c.advance.current.kind = .integer radix from hlast]
    exact .advance (.first (hfails ctx _))
  · refine .inr fun ctx => .peek ?_
    rw [hexclusive, hrange]
    refine .advance (.bind (P := fun _ => True) (.peek ?_) fun last _ => .pure trivial)
    rw [show c.advance.current.kind = .integer radix from hlast]
    exact .advance (.bind (hgives ctx _) fun _ _ => .pure trivial)

/-- A range of integers is one primary expression, if both integers are valid. -/
theorem primary_range (before : List Token) {first dots last : Token} {rest : List Token}
    (h : RangeAhead more first dots last rest) :
    (∀ r ctx, GivesUp (primary r) ctx ⟨before, first, dots :: last :: rest⟩) ∨
      ∀ r ctx, Gives (primary r) ctx ⟨before, first, dots :: last :: rest⟩ (fun _ => True)
        (Cursor.advance ⟨dots :: first :: before, last, rest⟩) := by
  obtain ⟨radix, hfirst⟩ := h.first
  obtain ⟨radix', hlast⟩ := h.last
  have hadvance : Cursor.advance ⟨before, first, dots :: last :: rest⟩ = ⟨first :: before, dots, last :: rest⟩ :=
    Cursor.advance_cons (by rw [hfirst]; nofun)
  have hadvance' : Cursor.advance ⟨first :: before, dots, last :: rest⟩ = ⟨dots :: first :: before, last, rest⟩ :=
    Cursor.advance_cons (by rw [h.dots]; nofun)
  have hstart : (Cursor.current ⟨before, first, dots :: last :: rest⟩).kind = .integer radix := hfirst
  -- the first integer fails in every context or in none, and so does the last
  rcases integerLiteral_cases first radix false with hfails | ⟨value, hgives⟩
  · refine .inl fun r ctx => .peek ?_
    rw [hstart]
    exact .advance (.first (hfails ctx _))
  · have hnext : (Cursor.advance ⟨first :: before, dots, last :: rest⟩).kind = .integer radix' := by
      rw [hadvance']
      exact hlast
    have hrange := rangeFrom_dots (c := ⟨first :: before, dots, last :: rest⟩) h.dots hnext (.literal first.span value)
    rw [hadvance'] at hrange
    refine hrange.imp (fun hfails r ctx => .peek ?_) fun hrange r ctx => .peek ?_
    · rw [hstart]
      refine .advance (.next (hgives ctx _) ?_)
      rintro _ rfl
      rw [hadvance]
      exact hfails ctx
    · rw [hstart]
      refine .advance (.bind (hgives ctx _) ?_)
      rintro _ rfl
      rw [hadvance]
      exact hrange ctx

/-! ## Which reading is chosen -/

/-- Whether a node is one of the readings of a brace in the place of a value. -/
def isBraceReading : Node → Bool
  | .record _ | .expansion .. | .closure .. => true
  | _ => false

/-- Whether what a brace opens is taken for alternatives because of a comma directly inside. -/
def commaDecides (ts : List Token) : Bool :=
  !Cursor.recordShaped ts && !barAhead ts && Cursor.braceShape ts == .expansion
    && (Cursor.braceBody 0 ts).contains (.symbol .comma)

/-- Where a comma decides, it is not a record, no bar comes first, and it looks like alternatives. -/
theorem of_commaDecides {ts : List Token} (h : commaDecides ts = true) :
    Cursor.recordShaped ts = false ∧ barAhead ts = false ∧ Cursor.braceShape ts = .expansion := by
  simp only [commaDecides, Bool.and_eq_true, Bool.not_eq_true', beq_iff_eq] at h
  exact ⟨h.1.1.1, h.1.1.2, h.1.2⟩

/-- What looks like alternatives without a comma is a range of integers. -/
theorem isIntegerRange_of_shape {ts : List Token} (hshaped : Cursor.recordShaped ts = false)
    (hbar : barAhead ts = false) (hshape : Cursor.braceShape ts = .expansion) (hcomma : commaDecides ts = false) :
    Cursor.isIntegerRange (Cursor.braceBody 0 ts) = true := by
  have hnone : (Cursor.braceBody 0 ts).contains (.symbol .comma) = false := by
    rwa [commaDecides, hshaped, hbar, hshape] at hcomma
  rw [Cursor.braceShape, hnone] at hshape
  split at hshape
  · contradiction
  · split at hshape
    · next hrange => exact (Bool.and_eq_true_iff.mp hrange).2
    · contradiction

variable {α β : Type} {m : Parse α} {f : α → Parse β} {after : State}

/-- An action and another after it give what the second one does. -/
theorem bind_ok {b : β} (h : (m >>= f) ctx st = .ok b after) :
    ∃ a st₁, m ctx st = .ok a st₁ ∧ f a ctx st₁ = .ok b after := by
  rw [bind_run] at h
  cases hm : m ctx st with
  | ok a st₁ => exact ⟨a, st₁, rfl, by rwa [hm] at h⟩
  | error e st₁ =>
      rw [hm] at h
      contradiction

theorem recordLiteral_isBraceReading (h : recordLiteral r ctx st = .ok node after) : isBraceReading node = true := by
  obtain ⟨value, st₁, -, hpure⟩ := bind_ok h
  obtain ⟨rfl, -⟩ := EStateM.Result.ok.inj hpure
  rfl

theorem closure_isBraceReading (h : closure r ctx st = .ok node after) : isBraceReading node = true := by
  obtain ⟨start, st₁, -, h⟩ := bind_ok h
  obtain ⟨⟨parameters, explicit⟩, st₂, -, h⟩ := bind_ok h
  obtain ⟨statements, st₃, -, h⟩ := bind_ok h
  obtain ⟨closer, st₄, -, h⟩ := bind_ok h
  obtain ⟨span, st₅, -, hpure⟩ := bind_ok h
  obtain ⟨rfl, -⟩ := EStateM.Result.ok.inj hpure
  rfl

/-- A brace is taken for a value where such braces are allowed. -/
theorem primary_brace (hbrace : st.cursor.kind = .symbol .openBrace) (hallowed : ctx.mode.braceless = false) :
    primary r ctx st = braceValue r ctx st := by
  rw [primary, bind_run, peek]
  dsimp only
  rw [show st.cursor.current.kind = .symbol .openBrace from hbrace]
  dsimp only
  rw [symbolValue, bind_run, mode]
  dsimp only
  rw [hallowed, if_neg Bool.false_ne_true]

theorem braceValue_recordShaped (h : Cursor.recordShaped st.cursor.ahead = true) :
    braceValue r ctx st = recordLiteral r ctx st := by
  rw [braceValue, bind_run, here]
  dsimp only
  rw [h, if_pos rfl]

theorem braceValue_barAhead (hshaped : Cursor.recordShaped st.cursor.ahead = false)
    (h : barAhead st.cursor.ahead = true) : braceValue r ctx st = closure r ctx st := by
  rw [braceValue, bind_run, here]
  dsimp only
  rw [hshaped, h, if_neg Bool.false_ne_true, if_pos rfl]

theorem braceValue_shape (hshaped : Cursor.recordShaped st.cursor.ahead = false)
    (hbar : barAhead st.cursor.ahead = false) :
    braceValue r ctx st = match Cursor.braceShape st.cursor.ahead with
      | .expansion => braceExpansion r ctx st
      | .other => closure r ctx st
      | .colon => recordOrClosure r ctx st := by
  rw [braceValue, bind_run, here]
  dsimp only
  rw [hshaped, hbar, if_neg Bool.false_ne_true, if_neg Bool.false_ne_true]
  cases Cursor.braceShape st.cursor.ahead <;> rfl

/-- Without recovery a reading that may be taken back is run as it is. -/
theorem tentatively_run (hstrict : ctx.mode.recovering = false) :
    tentatively m ctx st = match m ctx st with
      | .ok a after => .ok (some a) after
      | .error _ after => .ok none { after with cursor := st.cursor, report := st.report } := by
  have hmode : Mode.tentative ctx.mode = ctx.mode := by
    rw [Mode.tentative, ← hstrict]
  have hwithin : within Mode.tentative m ctx st = m ctx st := by
    show m { ctx with mode := Mode.tentative ctx.mode } st = m ctx st
    rw [hmode]
  rewrite [tentatively, hwithin]
  cases m ctx st <;> rfl

/-- A brace with a colon is read as a record, if it can be. -/
theorem recordOrClosure_record (hstrict : ctx.mode.recovering = false) (h : recordLiteral r ctx st = .ok node after) :
    recordOrClosure r ctx st = .ok node after := by
  rw [recordOrClosure, bind_run, peek]
  dsimp only
  rw [bind_run, tentatively_run hstrict, h]
  rfl

/-- It is read as a closure, if it can be, or else as a record. -/
theorem recordOrClosure_closure [r.Blind] (hstrict : ctx.mode.recovering = false)
    (h : closure r ctx st = .ok node after) :
    ∃ node' after', recordOrClosure r ctx st = .ok node' after' ∧ isBraceReading node' = true := by
  cases hrecord : recordLiteral r ctx st with
  | ok node' after' =>
      exact ⟨node', after', recordOrClosure_record hstrict hrecord, recordLiteral_isBraceReading hrecord⟩
  | error e failed =>
      obtain ⟨after', hclosure, -⟩ := (inferInstance : Blind (closure r)).ok_of (show
        State.cursor ⟨st.cursor, st.report, failed.log.push (.recordRefused st.cursor.current.span)⟩ = st.cursor from rfl) h
      refine ⟨node, after', ?_, closure_isBraceReading h⟩
      rw [recordOrClosure, bind_run, peek]
      dsimp only
      rw [bind_run, tentatively_run hstrict, hrecord]
      dsimp only
      rw [bind_run, note]
      dsimp only
      rw [bind_run, tentatively_run hstrict, hclosure]
      rfl

/-! ## Nothing is turned away -/

theorem headIs_eq_true {ts : List Token} {kind : TokenKind} (h : Cursor.headIs kind ts = true) :
    ∃ u us, ts = u :: us ∧ u.kind = kind := by
  cases ts with
  | nil => contradiction
  | cons u us => exact ⟨u, us, rfl, eq_of_beq h⟩

theorem kind_advance_inside (hbrace : c.kind = .symbol .openBrace) (h : inside c = t :: more) :
    c.advance.kind = .newline ∨ c.advance.kind = t.kind := by
  have hahead : c.ahead ≠ [] := fun hnil => by
    rw [inside, hnil] at h
    contradiction
  have hrest := Cursor.rest_advance (by rw [hbrace]; decide) hahead
  rw [inside, ← hrest, Cursor.rest, List.dropWhile_cons] at h
  split at h
  · next hbreak => exact .inl (eq_of_beq hbreak)
  · exact .inr (congrArg Token.kind (List.cons.inj h).1)

/-- What stands directly between braces after the first line breaks stands there as well. -/
theorem mem_braceBody_inside {kind : TokenKind} {ts : List Token}
    (h : kind ∈ Cursor.braceBody 0 (ts.dropWhile fun t => t.kind == .newline)) : kind ∈ Cursor.braceBody 0 ts := by
  induction ts with
  | nil => exact h
  | cons t ts ih =>
      rw [List.dropWhile_cons] at h
      split at h
      · next hbreak =>
          have hkind : t.kind = .newline := eq_of_beq hbreak
          rw [braceBody_cons (by rw [hkind]; nofun) (by rw [hkind]; rfl) (by rw [hkind]; rfl)]
          exact List.mem_cons_of_mem _ (ih h)
      · exact h

theorem recordShaped_inside (h : inside c = t :: more) :
    Cursor.recordShaped c.ahead = match t.kind with
      | .symbol .closeBrace => true
      | .identifier | .string _ => Cursor.headIs (.symbol .colon) more
      | _ => false := by
  rewrite [Cursor.recordShaped, show c.ahead.dropWhile _ = _ from h]
  rfl

/-- Where a record is sure, it closes at once, or a key that is no keyword and a colon come first. -/
theorem of_recordShaped (h : Cursor.recordShaped c.ahead = true) :
    ∃ t more, inside c = t :: more ∧ (t.kind = .symbol .closeBrace ∨
      (t.kind = .identifier ∨ ∃ style, t.kind = .string style) ∧ Cursor.headIs (.symbol .colon) more = true) := by
  cases hinside : inside c with
  | nil =>
      rw [Cursor.recordShaped, show c.ahead.dropWhile _ = _ from hinside] at h
      contradiction
  | cons t more =>
      refine ⟨t, more, rfl, ?_⟩
      rw [recordShaped_inside hinside] at h
      split at h
      · next hkind => exact .inl hkind
      · next hkind => exact .inr ⟨.inl hkind, h⟩
      · next hkind => exact .inr ⟨.inr ⟨_, hkind⟩, h⟩
      · contradiction

/-- A keyword before a colon decides nothing, so that the colon does. -/
theorem shape_keyword {k : Keyword} (hinside : inside c = t :: more) (hkind : t.kind = .keyword k)
    (hcolon : Cursor.headIs (.symbol .colon) more = true) :
    Cursor.recordShaped c.ahead = false ∧ barAhead c.ahead = false ∧ Cursor.braceShape c.ahead = .colon := by
  obtain ⟨u, us, rfl, hu⟩ := headIs_eq_true hcolon
  refine ⟨?_, ?_, ?_⟩
  · rw [recordShaped_inside hinside, hkind]
  · rw [barAhead, show c.ahead.dropWhile _ = _ from hinside]
    dsimp only
    rw [hkind]
    rfl
  · have hmem : .symbol .colon ∈ Cursor.braceBody 0 (inside c) := by
      rw [hinside, braceBody_cons (by rw [hkind]; nofun) (by rw [hkind]; rfl) (by rw [hkind]; rfl),
        braceBody_cons (by rw [hu]; nofun) (by rw [hu]; rfl) (by rw [hu]; rfl), hu]
      exact List.mem_cons_of_mem _ List.mem_cons_self
    rw [Cursor.braceShape, if_pos (List.contains_iff_mem.mpr (mem_braceBody_inside hmem))]

/-- **A record is never turned away.** -/
theorem braceValue_of_record (hbrace : st.cursor.kind = .symbol .openBrace) (hstrict : ctx.mode.recovering = false)
    (h : recordLiteral r ctx st = .ok node after) : braceValue r ctx st = .ok node after := by
  obtain ⟨t, more, hinside, hclose | ⟨hkey, hcolon⟩⟩ := record_ahead hbrace fun hfails => hfails.not_ok h
  · rw [braceValue_recordShaped (by rw [recordShaped_inside hinside, hclose]), h]
  · obtain (hkind | ⟨style, hkind⟩) | ⟨k, hkind⟩ := isKey_cases hkey
    · rw [braceValue_recordShaped (by rw [recordShaped_inside hinside, hkind]; exact hcolon), h]
    · rw [braceValue_recordShaped (by rw [recordShaped_inside hinside, hkind]; exact hcolon), h]
    · obtain ⟨hshaped, hbar, hshape⟩ := shape_keyword hinside hkind hcolon
      rw [braceValue_shape hshaped hbar, hshape]
      exact recordOrClosure_record hstrict h

/-- A brace that closes at once is a record. -/
theorem record_closes (r : Rules) (ctx : Context) (hbrace : c.kind = .symbol .openBrace) (hinside : inside c = t :: more)
    (hclose : t.kind = .symbol .closeBrace) : ∃ c', Gives (recordLiteral r) ctx c (fun _ => True) c' := by
  obtain ⟨before, hskip⟩ := skip_inside (p := (· == .newline)) hbrace rfl (by rw [hclose]; rfl) hinside
  have hcloses : (⟨before, t, more⟩ : Cursor).kind = .symbol .closeBrace := hclose
  have hnone : Gives (r.collect do
      if ← check (.symbol .closeBrace) then return none
      else
        let field ← recordField r
        fieldSeparator (.unfinished .closeBrace .record)
        return some field) { ctx with mode := ctx.mode.nested } ⟨before, t, more⟩ (fun _ => True) ⟨before, t, more⟩ := by
    refine Gives.collected (.check ?_) trivial
    rw [hcloses]
    exact .pure rfl
  refine ⟨Cursor.advance ⟨before, t, more⟩, .bind (P := fun _ => True) (.expect hbrace ?_) fun _ _ => .pure trivial⟩
  refine .bind (P := fun _ => True) (.within ?_) fun _ _ => .spanFrom fun _ => .pure trivial
  intro report log
  rw [bind_run, skipNewlines, move]
  dsimp only
  rw [hskip]
  have hclosed (fields : List (RecordField Node)) : Gives (do
      let _ ← expectCloser .record
      return fields) { ctx with mode := ctx.mode.nested } ⟨before, t, more⟩ (fun _ => True)
      (Cursor.advance ⟨before, t, more⟩) := .expect hcloses (.pure trivial)
  exact Gives.bind hnone (fun fields _ => hclosed fields) report log

/-- A brace before a key and a colon opens no closure. -/
theorem closure_key (hbrace : c.kind = .symbol .openBrace) (hstrict : ctx.mode.recovering = false)
    (hinside : inside c = t :: more) (hkey : t.kind = .identifier ∨ ∃ style, t.kind = .string style)
    (hcolon : Cursor.headIs (.symbol .colon) more = true) (n : Nat) : GivesUp (closure (.upTo n)) ctx c := by
  obtain ⟨u, us, rfl, hu⟩ := headIs_eq_true hcolon
  have hplain : opensPlainly t.kind = true := by rcases hkey with hkind | ⟨style, hkind⟩ <;> rw [hkind] <;> rfl
  have hseparator : TokenKind.isSeparator t.kind = false := by
    rcases hkey with hkind | ⟨style, hkind⟩ <;> rw [hkind] <;> rfl
  have hbar {s : Symbol} (hs : s = .pipe ∨ s = .orOr) : c.advance.kind ≠ .symbol s := by
    rcases kind_advance_inside hbrace hinside with h | h <;> rw [h]
    · nofun
    · rcases hkey with hkind | ⟨style, hkind⟩ <;> rw [hkind] <;> nofun
  obtain ⟨before, hskip⟩ := skip_inside (p := TokenKind.isSeparator) hbrace rfl hseparator hinside
  exact closure_givesUp hbrace (hbar (.inl rfl)) (hbar (.inr rfl)) hstrict hskip hplain (stuck_key hkey hu) n

/-- The alternatives of an expansion are one range of integers. -/
theorem expansion_gives {P : Node → Prop} {d' : Cursor} {n : Nat} (hbrace : c.kind = .symbol .openBrace)
    (hplain : opensPlainly c.advance.kind = true) (hclose : d'.kind = .symbol .closeBrace)
    (h : ∀ r ctx, Gives (primary r) ctx c.advance P d') :
    Gives (braceExpansion (.upTo (n + 1))) ctx c (fun node => isBraceReading node = true) d'.advance := by
  have hend : endsExpression d'.kind = true := by
    rw [hclose]
    rfl
  have hitem : Gives (argument (.upTo (n + 1))) { ctx with mode := ctx.mode.alternatives } c.advance P d' := by
    have hbinary : Gives ((Rules.upTo (n + 1)).binary Operator.equal.precedence)
        { ctx with mode := ctx.mode.alternatives } c.advance P d' := binary_plain hplain hend (h _ _)
    refine .peek ?_
    obtain hkind | ⟨style, hkind⟩ | ⟨radix, hkind⟩ := opensPlainly_cases hplain <;>
      rwa [show c.advance.current.kind = _ from hkind]
  have hlast : d'.kind ≠ .symbol .comma := by
    rw [hclose]
    nofun
  have hitems : Gives ((Rules.upTo (n + 1)).loop (#[] : Array Node) fun items => do
      let item ← argument (.upTo (n + 1))
      if ← accept (.symbol .comma) then return .again (items.push item)
      else return .done (items.push item).toList) { ctx with mode := ctx.mode.alternatives } c.advance
      (fun _ => True) d' :=
    Gives.done (.bind hitem fun item _ => .decline hlast (.pure ⟨_, rfl, trivial⟩))
  exact .expect hbrace (.bind (.within hitems) fun items _ => .expect hclose (.spanFrom fun span => .pure rfl))

/-- **Where a closure can be read and a range of integers is ahead**, the range is read. -/
theorem expansion_of_closure {n : Nat} {first dots last : Token} {rest : List Token}
    (hbrace : st.cursor.kind = .symbol .openBrace) (hstrict : ctx.mode.recovering = false)
    (hahead : RangeAhead st.cursor.ahead first dots last rest) (h : closure (.upTo n) ctx st = .ok node after) :
    ∃ node' after', braceExpansion (.upTo n) ctx st = .ok node' after' ∧ isBraceReading node' = true := by
  obtain ⟨⟨before, brace, ahead⟩, report, log⟩ := st
  obtain ⟨rfl, ⟨radix, hfirst⟩, -, ⟨radix', hlast⟩, hends⟩ := id hahead
  have hadvance : Cursor.advance ⟨before, brace, first :: dots :: last :: rest⟩ =
      ⟨brace :: before, first, dots :: last :: rest⟩ :=
    Cursor.advance_cons (by rw [show brace.kind = .symbol .openBrace from hbrace]; nofun)
  have hstart : (Cursor.advance ⟨before, brace, first :: dots :: last :: rest⟩).kind = .integer radix := by
    rw [hadvance]
    exact hfirst
  have hplain : opensPlainly (Cursor.advance ⟨before, brace, first :: dots :: last :: rest⟩).kind = true := by
    rw [hstart]
    rfl
  have hpipe : (Cursor.advance ⟨before, brace, first :: dots :: last :: rest⟩).kind ≠ .symbol .pipe := by
    rw [hstart]
    nofun
  have hbars : (Cursor.advance ⟨before, brace, first :: dots :: last :: rest⟩).kind ≠ .symbol .orOr := by
    rw [hstart]
    nofun
  have hstays := Cursor.skipWhile_of_not (p := TokenKind.isSeparator) (by rw [hstart]; rfl)
  -- a closure that can be read is not stuck after the range
  have hstuck : ¬ Stuck (Cursor.advance ⟨before, brace, first :: dots :: last :: rest⟩) := fun hstuck =>
    (closure_givesUp hbrace hpipe hbars hstrict hstays hplain hstuck n).not_ok h
  rcases primary_range (brace :: before) hahead with hfails | hgives
  · exact absurd (.inl fun r ctx _ => by rw [hadvance]; exact hfails r ctx) hstuck
  · rw [← hadvance] at hgives
    have hgoes : ∀ kind, (Cursor.advance ⟨dots :: first :: brace :: before, last, rest⟩).kind = kind →
        endsExpression kind = true → kind.isSeparator = false → kind = .symbol .closeBrace := by
      rintro _ rfl hend hseparator
      by_contra hclose
      exact hstuck (.inr ⟨_, _, fun r ctx _ => hgives r ctx, hend, hseparator, hclose⟩)
    have hclose : (Cursor.advance ⟨dots :: first :: brace :: before, last, rest⟩).kind = .symbol .closeBrace := by
      rcases hends with rfl | ⟨u, us, rfl, hkind⟩
      · rw [Cursor.advance_last rfl] at hgoes ⊢
        exact hlast.trans (hgoes _ hlast rfl rfl)
      · rw [Cursor.advance_cons (by rw [hlast]; nofun)] at hgoes ⊢
        rcases hkind with hkind | hkind
        · exact hkind.trans (hgoes _ hkind rfl rfl)
        · exact hkind
    cases n with
    | zero => exact absurd h (closure_exhausted hbrace hpipe hbars hstrict hstays hplain).not_ok
    | succ n =>
        obtain ⟨node', hrun, hreading⟩ := expansion_gives hbrace hplain hclose hgives report log
        exact ⟨node', _, hrun, hreading⟩

/-- **A closure is never turned away**, but for a comma. -/
theorem braceValue_of_closure {n : Nat} (hbrace : st.cursor.kind = .symbol .openBrace)
    (hstrict : ctx.mode.recovering = false) (hcomma : commaDecides st.cursor.ahead = false)
    (h : closure (.upTo n) ctx st = .ok node after) :
    ∃ node' after', braceValue (.upTo n) ctx st = .ok node' after' ∧ isBraceReading node' = true := by
  cases hshaped : Cursor.recordShaped st.cursor.ahead with
  | true =>
      -- the guess is a record: it is an empty one, or it has a key and a colon, where no closure can be read
      obtain ⟨t, more, hinside, hclose | ⟨hkey, hcolon⟩⟩ := of_recordShaped hshaped
      · obtain ⟨c', hrecord⟩ := record_closes (.upTo n) ctx hbrace hinside hclose
        obtain ⟨node', hrun, -⟩ := hrecord st.report st.log
        rw [braceValue_recordShaped hshaped]
        exact ⟨node', _, hrun, recordLiteral_isBraceReading hrun⟩
      · exact absurd h (closure_key hbrace hstrict hinside hkey hcolon n).not_ok
  | false =>
      cases hbar : barAhead st.cursor.ahead with
      | true =>
          rw [braceValue_barAhead hshaped hbar]
          exact ⟨node, after, h, closure_isBraceReading h⟩
      | false =>
          rw [braceValue_shape hshaped hbar]
          cases hshape : Cursor.braceShape st.cursor.ahead with
          | other => exact ⟨node, after, h, closure_isBraceReading h⟩
          | colon => exact recordOrClosure_closure hstrict h
          | expansion =>
              -- the guess is an expansion without commas: a range of integers
              obtain ⟨first, dots, last, rest, hahead⟩ := range_ahead (isIntegerRange_of_shape hshaped hbar hshape hcomma)
              exact expansion_of_closure hbrace hstrict hahead h

/-- What the reading of a brace in the place of a value owes to the readings that it chooses from: a record that can be
read is the value, and where a closure can be read there is some value. Only where a comma decides is the value an
expansion, whatever else could be read. -/
theorem brace_kept {n : Nat} (hbrace : st.cursor.kind = .symbol .openBrace) (hallowed : ctx.mode.braceless = false)
    (hstrict : ctx.mode.recovering = false) :
    (∀ node after, recordLiteral (.upTo n) ctx st = .ok node after → primary (.upTo n) ctx st = .ok node after) ∧
    (∀ node after, closure (.upTo n) ctx st = .ok node after → commaDecides st.cursor.ahead = false →
      ∃ node' after', primary (.upTo n) ctx st = .ok node' after' ∧ isBraceReading node' = true) ∧
    (commaDecides st.cursor.ahead = true → primary (.upTo n) ctx st = braceExpansion (.upTo n) ctx st) := by
  rw [primary_brace hbrace hallowed]
  refine ⟨fun node after h => braceValue_of_record hbrace hstrict h,
    fun node after h hcomma => braceValue_of_closure hbrace hstrict hcomma h, fun hcomma => ?_⟩
  obtain ⟨hshaped, hbar, hshape⟩ := of_commaDecides hcomma
  rw [braceValue_shape hshaped hbar, hshape]

theorem ok_of_isOk {session : Session} (h : (session.run m).1.isOk = true) :
    ∃ a after, m session.context session.state = .ok a after := by
  rw [Session.run] at h
  cases hrun : m session.context session.state with
  | ok a after => exact ⟨a, after, rfl⟩
  | error e after =>
      rw [hrun] at h
      contradiction

/-- A brace with one statement is read as a closure. -/
theorem brace_kept_let :
    let session := Session.start (tokenize "\x7b let x = 1 \x7d" "a").tokens 0 false (fun _ => false) .empty #[]
    let st := session.state
    st.cursor.kind = .symbol .openBrace ∧ session.context.mode.braceless = false ∧
      session.context.mode.recovering = false ∧ commaDecides st.cursor.ahead = false ∧
      ∃ node after, primary (.upTo st.cursor.depth) session.context st = .ok node after ∧ isBraceReading node = true := by
  intro session st
  have hbrace : st.cursor.kind = .symbol .openBrace := by decide +kernel
  have hcomma : commaDecides st.cursor.ahead = false := by decide +kernel
  have hclosure : (session.run (closure (.upTo st.cursor.depth))).1.isOk = true := by decide +kernel
  obtain ⟨node, after, hrun⟩ := ok_of_isOk hclosure
  exact ⟨hbrace, rfl, rfl, hcomma, (brace_kept hbrace rfl rfl).2.1 node after hrun hcomma⟩

/-- A closure that imports two names is turned away: the comma between them decides, and what it comes to is no
    expansion. -/
theorem brace_refused_imports :
    let session := Session.start (tokenize "\x7b from m import a, b \x7d" "a").tokens 0 false (fun _ => false) .empty #[]
    session.state.cursor.kind = .symbol .openBrace ∧ session.context.mode.braceless = false ∧
      session.context.mode.recovering = false ∧ (session.run (withRules closure)).1.isOk = true ∧
      (session.run (withRules primary)).1.isOk = false := by
  decide +kernel

end Grammar

end ShellFront
