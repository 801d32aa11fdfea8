import ShellFront.Proofs.Patterns.Reading
import ShellFront.Proofs.Token.Spelt
import ShellFront.Proofs.Twins.Depth
import ShellFront.Proofs.Values.Lambdas

/-!
# What a pattern was read from

Whenever the parser gives a pattern, it is one that can be written, and the tokens that were read spell it. Each
production is followed along what it reads; its loops add parts to those that they have, and the tokens of what a turn
adds are put in front of those of the turns after it.

## Contents
- `Token.Spelt.symbol`, `Token.Spelt.name`, …: what a token is, from its kind.
- `Grammar.patternField_reads`, `Grammar.recordPattern_reads`, `Grammar.listPattern_reads`, `Grammar.pattern_reads`.
- `parse_pattern_rendering`: both ways at once.
-/

namespace ShellFront

/-! ## Tokens by their kinds -/

namespace Token.Spelt

variable {t : Token}

/-- Text and value of a token, where its kind tells them. -/
theorem content_eq {kind : TokenKind} {text : String} (h : t.Spelt) (hkind : t.kind = kind)
    (htext : ∀ value, SpeltAs t.lexeme.toList value kind → t.lexeme = text ∧ value = none) :
    t.content = (kind, text, none) := by
  obtain ⟨value, hvalue, hspelt⟩ := h
  rw [hkind] at hspelt
  obtain ⟨hlexeme, rfl⟩ := htext value hspelt
  rw [Token.content, hkind, hlexeme, hvalue]
  rfl

theorem symbol {s : Symbol} (h : t.Spelt) (hkind : t.kind = .symbol s) : t.content = s.content :=
  h.content_eq hkind fun _ hspelt => ⟨String.toList_inj.mp hspelt.1, hspelt.2⟩

theorem keyword {k : Keyword} (h : t.Spelt) (hkind : t.kind = .keyword k) : t.content = k.content :=
  h.content_eq hkind fun _ hspelt => ⟨String.toList_inj.mp hspelt.1, hspelt.2⟩

theorem identifier (h : t.Spelt) (hkind : t.kind = .identifier) : t.content = binderContent t.lexeme false :=
  h.content_eq hkind fun _ hspelt => ⟨rfl, hspelt.2⟩

theorem variableName (h : t.Spelt) (hkind : t.kind = .variableName) : t.content = binderContent t.payload true := by
  obtain ⟨value, hvalue, hspelt⟩ := h
  rw [hkind] at hspelt
  obtain ⟨name, htext, rfl⟩ := hspelt
  have hlexeme : t.lexeme = "$" ++ String.ofList name := by
    rw [← String.toList_inj, htext, String.toList_append]
    exact congrArg ('$' :: ·) String.toList_ofList.symm
  rw [Token.content, Token.payload, hkind, hlexeme, hvalue]
  rfl

/-- A name is a keyword when it is spelled like one. -/
theorem name (h : t.Spelt) (hkind : t.kind.isName = true) : t.content = nameContent t.lexeme := by
  unfold TokenKind.isName at hkind
  split at hkind
  · next hidentifier =>
      obtain ⟨value, hvalue, hspelt⟩ := h
      rw [hidentifier] at hspelt
      obtain ⟨hplain, rfl⟩ := hspelt
      rw [String.ofList_toList] at hplain
      rw [Token.content, nameContent, hidentifier, Lexer.nameKind_identifier hplain, hvalue]
      rfl
  · next k hkeyword =>
      have hcontent := h.keyword hkeyword
      have hlexeme : t.lexeme = k.text := Token.lexeme_of_content hcontent
      have hname : Piece.nameKind k.text.toList = .keyword k := by cases k <;> decide
      rw [hcontent, nameContent, hlexeme, hname]
      rfl
  · contradiction

/-- The text of an integer: the mark of its radix, and characters for it. -/
theorem integer {radix : Radix} (h : t.Spelt) (hkind : t.kind = .integer radix) :
    ∃ digits, t.lexeme.toList = radix.mark.toList ++ digits ∧ digits ≠ [] ∧ ∀ d ∈ digits, radix.allows d = true := by
  obtain ⟨value, -, hspelt⟩ := h
  rw [hkind] at hspelt
  exact hspelt.1

/-- The digits of a decimal number. -/
theorem digits (h : t.Spelt) (hkind : t.kind = .integer .decimal) : ∀ d ∈ t.lexeme.toList, isDigit d = true := by
  obtain ⟨digits, htext, -, hdigits⟩ := h.integer hkind
  rw [htext]
  exact hdigits

theorem of_end (h : t.kind = .endOfInput) : t.Spelt := by
  refine ⟨t.value.map String.toList, ?_, h ▸ trivial⟩
  cases t.value with
  | none => rfl
  | some text => rw [Option.map_some, Option.map_some, String.ofList_toList]

end Token.Spelt

/-- **A number that a token of the lexer stands for can be written.** -/
theorem Literal.Number.writable {value : Literal} {t : Token} (h : value.Number t) (ht : t.Spelt) :
    value.Writable ∧ value.negated.Writable := by
  cases h with
  | @integer _ radix n hkind hvalue =>
      cases radix with
      | decimal =>
          have hlength : (Nat.toDigits 10 n).length ≤ Numeral.decimalLimit :=
            Numeral.length_le_of_value (ht.digits hkind) hvalue
          refine ⟨?_, ?_⟩
          · rw [Literal.Writable, Int.natAbs_natCast]
            exact hlength
          · rw [Literal.negated, Literal.Writable, Int.natAbs_neg, Int.natAbs_natCast]
            exact hlength
      | _ => exact ⟨trivial, trivial⟩
  | float => exact ⟨Binary64.ofLiteral_isDouble _, (Binary64.ofLiteral_isDouble _).neg⟩

/-- A script whose tokens are spelt as their kinds. -/
def Script.Spelt (s : Script) : Prop := ∀ t ∈ s.tokens, t.Spelt

theorem Script.Spelt.current {s : Script} (hs : s.Spelt) {c : Cursor} (hc : c.tokens = s.tokens) : c.current.Spelt :=
  hs _ (hc ▸ List.mem_append_right _ List.mem_cons_self)

namespace Grammar

open Parse Cursor

variable {s : Script} {r : Rules} {c c' : Cursor}

/-- What an action gives was read from tokens that spell it. -/
def ReadFrom {α : Type} (spells : α → List Token → Prop) (c : Cursor) (a : α) (c' : Cursor) : Prop :=
  ∃ ts, c.Reads ts c' ∧ spells a ts

/-! ## Literals -/

theorem isNumber_cases {kind : TokenKind} (h : kind.isNumber = true) : (∃ radix, kind = .integer radix) ∨ kind = .float := by
  unfold TokenKind.isNumber at h
  split at h
  · exact .inl ⟨_, rfl⟩
  · exact .inr rfl
  · contradiction

theorem numberLiteral_reads {t : Token} (hnumber : t.kind.isNumber = true) (negative : Bool) :
    Yields c (fun value c' => c' = c ∧ ∃ number : Literal, number.Number t ∧
      value = if negative then number.negated else number) (numberLiteral t negative) := by
  rcases isNumber_cases hnumber with ⟨radix, hkind⟩ | hkind
  · rw [numberLiteral, hkind]
    dsimp only
    unfold integerLiteral
    cases hvalue : Numeral.value? radix (t.lexeme.toList.drop radix.markLength) with
    | none => exact .failAt
    | some n => exact .pure ⟨rfl, _, .integer hkind hvalue, by cases negative <;> rfl⟩
  · rw [numberLiteral, hkind]
    exact .pure ⟨rfl, _, .float hkind, by cases negative <;> rfl⟩

/-- What a pattern was read from: tokens that spell it. -/
def Found (c : Cursor) (p : Pattern) (c' : Cursor) : Prop := p.BuiltFrom Literal.Writable ∧ ReadFrom Pattern.Spelled c p c'

/-- A cursor among tokens of a script that are spelt as their kinds. -/
structure Lexed (s : Script) (c : Cursor) : Prop where
  spelt : s.Spelt
  tokens : c.tokens = s.tokens

theorem Lexed.current (h : Lexed s c) : c.current.Spelt := h.spelt.current h.tokens

theorem Lexed.reads (h : Lexed s c) {ts : List Token} (hread : c.Reads ts c') : Lexed s c' :=
  ⟨h.spelt, hread.tokens_eq.trans h.tokens⟩

theorem Lexed.advance (h : Lexed s c) (hend : c.kind ≠ .endOfInput) :
    c.Reads [c.current] c.advance ∧ Lexed s c.advance :=
  ⟨advance_reads h.tokens hend, h.reads (advance_reads h.tokens hend)⟩

theorem numberPattern_reads (hc : Lexed s c) (hnumber : c.kind.isNumber = true) :
    Yields c (Found c) (numberPattern false) := by
  obtain ⟨hread, -⟩ := hc.advance (TokenKind.ne_endOfInput_of_number hnumber)
  refine .peek (.advance (.bind (numberLiteral_reads hnumber false) ?_))
  rintro _ _ ⟨rfl, number, hnumber, rfl⟩
  exact .pure ⟨.literal (hnumber.writable hc.current).1, _, hread, .literal (.number hnumber)⟩

theorem negativePattern_reads (hc : Lexed s c) (hminus : c.kind = .symbol .minus)
    (hnumber : c.next.kind.isNumber = true) : Yields c (Found c) (numberPattern true) := by
  have hend : c.kind ≠ .endOfInput := by rw [hminus]; decide
  obtain ⟨hread, hc₁⟩ := hc.advance hend
  have hnumber : c.advance.kind.isNumber = true := by rwa [Cursor.kind, current_advance hend]
  obtain ⟨hread', -⟩ := hc₁.advance (TokenKind.ne_endOfInput_of_number hnumber)
  refine .peek (.advance (.advance (.bind (numberLiteral_reads hnumber true) ?_)))
  rintro _ _ ⟨rfl, number, hnumber, rfl⟩
  exact .pure ⟨.literal (hnumber.writable hc₁.current).2, _, hread.trans hread',
    .literal (.negative (hc.current.symbol hminus) hnumber)⟩

/-! ## Records -/

theorem fieldBinding_reads (hc : Lexed s c) :
    Yields c (fun b c' => c.Reads [c.current] c' ∧ c.current.content = b.content) fieldBinding := by
  refine .peek ?_
  split
  · next hkind =>
      have hkind : c.kind = .variableName := hkind
      obtain ⟨hread, -⟩ := hc.advance (by rw [hkind]; decide)
      exact .advance (.pure ⟨hread, hc.current.variableName hkind⟩)
  · next hkind =>
      have hkind : c.kind = .identifier := hkind
      obtain ⟨hread, -⟩ := hc.advance (by rw [hkind]; decide)
      refine .ite (fun hname => .advance (.pure ⟨hread, ?_⟩)) fun _ => .fail
      have hname : c.current.lexeme = "_" := eq_of_beq hname
      rw [hc.current.identifier hkind, hname]
      rfl
  · exact .fail

/-- **A field is read from its rendering.** -/
theorem patternField_reads (hc : Lexed s c) : Yields c (ReadFrom PatternField.Spelled c) patternField := by
  refine .peek (.ite (fun _ => .fail) fun hname => .advance ?_)
  have hname : c.current.kind.isName = true := by simpa using hname
  obtain ⟨hread, hc₁⟩ := hc.advance (by rintro hend; rw [Cursor.kind] at hend; rw [hend] at hname; contradiction)
  have hcontent := hc.current.name hname
  refine .accept (fun hcolon => ?_) fun _ => ?_
  · obtain ⟨hread', hc₂⟩ := hc₁.advance (by rw [hcolon]; decide)
    refine .bind (fieldBinding_reads hc₂) ?_
    rintro b c₃ ⟨hread'', hb⟩
    refine .bind (P := fun x c₄ => x = some b ∧ c₄ = c₃) (.pure ⟨rfl, rfl⟩) ?_
    rintro _ _ ⟨rfl, rfl⟩
    refine .spanFrom fun _ => .pure ⟨_, (hread.trans hread').trans hread'', ?_⟩
    simp only [PatternField.Spelled, PatternField.rendering, List.map_append, List.map_cons, List.map_nil, hcontent, hb,
      hc₁.current.symbol hcolon]
    rfl
  · refine .bind (P := fun x c₄ => x = none ∧ c₄ = c.advance) (.pure ⟨rfl, rfl⟩) ?_
    rintro _ _ ⟨rfl, rfl⟩
    exact .spanFrom fun _ => .pure ⟨_, hread, congrArg (fun x => [x]) hcontent⟩

theorem skipNewlines_reads {α : Type} {P : α → Cursor → Prop} {f : Unit → Parse α}
    (hf : ∀ gap c₁, LineBreaks gap → c.Reads gap c₁ → Yields c₁ P (f ())) : Yields c P (skipNewlines >>= f) := by
  intro ctx st a st' hst hrun
  subst hst
  obtain ⟨gap, hread, hgap⟩ := st.cursor.skipWhile_reads (· == .newline)
  exact hf gap _ (fun t ht => eq_of_beq (hgap t ht)) hread ctx
    { st with cursor := st.cursor.skipWhile (· == .newline) } a st' rfl hrun

/-- What turns over a list with commas add to the items that they have, and the tokens of what they add. -/
def Adds {α : Type} (spells : α → List Token → Prop) (gap : List Token → Prop) (items : Array α) (c : Cursor)
    (all : List α) (c' : Cursor) : Prop :=
  ∃ added ts, all = items.toList ++ added ∧ Commas spells gap added ts ∧ c.Reads ts c'

section

variable {α : Type} {spells : α → List Token → Prop} {gap : List Token → Prop} {items : Array α} {a : α}
  {c₁ c₂ c₃ : Cursor}

theorem Adds.none (items : Array α) (c : Cursor) : Adds spells gap items c items.toList c :=
  ⟨[], [], (List.append_nil _).symm, .none, .refl c⟩

theorem Adds.last {ts us : List Token} (ha : spells a ts) (hread : c.Reads ts c₁) (hgap : gap us)
    (hskip : c₁.Reads us c') : Adds spells gap items c (items.push a).toList c' :=
  ⟨[a], _, Array.toList_push, .last ha hgap, hread.trans hskip⟩

/-- An item and a comma are put in front of what is added after them. -/
theorem Adds.comma {ts us us' : List Token} {mark : Token} {all : List α} (ha : spells a ts) (hread : c.Reads ts c₁)
    (hgap : gap us) (hskip : c₁.Reads us c₂) (hmark : mark.content = Symbol.comma.content) (hgap' : gap us')
    (hskip' : c₂.Reads (mark :: us') c₃) (hmore : Adds spells gap (items.push a) c₃ all c') :
    Adds spells gap items c all c' := by
  obtain ⟨added, more, rfl, hadded, hrest⟩ := hmore
  refine ⟨a :: added, _, ?_, .comma ha hgap hmark hgap' hadded, (hread.trans hskip).trans (hskip'.trans hrest)⟩
  rw [Array.toList_push, List.append_assoc, List.singleton_append]

end

/-- **The turns over fields** add what they read. -/
theorem fieldTurns_read (hc : Lexed s c) (n : Nat) (items : Array PatternField) :
    Yields c (Adds PatternField.Spelled LineBreaks items c) (iterate fieldTurn n items) := by
  induction n generalizing c items with
  | zero => exact .fail
  | succ n ih =>
      refine .bind (P := fun turn c₁ => match turn with
        | .again items' => Lexed s c₁ ∧ ∀ all c', Adds PatternField.Spelled LineBreaks items' c₁ all c' →
            Adds PatternField.Spelled LineBreaks items c all c'
        | .done all => Adds PatternField.Spelled LineBreaks items c all c₁) ?_ ?_
      · refine .check (.ite (fun _ => .pure (.none items c)) fun _ => ?_)
        refine .bind (patternField_reads hc) fun f c₁ ⟨ts, hread, hf⟩ => ?_
        refine skipNewlines_reads fun gap c₂ hgap hskip => .accept (fun hcomma => ?_) fun _ => ?_
        · have hc₂ := (hc.reads hread).reads hskip
          obtain ⟨hmark, hc₃⟩ := hc₂.advance (by rw [hcomma]; decide)
          refine skipNewlines_reads fun gap' c₄ hgap' hskip' => .pure ⟨hc₃.reads hskip', fun all c' hmore => ?_⟩
          exact .comma hf hread hgap hskip (hc₂.current.symbol hcomma) hgap' (hmark.trans hskip') hmore
        · exact .pure (.last hf hread hgap hskip)
      · rintro (items' | all) c₁ hturn
        · exact (ih hturn.1 items').imp hturn.2
        · exact .pure hturn

/-- **A record is read from what spells it.** -/
theorem recordPattern_reads (hc : Lexed s c) : Yields c (ReadFrom RecordPattern.Spelled c) (recordPattern r) := by
  rw [recordPattern]
  refine .expect fun hopen => skipNewlines_reads fun gap c₁ hgap hskip => ?_
  obtain ⟨hopener, hc₁⟩ := hc.advance (by rw [hopen]; decide)
  refine .bind (fieldTurns_read (hc₁.reads hskip) _ #[]) ?_
  rintro _ c₂ ⟨fields, ts, rfl, hfields, hread⟩
  have hc₂ := (hc₁.reads hskip).reads hread
  refine .expect fun hclose => .spanFrom fun _ => .pure ?_
  obtain ⟨hcloser, -⟩ := hc₂.advance (by rw [hclose]; decide)
  exact ⟨_, hopener.trans ((hskip.trans hread).trans hcloser),
    .braces (hc.current.symbol hopen) hgap hfields (hc₂.current.symbol hclose)⟩

/-! ## Lists -/

theorem restPattern_reads (hc : Lexed s c) (hdots : c.kind = .symbol .ellipsis) :
    Yields c (fun p c' => p.isRest = true ∧ ReadFrom Pattern.Spelled c p c') restPattern := by
  obtain ⟨hread, hc₁⟩ := hc.advance (by rw [hdots]; decide)
  have hcontent := hc.current.symbol hdots
  refine .advance (.peek ?_)
  split
  · next hkind =>
      have hkind : c.advance.kind = .identifier := hkind
      obtain ⟨hread', -⟩ := hc₁.advance (by rw [hkind]; decide)
      exact .advance (.spanFrom fun _ => .pure ⟨rfl, _, hread.trans hread', .rest hcontent (hc₁.current.identifier hkind)⟩)
  · next hkind =>
      have hkind : c.advance.kind = .variableName := hkind
      obtain ⟨hread', -⟩ := hc₁.advance (by rw [hkind]; decide)
      exact .advance (.spanFrom fun _ => .pure
        ⟨rfl, _, hread.trans hread', .rest hcontent (hc₁.current.variableName hkind)⟩)
  · exact .fail

/-- What a list may hold: patterns, and rest elements. -/
def IsElement (p : Pattern) (ts : List Token) : Prop :=
  (p.isRest = false → p.BuiltFrom Literal.Writable) ∧ p.Spelled ts

/-- **An element is read from what spells it**; after a rest element there is no other. -/
theorem listElement_reads (hc : Lexed s c) (hr : ∀ {c}, Lexed s c → Yields c (Found c) r.pattern) (seen : Bool) :
    Yields c (fun x c' => ReadFrom IsElement c x.1 c' ∧ x.1.isRest.toNat + seen.toNat = x.2.toNat)
      (listElement r seen) := by
  refine .peek (.ite (fun hdots => ?_) fun _ => ?_)
  · refine .bind (restPattern_reads hc (eq_of_beq hdots)) fun p c₁ ⟨hrest, ts, hread, hp⟩ => ?_
    refine .ite (fun _ => .failAt) fun hseen => .pure ⟨⟨ts, hread, ?_, hp⟩, ?_⟩
    · intro hfree
      rw [hrest] at hfree
      contradiction
    · rw [hrest, (Bool.not_eq_true _).mp hseen]
      rfl
  · refine .bind (hr hc) fun p c₁ ⟨hbuilt, ts, hread, hp⟩ => .pure ⟨⟨ts, hread, fun _ => hbuilt, hp⟩, ?_⟩
    rw [hbuilt.not_rest, Bool.toNat_false, Nat.zero_add]

/-- What the turns over elements come to: they add elements, and among all there is at most one rest element. -/
def Lists (items : Array Pattern) (c : Cursor) (all : List Pattern) (c' : Cursor) : Prop :=
  Adds IsElement NoGap items c all c' ∧ all.countP Pattern.isRest ≤ 1

theorem countP_push {items : Array Pattern} {seen seen' : Bool} {p : Pattern}
    (hitems : items.toList.countP Pattern.isRest = seen.toNat) (hp : p.isRest.toNat + seen.toNat = seen'.toNat) :
    (items.push p).toList.countP Pattern.isRest = seen'.toNat := by
  rw [Array.toList_push, List.countP_append, hitems, ← hp, List.countP_singleton, Nat.add_comm]
  cases p.isRest <;> rfl

/-- **The turns over elements** add what they read. -/
theorem elementTurns_read (hc : Lexed s c) (hr : ∀ {c}, Lexed s c → Yields c (Found c) r.pattern) (n : Nat)
    (items : Array Pattern) (seen : Bool) (hitems : items.toList.countP Pattern.isRest = seen.toNat) :
    Yields c (Lists items c) (iterate (elementTurn r) n (items, seen)) := by
  induction n generalizing c items seen with
  | zero => exact .fail
  | succ n ih =>
      refine .bind (P := fun turn c₁ => match turn with
        | .again (items', seen') => Lexed s c₁ ∧ items'.toList.countP Pattern.isRest = seen'.toNat ∧
            ∀ all c', Adds IsElement NoGap items' c₁ all c' → Adds IsElement NoGap items c all c'
        | .done all => Lists items c all c₁) ?_ ?_
      · refine .check (.ite (fun _ => ?_) fun _ => ?_)
        · exact .pure ⟨.none items c, hitems ▸ seen.toNat_le⟩
        refine .bind (listElement_reads hc hr seen) ?_
        rintro ⟨p, seen'⟩ c₁ ⟨⟨ts, hread, hp⟩, hseen⟩
        have hcount := countP_push hitems hseen
        have hc₁ := hc.reads hread
        refine .accept (fun hcomma => ?_) fun _ => ?_
        · obtain ⟨hmark, hc₂⟩ := hc₁.advance (by rw [hcomma]; decide)
          refine .pure ⟨hc₂, hcount, fun all c' hmore => ?_⟩
          exact .comma hp hread rfl (.refl c₁) (hc₁.current.symbol hcomma) rfl hmark hmore
        · exact .pure ⟨.last hp hread rfl (.refl c₁), hcount ▸ seen'.toNat_le⟩
      · rintro (⟨items', seen'⟩ | all) c₁ hturn
        · exact (ih hturn.1 items' seen' hturn.2.1).imp fun all c' h => ⟨hturn.2.2 all c' h.1, h.2⟩
        · exact .pure hturn

/-- Parts of which something is known are spelled so. -/
theorem commas_imp {α : Type} {spells spells' : α → List Token → Prop} {gap : List Token → Prop} {as : List α}
    {ts : List Token} (h : Commas spells gap as ts) (himp : ∀ a ts, spells a ts → spells' a ts) :
    Commas spells' gap as ts := by
  induction h with
  | none => exact .none
  | last h hgap => exact .last (himp _ _ h) hgap
  | comma h hgap hcomma hgap' _ ih => exact .comma (himp _ _ h) hgap hcomma hgap' ih

theorem commas_forall {α : Type} {spells : α → List Token → Prop} {gap : List Token → Prop} {as : List α}
    {ts : List Token} {P : α → Prop} (h : Commas spells gap as ts) (hP : ∀ a ts, spells a ts → P a) : ∀ a ∈ as, P a := by
  induction h with
  | none => exact List.forall_mem_nil _
  | last h => exact List.forall_mem_singleton.mpr (hP _ _ h)
  | comma h _ _ _ _ ih => exact List.forall_mem_cons.mpr ⟨hP _ _ h, ih⟩

/-- **A list is read from what spells it.** -/
theorem listPattern_reads (hc : Lexed s c) (hr : ∀ {c}, Lexed s c → Yields c (Found c) r.pattern) :
    Yields c (Found c) (listPattern r) := by
  rw [listPattern]
  refine .expect fun hopen => ?_
  obtain ⟨hopener, hc₁⟩ := hc.advance (by rw [hopen]; decide)
  refine .bind (elementTurns_read hc₁ hr _ #[] false rfl) ?_
  rintro _ c₂ ⟨⟨elements, ts, rfl, helements, hread⟩, hrest⟩
  have hc₂ := hc₁.reads hread
  refine .expect fun hclose => .spanFrom fun _ => .pure ?_
  obtain ⟨hcloser, -⟩ := hc₂.advance (by rw [hclose]; decide)
  exact ⟨.list (commas_forall helements fun _ _ h => h.1) hrest, _, hopener.trans (hread.trans hcloser),
    .list (hc.current.symbol hopen) (commas_imp helements fun _ _ h => h.2) (hc₂.current.symbol hclose)⟩

/-! ## Patterns -/

theorem namePattern_reads (hc : Lexed s c) (hname : c.kind = .identifier) : Yields c (Found c) (namePattern r) := by
  obtain ⟨hread, hc₁⟩ := hc.advance (by rw [hname]; decide)
  have hcontent := hc.current.identifier hname
  refine .here (.advance (.ite (fun hwildcard => ?_) fun hplain => .ite (fun _ => ?_) fun _ => ?_))
  · rw [eq_of_beq hwildcard] at hcontent
    exact .pure ⟨.wildcard, _, hread, .wildcard hcontent⟩
  · refine .bind (recordPattern_reads hc₁) fun record c₂ ⟨ts, hrecord, hspelled⟩ => .spanFrom fun _ => .pure ?_
    exact ⟨.typedRecord fun heq => hplain (beq_iff_eq.mpr heq), _, hread.trans hrecord,
      .typedRecord hcontent hspelled⟩
  · exact .pure ⟨.binding fun _ heq => hplain (beq_iff_eq.mpr heq), _, hread, .binding hcontent⟩

/-- **A pattern is read from what spells it.** -/
theorem pattern_reads (hc : Lexed s c) (hr : ∀ {c}, Lexed s c → Yields c (Found c) r.pattern) :
    Yields c (Found c) (pattern r) := by
  have hkeyword {k : Keyword} (hkind : c.kind = .keyword k) : c.Reads [c.current] c.advance ∧
      c.current.content = k.content :=
    ⟨(hc.advance (by rw [hkind]; nofun)).1, hc.current.keyword hkind⟩
  refine .here ?_
  dsimp only
  split
  · next hkind => exact .ite (negativePattern_reads hc hkind) fun _ => .fail
  · next radix hkind => exact numberPattern_reads hc (by rw [Cursor.kind, hkind]; rfl)
  · next hkind => exact numberPattern_reads hc (by rw [Cursor.kind, hkind]; rfl)
  · next style hkind =>
      obtain ⟨hread, -⟩ := hc.advance (by rw [Cursor.kind, hkind]; nofun)
      exact .advance (.pure ⟨.literal trivial, _, hread, .literal (.string hkind)⟩)
  · next hkind =>
      obtain ⟨hread, hcontent⟩ := hkeyword hkind
      exact .advance (.pure ⟨.literal trivial, _, hread, .literal (.boolean hcontent)⟩)
  · next hkind =>
      obtain ⟨hread, hcontent⟩ := hkeyword hkind
      exact .advance (.pure ⟨.literal trivial, _, hread, .literal (.boolean hcontent)⟩)
  · next hkind =>
      obtain ⟨hread, hcontent⟩ := hkeyword hkind
      exact .advance (.pure ⟨.literal trivial, _, hread, .literal (.null hcontent)⟩)
  · next hkind => exact namePattern_reads hc hkind
  · next hkind =>
      have hkind : c.kind = .variableName := hkind
      obtain ⟨hread, -⟩ := hc.advance (by rw [hkind]; decide)
      exact .advance (.pure ⟨.binding nofun, _, hread, .binding (hc.current.variableName hkind)⟩)
  · refine .bind (recordPattern_reads hc) fun record c₁ ⟨ts, hread, hspelled⟩ => .pure ?_
    exact ⟨.record, ts, hread, .record hspelled⟩
  · exact listPattern_reads hc hr
  · exact .fail

/-- **The rules read patterns from what spells them.** -/
theorem upTo_pattern_reads (n : Nat) (hc : Lexed s c) : Yields c (Found c) (Rules.upTo n).pattern := by
  induction n generalizing c with
  | zero => exact .fail
  | succ n ih => exact pattern_reads hc ih

end Grammar

/-! ## Both ways -/

open Parse

/-- A pattern is read from what spells it, up to the end of the input. -/
theorem run_pattern_spelled {literals : Literal → Prop} {p : Pattern} (hbuilt : p.BuiltFrom literals) {ts : List Token}
    {last : Token} (h : p.Spelled ts) (hlast : last.kind = .endOfInput) (recovering : Bool)
    (isBuiltin : String → Bool) (report : Report) (log : Array LogEntry) :
    ∃ q after, (Session.start (ts ++ [last]) 0 recovering isBuiltin report log).run Parse.pattern = (.ok q, after) ∧
      p.Alike q ∧ after.state = ⟨⟨ts.reverse, last, []⟩, report, log⟩ := by
  have hts : ts ≠ [] := List.ne_nil_of_length_pos (Grammar.element_length_pos h)
  exact Session.run_of_gives Rules.pattern hts hlast recovering isBuiltin
    (fun c c' hread hend => Grammar.pattern_gives hbuilt h (Nat.le_succ _) hread (by rw [hend]; decide)) report log

/-- A pattern that was read, with the tokens that it was read from. -/
theorem pattern_of_run {source file : String} {count index : Nat} {recovering : Bool} {isBuiltin : String → Bool}
    {report : Report} {log : Array LogEntry} {session after : Session} {p : Pattern}
    (hstart : session = Session.start ((tokenize source file).tokens.take count) index recovering isBuiltin report log)
    (hrun : session.run Parse.pattern = (.ok p, after)) :
    p.BuiltFrom Literal.Writable ∧ ∃ ts, session.state.cursor.Reads ts after.state.cursor ∧ p.Spelled ts := by
  obtain ⟨whole, hwhole, -⟩ := tokenize_script source file
  obtain ⟨s, ⟨more, hprefix⟩, -, -, htokens⟩ := Cursor.ofTokens_take whole count
  have hspelt : s.Spelt := by
    intro t ht
    rcases List.mem_append.mp ht with ht | ht
    · refine tokenize_spelt source file t ?_
      rw [hwhole, Script.tokens, ← hprefix]
      exact List.mem_append_left _ (List.mem_append_left _ ht)
    · rw [List.mem_singleton.mp ht]
      exact .of_end s.last_kind
  have hc : session.state.cursor.tokens = s.tokens := by
    rw [hstart, hwhole]
    exact (Cursor.reaches_seek index _).tokens_eq.trans htokens
  unfold Session.run at hrun
  cases hpattern : Parse.pattern session.context session.state with
  | error e st =>
      rw [hpattern] at hrun
      cases hrun
  | ok q st =>
      rw [hpattern] at hrun
      cases hrun
      exact Grammar.upTo_pattern_reads session.state.cursor.depth ⟨hspelt, hc⟩ _ _ _ _ rfl hpattern

/-- **Patterns and their renderings.** The rendering of a pattern that can be written, wherever its tokens stand, is read
    as this pattern up to places, to the end of the input and not further, and nothing is reported. Whenever a pattern
    is read from tokens of the lexer, it can be written, and what was read is its rendering but for line breaks inside
    of records, commas at the end of lists and records, and the spelling of literals. -/
theorem parse_pattern_rendering :
    (∀ (p : Pattern) (ts : List Token) (last : Token) (recovering : Bool) (isBuiltin : String → Bool) (report : Report)
      (log : Array LogEntry), p.BuiltFrom Literal.Writable → ts.map Token.content = p.rendering →
      last.kind = .endOfInput →
      ∃ q after, (Session.start (ts ++ [last]) 0 recovering isBuiltin report log).run Parse.pattern = (.ok q, after) ∧
        p.Alike q ∧ after.state.cursor.current = last ∧ after.index = ts.length ∧ after.report = report) ∧
    ∀ (source file : String) (count index : Nat) (recovering : Bool) (isBuiltin : String → Bool) (report : Report)
      (log : Array LogEntry) (p : Pattern) (after : Session),
      let session := Session.start ((tokenize source file).tokens.take count) index recovering isBuiltin report log
      session.run Parse.pattern = (.ok p, after) →
      p.BuiltFrom Literal.Writable ∧ ∃ ts, session.state.cursor.Reads ts after.state.cursor ∧ p.Spelled ts := by
  refine ⟨fun p ts last recovering isBuiltin report log hbuilt hts hlast => ?_, ?_⟩
  · have hspelled : p.Spelled ts := Pattern.spelled_of_rendering (.inl hbuilt) hts
    obtain ⟨q, after, hrun, halike, hafter⟩ := run_pattern_spelled hbuilt hspelled hlast recovering isBuiltin report log
    refine ⟨q, after, hrun, halike, ?_, ?_, ?_⟩
    · rw [hafter]
    · rw [Session.index, hafter]
      exact List.length_reverse
    · rw [Session.report, hafter]
  · intro source file count index recovering isBuiltin report log p after session hrun
    exact pattern_of_run rfl hrun

/-- Tokens of a rendering, at no place in particular. -/
def unplacedTokens (contents : List Content) : List Token := contents.map fun w => ⟨w.1, w.2.1, .origin "", w.2.2⟩

theorem content_unplacedTokens (contents : List Content) : (unplacedTokens contents).map Token.content = contents := by
  rw [unplacedTokens, List.map_map]
  exact List.map_id _

/-- A list of a negative number, a typed record and a rest element; the same with a line break and a comma more. -/
theorem parse_pattern_rendering_list :
    let span : Span := .origin ""
    let p : Pattern := .list span [.literal span (.integer (-2) .decimal),
      .typedRecord span ⟨span, "Point"⟩ ⟨span, [⟨span, ⟨span, "if"⟩, some (.wildcard span)⟩]⟩, .rest span "more" true]
    let last : Token := ⟨.endOfInput, "", span, none⟩
    let tokens := (tokenize "[-2, Point \x7b if: _,\n\x7d, ...$more,]" "").tokens
    let session := Session.start (tokens.take 20) 0 false (fun _ => false) .empty #[]
    (∃ q after, (Session.start (unplacedTokens p.rendering ++ [last]) 0 false (fun _ => false) .empty #[]).run
      Parse.pattern = (.ok q, after) ∧ p.Alike q ∧ after.state.cursor.current = last ∧
        after.index = p.rendering.length ∧ after.report = .empty) ∧
    ∃ q after ts, session.run Parse.pattern = (.ok q, after) ∧ q.BuiltFrom Literal.Writable ∧
      session.state.cursor.Reads ts after.state.cursor ∧ q.Spelled ts := by
  intro span p last tokens session
  have hbuilt : p.BuiltFrom Literal.Writable := by
    refine .list ?_ (by decide)
    simp only [List.forall_mem_cons, List.not_mem_nil, false_implies, implies_true, and_true]
    refine ⟨fun _ => .literal ?_, fun _ => .typedRecord (by decide), fun h => ?_⟩
    · show (Nat.toDigits 10 2).length ≤ Numeral.decimalLimit
      decide
    · contradiction
  constructor
  · obtain ⟨q, after, hrun, halike, hcurrent, hindex, hreport⟩ := parse_pattern_rendering.1 p (unplacedTokens p.rendering)
      last false (fun _ => false) .empty #[] hbuilt (content_unplacedTokens _) rfl
    exact ⟨q, after, hrun, halike, hcurrent, by rw [hindex, unplacedTokens, List.length_map], hreport⟩
  · have hok : (session.run Parse.pattern).1.isOk = true := by decide +kernel
    generalize hrun : session.run Parse.pattern = result at hok
    obtain ⟨_ | q, after⟩ := result
    · contradiction
    · obtain ⟨hq, ts, hread, hspelled⟩ := parse_pattern_rendering.2 "[-2, Point \x7b if: _,\n\x7d, ...$more,]" ""
        20 0 false (fun _ => false) .empty #[] q after hrun
      exact ⟨q, after, ts, rfl, hq, hread, hspelled⟩

/-! ## Numbers that are too long -/

/-- A number token that has no value is no pattern. -/
theorem Grammar.pattern_refuses {r : Rules} {c : Cursor} {radix : Radix} (hkind : c.kind = .integer radix)
    (hvalue : Numeral.value? radix (c.current.lexeme.toList.drop radix.markLength) = none) :
    Yields c (fun _ _ => False) (Grammar.pattern r) := by
  refine .here ?_
  dsimp only
  rw [show c.current.kind = .integer radix from hkind]
  refine .peek (.advance (.bind (P := fun _ _ => False) ?_ fun _ _ h => h.elim))
  rw [numberLiteral, show c.current.kind = .integer radix from hkind]
  dsimp only
  rw [integerLiteral, hvalue]
  exact .failAt

/-- No pattern is read from a number token that has no value. -/
theorem run_number_refused {t last : Token} {radix : Radix} (hkind : t.kind = .integer radix)
    (hvalue : Numeral.value? radix (t.lexeme.toList.drop radix.markLength) = none) (hlast : last.kind = .endOfInput)
    (recovering : Bool) (isBuiltin : String → Bool) (report : Report) (log : Array LogEntry) :
    ((Session.start [t, last] 0 recovering isBuiltin report log).run Parse.pattern).1.isOk = false := by
  have hcursor : (Cursor.ofTokens [t, last]).seek 0 = ⟨[], t, [last]⟩ := Cursor.seek_ofTokens_concat t [] hlast
  have hrefused : Yields ⟨[], t, [last]⟩ (fun _ _ => False) (Grammar.pattern (.upTo [last].length.succ)) :=
    Grammar.pattern_refuses hkind hvalue
  rw [Session.run, Session.start, hcursor]
  cases hrun : Parse.pattern ⟨.top recovering, isBuiltin⟩ ⟨⟨[], t, [last]⟩, report, log⟩ with
  | ok p st => exact (hrefused _ _ _ _ rfl hrun).elim
  | error e st => rfl

/-- **The rendering of a decimal number with more digits than the limit is refused.** -/
theorem parse_pattern_rendering_long :
    let span : Span := .origin ""
    let value : Nat := 10 ^ Numeral.decimalLimit
    let p : Pattern := .literal span (.integer value .decimal)
    let last : Token := ⟨.endOfInput, "", span, none⟩
    p.BuiltFrom (fun _ => True) ∧
      ((Session.start (unplacedTokens p.rendering ++ [last]) 0 false (fun _ => false) .empty #[]).run
        Parse.pattern).1.isOk = false := by
  intro span value p last
  refine ⟨.literal trivial, ?_⟩
  have hlong : Numeral.decimalLimit < (Nat.toDigits 10 value).length := by
    have hnot : ¬ (Nat.toDigits 10 value).length ≤ Numeral.decimalLimit := by
      rw [Nat.length_toDigits_le_iff (by decide) (by decide)]
      exact lt_irrefl _
    exact not_le.mp hnot
  -- all that matters is that it has too many digits, so that nothing of its size is computed
  clear_value value
  have htokens : unplacedTokens p.rendering = [⟨.integer .decimal, Numeral.spelling .decimal value, span, none⟩] := by
    have hsign : decide ((value : Int) < 0) = false := decide_eq_false (by omega)
    have hrendering : p.rendering = [(.integer .decimal, Numeral.spelling .decimal value, none)] := by
      show signContent (decide ((value : Int) < 0)) ++ _ = _
      rw [hsign, Int.natAbs_natCast]
      rfl
    rw [hrendering]
    rfl
  rw [htokens]
  refine run_number_refused rfl ?_ rfl false (fun _ => false) .empty #[]
  show Numeral.value? .decimal ((Numeral.spelling .decimal value).toList.drop Radix.decimal.markLength) = none
  rw [Numeral.drop_spelling]
  exact Numeral.value_toDigits_long hlong

end ShellFront
