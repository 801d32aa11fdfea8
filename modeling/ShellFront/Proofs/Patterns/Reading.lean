import ShellFront.Proofs.Patterns.Rendering
import ShellFront.Proofs.Twins.Joints
import ShellFront.Proofs.Written.Constructs

/-!
# Patterns are read from what spells them

Wherever tokens spell a pattern, it is what the parser reads there, but for places, and the parser stops right behind
them. The pattern is followed from the outside in; a list reads its elements one level of the rules further down, and
they are spelled by fewer tokens.

## Contents
- `Pattern.Alike`: equality but for places.
- `Grammar.literal_gives`, `Grammar.patternField_gives`, `Grammar.recordPattern_gives`, `Grammar.listPattern_gives`.
- `Grammar.pattern_gives`.
-/

namespace ShellFront

/-! ## Equality but for places -/

/-- Patterns that are equal but for the places of their parts. -/
def Pattern.Alike (p q : Pattern) : Prop := p.view .unplaced = q.view .unplaced

/-- Records that are equal but for the places of their parts. -/
def RecordPattern.Alike (r s : RecordPattern) : Prop := r.view .unplaced = s.view .unplaced

/-- Fields that are equal but for the places of their parts. -/
def PatternField.Alike (f g : PatternField) : Prop := f.view .unplaced = g.view .unplaced

namespace Pattern

variable {span span' : Span} {name : String}

/-- Only a literal of the same value is like a literal. -/
theorem Alike.of_literal {value : Literal} {q : Pattern} (h : Alike (.literal span value) q) :
    ∃ place, q = .literal place value := by
  cases q <;> simp_all [Alike, view]

theorem Alike.record {r r' : RecordPattern} (h : r.Alike r') : Alike (.record r) (.record r') := by
  rw [Alike, view, view, h]

theorem Alike.typedRecord {x y : Ident} {r r' : RecordPattern} (hname : x.name = y.name) (h : r.Alike r') :
    Alike (.typedRecord span x r) (.typedRecord span' y r') := by
  rw [Alike, view, view, h, Ident.view, Ident.view, hname]
  rfl

theorem Alike.list {ps qs : List Pattern} (h : ps.map (view .unplaced) = qs.map (view .unplaced)) :
    Alike (.list span ps) (.list span' qs) := by
  rw [Alike, view, view, views_eq, views_eq, h]
  rfl

end Pattern

/-- What a loop gives that adds items to `items` whose views are those of `bs`. -/
def Appended {α : Type} (view : α → α) (items : Array α) (bs all : List α) : Prop :=
  ∃ added, all = items.toList ++ added ∧ added.map view = bs.map view

section Appended

variable {α : Type} {view : α → α} {items : Array α} {a b : α} {bs all : List α}

theorem Appended.nil : Appended view items [] items.toList :=
  ⟨[], (List.append_nil _).symm, rfl⟩

theorem Appended.cons (hab : view b = view a) (h : Appended view (items.push a) bs all) :
    Appended view items (b :: bs) all := by
  obtain ⟨added, rfl, hadded⟩ := h
  refine ⟨a :: added, ?_, by rw [List.map_cons, List.map_cons, hadded, hab]⟩
  rw [Array.toList_push, List.append_assoc, List.singleton_append]

theorem Appended.of_empty (h : Appended view #[] bs all) : bs.map view = all.map view := by
  obtain ⟨added, rfl, hadded⟩ := h
  exact hadded.symm

end Appended

/-! ## Kinds of tokens -/

theorem Token.kind_of_content {t : Token} {w : Content} (h : t.content = w) : t.kind = w.1 := congrArg Prod.fst h

theorem Token.lexeme_of_content {t : Token} {w : Content} (h : t.content = w) : t.lexeme = w.2.1 :=
  congrArg (·.2.1) h

theorem Token.payload_of_content {t : Token} {w : Content} (h : t.content = w) : t.payload = w.2.2.getD "" :=
  congrArg (·.2.2.getD "") h

/-- What a pattern begins with, unless it is a rest element. -/
def TokenKind.opensPattern : TokenKind → Bool
  | .symbol .minus | .symbol .openBrace | .symbol .openBracket | .integer _ | .float | .string _ => true
  | .keyword .trueKw | .keyword .falseKw | .keyword .nullKw | .identifier | .variableName => true
  | _ => false

theorem TokenKind.opensPattern_of_number {kind : TokenKind} (h : kind.isNumber = true) : kind.opensPattern = true := by
  unfold isNumber at h
  split at h <;> first | rfl | contradiction

theorem Literal.Number.isNumber {value : Literal} {t : Token} (h : value.Number t) : t.kind.isNumber = true := by
  cases h with
  | integer hkind => rw [hkind]; rfl
  | float hkind => rw [hkind]; rfl

theorem Literal.Spelled.opens {value : Literal} {ts : List Token} (h : value.Spelled ts) :
    ∃ t more, ts = t :: more ∧ t.kind.opensPattern = true := by
  cases h with
  | number h => exact ⟨_, _, rfl, TokenKind.opensPattern_of_number h.isNumber⟩
  | negative hsign => exact ⟨_, _, rfl, by rw [Token.kind_of_content hsign]; rfl⟩
  | string hkind => exact ⟨_, _, rfl, by rw [hkind]; rfl⟩
  | @boolean value _ h => exact ⟨_, _, rfl, by rw [Token.kind_of_content h]; cases value <;> rfl⟩
  | null h => exact ⟨_, _, rfl, by rw [Token.kind_of_content h]; rfl⟩

theorem RecordPattern.Spelled.opens {r : RecordPattern} {ts : List Token} (h : r.Spelled ts) :
    ∃ t more, ts = t :: more ∧ t.kind = .symbol .openBrace := by
  cases h with
  | braces hopener => exact ⟨_, _, rfl, Token.kind_of_content hopener⟩

/-- A pattern begins like one, and a rest element with its dots. -/
theorem Pattern.Spelled.opens {p : Pattern} {ts : List Token} (h : p.Spelled ts) :
    ∃ t more, ts = t :: more ∧ if p.isRest then t.kind = .symbol .ellipsis else t.kind.opensPattern = true := by
  cases h with
  | literal h =>
      obtain ⟨t, more, rfl, hopens⟩ := h.opens
      exact ⟨t, more, rfl, hopens⟩
  | wildcard h => exact ⟨_, _, rfl, by rw [Token.kind_of_content h]; rfl⟩
  | @binding _ _ sigil _ h => exact ⟨_, _, rfl, by rw [Token.kind_of_content h]; cases sigil <;> rfl⟩
  | record h =>
      obtain ⟨t, more, rfl, hopens⟩ := h.opens
      exact ⟨t, more, rfl, by rw [hopens]; rfl⟩
  | typedRecord hname => exact ⟨_, _, rfl, by rw [Token.kind_of_content hname]; rfl⟩
  | list hopener => exact ⟨_, _, rfl, by rw [Token.kind_of_content hopener]; rfl⟩
  | rest hdots => exact ⟨_, _, rfl, Token.kind_of_content hdots⟩

/-- One token is the current one, and what is behind it comes next. -/
theorem Cursor.Reads.single {c c' : Cursor} {t : Token} (h : c.Reads [t] c') (ht : t.kind ≠ .endOfInput) :
    c.current = t ∧ c' = c.advance :=
  let ⟨hcurrent, hrest⟩ := h.step ht
  ⟨hcurrent, hrest.eq_of_nil⟩

theorem TokenKind.ne_endOfInput_of_number {kind : TokenKind} (h : kind.isNumber = true) : kind ≠ .endOfInput := by
  rintro rfl
  contradiction

namespace Grammar

open Parse

variable {n k : Nat} {r : Rules} {ctx : Context} {c c' : Cursor} {ts : List Token} {span : Span}

/-! ## Literals -/

theorem numberLiteral_gives {value : Literal} {t : Token} (h : value.Number t) (negative : Bool) :
    Gives (numberLiteral t negative) ctx c (· = if negative then value.negated else value) c := by
  cases h with
  | integer hkind hvalue =>
      rw [numberLiteral, hkind]
      refine (integerLiteral_gives hvalue negative).mono ?_
      rintro _ rfl
      cases negative <;> rfl
  | float hkind =>
      rw [numberLiteral, hkind]
      refine .pure ?_
      cases negative <;> rfl

theorem number_gives {value : Literal} {t : Token} (h : value.Number t) (hread : c.Reads [t] c') :
    Gives (pattern r) ctx c (Pattern.Alike (.literal span value)) c' := by
  obtain ⟨rfl, rfl⟩ := hread.single (TokenKind.ne_endOfInput_of_number h.isNumber)
  have hgives : Gives (numberPattern false) ctx c (Pattern.Alike (.literal span value)) c.advance := by
    refine .peek (.advance (.bind (numberLiteral_gives h false) ?_))
    rintro _ rfl
    exact .pure rfl
  refine .here ?_
  dsimp only
  cases h with
  | integer hkind => rw [hkind]; exact hgives
  | float hkind => rw [hkind]; exact hgives

theorem negative_gives {value : Literal} {sign t : Token} (hsign : sign.content = Symbol.minus.content)
    (h : value.Number t) (hread : c.Reads [sign, t] c') :
    Gives (pattern r) ctx c (Pattern.Alike (.literal span value.negated)) c' := by
  have hminus : sign.kind = .symbol .minus := Token.kind_of_content hsign
  have hnext : c.next.kind.isNumber = true := by
    rw [hread.next]
    exact h.isNumber
  obtain ⟨hcurrent, hlast⟩ := hread.step (by rw [hminus]; decide)
  obtain ⟨rfl, rfl⟩ := hlast.single (TokenKind.ne_endOfInput_of_number h.isNumber)
  refine .here ?_
  dsimp only
  rw [hcurrent, hminus]
  dsimp only
  rw [if_pos hnext]
  refine .peek (.advance (.advance (.bind (numberLiteral_gives h true) ?_)))
  rintro _ rfl
  exact .pure rfl

/-- **A literal is read from what spells it.** -/
theorem literal_gives {value : Literal} (h : value.Spelled ts) (hread : c.Reads ts c') :
    Gives (pattern r) ctx c (Pattern.Alike (.literal span value)) c' := by
  cases h with
  | number h => exact number_gives h hread
  | negative hsign h => exact negative_gives hsign h hread
  | string hkind =>
      obtain ⟨rfl, rfl⟩ := hread.single (by rw [hkind]; nofun)
      refine .here ?_
      dsimp only
      rw [hkind]
      exact .advance (.pure rfl)
  | @boolean value _ h =>
      have hkind := Token.kind_of_content h
      obtain ⟨rfl, rfl⟩ := hread.single (by rw [hkind]; nofun)
      refine .here ?_
      dsimp only
      rw [hkind]
      cases value <;> exact .advance (.pure rfl)
  | null h =>
      have hkind := Token.kind_of_content h
      obtain ⟨rfl, rfl⟩ := hread.single (by rw [hkind]; nofun)
      refine .here ?_
      dsimp only
      rw [hkind]
      exact .advance (.pure rfl)

/-! ## Records -/

/-- What a field is bound to is read from its token. -/
theorem fieldBinding_gives {b : FieldBinding} (h : c.current.content = b.content) :
    Gives fieldBinding ctx c (fun a => a.view .unplaced = b.view .unplaced) c.advance := by
  cases b with
  | named x =>
      refine .peek ?_
      rw [Token.kind_of_content h]
      exact .advance (.pure (by rw [Token.payload_of_content h]; rfl))
  | wildcard span =>
      refine .peek ?_
      rw [Token.kind_of_content h, Token.lexeme_of_content h]
      exact .advance (.pure rfl)

/-- **A field is read from its rendering**, where no colon follows. -/
theorem patternField_gives {f : PatternField} (h : f.Spelled ts) (hread : c.Reads ts c')
    (hcolon : c'.kind ≠ .symbol .colon) : Gives patternField ctx c f.Alike c' := by
  obtain ⟨span, ⟨place, name⟩, binding⟩ := f
  obtain ⟨t, more, rfl, ht, hmore⟩ := List.map_eq_cons_iff.mp h
  have hname : t.kind.isName = true := by
    rw [Token.kind_of_content ht]
    exact Lexer.isName_nameKind _
  have hlexeme : t.lexeme = name := Token.lexeme_of_content ht
  obtain ⟨rfl, hrest⟩ := hread.step (by rintro hend; rw [hend] at hname; contradiction)
  refine .peek ?_
  rw [hname, Bool.not_true, if_neg Bool.false_ne_true]
  refine .advance ?_
  -- whatever stands behind the name, the field is made of the name and of that
  have hfinish (b : Option FieldBinding)
      (hb : b.map (FieldBinding.view .unplaced) = binding.map (FieldBinding.view .unplaced)) :
      Gives (do return ⟨← spanFrom c.current.span, ⟨c.current.span, c.current.lexeme⟩, b⟩) ctx c'
        (PatternField.Alike ⟨span, ⟨place, name⟩, binding⟩) c' := by
    refine .spanFrom fun _ => .pure ?_
    rw [PatternField.Alike, PatternField.view, PatternField.view, hb, Ident.view, Ident.view, hlexeme]
    rfl
  cases binding with
  | none =>
      obtain rfl := List.map_eq_nil_iff.mp hmore
      obtain rfl := hrest.eq_of_nil
      refine .decline hcolon (.bind (.pure rfl) ?_)
      rintro _ rfl
      exact hfinish none rfl
  | some b =>
      obtain ⟨colon, last, rfl, hmark, hlast⟩ := List.map_eq_cons_iff.mp hmore
      obtain ⟨u, rfl, hu⟩ := List.map_eq_singleton_iff.mp hlast
      have hkind : colon.kind = .symbol .colon := Token.kind_of_content hmark
      obtain ⟨rfl, hbehind⟩ := hrest.step (by rw [hkind]; decide)
      obtain ⟨rfl, rfl⟩ := hbehind.single (by rw [Token.kind_of_content hu]; cases b <;> nofun)
      refine .accept hkind (.bind (fieldBinding_gives hu) fun a ha => .bind (.pure rfl) ?_)
      rintro _ rfl
      exact hfinish (some a) (congrArg some ha)

/-- Line breaks are skipped up to something else. -/
theorem skipNewlines_gives {α : Type} {gap : List Token} {c₁ : Cursor} {P : α → Prop} {f : Unit → Parse α}
    (hgap : LineBreaks gap) (hread : c.Reads gap c₁) (hnext : c₁.kind ≠ .newline) (hf : Gives (f ()) ctx c₁ P c') :
    Gives (skipNewlines >>= f) ctx c P c' := by
  have hbreaks : ∀ t ∈ gap, (t.kind == .newline) = true := fun t ht => beq_iff_eq.mpr (hgap t ht)
  have hskip : c.skipWhile (· == .newline) = c₁ :=
    (hread.skipWhile hbreaks).trans (Cursor.skipWhile_of_not (beq_eq_false_iff_ne.mpr hnext))
  intro report log
  obtain ⟨a, hrun, ha⟩ := hf report log
  refine ⟨a, ?_, ha⟩
  rw [bind_run, skipNewlines, move]
  dsimp only
  rw [hskip]
  exact hrun

/-- What comes first where line breaks may stand. -/
theorem gap_begins {gap : List Token} (hgap : LineBreaks gap) (hread : c.Reads gap c') :
    c.kind = .newline ∨ c.kind = c'.kind := by
  cases gap with
  | nil => exact .inr (by rw [hread.eq_of_nil])
  | cons t ts => exact .inl (hread.kind.trans (hgap t List.mem_cons_self))

theorem field_begins {f : PatternField} (h : f.Spelled ts) (hread : c.Reads ts c') : c.kind.isName = true := by
  obtain ⟨t, more, rfl, ht, -⟩ := List.map_eq_cons_iff.mp h
  rw [hread.kind, Token.kind_of_content ht]
  exact Lexer.isName_nameKind _

theorem field_not_closed (h : c.kind.isName = true) : ¬ (c.kind == .symbol .closeBrace) = true := by
  intro hclose
  rw [eq_of_beq hclose] at h
  contradiction

/-- What comes first where fields are left: a name, or the closing brace. -/
theorem fields_begin {gap : List Token → Prop} {fields : List PatternField}
    (h : Commas PatternField.Spelled gap fields ts) (hread : c.Reads ts c') :
    c.kind = c'.kind ∨ c.kind.isName = true := by
  cases h with
  | none => exact .inl (by rw [hread.eq_of_nil])
  | last h =>
      obtain ⟨c₁, hread, -⟩ := hread.split
      exact .inr (field_begins h hread)
  | comma h =>
      obtain ⟨c₁, hread, -⟩ := hread.split
      obtain ⟨c₂, hread, -⟩ := hread.split
      exact .inr (field_begins h hread)

/-- A name or the closing brace is no line break. -/
theorem fields_no_newline {gap : List Token → Prop} {fields : List PatternField}
    (h : Commas PatternField.Spelled gap fields ts) (hread : c.Reads ts c') (hclose : c'.kind = .symbol .closeBrace) :
    c.kind ≠ .newline := by
  rcases fields_begin h hread with hsame | hname
  · rw [hsame, hclose]
    decide
  · intro hbreak
    rw [hbreak] at hname
    contradiction

/-- **A turn reads a field** and the line breaks behind it, and goes on from there. -/
theorem fieldTurn_gives {f : PatternField} {gap : List Token} {c₂ : Cursor} {items : Array PatternField}
    {P : Turn (Array PatternField) (List PatternField) → Prop} (h : f.Spelled ts) (hgap : LineBreaks gap)
    (hread : c.Reads (ts ++ gap) c₂) (hbreak : c₂.kind ≠ .newline) (hcolon : c₂.kind ≠ .symbol .colon)
    (hrest : ∀ a, f.Alike a → Gives (do
      if ← accept (.symbol .comma) then
        skipNewlines
        return .again (items.push a)
      else return .done (items.push a).toList) ctx c₂ P c') : Gives (fieldTurn items) ctx c P c' := by
  obtain ⟨c₁, hfirst, hlast⟩ := hread.split
  have hends : c₁.kind ≠ .symbol .colon := by
    rcases gap_begins hgap hlast with hends | hends <;> rw [hends]
    · decide
    · exact hcolon
  refine .check ?_
  rw [if_neg (field_not_closed (field_begins h hfirst))]
  exact .bind (patternField_gives h hfirst hends) fun a ha => skipNewlines_gives hgap hlast hbreak (hrest a ha)

/-- **The turns over fields** read fields from what spells them. -/
theorem fieldTurns_give {fields : List PatternField} (h : Commas PatternField.Spelled LineBreaks fields ts)
    (hread : c.Reads ts c') (hclose : c'.kind = .symbol .closeBrace) (hk : fields.length < k)
    (items : Array PatternField) :
    Gives (iterate fieldTurn k items) ctx c (Appended (PatternField.view .unplaced) items fields) c' := by
  induction h generalizing c k items with
  | none =>
      obtain rfl := hread.eq_of_nil
      obtain ⟨k, rfl⟩ := Nat.exists_eq_succ_of_ne_zero (Nat.ne_zero_of_lt hk)
      refine .done (.check ?_)
      rw [hclose]
      exact .pure ⟨_, rfl, .nil⟩
  | @last f ts us h hgap =>
      obtain ⟨k, rfl⟩ := Nat.exists_eq_succ_of_ne_zero (Nat.ne_zero_of_lt hk)
      refine .done (fieldTurn_gives h hgap hread (by rw [hclose]; decide) (by rw [hclose]; decide) fun a ha => ?_)
      exact .decline (by rw [hclose]; decide) (.pure ⟨_, rfl, .cons ha .nil⟩)
  | @comma f fs ts us us' more comma h hgap hcomma hgap' hmore ih =>
      obtain ⟨k, rfl⟩ := Nat.exists_eq_succ_of_ne_zero (Nat.ne_zero_of_lt hk)
      have hkind : comma.kind = .symbol .comma := Token.kind_of_content hcomma
      obtain ⟨c₂, hread, hrest⟩ := hread.split
      have hmark : c₂.kind = .symbol .comma := hrest.kind.trans hkind
      obtain ⟨-, hrest⟩ := hrest.step (by rw [hkind]; decide)
      obtain ⟨c₃, hskip, hrest⟩ := hrest.split
      have hturn : Gives (fieldTurn items) ctx c
          (fun t => ∃ b, t = .again b ∧ ∃ a, f.Alike a ∧ b = items.push a) c₃ := by
        refine fieldTurn_gives h hgap hread (by rw [hmark]; decide) (by rw [hmark]; decide) fun a ha => ?_
        refine .accept hmark (skipNewlines_gives hgap' hskip (fields_no_newline hmore hrest hclose) ?_)
        exact .pure ⟨_, rfl, a, ha, rfl⟩
      refine .again hturn ?_
      rintro _ ⟨a, ha, rfl⟩
      exact (ih hrest (by simpa using hk) (items.push a)).mono fun _ hall => .cons ha hall

/-- What is spelled by at least one token each is no more than the tokens. -/
theorem commas_length_le {α : Type} {spells : α → List Token → Prop} {gap : List Token → Prop} {as : List α}
    (h : Commas spells gap as ts) (hspells : ∀ {a ts}, spells a ts → 0 < ts.length) : as.length ≤ ts.length := by
  induction h with
  | none => exact Nat.le_refl _
  | last h =>
      have := hspells h
      rw [List.length_append, List.length_singleton]
      omega
  | comma h _ _ _ _ ih =>
      have := hspells h
      simp only [List.length_append, List.length_cons]
      omega

theorem field_length_pos {f : PatternField} (h : f.Spelled ts) : 0 < ts.length := by
  obtain ⟨t, more, rfl, -⟩ := List.map_eq_cons_iff.mp h
  exact Nat.succ_pos _

/-- **A record is read from what spells it.** -/
theorem recordPattern_gives {record : RecordPattern} (h : record.Spelled ts) (hn : ts.length ≤ n)
    (hread : c.Reads ts c') : Gives (recordPattern (.upTo n)) ctx c record.Alike c' := by
  cases h with
  | @braces opener closer gap inner hopener hgap hfields hcloser =>
      have hopen : opener.kind = .symbol .openBrace := Token.kind_of_content hopener
      have hclose : closer.kind = .symbol .closeBrace := Token.kind_of_content hcloser
      have hlength : record.fields.length ≤ inner.length := commas_length_le hfields field_length_pos
      simp only [List.length_cons, List.length_append, List.length_nil] at hn
      obtain ⟨rfl, hbehind⟩ := hread.step (by rw [hopen]; decide)
      obtain ⟨c₂, hinside, hlast, rfl⟩ := hbehind.concat (by rw [hclose]; decide)
      obtain ⟨c₁, hskip, hinner⟩ := hinside.split
      have hlast : c₂.kind = .symbol .closeBrace := hlast.trans hclose
      rw [recordPattern]
      refine .expect hopen (skipNewlines_gives hgap hskip (fields_no_newline hfields hinner hlast) ?_)
      rw [Rules.loop, Rules.upTo_fuel]
      refine .bind (fieldTurns_give hfields hinner hlast (by omega) #[]) fun all hall => ?_
      refine .expect hlast (.spanFrom fun _ => .pure ?_)
      rw [RecordPattern.Alike, RecordPattern.view, RecordPattern.view, hall.of_empty]
      rfl

/-! ## Lists -/

/-- A rest element is read from its tokens. -/
theorem restPattern_gives (span : Span) {name : String} {sigil : Bool} {dots t : Token}
    (hdots : dots.content = Symbol.ellipsis.content) (h : t.content = binderContent name sigil)
    (hread : c.Reads [dots, t] c') :
    Gives restPattern ctx c (Pattern.Alike (.rest span name sigil)) c' := by
  obtain ⟨rfl, hlast⟩ := hread.step (by rw [Token.kind_of_content hdots]; decide)
  obtain ⟨rfl, rfl⟩ := hlast.single (by rw [Token.kind_of_content h]; cases sigil <;> nofun)
  refine .advance (.peek ?_)
  rw [Token.kind_of_content h, Token.lexeme_of_content h, Token.payload_of_content h]
  cases sigil <;> exact .advance (.spanFrom fun _ => .pure rfl)

/-- Patterns that the rules further down read from what spells them. -/
def ReadBack (r : Rules) (p : Pattern) : Prop :=
  ∀ {ctx : Context} {ts : List Token} {c c' : Cursor}, p.Spelled ts → ts.length < r.fuel → c.Reads ts c' →
    c'.kind ≠ .symbol .openBrace → Gives r.pattern ctx c p.Alike c'

/-- **An element is read from what spells it**, a rest element if there was none before. -/
theorem listElement_gives {p : Pattern} {seen : Bool} (h : p.Spelled ts) (hback : p.isRest = false → ReadBack r p)
    (hseen : p.isRest = true → seen = false) (hn : ts.length < r.fuel) (hread : c.Reads ts c')
    (hbrace : c'.kind ≠ .symbol .openBrace) :
    Gives (listElement r seen) ctx c (fun x => p.Alike x.1 ∧ x.2 = (seen || p.isRest)) c' := by
  obtain ⟨t, more, rfl, hopens⟩ := h.opens
  refine .peek ?_
  cases hrest : p.isRest with
  | true =>
      rw [hrest, if_pos rfl] at hopens
      rw [if_pos (by rw [← hopens]; exact beq_iff_eq.mpr hread.kind)]
      cases h with
      | @rest span _ _ _ _ hdots h =>
          refine .bind (restPattern_gives span hdots h hread) fun a ha => ?_
          rw [hseen hrest]
          exact .pure ⟨ha, rfl⟩
      | _ => contradiction
  | false =>
      rw [hrest, if_neg Bool.false_ne_true] at hopens
      have hdots : ¬ (c.current.kind == .symbol .ellipsis) = true := by
        intro hdots
        rw [← hread.kind, Cursor.kind, eq_of_beq hdots] at hopens
        contradiction
      rw [if_neg hdots]
      exact .bind (hback hrest h hn hread hbrace) fun a ha => .pure ⟨ha, by simp⟩

theorem element_length_pos {p : Pattern} (h : p.Spelled ts) : 0 < ts.length := by
  obtain ⟨t, more, rfl, -⟩ := h.opens
  exact Nat.succ_pos _

theorem element_not_closed {p : Pattern} (h : p.Spelled ts) (hread : c.Reads ts c') :
    ¬ (c.kind == .symbol .closeBracket) = true := by
  obtain ⟨t, more, rfl, hopens⟩ := h.opens
  intro hclose
  rw [← hread.kind, eq_of_beq hclose] at hopens
  cases hrest : p.isRest <;> rw [hrest] at hopens <;> contradiction

theorem unseen {p : Pattern} {ps : List Pattern} {seen : Bool}
    (h : (p :: ps).countP Pattern.isRest + seen.toNat ≤ 1) (hrest : p.isRest = true) : seen = false := by
  rw [List.countP_cons_of_pos hrest] at h
  cases seen
  · rfl
  · rw [Bool.toNat_true] at h
    omega

/-- Behind an element, too, there is at most one rest element. -/
theorem seen_after {p : Pattern} {ps : List Pattern} {seen : Bool}
    (h : (p :: ps).countP Pattern.isRest + seen.toNat ≤ 1) :
    ps.countP Pattern.isRest + (seen || p.isRest).toNat ≤ 1 := by
  rw [List.countP_cons] at h
  cases hp : p.isRest <;> cases seen <;>
    simp only [hp, Bool.or_true, Bool.or_false, Bool.toNat_true, Bool.toNat_false, if_true, Bool.false_eq_true,
      if_false] at h ⊢ <;> omega

/-- **A turn reads an element** and goes on behind it. -/
theorem elementTurn_gives {p : Pattern} {ps : List Pattern} {items : Array Pattern} {seen : Bool} {c₁ : Cursor}
    {P : Turn (Array Pattern × Bool) (List Pattern) → Prop} (h : p.Spelled ts)
    (hback : ∀ q ∈ p :: ps, q.isRest = false → ReadBack r q)
    (hseen : (p :: ps).countP Pattern.isRest + seen.toNat ≤ 1) (hn : ts.length < r.fuel) (hread : c.Reads ts c₁)
    (hbrace : c₁.kind ≠ .symbol .openBrace)
    (hrest : ∀ a, p.Alike a → Gives (do
      if ← accept (.symbol .comma) then return .again (items.push a, seen || p.isRest)
      else return .done (items.push a).toList) ctx c₁ P c') : Gives (elementTurn r (items, seen)) ctx c P c' := by
  refine .check ?_
  rw [if_neg (element_not_closed h hread)]
  refine .bind (listElement_gives h (hback p List.mem_cons_self) (unseen hseen) hn hread hbrace) ?_
  rintro ⟨a, _⟩ ⟨ha, rfl⟩
  exact hrest a ha

/-- **The turns over elements** read elements from what spells them. -/
theorem elementTurns_give {elements : List Pattern} (h : Commas Pattern.Spelled NoGap elements ts)
    (hback : ∀ p ∈ elements, p.isRest = false → ReadBack r p) (hn : ts.length < r.fuel) (hread : c.Reads ts c')
    (hclose : c'.kind = .symbol .closeBracket) (hk : elements.length < k) (items : Array Pattern) (seen : Bool)
    (hseen : elements.countP Pattern.isRest + seen.toNat ≤ 1) :
    Gives (iterate (elementTurn r) k (items, seen)) ctx c (Appended (Pattern.view .unplaced) items elements) c' := by
  induction h generalizing c k items seen with
  | none =>
      -- no element is left, and the closer ends the list
      obtain rfl := hread.eq_of_nil
      obtain ⟨k, rfl⟩ := Nat.exists_eq_succ_of_ne_zero (Nat.ne_zero_of_lt hk)
      refine .done (.check ?_)
      rw [hclose]
      exact .pure ⟨_, rfl, .nil⟩
  | @last p ts us h hgap =>
      -- the last element, with no comma behind it
      obtain rfl : us = [] := hgap
      rw [List.append_nil] at hread hn
      obtain ⟨k, rfl⟩ := Nat.exists_eq_succ_of_ne_zero (Nat.ne_zero_of_lt hk)
      refine .done (elementTurn_gives h hback hseen hn hread (by rw [hclose]; decide) fun a ha => ?_)
      exact .decline (by rw [hclose]; decide) (.pure ⟨_, rfl, .cons ha .nil⟩)
  | @comma p ps ts us us' more comma h hgap hcomma hgap' hmore ih =>
      obtain rfl : us = [] := hgap
      obtain rfl : us' = [] := hgap'
      rw [List.append_nil, List.nil_append] at hread hn
      rw [List.length_append, List.length_cons] at hn
      obtain ⟨k, rfl⟩ := Nat.exists_eq_succ_of_ne_zero (Nat.ne_zero_of_lt hk)
      have hkind : comma.kind = .symbol .comma := Token.kind_of_content hcomma
      obtain ⟨c₁, hfirst, hrest⟩ := hread.split
      have hmark : c₁.kind = .symbol .comma := hrest.kind.trans hkind
      -- one element and its comma are read; the induction is on what is spelled behind the comma
      obtain ⟨-, hrest⟩ := hrest.step (by rw [hkind]; decide)
      have hturn : Gives (elementTurn r (items, seen)) ctx c
          (fun t => ∃ b, t = .again b ∧ ∃ a, p.Alike a ∧ b = (items.push a, seen || p.isRest)) c₁.advance :=
        elementTurn_gives h hback hseen (by omega) hfirst (by rw [hmark]; decide) fun a ha =>
          .accept hmark (.pure ⟨_, rfl, a, ha, rfl⟩)
      refine .again hturn ?_
      rintro _ ⟨a, ha, rfl⟩
      have hmoreBack := (List.forall_mem_cons.mp hback).2
      exact (ih hmoreBack (by omega) hrest (by simpa using hk) (items.push a) _ (seen_after hseen)).mono
        fun _ hall => .cons ha hall

/-- **A list is read from what spells it.** -/
theorem listPattern_gives {elements : List Pattern} {opener closer : Token}
    (hopener : opener.content = Symbol.openBracket.content) (h : Commas Pattern.Spelled NoGap elements ts)
    (hcloser : closer.content = Symbol.closeBracket.content)
    (hback : ∀ p ∈ elements, p.isRest = false → ReadBack (.upTo n) p) (hrest : elements.countP Pattern.isRest ≤ 1)
    (hn : ts.length < n) (hread : c.Reads (opener :: (ts ++ [closer])) c') :
    Gives (listPattern (.upTo n)) ctx c (Pattern.Alike (.list span elements)) c' := by
  have hopen : opener.kind = .symbol .openBracket := Token.kind_of_content hopener
  have hclose : closer.kind = .symbol .closeBracket := Token.kind_of_content hcloser
  have hlength : elements.length ≤ ts.length := commas_length_le h element_length_pos
  obtain ⟨rfl, hbehind⟩ := hread.step (by rw [hopen]; decide)
  obtain ⟨c₁, hinside, hlast, rfl⟩ := hbehind.concat (by rw [hclose]; decide)
  have hlast : c₁.kind = .symbol .closeBracket := hlast.trans hclose
  rw [listPattern]
  refine .expect hopen ?_
  rw [Rules.loop, Rules.upTo_fuel]
  have hfuel : ts.length < (Rules.upTo n).fuel := by rwa [Rules.upTo_fuel]
  refine .bind (elementTurns_give h hback hfuel hinside hlast (by omega) #[] false hrest) fun all hall => ?_
  exact .expect hlast (.spanFrom fun _ => .pure (.list hall.of_empty))

/-! ## Patterns -/

/-- A name is read as the wildcard, a typed record or a binding. -/
theorem namePattern_gives {p : Pattern} {name : String} (hc : c.current.content = binderContent name false)
    (h : Gives (namePattern r) ctx c p.Alike c') : Gives (pattern r) ctx c p.Alike c' := by
  refine .here ?_
  dsimp only
  rw [Token.kind_of_content hc]
  exact h

theorem wildcard_gives (hc : c.current.content = binderContent "_" false) :
    Gives (namePattern r) ctx c (Pattern.Alike (.wildcard span)) c.advance := by
  refine .here (.advance ?_)
  rw [Token.lexeme_of_content hc]
  exact .pure rfl

theorem binding_gives {name : String} (hc : c.current.content = binderContent name false) (hname : name ≠ "_")
    (hbrace : c.next.kind ≠ .symbol .openBrace) :
    Gives (namePattern r) ctx c (Pattern.Alike (.binding span name false)) c.advance := by
  have hname : ¬ (name == "_") = true := fun h => hname (eq_of_beq h)
  have hbrace : ¬ (c.next.kind == .symbol .openBrace) = true := fun h => hbrace (eq_of_beq h)
  refine .here (.advance ?_)
  rw [Token.lexeme_of_content hc, show (binderContent name false).2.1 = name from rfl, if_neg hname, if_neg hbrace]
  exact .pure rfl

theorem typedRecord_gives {typeName : Ident} {record : RecordPattern} {t : Token}
    (ht : t.content = binderContent typeName.name false) (hname : typeName.name ≠ "_") (h : record.Spelled ts)
    (hn : ts.length ≤ n) (hread : c.Reads (t :: ts) c') :
    Gives (namePattern (.upTo n)) ctx c (Pattern.Alike (.typedRecord span typeName record)) c' := by
  obtain ⟨brace, more, rfl, hbrace⟩ := h.opens
  have hnext : (c.next.kind == .symbol .openBrace) = true := by
    rw [hread.next]
    exact beq_iff_eq.mpr hbrace
  have hname : ¬ (typeName.name == "_") = true := fun h => hname (eq_of_beq h)
  obtain ⟨rfl, hrecord⟩ := hread.step (by rw [Token.kind_of_content ht]; nofun)
  have hlexeme : c.current.lexeme = typeName.name := Token.lexeme_of_content ht
  refine .here (.advance ?_)
  rw [hlexeme, if_neg hname, if_pos hnext]
  exact .bind (recordPattern_gives h hn hrecord) fun _ ha => .spanFrom fun _ => .pure (.typedRecord rfl ha)

/-- **A pattern is read from what spells it**, where no brace follows that would make a typed record of a name. -/
theorem pattern_gives {literals : Literal → Prop} {p : Pattern} (hbuilt : p.BuiltFrom literals) (h : p.Spelled ts)
    (hn : ts.length ≤ n) (hread : c.Reads ts c') (hbrace : c'.kind ≠ .symbol .openBrace) :
    Gives (pattern (.upTo n)) ctx c p.Alike c' := by
  induction n generalizing ctx c c' ts p with
  | zero =>
      have := element_length_pos h
      omega
  | succ n ih =>
      cases h with
      | literal h => exact literal_gives h hread
      | wildcard h =>
          obtain ⟨rfl, rfl⟩ := hread.single (by rw [Token.kind_of_content h]; nofun)
          exact namePattern_gives h (wildcard_gives h)
      | @binding span name sigil t h =>
          have hname : sigil = false → name ≠ "_" := by cases hbuilt; assumption
          have hnext := hread.next
          obtain ⟨rfl, rfl⟩ := hread.single (by rw [Token.kind_of_content h]; cases sigil <;> nofun)
          cases sigil with
          | false => exact namePattern_gives h (binding_gives h (hname rfl) (by rw [hnext]; exact hbrace))
          | true =>
              refine .here ?_
              dsimp only
              rw [Token.kind_of_content h, Token.payload_of_content h]
              exact .advance (.pure rfl)
      | record h =>
          obtain ⟨t, more, rfl, hopen⟩ := h.opens
          refine .here ?_
          dsimp only
          rw [show c.current.kind = .symbol .openBrace from hread.kind.trans hopen]
          exact .bind (recordPattern_gives h hn hread) fun _ ha => .pure (.record ha)
      | @typedRecord span typeName record t ts ht h =>
          have hname : typeName.name ≠ "_" := by cases hbuilt; assumption
          have hc : c.current.content = binderContent _ false :=
            (hread.step (by rw [Token.kind_of_content ht]; nofun)).1 ▸ ht
          exact namePattern_gives hc (typedRecord_gives ht hname h (by simp at hn; omega) hread)
      | list hopener h hcloser =>
          cases hbuilt with
          | list hbuilt hrest =>
              refine .here ?_
              dsimp only
              rw [show c.current.kind = .symbol .openBracket from hread.kind.trans (Token.kind_of_content hopener)]
              refine listPattern_gives hopener h hcloser (fun p hp hfree => ?_) hrest (by simp at hn; omega) hread
              -- the elements are read one level of the rules further down
              intro ctx us d d' hspelled hlength hreads hnext
              rw [Rules.upTo_fuel] at hlength
              exact ih (hbuilt p hp hfree) hspelled (by omega) hreads hnext
      | rest => contradiction

end Grammar

end ShellFront
