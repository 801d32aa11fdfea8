import ShellFront.Proofs.Written.Constructs

/-!
# How records are spelled

Braces stand around many things. Fields with a key and a colon each show that they are around a record, and from tokens
that spell the fields, with commas between them, comes what spells the record.

## Contents
- `Grammar.SpellsKey`, `Grammar.SpellsField` and `Grammar.FieldRows`.
- `Grammar.recordLiteral_gives` and `Grammar.braceValue_gives`.
- `Grammar.chained_record`.
-/

namespace ShellFront.Grammar

open Parse

variable {e : Node} {ts us : List Token} {t : Token} {n : Nat} {ctx : Context} {c c' : Cursor} {span : Span}
  {es : List Node} {comma opener closer : Token}

/-- A token is the key of a field. -/
def SpellsKey : RecordKey → Token → Prop
  | .name x, t => t.kind.isName = true ∧ t.lexeme = x.name
  | .text s, t => t.kind = .string .double ∧ s.style = .double ∧ t.payload = s.value

/-- Tokens spell a field of a record. -/
def SpellsField (f : RecordField Node) (ts : List Token) : Prop :=
  ∃ key colon us, ts = key :: colon :: us ∧ SpellsKey f.key key ∧ colon.kind = .symbol .colon ∧ Spells f.value us

/-- Tokens spell fields with commas between them. -/
abbrev FieldRows := Separated SpellsField

variable {f : RecordField Node} {fs : List (RecordField Node)} {key : RecordKey}

/-- The kinds of keys. -/
theorem SpellsKey.kind (h : SpellsKey key t) :
    t.kind.isPart = true ∧ (t.kind = .identifier ∨ t.kind = .string .double ∨ ∃ k, t.kind = .keyword k) := by
  cases key with
  | name x =>
      have hname := h.1
      unfold TokenKind.isName at hname
      split at hname
      · next hkind => exact ⟨by rw [hkind]; rfl, .inl hkind⟩
      · next k hkind => exact ⟨by rw [hkind]; rfl, .inr (.inr ⟨k, hkind⟩)⟩
      · contradiction
  | text s => exact ⟨by rw [h.1]; rfl, .inr (.inl h.1)⟩

/-- A field too is spelled with tokens that values are made of. -/
theorem SpellsField.parts (h : SpellsField f ts) : ∀ t ∈ ts, t.kind.isPart = true := by
  obtain ⟨key, colon, us, rfl, hkey, hcolon, hvalue⟩ := h
  exact List.forall_mem_cons.mpr ⟨hkey.kind.1, List.forall_mem_cons.mpr ⟨by rw [hcolon]; rfl, hvalue.parts⟩⟩

/-- A field has a key at least. -/
theorem SpellsField.length_pos (h : SpellsField f ts) : 0 < ts.length := by
  obtain ⟨key, colon, us, rfl, -⟩ := h
  exact Nat.succ_pos _

theorem FieldRows.parts (h : FieldRows fs ts) : ∀ t ∈ ts, t.kind.isPart = true :=
  Separated.parts h SpellsField.parts

/-- There are at least as many tokens as fields. -/
theorem FieldRows.length_le (h : FieldRows fs ts) : fs.length ≤ ts.length :=
  Separated.length_le h SpellsField.length_pos

/-- A key is read as it is spelled. -/
theorem recordKey_gives (h : SpellsKey key c.current) :
    Gives recordKey ctx c (fun key' => key.view .unplaced = key'.view .unplaced) c.advance := by
  refine .peek ?_
  cases key with
  | name x =>
      obtain ⟨hname, hlexeme⟩ := h
      have hview : RecordKey.view .unplaced (.name x) =
          RecordKey.view .unplaced (.name ⟨c.current.span, c.current.lexeme⟩) := by
        rw [hlexeme]
        rfl
      unfold TokenKind.isName at hname
      split at hname
      · next hkind =>
          rw [hkind]
          exact .advance (.pure hview)
      · next hkind =>
          rw [hkind]
          exact .advance (.pure hview)
      · contradiction
  | text s =>
      obtain ⟨hkind, hstyle, hvalue⟩ := h
      rw [hkind]
      refine .advance (.pure ?_)
      rw [hvalue, ← hstyle]
      rfl

/-- **A field is read as it is spelled.** -/
theorem recordField_gives (h : SpellsField f ts) (hctx : ctx.Valued) (hn : ts.length ≤ n) (hread : c.Reads ts c')
    (hclose : c'.kind.closesValue = true) :
    Gives (recordField (.upTo (n + 1))) ctx c (fun f' => f.view .unplaced = f'.view .unplaced) c' := by
  obtain ⟨key, colon, us, rfl, hkey, hcolon, hvalue⟩ := h
  rw [List.length_cons, List.length_cons] at hn
  obtain ⟨hcurrent, hafter⟩ := hread.step (TokenKind.ne_endOfInput_of_isPart hkey.kind.1)
  have hkind : c.advance.kind = .symbol .colon := hafter.kind.trans hcolon
  obtain ⟨-, hrest⟩ := hafter.step (by rw [hcolon]; nofun)
  have hinner : Gives (Rules.upTo (n + 1)).expression ctx c.advance.advance f.value.Alike c' :=
    hvalue.whole hctx (by omega) hrest hclose
  refine .peek (.bind (recordKey_gives (hcurrent ▸ hkey)) fun key' hkey' => ?_)
  refine Gives.expect hkind (.skipWhile ?_ (.bind hinner fun a ha => .spanFrom fun span => .pure ?_))
  · exact beq_eq_false_iff_ne.mpr (kind_of_opens hvalue hrest).2
  · obtain ⟨_, key, value⟩ := f
    rw [RecordField.view, RecordField.view, hkey', ha]
    rfl

/-- Fields that are equal but for places. -/
def FieldsAlike (fs fs' : List (RecordField Node)) : Prop :=
  fs.map (RecordField.view .unplaced) = fs'.map (RecordField.view .unplaced)

/-- A field does not begin with a brace or a line break. -/
theorem kind_of_field (h : SpellsField f ts) (hread : c.Reads ts c') :
    c.kind ≠ .symbol .closeBrace ∧ c.kind ≠ .newline := by
  obtain ⟨key, colon, us, rfl, hkey, -, -⟩ := h
  rw [hread.kind]
  obtain ⟨-, hkind | hkind | ⟨k, hkind⟩⟩ := hkey.kind <;> rw [hkind] <;> exact ⟨nofun, nofun⟩

/-- Fields are on one line with what is before them. -/
theorem FieldRows.kind_ne (h : FieldRows fs ts) (hread : c.Reads ts c') (hkind : c'.kind ≠ .newline) :
    c.kind ≠ .newline := by
  cases h with
  | nil => exact hread.eq_of_nil ▸ hkind
  | single h => exact (kind_of_field h hread).2
  | cons h =>
      obtain ⟨c₁, hfirst, -⟩ := hread.split
      exact (kind_of_field h hfirst).2

/-- A separator is not read before the closing brace. -/
theorem fieldSeparator_stays {problem : Problem} (hkind : c.kind = .symbol .closeBrace) :
    Gives (fieldSeparator problem) ctx c (fun _ => True) c := by
  refine .check (.skipWhile (by rw [hkind]; rfl) (.decline (by rw [hkind]; nofun) ?_))
  rw [show (c.kind == .newline) = false by rw [hkind]; rfl]
  refine .check ?_
  rw [hkind, beq_self_eq_true]
  exact .pure trivial

/-- A comma with no newline after it separates two fields. -/
theorem fieldSeparator_comma {problem : Problem} (hkind : c.kind = .symbol .comma)
    (hnext : c.advance.kind ≠ .newline) : Gives (fieldSeparator problem) ctx c (fun _ => True) c.advance := by
  refine .check (.skipWhile (by rw [hkind]; rfl) (.accept hkind ?_))
  have hskip : Cursor.skipWhile (· == .newline) c.advance = c.advance :=
    Cursor.skipWhile_of_not (beq_eq_false_iff_ne.mpr hnext)
  intro report log
  refine ⟨(), ?_, trivial⟩
  rw [if_pos rfl, skipNewlines, move]
  dsimp only
  rw [hskip]

/-- **Fields are read up to the closing brace.** -/
theorem FieldRows.give (h : FieldRows fs ts) (hctx : ctx.Valued) {k : Nat} (hk : fs.length < k) (hn : ts.length ≤ n)
    {items : Array (RecordField Node)} (hread : c.Reads ts c') (hkind : c'.kind = .symbol .closeBrace) :
    Gives (iterate (collectTurn (fieldItem (.upTo (n + 1)))) k items) ctx c
      (fun fields => ∃ added, fields = items.toList ++ added ∧ FieldsAlike fs added) c' := by
  -- what the loop does once it is at the brace
  have hlast {k : Nat} {items : Array (RecordField Node)} {R : List (RecordField Node) → Prop} (hR : R items.toList) :
      Gives (iterate (collectTurn (fieldItem (.upTo (n + 1)))) (k + 1) items) ctx c' R c' := by
    refine .collected (.check ?_) hR
    rw [hkind, beq_self_eq_true]
    exact .pure rfl
  induction h generalizing c items k with
  | nil =>
      obtain rfl := hread.eq_of_nil
      obtain ⟨k, rfl⟩ : ∃ i, k = i + 1 := ⟨k - 1, by omega⟩
      exact hlast ⟨[], (List.append_nil _).symm, rfl⟩
  | @single f ts h =>
      obtain ⟨k, rfl⟩ : ∃ i, k = i + 2 := ⟨k - 2, by rw [List.length_singleton] at hk; omega⟩
      have hopen : (c.kind == .symbol .closeBrace) = false := beq_eq_false_iff_ne.mpr (kind_of_field h hread).1
      have hfield := recordField_gives h hctx hn hread (by rw [hkind]; rfl)
      refine .collect (.check ?_) fun a ha => hlast ⟨[a], ?_, congrArg (· :: []) ha⟩
      · rw [hopen]
        exact .bind hfield fun a ha => .bind (fieldSeparator_stays hkind) fun _ _ => .pure ⟨a, rfl, ha⟩
      · rw [Array.toList_push]
  | @cons f fs ts us comma h hcomma hrest hne ih =>
      obtain ⟨k, rfl⟩ : ∃ i, k = i + 1 := ⟨k - 1, by omega⟩
      rw [List.length_append, List.length_cons] at hn
      rw [List.length_cons] at hk
      obtain ⟨c₁, hfirst, hmore⟩ := hread.split
      have hopen : (c.kind == .symbol .closeBrace) = false := beq_eq_false_iff_ne.mpr (kind_of_field h hfirst).1
      have hkind₁ : c₁.kind = .symbol .comma := hmore.kind.trans hcomma
      obtain ⟨-, hmore⟩ := hmore.step (by rw [hcomma]; nofun)
      have hnext := FieldRows.kind_ne hrest hmore (by rw [hkind]; nofun)
      have hlength : ts.length ≤ n := by omega
      have hfield := recordField_gives h hctx hlength hfirst (by rw [hkind₁]; rfl)
      have hitem : Gives (fieldItem (.upTo (n + 1))) ctx c
          (fun x => ∃ a, x = some a ∧ f.view .unplaced = a.view .unplaced) c₁.advance := by
        refine .check ?_
        rw [hopen]
        exact .bind hfield fun a ha => .bind (fieldSeparator_comma hkind₁ hnext) fun _ _ => .pure ⟨a, rfl, ha⟩
      refine .collect hitem fun a ha => ?_
      refine (ih (by omega) (by omega) hmore).mono ?_
      rintro _ ⟨added, rfl, hadded⟩
      refine ⟨a :: added, ?_, ?_⟩
      · rw [Array.toList_push, List.append_assoc]
        rfl
      · rw [FieldsAlike, List.map_cons, List.map_cons, hadded, ha]

/-- **A record is read as it is spelled.** -/
theorem recordLiteral_gives (h : FieldRows fs ts) (hopener : opener.kind = .symbol .openBrace)
    (hcloser : closer.kind = .symbol .closeBrace) (hn : ts.length < n)
    (hread : c.Reads (opener :: (ts ++ [closer])) c') :
    Gives (recordLiteral (.upTo n)) ctx c (Node.Alike (.record ⟨span, fs⟩)) c' := by
  obtain ⟨n, rfl⟩ : ∃ m, n = m + 1 := ⟨n - 1, by omega⟩
  have hkind := hread.kind.trans hopener
  obtain ⟨-, hrest⟩ := hread.step (by rw [hopener]; nofun)
  obtain ⟨c₁, hfields, hkind₁, rfl⟩ := hrest.concat (by rw [hcloser]; nofun)
  rw [hcloser] at hkind₁
  have hlength := h.length_le
  have hstart := h.kind_ne hfields (by rw [hkind₁]; nofun)
  have hlist : Gives ((Rules.upTo (n + 1)).collect (fieldItem (.upTo (n + 1))))
      { ctx with mode := ctx.mode.nested } c.advance (FieldsAlike fs) c₁ := by
    show Gives (iterate (collectTurn (fieldItem (.upTo (n + 1)))) ((Rules.upTo (n + 1)).fuel + 1) #[]) _ _ _ _
    rw [Rules.upTo_fuel]
    refine (h.give ctx.nested_valued (by omega) (by omega) hfields hkind₁).mono ?_
    rintro _ ⟨added, rfl, hadded⟩
    exact hadded
  have hinside : Gives (do
      skipNewlines
      let fields ← (Rules.upTo (n + 1)).collect (fieldItem (.upTo (n + 1)))
      let _ ← expectCloser .record
      return fields) { ctx with mode := ctx.mode.nested } c.advance (FieldsAlike fs) c₁.advance := by
    refine .skipWhile (beq_eq_false_iff_ne.mpr hstart) (.bind hlist fun fields hfields => ?_)
    exact Gives.expect hkind₁ (.pure hfields)
  have hrecord : Gives (record (.upTo (n + 1))) ctx c (fun r => FieldsAlike fs r.fields) c₁.advance :=
    .expect hkind (.bind (.within hinside) fun fields hfields => .spanFrom fun span => .pure hfields)
  refine .bind hrecord fun r hr => .pure ?_
  obtain ⟨_, fields⟩ := r
  rw [Node.Alike, Node.view, Node.view, Record.view, Record.view, RecordField.views_eq, RecordField.views_eq, hr]
  rfl

/-- A brace with a key and a colon after it is read as a record, at once or after a look at what stands in it. -/
theorem braceValue_gives {more : List Token} {colon : Token} (hkey : SpellsKey key t)
    (hcolon : colon.kind = .symbol .colon) (hahead : c.ahead = t :: colon :: more)
    (h : ∀ {ctx : Context}, Gives (recordLiteral (.upTo n)) ctx c e.Alike c') :
    Gives (braceValue (.upTo n)) ctx c e.Alike c' := by
  refine .here ?_
  obtain ⟨-, hkind | hkind | ⟨k, hkind⟩⟩ := hkey.kind
  · have hshaped : Cursor.recordShaped c.ahead = true := by
      simp [hahead, Cursor.recordShaped, hkind, Cursor.headIs, hcolon]
    rw [hshaped]
    exact h
  · have hshaped : Cursor.recordShaped c.ahead = true := by
      simp [hahead, Cursor.recordShaped, hkind, Cursor.headIs, hcolon]
    rw [hshaped]
    exact h
  · -- a keyword may begin a statement too, so that the colon decides
    have hshaped : Cursor.recordShaped c.ahead = false := by
      simp [hahead, Cursor.recordShaped, hkind]
    have hbar : barAhead c.ahead = false := by
      simp [hahead, barAhead, hkind]
    have hbody : Cursor.braceBody 0 c.ahead = .keyword k :: .symbol .colon :: Cursor.braceBody 0 more := by
      rw [hahead, braceBody_cons (by simp [hkind]) (by rw [hkind]; rfl) (by rw [hkind]; rfl),
        braceBody_cons (by simp [hcolon]) (by rw [hcolon]; rfl) (by rw [hcolon]; rfl), hkind, hcolon]
    have hshape : Cursor.braceShape c.ahead = .colon := by
      rw [Cursor.braceShape, hbody]
      exact if_pos (List.contains_iff_mem.mpr (List.mem_cons_of_mem _ List.mem_cons_self))
    rw [hshaped, hbar, hshape]
    refine .peek (.bind (Gives.tentatively h) ?_)
    rintro _ ⟨a, rfl, ha⟩
    exact .pure ha

/-- Braces around fields give back the record: the key and the colon show that it is none of the other things in
    braces. -/
theorem chained_record (h : FieldRows fs ts) (hopener : opener.kind = .symbol .openBrace)
    (hcloser : closer.kind = .symbol .closeBrace) : Chained (.record ⟨span, fs⟩) (opener :: (ts ++ [closer])) := by
  refine .of_primary (parts_enclosed h.parts (by rw [hopener]; rfl) (by rw [hcloser]; rfl))
    ⟨opener, rfl, by rw [hopener]; rfl⟩ fun {n ctx c c'} hctx hn hread _ => ?_
  rw [List.length_cons, List.length_append] at hn
  have hkind := hread.kind.trans hopener
  have hahead : c.ahead = ts ++ closer :: c'.rest := by
    have hrest : c.ahead = ts ++ [closer] ++ c'.rest := (List.cons.inj hread.rest).2
    rwa [List.append_assoc] at hrest
  have hliteral {ctx : Context} : Gives (recordLiteral (.upTo n)) ctx c (Node.Alike (.record ⟨span, fs⟩)) c' :=
    recordLiteral_gives h hopener hcloser (by omega) hread
  refine .peek ?_
  rw [show c.current.kind = .symbol .openBrace from hkind]
  refine .mode ?_
  rw [hctx.braceless]
  have hfield {f : RecordField Node} {us more : List Token} (hf : SpellsField f us) (hahead : c.ahead = us ++ more) :
      Gives (braceValue (.upTo n)) ctx c (Node.Alike (.record ⟨span, fs⟩)) c' := by
    obtain ⟨key, colon, vs, rfl, hkey, hcolon, -⟩ := hf
    exact braceValue_gives hkey hcolon hahead hliteral
  cases h with
  | nil =>
      have hshaped : Cursor.recordShaped c.ahead = true := by
        simp [hahead, Cursor.recordShaped, hcloser]
      refine .here ?_
      rw [hshaped]
      exact hliteral
  | single h => exact hfield h hahead
  | cons h =>
      rw [List.append_assoc] at hahead
      exact hfield h hahead

end ShellFront.Grammar
