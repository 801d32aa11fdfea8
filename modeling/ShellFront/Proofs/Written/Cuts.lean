import ShellFront.Proofs.Number.Numerals
import ShellFront.Proofs.Token.OpenGroups
import ShellFront.Proofs.Written.Records
import ShellFront.Proofs.Written.Words

/-!
# Values are cut into what spells them

A text is **cut** into tokens when the lexer, wherever it is, makes these tokens of it and reports nothing. Texts that
stand one after the other are cut one after the other; each of them is given with all that follows it, since the lexer
looks ahead. Blanks count for the text after them, so that every text ends where its last token does, and what touches
what can be told.

## Contents
- `Lexer.Cuts` with `Lexer.Cuts.append` and `Lexer.Cuts.blank`.
- `Lexer.cuts_mark`, `Lexer.cuts_symbol`, `Lexer.cuts_name`, …: one token.
- `Grammar.Separated.cuts`: lists.
- `Node.IsValue.cuts`: values are cut into tokens that spell them.
-/

namespace ShellFront

namespace Lexer

variable {file : String} {st st₁ st₂ : State} {c : Char} {cs text text' more : List Char} {ts us : List Token}
  {p : Piece}

/-! ## Texts one after the other -/

/-- A text is **cut** into tokens: the lexer walks over it, adds the tokens to those that it has found, reports nothing
    and ends where the last token does. -/
structure Cuts (file : String) (st : State) (text more : List Char) (ts : List Token) (st' : State) : Prop where
  run : run file st (text ++ more) = run file st' more
  tokens : st'.tokens.toList = st.tokens.toList ++ ts
  report : st'.report = st.report
  stop : ∀ t ∈ ts.getLast?, t.span.stop = st'.place.offset

/-- No text is cut into no tokens. -/
theorem Cuts.nil : Cuts file st [] more [] st where
  run := rfl
  tokens := (List.append_nil _).symm
  report := rfl
  stop := fun _ h => absurd h (by simp)

/-- Two texts are cut one after the other when what follows the first one begins the second one. -/
theorem Cuts.append (h : Cuts file st text (text' ++ more) ts st₁) (h' : Cuts file st₁ text' more us st₂)
    (hne : us ≠ []) : Cuts file st (text ++ text') more (ts ++ us) st₂ where
  run := by rw [List.append_assoc, h.run, h'.run]
  tokens := by rw [h'.tokens, h.tokens, List.append_assoc]
  report := h'.report.trans h.report
  stop := by
    rw [List.getLast?_append_of_ne_nil _ hne]
    exact h'.stop

/-- The state after a blank. -/
def State.blank (file : String) (st : State) : State := st.take file ⟨1, none, st.groups, st.atLineStart, false⟩ [' ']

/-- A blank before a text makes no token. -/
theorem Cuts.blank (h : Cuts file (st.blank file) text more ts st₁) : Cuts file st (' ' :: text) more ts st₁ where
  run := by
    have hstep : step st.previous st.groups st.atLineStart ' ' (text ++ more) =
        ⟨1, none, st.groups, st.atLineStart, false⟩ := rfl
    rw [List.cons_append, Lexer.run, hstep]
    exact h.run
  tokens := h.tokens
  report := h.report
  stop := h.stop

/-! ## One token -/

/-- A token is made of a text that is a piece and begins at some offset. -/
structure Made (t : Token) (text : List Char) (p : Piece) (start : Int) : Prop where
  kind : t.kind = p.kind
  lexeme : t.lexeme = String.ofList text
  value : t.value = p.value.map String.ofList
  start : t.span.start = start

/-- A character that begins a piece: it is no blank, begins no comment and ends no line. -/
def beginsPiece (c : Char) : Bool := !isBlank c && c != '#' && c != '\n'

/-- A class of characters begins pieces if it has none of those that do not. -/
theorem beginsPiece_of {q : Char → Bool} (hc : q c = true) (hq : ∀ d ∈ [' ', '\t', '\r', '#', '\n'], q d = false) :
    beginsPiece c = true := by
  have hne (d : Char) (hd : d ∈ [' ', '\t', '\r', '#', '\n']) : c ≠ d := by
    rintro rfl
    rw [hq c hd] at hc
    contradiction
  simp [beginsPiece, isBlank, hne ' ', hne '\t', hne '\r', hne '#', hne '\n']

/-- **A piece is cut into its token.** -/
theorem cuts_piece (file : String) (st : State) (cs more : List Char) (hc : beginsPiece c = true)
    (h : ∀ wordStart, Piece.next wordStart c (cs ++ more) = p) (hlength : p.length = cs.length + 1)
    (hproblem : p.problem = none) :
    ∃ t st', Cuts file st (c :: cs) more [t] st' ∧ Made t (c :: cs) p st.place.offset := by
  rw [beginsPiece, Bool.and_eq_true, Bool.and_eq_true, Bool.not_eq_true', bne_iff_ne, bne_iff_ne] at hc
  obtain ⟨⟨hblank, hhash⟩, hfeed⟩ := hc
  have hstep : step st.previous st.groups st.atLineStart c (cs ++ more) =
      ⟨cs.length + 1, some p, st.groups.follow p.kind, false, false⟩ := by
    rw [step, hblank, if_neg Bool.false_ne_true, if_neg hhash, if_neg hfeed]
    dsimp only
    rw [h, hlength]
  have hlexeme : (c :: (cs ++ more)).take (cs.length + 1) = c :: cs := by
    rw [List.take_succ_cons, List.take_left]
  have hrest : (c :: (cs ++ more)).drop (cs.length + 1) = more := by
    rw [List.drop_succ_cons, List.drop_left]
  refine ⟨_, st.take file ⟨cs.length + 1, some p, st.groups.follow p.kind, false, false⟩ (c :: cs),
    ⟨?_, Array.toList_push, ?_, ?_⟩, ⟨rfl, rfl, rfl, rfl⟩⟩
  · rw [List.cons_append, Lexer.run, hstep]
    dsimp only
    rw [hlexeme, hrest]
  · simp only [State.take, Option.bind_some, hproblem]
  · rintro t ht
    obtain rfl := Option.some.inj ht
    rfl

theorem beginsPiece_symbol {s : Symbol} (hs : s.text.toList = c :: cs) : beginsPiece c = true := by
  cases s <;> obtain rfl := (List.cons.inj hs).1 <;> decide

/-- Brackets, braces and commas. -/
theorem cuts_mark (file : String) (st : State) {s : Symbol} (h : s.isMark = true) (hs : s.text.toList = [c])
    (more : List Char) :
    ∃ t st', Cuts file st [c] more [t] st' ∧ t.kind = .symbol s ∧ t.span.start = st.place.offset := by
  obtain ⟨t, st', hcuts, hmade⟩ := cuts_piece file st [] more (beginsPiece_symbol hs)
    (fun wordStart => Piece.next_mark h hs wordStart more) rfl rfl
  exact ⟨t, st', hcuts, hmade.kind, hmade.start⟩

/-- A symbol with a blank after it. -/
theorem cuts_symbol (file : String) (st : State) (s : Symbol) (more : List Char) :
    ∃ t st', Cuts file st s.text.toList (' ' :: more) [t] st' ∧ t.kind = .symbol s := by
  obtain ⟨c, cs, hs⟩ : ∃ c cs, s.text.toList = c :: cs := by cases s <;> exact ⟨_, _, rfl⟩
  obtain ⟨t, st', hcuts, hmade⟩ := cuts_piece file st cs (' ' :: more) (beginsPiece_symbol hs)
    (fun wordStart => Piece.next_symbol hs wordStart more) rfl rfl
  rw [hs]
  exact ⟨t, st', hcuts, hmade.kind⟩

/-- A dot with a name after it. -/
theorem cuts_dot (file : String) (st : State) (hmore : startsWith isNameStart more = true) :
    ∃ t st', Cuts file st ['.'] more [t] st' ∧ t.kind = .symbol .dot ∧ t.span.start = st.place.offset := by
  obtain ⟨t, st', hcuts, hmade⟩ := cuts_piece file st [] more (by decide)
    (fun wordStart => Piece.next_dot hmore wordStart) rfl rfl
  exact ⟨t, st', hcuts, hmade.kind, hmade.start⟩

/-- A name before something that ends it is one token, with the name for its lexeme. -/
theorem cuts_name (file : String) (st : State) {name : String} (h : IsName name) (hmore : EndsName more) :
    ∃ t st', Cuts file st name.toList more [t] st' ∧ t.kind = Piece.nameKind name.toList ∧ t.lexeme = name ∧
      t.span.start = st.place.offset := by
  obtain ⟨c, cs, hname, hc, hcs⟩ := h
  obtain ⟨t, st', hcuts, hmade⟩ := cuts_piece file st cs more (beginsPiece_of hc (by decide))
    (fun wordStart => Piece.next_name hc hcs hmore wordStart) rfl rfl
  rw [hname]
  refine ⟨t, st', hcuts, hmade.kind, ?_, hmade.start⟩
  rw [hmade.lexeme, ← hname, String.ofList_toList]

/-- Keywords are names too, as far as fields and keys go. -/
theorem isName_nameKind (name : List Char) : (Piece.nameKind name).isName = true := by
  unfold Piece.nameKind
  split <;> rfl

/-- What is written like no keyword is an identifier. -/
theorem nameKind_identifier {name : String} (h : Keyword.ofText? name = none) :
    Piece.nameKind name.toList = .identifier := by
  rw [Piece.nameKind, String.ofList_toList, h]

theorem cuts_keyword (file : String) (st : State) (k : Keyword) (hmore : EndsName more) :
    ∃ t st', Cuts file st k.text.toList more [t] st' ∧ t.kind = .keyword k := by
  have hname : IsName k.text := by cases k <;> exact ⟨_, _, rfl, rfl, rfl⟩
  have hkind : Piece.nameKind k.text.toList = .keyword k := by cases k <;> decide
  obtain ⟨t, st', hcuts, hk, -⟩ := cuts_name file st hname hmore
  exact ⟨t, st', hcuts, hk.trans hkind⟩

/-- What follows after a blank does not matter for a name. -/
theorem endsName_blank (more : List Char) : EndsName (' ' :: more) := fun _ h =>
  Option.some.inj h ▸ List.mem_cons_self

/-- An operator with a blank after it. -/
theorem cuts_operator (file : String) (st : State) (operator : Operator) (more : List Char) :
    ∃ t st', Cuts file st operator.text.toList (' ' :: more) [t] st' ∧ Operator.ofToken? t.kind = some operator := by
  -- some operators are marks and some are words
  have hspelled : (∃ s : Symbol, s.text = operator.text ∧ Operator.ofToken? (.symbol s) = some operator) ∨
      ∃ k : Keyword, k.text = operator.text ∧ Operator.ofToken? (.keyword k) = some operator := by
    cases operator with
    | coalesce => exact .inl ⟨.coalesce, rfl, rfl⟩
    | orWord => exact .inr ⟨.orKw, rfl, rfl⟩
    | orSymbol => exact .inl ⟨.orOr, rfl, rfl⟩
    | andWord => exact .inr ⟨.andKw, rfl, rfl⟩
    | andSymbol => exact .inl ⟨.andAnd, rfl, rfl⟩
    | equal => exact .inl ⟨.equal, rfl, rfl⟩
    | notEqual => exact .inl ⟨.notEqual, rfl, rfl⟩
    | less => exact .inl ⟨.less, rfl, rfl⟩
    | greater => exact .inl ⟨.greater, rfl, rfl⟩
    | lessEqual => exact .inl ⟨.lessEqual, rfl, rfl⟩
    | greaterEqual => exact .inl ⟨.greaterEqual, rfl, rfl⟩
    | matchOp => exact .inl ⟨.matchOp, rfl, rfl⟩
    | notMatchOp => exact .inl ⟨.notMatchOp, rfl, rfl⟩
    | plus => exact .inl ⟨.plus, rfl, rfl⟩
    | minus => exact .inl ⟨.minus, rfl, rfl⟩
    | concat => exact .inl ⟨.concat, rfl, rfl⟩
    | times => exact .inl ⟨.star, rfl, rfl⟩
    | divide => exact .inl ⟨.slash, rfl, rfl⟩
    | remainder => exact .inl ⟨.percent, rfl, rfl⟩
  rcases hspelled with ⟨s, htext, hkind⟩ | ⟨k, htext, hkind⟩
  · obtain ⟨t, st', hcuts, ht⟩ := cuts_symbol file st s more
    exact ⟨t, st', htext ▸ hcuts, ht ▸ hkind⟩
  · obtain ⟨t, st', hcuts, ht⟩ := cuts_keyword file st k (endsName_blank more)
    exact ⟨t, st', htext ▸ hcuts, ht ▸ hkind⟩

/-- The blank after the sign keeps it from being read together with what follows. -/
theorem cuts_unary (file : String) (st : State) (operator : UnaryOperator) (more : List Char) :
    ∃ t st', Cuts file st operator.text.toList (' ' :: more) [t] st' ∧
      UnaryOperator.ofToken? t.kind = some operator := by
  cases operator with
  | notWord =>
      obtain ⟨t, st', hcuts, ht⟩ := cuts_keyword file st .notKw (endsName_blank more)
      exact ⟨t, st', hcuts, ht ▸ rfl⟩
  | bang =>
      obtain ⟨t, st', hcuts, ht⟩ := cuts_symbol file st .bang more
      exact ⟨t, st', hcuts, ht ▸ rfl⟩
  | minus =>
      obtain ⟨t, st', hcuts, ht⟩ := cuts_symbol file st .minus more
      exact ⟨t, st', hcuts, ht ▸ rfl⟩

/-! ## Literals and variables -/

/-- The digits of a number. -/
theorem isDigit_of_toDigits {n : Nat} {d : Char} (h : d ∈ Nat.toDigits 10 n) : isDigit d = true := by
  have hdigit := Nat.isDigit_of_mem_toDigits (by decide) (by decide) h
  simpa [isDigit, Char.isDigit, Char.le_def, UInt32.le_iff_toNat_le] using hdigit

/-- Decimal digits are one token up to what cannot go on with a number. -/
theorem cuts_integer (file : String) (st : State) (n : Nat) (hmore : EndsValue more) :
    ∃ t st', Cuts file st (Nat.repr n).toList more [t] st' ∧ t.kind = .integer .decimal ∧ t.lexeme = Nat.repr n := by
  have hrepr : (Nat.repr n).toList = Nat.toDigits 10 n := by
    rw [Nat.repr_eq_ofList_toDigits, String.toList_ofList]
  obtain ⟨c, cs, hdigits⟩ := List.exists_cons_of_ne_nil (Nat.toDigits_ne_nil (b := 10) (n := n))
  have hall : ∀ d ∈ c :: cs, isDigit d = true := fun d hd => isDigit_of_toDigits (hdigits ▸ hd)
  obtain ⟨hc, hcs⟩ := List.forall_mem_cons.mp hall
  obtain ⟨t, st', hcuts, hmade⟩ := cuts_piece file st cs more (beginsPiece_of hc (by decide))
    (fun wordStart => Piece.next_digits hc hcs hmore wordStart) rfl rfl
  rw [hrepr, hdigits]
  refine ⟨t, st', hcuts, hmade.kind, ?_⟩
  rw [hmade.lexeme, ← hdigits, Nat.repr_eq_ofList_toDigits]

/-- The digits of a number stand for it. -/
theorem value_repr {n : Nat} (h : (Nat.repr n).length ≤ Numeral.decimalLimit) :
    Numeral.value? .decimal (Nat.repr n).toList = some n := by
  have hrepr : (Nat.repr n).toList = Nat.toDigits 10 n := by
    rw [Nat.repr_eq_ofList_toDigits, String.toList_ofList]
  rw [← String.length_toList, hrepr] at h
  rw [hrepr]
  exact Numeral.value_toDigits fun _ => h

/-- The dollar sign and the name are one token. -/
theorem cuts_variable (file : String) (st : State) {name : String} (h : IsVariable name) (hmore : EndsName more) :
    ∃ t st', Cuts file st ('$' :: name.toList) more [t] st' ∧ t.kind = .variableName ∧ t.payload = name := by
  obtain ⟨⟨c, cs, hname, hc, hcs⟩, hreserved⟩ := h
  have hne (text : String) (h : text ∈ ["it", "_", "err", "env"]) : name.toList ≠ text.toList := fun heq =>
    hreserved (String.toList_inj.mp heq ▸ h)
  have hall : ∀ d ∈ name.toList, isNameChar d = true := by
    rw [hname]
    exact List.forall_mem_cons.mpr ⟨Piece.isNameChar_of_isNameStart hc, hcs⟩
  have hstart : startsWith isNameStart name.toList = true := by
    rw [hname]
    exact hc
  have hspecial : Piece.isSpecialName name.toList = false := by
    have hit := beq_eq_false_iff_ne.mpr (hne "it" (by simp))
    have hunderscore := beq_eq_false_iff_ne.mpr (hne "_" (by simp))
    have herr := beq_eq_false_iff_ne.mpr (hne "err" (by simp))
    rw [Piece.isSpecialName, Bool.or_eq_false_iff, Bool.or_eq_false_iff]
    exact ⟨⟨hit, hunderscore⟩, herr⟩
  obtain ⟨t, st', hcuts, hmade⟩ := cuts_piece file st name.toList more (by decide)
    (fun wordStart => Piece.next_variable hstart hall hspecial (hne "env" (by simp)) hmore wordStart) rfl rfl
  refine ⟨t, st', hcuts, hmade.kind, ?_⟩
  rw [Token.payload, hmade.value, Option.map_some, Option.getD_some, String.ofList_toList]

/-- A quoted value is one token, whatever characters it has, because the ones that matter are escaped. -/
theorem cuts_quoted (file : String) (st : State) (value : String) (hmore : EndsName more) :
    ∃ t st', Cuts file st (quoted value).toList more [t] st' ∧ t.kind = .string .double ∧ t.payload = value := by
  have htext : (quoted value).toList = '\x22' :: (value.toList.flatMap escape ++ ['\x22']) := by
    simp only [quoted, String.toList_append, String.toList_ofList]
    rfl
  have hpiece (wordStart : Bool) :
      Piece.next wordStart '\x22' (value.toList.flatMap escape ++ ['\x22'] ++ more) =
        ⟨.string .double, (value.toList.flatMap escape).length + 2, some value.toList, none⟩ := by
    rw [List.append_assoc, List.singleton_append]
    exact Piece.next_quoted value.toList hmore wordStart
  obtain ⟨t, st', hcuts, hmade⟩ := cuts_piece file st (value.toList.flatMap escape ++ ['\x22']) more (by decide)
    hpiece (by rw [List.length_append, List.length_singleton]) rfl
  rw [htext]
  refine ⟨t, st', hcuts, hmade.kind, ?_⟩
  rw [Token.payload, hmade.value, Option.map_some, Option.getD_some, String.ofList_toList]

/-! ## Brackets -/

/-- A text between two marks. -/
theorem cuts_enclosed (file : String) (st : State) {P : List Token → Prop} (s s' : Symbol) (c d : Char)
    (hs : s.isMark = true) (hs' : s'.isMark = true) (hc : s.text.toList = [c]) (hd : s'.text.toList = [d])
    (more : List Char) (h : ∀ st, ∃ ts st', Cuts file st text (d :: more) ts st' ∧ P ts) :
    ∃ opener ts closer st', Cuts file st (c :: (text ++ [d])) more (opener :: (ts ++ [closer])) st' ∧ P ts ∧
      opener.kind = .symbol s ∧ closer.kind = .symbol s' ∧ opener.span.start = st.place.offset := by
  obtain ⟨opener, st₁, hopens, hopener, hstart⟩ := cuts_mark file st hs hc (text ++ d :: more)
  obtain ⟨ts, st₂, hinner, hts⟩ := h st₁
  obtain ⟨closer, st₃, hcloses, hcloser, -⟩ := cuts_mark file st₂ hs' hd more
  have hrest : Cuts file st₁ (text ++ [d]) more (ts ++ [closer]) st₃ := hinner.append hcloses (List.cons_ne_nil _ _)
  have hopens : Cuts file st [c] (text ++ [d] ++ more) [opener] st₁ := by
    rw [List.append_assoc]
    exact hopens
  exact ⟨opener, ts, closer, st₃, hopens.append hrest (by simp), hts, hopener, hcloser, hstart⟩

end Lexer

/-- A token touches the next one when this one begins where it ends. -/
theorem Token.touches_of {t u : Token} {n : Int} (ht : t.span.stop = n) (hu : u.span.start = n) : t.touches u = true :=
  beq_of_eq (ht.trans hu.symm)

open Lexer Grammar

variable {file : String} {st : State} {more : List Char}

/-! ## Lists -/

/-- Between two texts stand a comma and a blank. -/
theorem commaJoined_cons (text text' : String) (texts : List String) :
    (commaJoined (text :: text' :: texts)).toList =
      text.toList ++ ',' :: ' ' :: (commaJoined (text' :: texts)).toList := by
  simp only [commaJoined, String.toList_append, List.append_assoc]
  rfl

/-- **Texts with commas between them** are cut one after the other. -/
theorem Grammar.Separated.cuts {α : Type} {spells : α → List Token → Prop} (write : α → String) {as : List α}
    (h : ∀ a ∈ as, ∀ st more, EndsValue more →
      ∃ ts st', Cuts file st (write a).toList more ts st' ∧ spells a ts)
    (hpos : ∀ {a ts}, spells a ts → 0 < ts.length) (st : State) (hmore : EndsValue more) :
    ∃ ts st', Cuts file st (commaJoined (as.map write)).toList more ts st' ∧ Separated spells as ts := by
  induction as generalizing st with
  | nil => exact ⟨[], st, .nil, .nil⟩
  | cons a as ih =>
      obtain ⟨ha, has⟩ := List.forall_mem_cons.mp h
      cases as with
      | nil =>
          obtain ⟨ts, st', hcuts, hspells⟩ := ha st more hmore
          exact ⟨ts, st', hcuts, .single hspells⟩
      | cons b bs =>
          -- the blank after the comma goes with the texts that are left
          have hcomma : EndsValue (',' :: ' ' :: ((commaJoined ((b :: bs).map write)).toList ++ more)) :=
            fun _ hc => Option.some.inj hc ▸ by decide
          obtain ⟨ts, st₁, hfirst, hspells⟩ := ha st _ hcomma
          obtain ⟨comma, st₂, hcuts, hkind, -⟩ := cuts_mark file st₁ (s := .comma) rfl rfl
            (' ' :: ((commaJoined ((b :: bs).map write)).toList ++ more))
          obtain ⟨us, st₃, hothers, hrows⟩ := ih has (st₂.blank file)
          have hne : us ≠ [] := by
            have hlength := hrows.length_le hpos
            rintro rfl
            exact Nat.not_succ_le_zero _ hlength
          have hrest : Cuts file st₁ (',' :: ' ' :: (commaJoined ((b :: bs).map write)).toList) more
              (comma :: us) st₃ := hcuts.append hothers.blank hne
          refine ⟨ts ++ comma :: us, st₃, ?_, .cons hspells hkind hrows (List.cons_ne_nil _ _)⟩
          rw [List.map_cons, List.map_cons, commaJoined_cons]
          exact hfirst.append hrest (List.cons_ne_nil _ _)

/-! ## Values -/

namespace Node

/-- What can follow a value: what stands after values, or a dot, if something can be glued to it. -/
def Follows (e : Node) (more : List Char) : Prop :=
  EndsValue more ∨ e.isTarget = true ∧ startsWith (· == '.') more = true

/-- A value is cut into tokens that spell it, wherever it is written. -/
def CutsAs (e : Node) : Prop :=
  ∀ (file : String) (st : State) (more : List Char), e.Follows more →
    ∃ ts st', Cuts file st e.written.toList more ts st' ∧ Spells e ts

variable {e : Node} {es : List Node} {span : Span}

theorem Follows.name (h : e.Follows more) : EndsName more := by
  rcases h with h | ⟨-, hdot⟩
  · exact h.name
  · cases more with
    | nil => contradiction
    | cons d ds =>
        rintro c hc
        obtain rfl : d = c := Option.some.inj hc
        rw [show d = '.' from eq_of_beq hdot]
        decide

theorem Follows.value (h : e.Follows more) (htarget : e.isTarget = false) : EndsValue more :=
  h.resolve_right fun hglued => by
    rw [htarget] at hglued
    exact absurd hglued.1 Bool.false_ne_true

/-- Values with commas between them and a closer after the last one. -/
theorem cuts_rows (h : ∀ e ∈ es, e.CutsAs) (st : State) (hmore : EndsValue more) :
    ∃ ts st', Cuts file st (commaJoined (Node.allWritten es)).toList more ts st' ∧ Rows es ts := by
  rw [Node.allWritten_eq]
  exact Separated.cuts Node.written (fun e he st more hmore => h e he file st more (.inl hmore))
    (fun h => length_pos_of_opens h.opens) st hmore

/-- Values in brackets. -/
theorem cuts_bracketed (h : ∀ e ∈ es, e.CutsAs) (file : String) (st : State) (s s' : Symbol) (c d : Char)
    (hs : s.isMark = true) (hs' : s'.isMark = true) (hc : s.text.toList = [c]) (hd : s'.text.toList = [d])
    (hend : d ∈ [' ', ',', ')', ']', '\x7d'])
    (more : List Char) :
    ∃ opener ts closer st', Cuts file st (c :: ((commaJoined (Node.allWritten es)).toList ++ [d])) more
        (opener :: (ts ++ [closer])) st' ∧ Rows es ts ∧ opener.kind = .symbol s ∧ closer.kind = .symbol s' ∧
      opener.span.start = st.place.offset :=
  cuts_enclosed file st s s' c d hs hs' hc hd more fun st => cuts_rows h st fun _ hx => Option.some.inj hx ▸ hend

theorem cutsAs_integer {n : Nat} (h : (Nat.repr n).length ≤ Numeral.decimalLimit) :
    CutsAs (.literal span (.integer n .decimal)) := by
  intro file st more hmore
  obtain ⟨t, st', hcuts, hkind, hlexeme⟩ := cuts_integer file st n (hmore.value rfl)
  exact ⟨[t], st', hcuts, .of_chained (chained_integer hkind (hlexeme ▸ value_repr h))⟩

theorem cutsAs_variable {name : String} (h : IsVariable name) : CutsAs (.variableUse span name) := by
  intro file st more hmore
  obtain ⟨t, st', hcuts, hkind, hpayload⟩ := cuts_variable file st h hmore.name
  have htext : (Node.variableUse span name).written.toList = '$' :: name.toList := by
    simp only [Node.written, String.toList_append]
    rfl
  rw [htext]
  exact ⟨[t], st', hcuts, .of_chained (chained_variable hkind hpayload)⟩

theorem cutsAs_string (span : Span) (value : String) : CutsAs (.literal span (.string value .double)) := by
  intro file st more hmore
  obtain ⟨t, st', hcuts, hkind, hpayload⟩ := cuts_quoted file st value hmore.name
  exact ⟨[t], st', hcuts, .of_chained (chained_string hkind hpayload)⟩

theorem cutsAs_boolean (span : Span) (value : Bool) : CutsAs (.literal span (.boolean value)) := by
  intro file st more hmore
  obtain ⟨t, st', hcuts, hkind⟩ := cuts_keyword file st (if value then .trueKw else .falseKw) hmore.name
  refine ⟨[t], st', ?_, .of_chained (chained_boolean hkind)⟩
  cases value <;> exact hcuts

theorem cutsAs_null (span : Span) : CutsAs (.literal span .null) := by
  intro file st more hmore
  obtain ⟨t, st', hcuts, hkind⟩ := cuts_keyword file st .nullKw hmore.name
  exact ⟨[t], st', hcuts, .of_chained (chained_null hkind)⟩

/-- A list is cut as its brackets and its elements are. -/
theorem cutsAs_list (h : ∀ e ∈ es, e.CutsAs) : CutsAs (.list span es) := by
  intro file st more _
  obtain ⟨opener, ts, closer, st', hcuts, hrows, hopener, hcloser, -⟩ :=
    cuts_bracketed h file st .openBracket .closeBracket '[' ']' rfl rfl rfl rfl (by decide) more
  rw [written_list]
  exact ⟨_, st', hcuts, .of_chained (chained_list hrows hopener hcloser)⟩

/-- A tuple with one element is left out: it would be written like an expression in parentheses. -/
theorem cutsAs_tuple (h : ∀ e ∈ es, e.CutsAs) (hlength : es.length ≠ 1) : CutsAs (.tuple span es) := by
  intro file st more _
  obtain ⟨opener, ts, closer, st', hcuts, hrows, hopener, hcloser, -⟩ :=
    cuts_bracketed h file st .openParen .closeParen '(' ')' rfl rfl rfl rfl (by decide) more
  rw [written_tuple]
  exact ⟨_, st', hcuts, .of_chained (chained_tuple hrows hlength hopener hcloser)⟩

theorem cutsAs_paren (h : e.CutsAs) : CutsAs (.paren span e) := by
  intro file st more _
  obtain ⟨opener, ts, closer, st', hcuts, hspells, hopener, hcloser, -⟩ :=
    cuts_enclosed file st .openParen .closeParen '(' ')' rfl rfl rfl rfl more fun st =>
      h file st (')' :: more) (.inl fun _ hc => Option.some.inj hc ▸ by decide)
  have htext : (Node.paren span e).written.toList = '(' :: (e.written.toList ++ [')']) := by
    simp only [Node.written, String.toList_append]
    rfl
  rw [htext]
  exact ⟨_, st', hcuts, .of_chained (chained_paren hspells hopener hcloser)⟩

/-! ### Records -/

/-- A plain key is one token, a name or a quoted value. -/
theorem cuts_key {key : RecordKey} (h : key.IsPlain) (file : String) (st : State) (hmore : EndsName more) :
    ∃ t st', Cuts file st key.written.toList more [t] st' ∧ SpellsKey key t := by
  cases key with
  | name x =>
      obtain ⟨t, st', hcuts, hkind, hlexeme, -⟩ := cuts_name file st h hmore
      exact ⟨t, st', hcuts, hkind ▸ isName_nameKind _, hlexeme⟩
  | text s =>
      obtain ⟨t, st', hcuts, hkind, hpayload⟩ := cuts_quoted file st s.value hmore
      exact ⟨t, st', hcuts, hkind, h, hpayload⟩

/-- A field is cut as its key, a colon and its value are. -/
theorem cuts_field {f : RecordField Node} (hkey : f.key.IsPlain) (h : f.value.CutsAs) (file : String) (st : State)
    (hmore : EndsValue more) : ∃ ts st', Cuts file st f.written.toList more ts st' ∧ SpellsField f ts := by
  have htext : f.written.toList = f.key.written.toList ++ ':' :: ' ' :: f.value.written.toList := by
    simp only [RecordField.written, String.toList_append, List.append_assoc]
    rfl
  have hcolon : EndsName (':' :: ' ' :: (f.value.written.toList ++ more)) :=
    fun _ hc => Option.some.inj hc ▸ by decide
  obtain ⟨key, st₁, hname, hspells⟩ := cuts_key hkey file st hcolon
  obtain ⟨colon, st₂, hmark, hkind⟩ := cuts_symbol file st₁ .colon (f.value.written.toList ++ more)
  obtain ⟨ts, st₃, hvalue, hvalued⟩ := h file (st₂.blank file) more (.inl hmore)
  have hne := ne_nil_of_opens hvalued.opens
  have hrest : Cuts file st₁ (':' :: ' ' :: f.value.written.toList) more (colon :: ts) st₃ :=
    hmark.append hvalue.blank hne
  rw [htext]
  exact ⟨_, st₃, hname.append hrest (List.cons_ne_nil _ _), key, colon, ts, rfl, hspells, hkind, hvalued⟩

/-- A record is cut as its braces and its fields are. -/
theorem cutsAs_record {fields : List (RecordField Node)} (hkeys : ∀ f ∈ fields, f.key.IsPlain)
    (h : ∀ f ∈ fields, f.value.CutsAs) : CutsAs (.record ⟨span, fields⟩) := by
  intro file st more _
  obtain ⟨opener, ts, closer, st', hcuts, hrows, hopener, hcloser, -⟩ :=
    cuts_enclosed file st .openBrace .closeBrace '\x7b' '\x7d' rfl rfl rfl rfl more fun st =>
      Separated.cuts RecordField.written (fun f hf st more hmore => cuts_field (hkeys f hf) (h f hf) file st hmore)
        SpellsField.length_pos st fun _ hc => Option.some.inj hc ▸ by decide
  have htext : (Node.record ⟨span, fields⟩).written.toList =
      '\x7b' :: ((commaJoined (fields.map RecordField.written)).toList ++ ['\x7d']) := by
    simp only [Node.written, Record.written, RecordField.allWritten_eq, String.toList_append]
    rfl
  rw [htext]
  exact ⟨_, st', hcuts, .of_chained (chained_record hrows hopener hcloser)⟩

/-! ### Calls, fields and methods -/

/-- The parenthesis stands right behind the name. -/
theorem cutsAs_call {callee : Ident} (hname : IsIdentifier callee.name) (h : ∀ e ∈ es, e.CutsAs) :
    CutsAs (.call span callee es) := by
  intro file st more _
  have hparen : EndsName ('(' :: ((commaJoined (Node.allWritten es)).toList ++ [')'] ++ more)) :=
    fun _ hc => Option.some.inj hc ▸ by decide
  obtain ⟨name, st₁, hcallee, hkind, hlexeme, -⟩ := cuts_name file st hname.1 hparen
  obtain ⟨opener, ts, closer, st', hcuts, hrows, hopener, hcloser, hstart⟩ :=
    cuts_bracketed h file st₁ .openParen .closeParen '(' ')' rfl rfl rfl rfl (by decide) more
  have htext : (Node.call span callee es).written.toList =
      callee.name.toList ++ '(' :: ((commaJoined (Node.allWritten es)).toList ++ [')']) := by
    simp only [Node.written, String.toList_append, List.append_assoc]
    rfl
  have htouches := Token.touches_of (hcallee.stop name rfl) hstart
  rw [htext]
  exact ⟨_, st', hcallee.append hcuts (List.cons_ne_nil _ _),
    .of_chained (chained_call hrows (hkind.trans (nameKind_identifier hname.2)) hlexeme htouches hopener hcloser)⟩

/-- A dot and a name after an expression. -/
theorem cuts_member {name : String} (h : e.CutsAs) (htarget : e.isTarget = true) (hname : IsName name) (file : String)
    (st : State) (hmore : EndsName more) :
    ∃ ts dot t st', Cuts file st (e.written.toList ++ '.' :: name.toList) more (ts ++ [dot, t]) st' ∧ Chained e ts ∧
      dot.kind = .symbol .dot ∧ t.kind.isName = true ∧ t.lexeme = name ∧
      (∀ u ∈ ts.getLast?, u.touches dot = true) ∧ dot.touches t = true := by
  have hbegins : startsWith isNameStart (name.toList ++ more) = true := by
    obtain ⟨c, cs, htext, hc, -⟩ := hname
    rw [htext]
    exact hc
  obtain ⟨ts, st₁, htarget', hspells⟩ := h file st ('.' :: (name.toList ++ more)) (.inr ⟨htarget, rfl⟩)
  obtain ⟨dot, st₂, hdot, hdotted, hstart⟩ := cuts_dot file st₁ hbegins
  obtain ⟨t, st₃, hmember, hkind, hlexeme, hbegin⟩ := cuts_name file st₂ hname hmore
  have hrest : Cuts file st₁ ('.' :: name.toList) more [dot, t] st₃ :=
    hdot.append hmember (List.cons_ne_nil _ _)
  exact ⟨ts, dot, t, st₃, htarget'.append hrest (List.cons_ne_nil _ _), hspells.chained htarget, hdotted,
    hkind ▸ isName_nameKind _, hlexeme, fun u hu => Token.touches_of (htarget'.stop u hu) hstart,
    Token.touches_of (hdot.stop dot rfl) hbegin⟩

/-- The dot and the field stand right behind the target, which must not be read together with them. -/
theorem cutsAs_fieldAccess {field : Ident} (h : e.CutsAs) (htarget : e.isTarget = true) (hname : IsName field.name) :
    CutsAs (.fieldAccess span e field) := by
  intro file st more hmore
  obtain ⟨ts, dot, t, st', hcuts, hchained, hdot, hkind, hlexeme, hlast, htouches⟩ :=
    cuts_member h htarget hname file st hmore.name
  have htext : (Node.fieldAccess span e field).written.toList = e.written.toList ++ '.' :: field.name.toList := by
    simp only [Node.written, String.toList_append, List.append_assoc]
    rfl
  rw [htext]
  exact ⟨_, st', hcuts, .of_chained (chained_fieldAccess hchained hdot hkind hlexeme hlast htouches)⟩

theorem cutsAs_methodCall {method : Ident} (h : e.CutsAs) (htarget : e.isTarget = true) (hname : IsName method.name)
    (hargs : ∀ e ∈ es, e.CutsAs) : CutsAs (.methodCall span e method es) := by
  intro file st more _
  have hparen : EndsName ('(' :: ((commaJoined (Node.allWritten es)).toList ++ [')'] ++ more)) :=
    fun _ hc => Option.some.inj hc ▸ by decide
  obtain ⟨ts, dot, t, st₁, hmember, hchained, hdot, hkind, hlexeme, hlast, htouches⟩ :=
    cuts_member h htarget hname file st hparen
  obtain ⟨opener, us, closer, st', hcuts, hrows, hopener, hcloser, hstart⟩ :=
    cuts_bracketed hargs file st₁ .openParen .closeParen '(' ')' rfl rfl rfl rfl (by decide) more
  have htext : (Node.methodCall span e method es).written.toList =
      e.written.toList ++ '.' :: method.name.toList ++ '(' :: ((commaJoined (Node.allWritten es)).toList ++ [')']) := by
    simp only [Node.written, String.toList_append, List.append_assoc]
    rfl
  have hcall : t.touches opener = true := Token.touches_of (hmember.stop t (by simp)) hstart
  have htokens : ts ++ [dot, t] ++ opener :: (us ++ [closer]) = ts ++ dot :: t :: opener :: (us ++ [closer]) :=
    List.append_assoc ts [dot, t] _
  rw [htext]
  exact ⟨_, st', htokens ▸ hmember.append hcuts (List.cons_ne_nil _ _), .of_chained
    (chained_methodCall hchained hrows hdot hkind hlexeme hlast htouches hcall hopener hcloser)⟩

/-! ### Operators -/

/-- The operand stands one blank behind the sign. -/
theorem cutsAs_unary {operator : UnaryOperator} (h : e.CutsAs) (hoperand : e.isOperand = true) :
    CutsAs (.unary span operator e) := by
  intro file st more hmore
  obtain ⟨t, st₁, hmark, hkind⟩ := cuts_unary file st operator (e.written.toList ++ more)
  obtain ⟨ts, st₂, hoperand', hspells⟩ := h file (st₁.blank file) more (.inl (hmore.value rfl))
  have hne := ne_nil_of_opens hspells.opens
  have htext : (Node.unary span operator e).written.toList = operator.text.toList ++ ' ' :: e.written.toList := by
    simp only [Node.written, String.toList_append, List.append_assoc]
    rfl
  rw [htext]
  exact ⟨_, st₂, hmark.append hoperand'.blank hne, spells_unary hspells hoperand hkind⟩

/-- The precedences make sure that no parentheses are needed. -/
theorem cutsAs_binary {operator : Operator} {left right : Node} (hleft : left.CutsAs) (hright : right.CutsAs)
    (htight : operator.precedence ≤ left.tightness) (htighter : operator.precedence < right.tightness) :
    CutsAs (.binary span operator left right) := by
  intro file st more hmore
  -- a blank ends the left operand, and the operator after it
  have hblank : EndsValue (' ' :: (operator.text.toList ++ ' ' :: (right.written.toList ++ more))) :=
    fun _ hc => Option.some.inj hc ▸ by decide
  obtain ⟨ts, st₁, hfirst, hspells⟩ := hleft file st _ (.inl hblank)
  obtain ⟨t, st₂, hmark, hkind⟩ := cuts_operator file (st₁.blank file) operator (right.written.toList ++ more)
  obtain ⟨us, st₃, hsecond, hspells'⟩ := hright file (st₂.blank file) more (.inl (hmore.value rfl))
  have hne := ne_nil_of_opens hspells'.opens
  have hrest : Cuts file st₁ (' ' :: (operator.text.toList ++ ' ' :: right.written.toList)) more (t :: us) st₃ :=
    (hmark.append hsecond.blank hne).blank
  have htext : (Node.binary span operator left right).written.toList =
      left.written.toList ++ ' ' :: (operator.text.toList ++ ' ' :: right.written.toList) := by
    simp only [Node.written, String.toList_append, List.append_assoc]
    rfl
  have hfirst : Cuts file st left.written.toList
      (' ' :: (operator.text.toList ++ ' ' :: right.written.toList) ++ more) ts st₁ := by
    rw [List.cons_append, List.append_assoc, List.cons_append]
    exact hfirst
  rw [htext]
  exact ⟨_, st₃, hfirst.append hrest (List.cons_ne_nil _ _), spells_binary hspells hspells' hkind htight htighter⟩

/-- **Values are cut into what spells them**, wherever they are written. -/
theorem IsValue.cuts (h : e.IsValue) : e.CutsAs := by
  induction h with
  | integer h => exact cutsAs_integer h
  | variableUse h => exact cutsAs_variable h
  | string => exact cutsAs_string _ _
  | boolean => exact cutsAs_boolean _ _
  | null => exact cutsAs_null _
  | list _ ih => exact cutsAs_list ih
  | tuple hlength _ ih => exact cutsAs_tuple ih hlength
  | paren _ ih => exact cutsAs_paren ih
  | record hkeys _ ih => exact cutsAs_record hkeys ih
  | call hname _ ih => exact cutsAs_call hname ih
  | fieldAccess htarget hname _ ih => exact cutsAs_fieldAccess ih htarget hname
  | methodCall htarget hname _ _ ih ihargs => exact cutsAs_methodCall ih htarget hname ihargs
  | unary hoperand _ ih => exact cutsAs_unary ih hoperand
  | binary htight htighter _ _ ih ih' => exact cutsAs_binary ih ih' htight htighter

end Node

end ShellFront
