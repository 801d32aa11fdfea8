import ShellFront.Proofs.Number.Spellings
import ShellFront.Proofs.Patterns.Consumed
import ShellFront.Proofs.Written.Strings

/-!
# Integers denote their value

Every spelling of a number, in any of the four radices, is cut into one integer of this radix and read as the literal
with this value; after a minus sign it is a pattern for the negative number. The other way round, an integer token
anywhere in a script is the spelling of a number, unless nothing but underscores follows its mark or it has too many
decimal digits. Only then is it refused.

## Contents
- `Piece.next_integer`, `Lexer.cuts_numeral`, `Lexer.cuts_negative`: the tokens of a spelling.
- `Grammar.expression_integer`, `Grammar.statement_integer`: the expression that it is.
- `Token.StandsForNothing`, `Parse.integerLiteral_refuses_iff`, `Parse.integerLiteral_spelled`: what an integer token
  stands for.
- `tokenize_spelled`, `run_pattern_negative`, `integers_denote`.
-/

namespace ShellFront

variable {radix : Radix} {digits : List Char}

/-! ## Tokens -/

/-- What the lexer makes of the mark of a radix, unless it is ten. -/
theorem Radix.exists_mark (h : radix ≠ .decimal) :
    ∃ m, radix.mark.toList = ['0', m] ∧ Piece.radixMark? m = some (radix, radix.allows) := by
  cases radix with
  | decimal => contradiction
  | hexadecimal => exact ⟨'x', rfl, rfl⟩
  | binary => exact ⟨'b', rfl, rfl⟩
  | octal => exact ⟨'o', rfl, rfl⟩

namespace Piece

variable {c d m : Char} {cs : List Char}

theorem marked?_allowed (hm : radixMark? m = some (radix, radix.allows)) (hne : digits ≠ [])
    (hallowed : ∀ d ∈ digits, radix.allows d = true) :
    marked? '0' (m :: digits) = some ⟨.integer radix, digits.length + 2, none, none⟩ := by
  have hrun : runLength radix.allows digits = digits.length := by
    rw [runLength, List.takeWhile_eq_self_iff.mpr hallowed]
  have hstart : startsWith radix.allows digits = true := by
    obtain ⟨d, ds, rfl⟩ := List.exists_cons_of_ne_nil hne
    exact hallowed d List.mem_cons_self
  rw [marked?, hm]
  dsimp only
  rw [if_pos hstart, hrun, Nat.add_comm]

/-- **A mark and characters for its radix are one integer**, up to the end of the text. -/
theorem next_integer (hne : digits ≠ []) (hallowed : ∀ d ∈ digits, radix.allows d = true)
    (htext : radix.mark.toList ++ digits = c :: cs) (wordStart : Bool) :
    next wordStart c cs = ⟨.integer radix, cs.length + 1, none, none⟩ := by
  by_cases hradix : radix = .decimal
  · subst hradix
    obtain rfl : digits = c :: cs := htext
    obtain ⟨hc, hcs⟩ := List.forall_mem_cons.mp hallowed
    have hends : EndsValue [] := fun _ h => absurd h (Option.not_mem_none _)
    have hnext := next_digits hc hcs hends wordStart
    rwa [List.append_nil] at hnext
  · -- the zero of the mark is a digit, so that no other form of literal comes first
    obtain ⟨m, hmark, hm⟩ := Radix.exists_mark hradix
    rw [hmark] at htext
    obtain ⟨rfl, hcs⟩ := List.cons.inj htext
    obtain rfl : m :: digits = cs := hcs
    refine next_literal ?_ wordStart
    have hnumber : number? '0' (m :: digits) = some ⟨.integer radix, (m :: digits).length + 1, none, none⟩ := by
      rw [number?_eq, marked?_allowed hm hne hallowed]
      rfl
    rw [literal?, string?_of_isDigit rfl, hnumber]
    rfl

/-- A dash before a digit is a sign. -/
theorem next_minus (hd : isDigit d = true) (wordStart : Bool) :
    next wordStart '-' (d :: cs) = ⟨.symbol .minus, 1, none, none⟩ := by
  have hne (c : Char) (hc : isDigit c = false) : d ≠ c := ne_of_isDigit hd hc
  have hletter : isLetter d = false := Bool.eq_false_iff.mpr fun hletter => by
    rw [isDigit_of_isNameStart (by rw [isNameStart, hletter]; rfl)] at hd
    contradiction
  have hshell : (if wordStart then shellWord? '-' (d :: cs) else none) = none := by
    cases wordStart with
    | false => rfl
    | true => simp [shellWord?, flag?, path?, pathOpening?, startsWith, hne '-' rfl, hletter]
  -- the other symbols that begin with a dash go on with a mark that is no digit
  have hsymbol : symbol? '-' (d :: cs) = some ⟨.symbol .minus, 1, none, none⟩ := by
    simp [symbol?, Symbol.spelled, Symbol.text, List.isPrefixOf, (hne '>' rfl).symm, (hne '=' rfl).symm]
    rfl
  have hliteral : literal? '-' (d :: cs) = none := rfl
  have hword : word? '-' (d :: cs) = none := rfl
  rw [next_eq, hliteral, hshell, hword, hsymbol]
  rfl

end Piece

namespace Lexer

variable {st : State}

/-- The mark of a radix and characters for it begin with a digit. -/
theorem beginsDigit (hne : digits ≠ []) (hallowed : ∀ d ∈ digits, radix.allows d = true) :
    ∃ c cs, radix.mark.toList ++ digits = c :: cs ∧ isDigit c = true := by
  by_cases hradix : radix = .decimal
  · subst hradix
    obtain ⟨c, cs, rfl⟩ := List.exists_cons_of_ne_nil hne
    exact ⟨c, cs, rfl, hallowed c List.mem_cons_self⟩
  · obtain ⟨m, hmark, -⟩ := Radix.exists_mark hradix
    rw [hmark]
    exact ⟨'0', m :: digits, rfl, rfl⟩

/-- The spelling of a number is cut into one token. -/
theorem cuts_numeral (file : String) (st : State) (hne : digits ≠ []) (hallowed : ∀ d ∈ digits, radix.allows d = true) :
    ∃ t st', Cuts file st (radix.mark.toList ++ digits) [] [t] st' ∧
      t.content = (.integer radix, String.ofList (radix.mark.toList ++ digits), none) := by
  obtain ⟨c, cs, htext, hc⟩ := beginsDigit hne hallowed
  obtain ⟨t, st', hcuts, hmade⟩ := cuts_piece file st cs [] (beginsPiece_of hc (by decide))
    (fun wordStart => by rw [List.append_nil]; exact Piece.next_integer hne hallowed htext wordStart) rfl rfl
  rw [htext]
  refine ⟨t, st', hcuts, ?_⟩
  rw [Token.content, hmade.kind, hmade.lexeme, hmade.value]
  rfl

/-- With a minus sign before it, it is cut into two. -/
theorem cuts_negative (file : String) (st : State) (hne : digits ≠ [])
    (hallowed : ∀ d ∈ digits, radix.allows d = true) :
    ∃ sign t st', Cuts file st ('-' :: (radix.mark.toList ++ digits)) [] [sign, t] st' ∧
      sign.content = Symbol.minus.content ∧
      t.content = (.integer radix, String.ofList (radix.mark.toList ++ digits), none) := by
  obtain ⟨c, cs, htext, hc⟩ := beginsDigit hne hallowed
  obtain ⟨sign, st₁, hsign, hmade⟩ := cuts_piece file st [] (radix.mark.toList ++ digits) (c := '-') (by decide)
    (fun wordStart => by rw [htext]; exact Piece.next_minus hc wordStart) rfl rfl
  obtain ⟨t, st₂, hnumber, hcontent⟩ := cuts_numeral file st₁ hne hallowed
  have hsign : Cuts file st ['-'] (radix.mark.toList ++ digits ++ []) [sign] st₁ := by rwa [List.append_nil]
  refine ⟨sign, t, st₂, hsign.append hnumber (List.cons_ne_nil _ _), ?_, hcontent⟩
  rw [Token.content, hmade.kind, hmade.lexeme, hmade.value]
  rfl

end Lexer

/-! ## Expressions -/

namespace Grammar

open Parse

variable {n : Nat} {ctx : Context} {c c' : Cursor} {t : Token}

/-- **An integer at the end of the input is an expression by itself.** -/
theorem expression_integer (m : Nat) (hread : c.Reads [t] c') (hkind : t.kind = .integer radix)
    (hvalue : Numeral.value? radix (t.lexeme.toList.drop radix.markLength) = some n) (hend : c'.kind = .endOfInput) :
    Gives (expression (.upTo m)) ctx c (· = .literal t.span (.integer n radix)) c' := by
  refine expression_of_primary ?_ (by rw [hread.kind, hkind]; rfl) hend
  obtain ⟨hcurrent, rfl⟩ := hread.single (by rw [hkind]; nofun)
  exact primary_integer _ hcurrent hkind hvalue (by rw [hend]; rfl)

/-- It is a statement, too. -/
theorem statement_integer (m : Nat) (hread : c.Reads [t] c') (hkind : t.kind = .integer radix)
    (hvalue : Numeral.value? radix (t.lexeme.toList.drop radix.markLength) = some n) (hend : c'.kind = .endOfInput) :
    Gives (statement (.upTo m)) ctx c (· = .literal t.span (.integer n radix)) c' := by
  have hkind' : c.kind = .integer radix := hread.kind.trans hkind
  refine .skipWhile (by rw [hkind']; rfl) (.peek ?_)
  rw [show c.current.kind = .integer radix from hkind']
  exact expression_integer m hread hkind hvalue hend

end Grammar

/-! ## What an integer token stands for -/

namespace Token

variable {t : Token}

/-- An integer token **stands for nothing** if only underscores follow its mark or it has too many decimal digits. -/
def StandsForNothing (t : Token) (radix : Radix) : Prop :=
  radix ≠ .decimal ∧ (∀ c ∈ t.lexeme.toList.drop 2, c = '_') ∨
    radix = .decimal ∧ Numeral.decimalLimit < t.lexeme.length

theorem Spelt.value_eq_none_iff (h : t.Spelt) (hkind : t.kind = .integer radix) :
    Numeral.value? radix (t.lexeme.toList.drop radix.markLength) = none ↔ t.StandsForNothing radix := by
  obtain ⟨digits, htext, hne, hallowed⟩ := h.integer hkind
  rw [StandsForNothing, ← String.length_toList, htext, ← radix.length_mark, List.drop_left,
    Numeral.value_eq_none_iff hallowed hne]
  cases radix <;> simp [Radix.mark]

end Token

namespace Parse

variable {t : Token}

/-- **An integer token is refused just if it stands for nothing.** -/
theorem integerLiteral_refuses_iff (h : t.Spelt) (hkind : t.kind = .integer radix) (negative : Bool) (ctx : Context)
    (st : State) :
    (∃ e st', integerLiteral t radix negative ctx st = .error e st' ∧ e.problem.text = "Invalid integer literal") ↔
      t.StandsForNothing radix := by
  rw [← h.value_eq_none_iff hkind, integerLiteral]
  cases hvalue : Numeral.value? radix (t.lexeme.toList.drop radix.markLength) with
  | none => exact iff_of_true ⟨_, _, failAt_run t .invalidInteger ctx st, rfl⟩ rfl
  | some n =>
      refine iff_of_false ?_ (Option.some_ne_none n)
      rintro ⟨e, st', hrun, -⟩
      cases hrun

/-- Otherwise it spells the number that it is read as. -/
theorem integerLiteral_spelled (h : t.Spelt) (hkind : t.kind = .integer radix) (hsome : ¬ t.StandsForNothing radix) :
    ∃ (n : Nat) (text : String), t.lexeme = radix.mark ++ text ∧ Numeral.Spells radix n text.toList ∧
      ∀ negative ctx st,
        integerLiteral t radix negative ctx st = .ok (.integer (if negative then -(n : Int) else n) radix) st := by
  obtain ⟨digits, htext, -, hallowed⟩ := h.integer hkind
  rw [← h.value_eq_none_iff hkind] at hsome
  obtain ⟨n, hvalue⟩ := Option.ne_none_iff_exists'.mp hsome
  refine ⟨n, String.ofList digits, ?_, ?_, fun negative ctx st => by rw [integerLiteral, hvalue]; rfl⟩
  · rw [← String.toList_inj, htext, String.toList_append, String.toList_ofList]
  · rw [htext, ← radix.length_mark, List.drop_left] at hvalue
    rw [String.toList_ofList]
    exact Numeral.spells_of_value hallowed hvalue

end Parse

/-! ## Spellings -/

section Spelled

open Parse

variable {n : Nat} {text : String} (h : Numeral.Spells radix n text.toList)
  (hlength : radix = .decimal → text.length ≤ Numeral.decimalLimit) (file : String) (recovering : Bool)
  (isBuiltin : String → Bool) (report : Report) (log : Array LogEntry)

include h hlength

/-- The value of the token that a spelling is. -/
theorem value_of_spelled {t : Token} (ht : t.lexeme = radix.mark ++ text) :
    Numeral.value? radix (t.lexeme.toList.drop radix.markLength) = some n := by
  rw [ht, String.toList_append, ← radix.length_mark, List.drop_left]
  exact h.value fun hradix => String.length_toList ▸ hlength hradix

/-- A spelling is one token, and a script by itself. -/
theorem tokenize_spelled (failFast : Bool) :
    let source := radix.mark ++ text
    let lexing := tokenize source file
    lexing.report = .empty ∧ ∃ span place after,
      lexing.tokens = [⟨.integer radix, source, span, none⟩, .endMark file place] ∧
      (Session.start lexing.tokens 0 recovering isBuiltin report log).run Parse.expression =
        (.ok (.literal span (.integer n radix)), after) ∧
      after.state.cursor.current = .endMark file place ∧ after.report = report ∧
      (parse source file failFast isBuiltin).report = .empty ∧
      (parse source file failFast isBuiltin).program.statements = [.literal span (.integer n radix)] := by
  intro source lexing
  obtain ⟨⟨kind, lexeme, span, value⟩, st, hcuts, hcontent⟩ :=
    Lexer.cuts_numeral file (.first .empty) h.ne_nil h.allowed
  rw [← String.toList_append] at hcuts hcontent
  obtain ⟨rfl, hcontent⟩ := Prod.mk.inj hcontent
  obtain ⟨rfl, rfl⟩ := Prod.mk.inj hcontent
  rw [String.ofList_toList] at hcuts
  obtain ⟨htokens, hreport⟩ := tokenize_of_cuts hcuts
  have hvalue := value_of_spelled h hlength (t := ⟨.integer radix, source, span, none⟩) rfl
  have hlast : (Token.endMark file st.place).kind = .endOfInput := rfl
  obtain ⟨_, after, hrun, rfl, hafter⟩ := Session.run_of_gives Rules.expression (List.cons_ne_nil _ []) hlast recovering
    isBuiltin (fun c c' hread hend => Grammar.expression_integer _ hread rfl hvalue hend) report log
  obtain ⟨hquiet, _, hstatements, rfl⟩ := parse_statement hcuts rfl rfl failFast isBuiltin
    fun c c' hread hend => Grammar.statement_integer _ hread rfl hvalue hend
  refine ⟨hreport, span, st.place, after, htokens, ?_, ?_, ?_, hquiet, hstatements⟩
  · rw [show lexing.tokens = _ from htokens]
    exact hrun
  · rw [hafter]
  · rw [Session.report, hafter]

/-- After a minus sign it is a pattern. -/
theorem run_pattern_negative :
    let lexing := tokenize ("-" ++ (radix.mark ++ text)) file
    lexing.report = .empty ∧ ∃ span after,
      (Session.start lexing.tokens 0 recovering isBuiltin report log).run Parse.pattern =
        (.ok (.literal span (.integer (-n) radix)), after) ∧
      after.state.cursor.kind = .endOfInput ∧ after.report = report := by
  intro lexing
  obtain ⟨sign, t, st, hcuts, hsign, hcontent⟩ := Lexer.cuts_negative file (.first .empty) h.ne_nil h.allowed
  have htext : ("-" ++ (radix.mark ++ text)).toList = '-' :: (radix.mark.toList ++ text.toList) := by
    rw [String.toList_append, String.toList_append]
    rfl
  rw [← htext] at hcuts
  obtain ⟨htokens, hreport⟩ := tokenize_of_cuts hcuts
  have hlexeme : t.lexeme = radix.mark ++ text := by
    rw [Token.lexeme_of_content hcontent, ← String.toList_append, String.ofList_toList]
  have hnumber : Literal.Number (.integer n radix) t :=
    .integer (Token.kind_of_content hcontent) (value_of_spelled h hlength hlexeme)
  have hbuilt : Pattern.BuiltFrom (fun _ => True) (.literal (.origin file) (.integer (-n) radix)) := .literal trivial
  have hlast : (Token.endMark file st.place).kind = .endOfInput := rfl
  obtain ⟨q, after, hrun, halike, hafter⟩ := run_pattern_spelled hbuilt (.literal (.negative hsign hnumber)) hlast
    recovering isBuiltin report log
  obtain ⟨span, rfl⟩ := halike.of_literal
  refine ⟨hreport, span, after, ?_, ?_, ?_⟩
  · rw [show lexing.tokens = _ from htokens]
    exact hrun
  · rw [hafter]
    rfl
  · rw [Session.report, hafter]

end Spelled

open Parse in
/-- **Integers denote their value.** A text that spells a number in a radix, with not too many digits if they are
    decimal, is cut into one integer of this radix. Read as an expression, and as a script, it is the literal with this
    value and this radix, up to the end of the input, and with a minus sign before it, it is the pattern for the
    negative number. An integer token of any script is refused as invalid just if it stands for nothing; otherwise it
    spells the number that is read from it. -/
theorem integers_denote :
    (∀ (radix : Radix) (n : Nat) (text : String), Numeral.Spells radix n text.toList →
      (radix = .decimal → text.length ≤ Numeral.decimalLimit) →
      ∀ (file : String) (recovering failFast : Bool) (isBuiltin : String → Bool) (report : Report)
        (log : Array LogEntry),
      let source := radix.mark ++ text
      let lexing := tokenize source file
      let negative := tokenize ("-" ++ source) file
      (lexing.report = .empty ∧ ∃ span place after,
        lexing.tokens = [⟨.integer radix, source, span, none⟩, .endMark file place] ∧
        (Session.start lexing.tokens 0 recovering isBuiltin report log).run Parse.expression =
          (.ok (.literal span (.integer n radix)), after) ∧
        after.state.cursor.current = .endMark file place ∧ after.report = report ∧
        (parse source file failFast isBuiltin).report = .empty ∧
        (parse source file failFast isBuiltin).program.statements = [.literal span (.integer n radix)]) ∧
      negative.report = .empty ∧ ∃ span after,
        (Session.start negative.tokens 0 recovering isBuiltin report log).run Parse.pattern =
          (.ok (.literal span (.integer (-n) radix)), after) ∧
        after.state.cursor.kind = .endOfInput ∧ after.report = report) ∧
    ∀ (source file : String), ∀ t ∈ (tokenize source file).tokens, ∀ radix, t.kind = .integer radix →
      (∀ negative ctx st,
        (∃ e st', integerLiteral t radix negative ctx st = .error e st' ∧ e.problem.text = "Invalid integer literal") ↔
          t.StandsForNothing radix) ∧
      (¬ t.StandsForNothing radix →
        ∃ (n : Nat) (text : String), t.lexeme = radix.mark ++ text ∧ Numeral.Spells radix n text.toList ∧
          ∀ negative ctx st,
            integerLiteral t radix negative ctx st = .ok (.integer (if negative then -(n : Int) else n) radix) st) := by
  constructor
  · intro radix n text h hlength file recovering failFast isBuiltin report log
    exact ⟨tokenize_spelled h hlength file recovering isBuiltin report log failFast,
      run_pattern_negative h hlength file recovering isBuiltin report log⟩
  · intro source file t ht radix hkind
    have hspelt := tokenize_spelt source file t ht
    exact ⟨integerLiteral_refuses_iff hspelt hkind, integerLiteral_spelled hspelt hkind⟩

/-- Zeros, capitals and underscores in a number. -/
theorem integers_denote_capitals :
    Numeral.Spells .hexadecimal 255 "_0fF_".toList ∧ ∃ span,
      (parse "0x_0fF_" "" false fun _ => false).program.statements = [.literal span (.integer 255 .hexadecimal)] := by
  have hspells : Numeral.Spells .hexadecimal 255 "_0fF_".toList := ⟨⟨1, by decide⟩, by decide⟩
  obtain ⟨⟨-, span, -, -, -, -, -, -, -, hstatements⟩, -⟩ := integers_denote.1 .hexadecimal 255 "_0fF_" hspells
    (by nofun) "" false false (fun _ => false) .empty #[]
  exact ⟨hspells, span, hstatements⟩

end ShellFront
