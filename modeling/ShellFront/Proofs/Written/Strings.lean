import ShellFront.Proofs.Patterns.Rendering
import ShellFront.Proofs.Token.Quotes
import ShellFront.Proofs.Written.RoundTrip

/-!
# Strings denote the text that they quote

There are five ways to write a text as a string. Between single or double quotes any text can be written, with
backslashes before quotes and backslashes; the other styles have no escapes, so the text is written as it is, and the
quotes must not occur in it. Each way the lexer finds one string with just this text as its value, and a string by
itself is an expression.

## Contents
- `StringStyle.quoted`, the characters of `StringStyle.written`, and `StringStyle.CanHold`.
- `Piece.string?_quoted`, `Lexer.cuts_string`: the token of a written string.
- `Grammar.expression_string`: the expression that it is.
- `tokenize_written_string`.
-/

namespace ShellFront

/-! ## Styles -/

namespace StringStyle

/-- The characters of a string. -/
def quoted (text : List Char) : StringStyle → List Char
  | double => '\x22' :: (hidden '\x22' text ++ ['\x22'])
  | single => '\x27' :: (hidden '\x27' text ++ ['\x27'])
  | triple => '\x22' :: '\x22' :: '\x22' :: (text ++ ['\x22', '\x22', '\x22'])
  | raw => 'r' :: '\x22' :: (text ++ ['\x22'])
  | backtick => '\x60' :: (text ++ ['\x60'])

theorem toList_written (style : StringStyle) (text : String) :
    (style.written text).toList = style.quoted text.toList := by
  cases style <;> simp [written, escapedText, quoted, hidden]

/-- A text can be written in a style: where there are no escapes, the closing quotes do not occur before its end. -/
def CanHold (text : List Char) : StringStyle → Prop
  | double | single => True
  | triple => ¬ ['\x22', '\x22', '\x22'] <:+: text ∧ text.getLast? ≠ some '\x22'
  | raw => '\x22' ∉ text
  | backtick => '\x60' ∉ text

instance (text : List Char) : (style : StringStyle) → Decidable (style.CanHold text)
  | double | single => .isTrue trivial
  | triple =>
      inferInstanceAs (Decidable (¬ ['\x22', '\x22', '\x22'] <:+: text ∧ text.getLast? ≠ some '\x22'))
  | raw => inferInstanceAs (Decidable ('\x22' ∉ text))
  | backtick => inferInstanceAs (Decidable ('\x60' ∉ text))

end StringStyle

/-! ## Tokens -/

namespace Piece

variable {text cs : List Char} {c : Char} {style : StringStyle}

/-- A text between quotes that it does not hold. -/
theorem verbatim_text {mark : List Char} (opener : Nat) (otherwise : Piece)
    (h : findText mark (text ++ mark) = some text.length) :
    verbatim style opener mark (text ++ mark) otherwise =
      ⟨.string style, opener + text.length + mark.length, some text, none⟩ := by
  rw [verbatim_found h, List.take_left]

/-- A text between quotes, where it is escaped. -/
theorem escapedString_text {quote : Char} (hquote : escaped? quote = some quote) (hne : quote ≠ '\\')
    (text : List Char) (otherwise : Piece) :
    escapedString style quote (hidden quote text ++ [quote]) otherwise =
      ⟨.string style, (hidden quote text).length + 2, some text, none⟩ := by
  rw [escapedString_found (closingQuote_hidden hne text []), List.take_left, unescape_hidden hquote]

/-- **What is written is a string with its text as value.** -/
theorem string?_quoted (hhold : style.CanHold text) (hquoted : style.quoted text = c :: cs) :
    string? c cs = some ⟨.string style, cs.length + 1, some text, none⟩ := by
  cases style <;> obtain ⟨rfl, rfl⟩ := List.cons.inj hquoted <;> rw [string?_eq]
  case double =>
    -- behind the opening quotation mark there are no two more, which would open a triple string
    have hends : EndsName [] := fun _ h => absurd h (Option.not_mem_none _)
    have hquotes : ¬ ['\x22', '\x22'].isPrefixOf (hidden '\x22' text ++ ['\x22']) = true := quotes_free text hends
    rw [if_pos rfl, if_neg hquotes, escapedString_text rfl (by decide)]
    simp
  case single =>
    rw [if_neg (by decide), if_neg (by decide), if_neg (by decide), if_pos rfl, escapedString_text rfl (by decide)]
    simp
  case triple =>
    have hfound := findText_quotes hhold.1 hhold.2 []
    rw [if_pos rfl, if_pos (by rfl), List.drop_succ_cons, List.drop_succ_cons, List.drop_zero, verbatim_text 3 _ hfound]
    simp
    omega
  case raw =>
    have hfound := findText_quote hhold []
    rw [if_neg (by decide), if_pos rfl, if_pos (by rfl), List.drop_succ_cons, List.drop_zero, verbatim_text 2 _ hfound]
    simp
    omega
  case backtick =>
    have hfound := findText_quote hhold []
    rw [if_neg (by decide), if_neg (by decide), if_pos rfl, List.drop_zero, verbatim_text 1 _ hfound]
    simp
    omega

end Piece

namespace Lexer

/-- What is written in a style begins a piece. -/
theorem beginsPiece_quoted {text cs : List Char} {c : Char} {style : StringStyle}
    (hquoted : style.quoted text = c :: cs) : beginsPiece c = true := by
  cases style <;> obtain ⟨rfl, -⟩ := List.cons.inj hquoted <;> rfl

/-- A written string is cut into its token. -/
theorem cuts_string {text : List Char} {style : StringStyle} (hhold : style.CanHold text) (file : String)
    (st : State) : ∃ t st', Cuts file st (style.quoted text) [] [t] st' ∧
      t.content = (.string style, String.ofList (style.quoted text), some (String.ofList text)) := by
  obtain ⟨c, cs, hquoted⟩ : ∃ c cs, style.quoted text = c :: cs := by cases style <;> exact ⟨_, _, rfl⟩
  have hpiece (wordStart : Bool) :
      Piece.next wordStart c (cs ++ []) = ⟨.string style, cs.length + 1, some text, none⟩ := by
    rw [List.append_nil]
    refine Piece.next_literal ?_ wordStart
    rw [Piece.literal?, Piece.string?_quoted hhold hquoted]
    rfl
  obtain ⟨t, st', hcuts, hmade⟩ := cuts_piece file st cs [] (beginsPiece_quoted hquoted) hpiece rfl rfl
  rw [hquoted]
  refine ⟨t, st', hcuts, ?_⟩
  rw [Token.content, hmade.kind, hmade.lexeme, hmade.value]
  rfl

end Lexer

/-! ## Expressions -/

namespace Grammar

open Parse

variable {ctx : Context} {c c' : Cursor} {t : Token} {style : StringStyle}

/-- A string is an expression without operators. -/
theorem primary_string (r : Rules) (hread : c.Reads [t] c') (ht : t.kind = .string style) :
    Gives (primary r) ctx c (· = .literal t.span (.string t.payload style)) c' := by
  obtain ⟨hcurrent, hrest⟩ := hread.step (by rw [ht]; exact TokenKind.noConfusion)
  refine .peek ?_
  rw [hcurrent, ht]
  refine .advance ?_
  rw [hrest.eq_of_nil]
  exact .pure rfl

/-- **A string at the end of the input is an expression by itself.** -/
theorem expression_string (n : Nat) (hread : c.Reads [t] c') (ht : t.kind = .string style)
    (hend : c'.kind = .endOfInput) :
    Gives (expression (.upTo n)) ctx c (· = .literal t.span (.string t.payload style)) c' :=
  expression_of_primary (primary_string _ hread ht) (by rw [hread.kind, ht]; rfl) hend

end Grammar

open Parse in
/-- An expression is read from a string, up to the end of the input. -/
theorem run_expression_string (t last : Token) {style : StringStyle} (ht : t.kind = .string style)
    (hlast : last.kind = .endOfInput) (recovering : Bool) (isBuiltin : String → Bool) (report : Report)
    (log : Array LogEntry) :
    ∃ after, (Session.start [t, last] 0 recovering isBuiltin report log).run Parse.expression =
        (.ok (.literal t.span (.string t.payload style)), after) ∧
      after.state = ⟨⟨[t], last, []⟩, report, log⟩ := by
  obtain ⟨_, after, hrun, rfl, hafter⟩ := Session.run_of_gives Rules.expression (List.cons_ne_nil t []) hlast recovering
    isBuiltin (fun c c' hread hend => Grammar.expression_string _ hread ht hend) report log
  exact ⟨after, hrun, hafter⟩

/-! ## Scripts -/

/-- **Strings denote the text that they quote.** A text that is written as a string, in a style that can hold it, is cut
    into one string of this style with the text as its value, and nothing is reported. Read as an expression, it is
    the literal with this value and this style, up to the end of the input. -/
theorem tokenize_written_string (style : StringStyle) (text : String) (hhold : style.CanHold text.toList)
    (file : String) (recovering : Bool) (isBuiltin : String → Bool) (report : Report) (log : Array LogEntry) :
    let source := style.written text
    let lexing := tokenize source file
    lexing.report = .empty ∧ ∃ span place after,
      lexing.tokens = [⟨.string style, source, span, some text⟩, .endMark file place] ∧
      (Session.start lexing.tokens 0 recovering isBuiltin report log).run Parse.expression =
        (.ok (.literal span (.string text style)), after) ∧
      after.state.cursor.current = .endMark file place ∧ after.report = report := by
  obtain ⟨⟨kind, lexeme, span, value⟩, st, hcuts, hcontent⟩ := Lexer.cuts_string hhold file (.first .empty)
  obtain ⟨rfl, hcontent⟩ := Prod.mk.inj hcontent
  obtain ⟨rfl, rfl⟩ := Prod.mk.inj hcontent
  intro source lexing
  rw [← StringStyle.toList_written] at hcuts
  obtain ⟨htokens, hreport⟩ := tokenize_of_cuts hcuts
  rw [String.ofList_toList, String.ofList_toList] at htokens
  obtain ⟨after, hrun, hafter⟩ := run_expression_string ⟨.string style, source, span, some text⟩
    (.endMark file st.place) rfl rfl recovering isBuiltin report log
  refine ⟨hreport, span, st.place, after, htokens, ?_, ?_, ?_⟩
  · rw [show lexing.tokens = _ from htokens]
    exact hrun
  · rw [hafter]
  · rw [Session.report, hafter]

/-- Two quotes, a backslash and a line feed between triple quotes, where only the text as it is can be written. -/
theorem tokenize_written_string_triple :
    let text := "'\x22\x22\\\n'"
    let source := StringStyle.written text .triple
    StringStyle.CanHold text.toList .triple ∧ source = "\x22\x22\x22'\x22\x22\\\n'\x22\x22\x22" ∧
      (tokenize source "").report = .empty ∧ ∃ span place after,
        (tokenize source "").tokens = [⟨.string .triple, source, span, some text⟩, .endMark "" place] ∧
        (Session.start (tokenize source "").tokens 0 false (fun _ => false) .empty #[]).run Parse.expression =
          (.ok (.literal span (.string text .triple)), after) ∧
        after.state.cursor.current = .endMark "" place ∧ after.report = .empty := by
  intro text source
  have hhold : StringStyle.CanHold text.toList .triple := by decide
  exact ⟨hhold, by decide, tokenize_written_string .triple text hhold "" false (fun _ => false) .empty #[]⟩

/-- Between single quotes the same text has three backslashes. -/
example : StringStyle.written "'\x22\x22\\\n'" .single = "'\\'\x22\x22\\\\\n\\''" := by decide

end ShellFront
