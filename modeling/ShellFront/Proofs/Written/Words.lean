import ShellFront.Proofs.Token.NextLines
import ShellFront.Proofs.Token.Quotes
import ShellFront.Proofs.Written.Values

/-!
# Words of written values

What the lexer makes of the words that values are written with. A word is always given together with what follows
it, since the lexer looks ahead; all that counts is the first character of what follows, and that is a blank or one
of few marks.

## Contents
- `EndsName`, `EndsValue`: what can follow.
- `Piece.next_digits`, `Piece.next_variable`, `Piece.next_quoted`, `Piece.next_name`.
- `Piece.next_mark`, `Piece.next_dot`, `Piece.next_symbol`.
-/

namespace ShellFront

/-! ## What can follow -/

/-- Nothing follows, or a blank, or a mark that stands after values. -/
def EndsValue (more : List Char) : Prop := ∀ c ∈ more.head?, c ∈ [' ', ',', ')', ']', '\x7d']

/-- Nothing follows that goes on with a name. -/
def EndsName (more : List Char) : Prop := ∀ c ∈ more.head?, c ∈ [' ', ',', ')', ']', '\x7d', '.', '(', ':']

theorem EndsValue.cases {c : Char} {more : List Char} (h : EndsValue more) (hc : c ∈ more.head?) :
    c = ' ' ∨ c = ',' ∨ c = ')' ∨ c = ']' ∨ c = '\x7d' := by
  simpa using h c hc

theorem EndsValue.name {more : List Char} (h : EndsValue more) : EndsName more := fun c hc =>
  List.mem_append_left ['.', '(', ':'] (h c hc)

/-- Brackets, braces and commas. -/
def Symbol.isMark : Symbol → Bool
  | .openParen | .closeParen | .openBracket | .closeBracket | .openBrace | .closeBrace | .comma => true
  | _ => false

namespace Piece

variable {c d : Char} {cs more : List Char} {p : Char → Bool} {wordStart : Bool} {piece : Piece}

/-- What follows a name does not begin with characters that none of its marks is. -/
theorem startsWith_ends (h : EndsName more)
    (hp : ∀ c ∈ [' ', ',', ')', ']', '\x7d', '.', '(', ':'], p c = false) : startsWith p more = false := by
  cases more with
  | nil => rfl
  | cons d ds => exact hp d (h d rfl)

/-- Characters of a class are a run up to where no such character follows. -/
theorem takeWhile_run (hcs : ∀ d ∈ cs, p d = true) (hmore : startsWith p more = false) :
    (cs ++ more).takeWhile p = cs := by
  have hstop : more.takeWhile p = [] := by
    cases more with
    | nil => rfl
    | cons d ds => exact List.takeWhile_cons_of_neg (Bool.not_eq_true _ ▸ hmore)
  rw [List.takeWhile_append_of_pos hcs, hstop, List.append_nil]

theorem startsWith_append (h : startsWith p cs = true) : startsWith p (cs ++ more) = true := by
  cases cs with
  | nil => contradiction
  | cons d ds => exact h

theorem next_literal (h : literal? c cs = some piece) (wordStart : Bool) : next wordStart c cs = piece := by
  rw [next_eq, h]
  rfl

/-! ## Integers -/

/-- A digit is no other character. -/
theorem ne_of_isDigit (hc : isDigit c = true) (hd : isDigit d = false) : c ≠ d := by
  rintro rfl
  rw [hd] at hc
  contradiction

theorem string?_of_isDigit (hc : isDigit c = true) (cs : List Char) : string? c cs = none := by
  rw [string?_eq, if_neg (ne_of_isDigit hc (by decide)), if_neg (ne_of_isDigit hc (by decide)),
    if_neg (ne_of_isDigit hc (by decide)), if_neg (ne_of_isDigit hc (by decide))]

theorem radixMark?_eq_none (hx : c ≠ 'x') (hb : c ≠ 'b') (ho : c ≠ 'o') : radixMark? c = none := by
  unfold radixMark?
  split <;> first | contradiction | rfl

/-- Digits are no integer with a radix mark. -/
theorem marked?_digits (hcs : ∀ d ∈ cs, isDigit d = true) (hmore : EndsValue more) : marked? c (cs ++ more) = none := by
  have hmark : ∀ m ∈ (cs ++ more).head?, radixMark? m = none := by
    intro m hm
    cases cs with
    | nil =>
        rcases hmore.cases hm with rfl | rfl | rfl | rfl | rfl <;> rfl
    | cons d ds =>
        have hdigit := hcs d List.mem_cons_self
        obtain rfl : d = m := Option.some.inj hm
        exact radixMark?_eq_none (ne_of_isDigit hdigit (by decide)) (ne_of_isDigit hdigit (by decide))
          (ne_of_isDigit hdigit (by decide))
  unfold marked?
  split
  · next m ds htext =>
      rw [hmark m (by rw [htext]; rfl)]
  · rfl

theorem fractionLength_ends (hmore : EndsValue more) : fractionLength more = 0 := by
  cases more with
  | nil => rfl
  | cons d ds => rcases hmore.cases (c := d) rfl with rfl | rfl | rfl | rfl | rfl <;> rfl

theorem exponentLength_ends (hmore : EndsValue more) : exponentLength more = 0 := by
  cases more with
  | nil => rfl
  | cons d ds => rcases hmore.cases (c := d) rfl with rfl | rfl | rfl | rfl | rfl <;> rfl

/-- **Digits are an integer.** -/
theorem next_digits (hc : isDigit c = true) (hcs : ∀ d ∈ cs, isDigit d = true) (hmore : EndsValue more)
    (wordStart : Bool) : next wordStart c (cs ++ more) = ⟨.integer .decimal, cs.length + 1, none, none⟩ := by
  have hrun : runLength isDigit (cs ++ more) = cs.length := by
    rw [runLength, takeWhile_run hcs (startsWith_ends hmore.name (by decide))]
  have hnumber : number? c (cs ++ more) = some ⟨.integer .decimal, cs.length + 1, none, none⟩ := by
    rw [number?_eq, hc, marked?_digits hcs hmore, hrun]
    simp only [List.drop_left, fractionLength_ends hmore, exponentLength_ends hmore, Nat.add_zero]
    rw [Nat.add_comm cs.length]
    rfl
  refine next_literal ?_ wordStart
  rw [literal?, string?_of_isDigit hc, hnumber]
  rfl

/-! ## Variables -/

/-- **A dollar sign and a name are a variable.** -/
theorem next_variable (hstart : startsWith isNameStart cs = true) (hcs : ∀ d ∈ cs, isNameChar d = true)
    (hspecial : isSpecialName cs = false) (henv : cs ≠ ['e', 'n', 'v']) (hmore : EndsName more) (wordStart : Bool) :
    next wordStart '$' (cs ++ more) = ⟨.variableName, cs.length + 1, some cs, none⟩ := by
  have hname : (cs ++ more).takeWhile isNameChar = cs := takeWhile_run hcs (startsWith_ends hmore (by decide))
  have hopen : startsWith (· == '(') (cs ++ more) = false := by
    cases cs with
    | nil => contradiction
    | cons d ds =>
        refine beq_eq_false_iff_ne.mpr ?_
        rintro rfl
        contradiction
  have hform : variableForm (cs ++ more) = ⟨.variableName, cs.length + 1, some cs, none⟩ := by
    rw [variableForm]
    dsimp only
    rw [hname, hspecial, if_neg Bool.false_ne_true, beq_eq_false_iff_ne.mpr henv, Bool.false_and, Bool.false_and,
      if_neg Bool.false_ne_true, Nat.add_comm]
  refine next_literal ?_ wordStart
  have hdollar : dollar? '$' (cs ++ more) = some ⟨.variableName, cs.length + 1, some cs, none⟩ := by
    rw [dollar?, hopen, startsWith_append hstart, hform]
    rfl
  rw [literal?, string?_eq, number?_eq, hdollar]
  rfl

/-! ## Strings -/

/-- A quote in a string is hidden, so that the first other one closes it. -/
theorem closingQuote_escaped (text more : List Char) :
    closingQuote '\x22' (text.flatMap escape ++ '\x22' :: more) = some (text.flatMap escape).length :=
  closingQuote_hidden (by decide) text more

/-- What was escaped is found again. -/
theorem unescape_escaped (text : List Char) : unescape (text.flatMap escape) = text := unescape_hidden rfl text

/-- A string in double quotes does not begin with three of them. -/
theorem quotes_free (text : List Char) (hmore : EndsName more) :
    ¬ ['\x22', '\x22'].isPrefixOf (text.flatMap escape ++ '\x22' :: more) = true := by
  cases text with
  | nil =>
      cases more with
      | nil => decide
      | cons d ds =>
          have hd : d ≠ '\x22' := by
            rintro rfl
            exact absurd (hmore '\x22' rfl) (by decide)
          simp [List.isPrefixOf, hd.symm]
  | cons c cs =>
      rw [List.flatMap_cons, escape]
      split
      · simp [List.isPrefixOf]
      · next hc =>
          rw [not_or] at hc
          simp [List.isPrefixOf, Ne.symm hc.1]

/-- **A quoted text is a string.** -/
theorem next_quoted (text : List Char) (hmore : EndsName more) (wordStart : Bool) :
    next wordStart '\x22' (text.flatMap escape ++ '\x22' :: more) =
      ⟨.string .double, (text.flatMap escape).length + 2, some text, none⟩ := by
  refine next_literal ?_ wordStart
  rw [literal?, string?_eq, if_pos rfl, if_neg (quotes_free text hmore),
    escapedString_found (closingQuote_escaped text more), List.take_left, unescape_escaped]
  rfl

/-! ## Names -/

/-- A name ends where nothing follows that goes on with it. -/
theorem nameLength_ends (hcs : nameLength cs = cs.length) (hmore : EndsName more) :
    nameLength (cs ++ more) = cs.length := by
  induction cs with
  | nil =>
      cases more with
      | nil => rfl
      | cons d ds =>
          have hmem := hmore d rfl
          simp only [List.mem_cons, List.not_mem_nil, or_false] at hmem
          rcases hmem with rfl | rfl | rfl | rfl | rfl | rfl | rfl | rfl <;> rfl
  | cons c cs ih =>
      rw [nameLength, List.length_cons] at hcs
      split at hcs
      · next hc =>
          have hgoes : (isNameChar c || (c == '-' && startsWith isNameChar (cs ++ more))) = true := by
            simp only [Bool.or_eq_true, Bool.and_eq_true] at hc ⊢
            exact hc.imp_right fun hdash => ⟨hdash.1, startsWith_append hdash.2⟩
          rw [List.cons_append, nameLength, if_pos hgoes, ih (by omega), List.length_cons, Nat.add_comm]
      · omega

/-- What the lexer takes a name for. -/
def nameKind (name : List Char) : TokenKind :=
  match Keyword.ofText? (String.ofList name) with
  | some k => .keyword k
  | none => .identifier

/-- **A name is a keyword or an identifier.** -/
theorem next_name (hc : isNameStart c = true) (hcs : nameLength cs = cs.length) (hmore : EndsName more)
    (wordStart : Bool) : next wordStart c (cs ++ more) = ⟨nameKind (c :: cs), cs.length + 1, none, none⟩ := by
  have hlength := nameLength_ends hcs hmore
  have hquote : ¬ startsWith (· == '\x22') (cs ++ more) = true := by
    cases cs with
    | nil => rw [List.nil_append, startsWith_ends hmore (by decide)]; exact Bool.false_ne_true
    | cons d ds =>
        intro hd
        obtain rfl : d = '\x22' := eq_of_beq hd
        rw [nameLength, List.length_cons] at hcs
        split at hcs
        · next hquote => exact absurd hquote (by simp [isNameChar, isLetter, isDigit])
        · omega
  have hshell : (if wordStart then shellWord? c (cs ++ more) else none) = none := by
    split
    · exact shellWord_of_isNameStart hc _
    · rfl
  have hword : word? c (cs ++ more) = some ⟨nameKind (c :: cs), cs.length + 1, none, none⟩ := by
    rw [word?, hc, if_neg (by decide), hlength]
    dsimp only
    rw [List.take_left, List.drop_left, startsWith_ends hmore (by decide), Nat.add_comm 1, nameKind]
    cases Keyword.ofText? (String.ofList (c :: cs)) <;> rfl
  rw [next_eq, literal?_of_isNameStart hc hquote, hshell, hword]
  rfl

/-! ## Symbols -/

/-- Brackets, braces and commas are symbols whatever follows. -/
theorem next_mark {s : Symbol} (h : s.isMark = true) (hs : s.text.toList = [c]) (wordStart : Bool)
    (more : List Char) : next wordStart c more = ⟨.symbol s, 1, none, none⟩ := by
  unfold Symbol.isMark at h
  split at h <;> first
    | contradiction
    | (obtain rfl := (List.cons.inj hs).1
       cases wordStart <;> rfl)

/-- A dot before a name is a symbol. -/
theorem next_dot (hmore : startsWith isNameStart more = true) (wordStart : Bool) :
    next wordStart '.' more = ⟨.symbol .dot, 1, none, none⟩ := by
  cases more with
  | nil => contradiction
  | cons d ds =>
      have hdot : d ≠ '.' := by
        rintro rfl
        contradiction
      have hslash : d ≠ '/' := by
        rintro rfl
        contradiction
      have hshell : (if wordStart then shellWord? '.' (d :: ds) else none) = none := by
        cases wordStart with
        | false => rfl
        | true => simp [shellWord?, flag?, path?, pathOpening?, startsWith, hdot, hslash]
      have hsymbol : symbol? '.' (d :: ds) = some ⟨.symbol .dot, 1, none, none⟩ := by
        simp [symbol?, Symbol.spelled, Symbol.text, List.isPrefixOf, hdot.symm]
        rfl
      have hliteral : literal? '.' (d :: ds) = none := rfl
      have hword : word? '.' (d :: ds) = none := rfl
      rw [next_eq, hliteral, hshell, hword, hsymbol]
      rfl

/-- A symbol before a blank stands for itself. -/
theorem next_symbol {s : Symbol} (hs : s.text.toList = c :: cs) (wordStart : Bool) (more : List Char) :
    next wordStart c (cs ++ ' ' :: more) = ⟨.symbol s, cs.length + 1, none, none⟩ := by
  have hgap : Gap (' ' :: more) := fun d hd => Option.some.inj hd ▸ rfl
  have hself : next true c cs = ⟨.symbol s, cs.length + 1, none, none⟩ := by
    cases s <;> obtain ⟨rfl, rfl⟩ := List.cons.inj hs <;> rfl
  have hcut := next_cut (by rw [hself]) hgap
  rw [hself, Nat.add_sub_cancel, List.take_length] at hcut
  -- it is no flag and no path, so that it does not matter whether a word can begin there
  have hshell : shellWord? c (cs ++ ' ' :: more) = none := shellWord_symbol s hs hgap
  rw [next_eq, hshell, ite_self] at hcut ⊢
  exact hcut

end Piece

end ShellFront
