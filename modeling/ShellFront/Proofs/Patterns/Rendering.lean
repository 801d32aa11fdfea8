import ShellFront.Proofs.Number.Doubles
import ShellFront.Proofs.Number.Numerals
import ShellFront.Proofs.Token.Respacing
import ShellFront.Proofs.Written.Cuts

/-!
# Patterns as tokens

Which trees are patterns, and the tokens that they are written with. The rendering of a pattern is one list of tokens,
without their places. More lists spell the same pattern: line breaks may stand inside the braces of a record, a comma
may stand after the last part, and a number has many spellings.

## Contents
- `Pattern.BuiltFrom`: patterns over a class of literals; `Literal.Writable`.
- `Literal.rendering`, `PatternField.rendering`, `Pattern.rendering`.
- `Commas`, `Literal.Spelled`, `Pattern.Spelled`: tokens that spell a pattern.
- `Pattern.spelled_of_rendering`.
-/

namespace ShellFront

/-! ## Patterns -/

/-- Whether a pattern is the rest element of a list. -/
def Pattern.isRest : Pattern → Bool
  | .rest .. => true
  | _ => false

/-- A pattern that is **built** from some literals: names without a dollar sign are no wildcards, and a rest element
    stands directly inside of a list, at most one in each. -/
inductive Pattern.BuiltFrom (literals : Literal → Prop) : Pattern → Prop where
  | literal {span : Span} {value : Literal} (h : literals value) : BuiltFrom literals (.literal span value)
  | wildcard {span : Span} : BuiltFrom literals (.wildcard span)
  | binding {span : Span} {name : String} {sigil : Bool} (hname : sigil = false → name ≠ "_") :
      BuiltFrom literals (.binding span name sigil)
  | record {r : RecordPattern} : BuiltFrom literals (.record r)
  | typedRecord {span : Span} {typeName : Ident} {r : RecordPattern} (hname : typeName.name ≠ "_") :
      BuiltFrom literals (.typedRecord span typeName r)
  | list {span : Span} {elements : List Pattern} (h : ∀ p ∈ elements, p.isRest = false → BuiltFrom literals p)
      (hrest : elements.countP Pattern.isRest ≤ 1) : BuiltFrom literals (.list span elements)

theorem Pattern.BuiltFrom.not_rest {literals : Literal → Prop} {p : Pattern} (h : p.BuiltFrom literals) :
    p.isRest = false := by
  cases h <;> rfl

/-- The literals that can be written: decimal integers that are not too long, and floats that are doubles. -/
def Literal.Writable : Literal → Prop
  | .integer value .decimal => (Nat.toDigits 10 value.natAbs).length ≤ Numeral.decimalLimit
  | .float value => value.IsDouble
  | _ => True

/-! ## The rendering -/

/-- A token without its place: its kind, its text and its value. -/
abbrev Content := TokenKind × String × Option String

def Symbol.content (s : Symbol) : Content := (.symbol s, s.text, none)
def Keyword.content (k : Keyword) : Content := (.keyword k, k.text, none)

/-- A name that may be a keyword. -/
def nameContent (name : String) : Content := (Piece.nameKind name.toList, name, none)

/-- A name, with or without a dollar sign. -/
def binderContent (name : String) (sigil : Bool) : Content :=
  if sigil then (.variableName, "$" ++ name, some name) else (.identifier, name, none)

/-- A text with a backslash before each quote of some sort and each backslash. -/
def escapedText (quote : Char) (text : String) : String :=
  String.ofList (text.toList.flatMap fun c => if c = quote ∨ c = '\\' then ['\\', c] else [c])

/-- A string in its quotes. -/
def StringStyle.written (text : String) : StringStyle → String
  | .double => "\x22" ++ escapedText '\x22' text ++ "\x22"
  | .single => "\x27" ++ escapedText '\x27' text ++ "\x27"
  | .triple => "\x22\x22\x22" ++ text ++ "\x22\x22\x22"
  | .raw => "r\x22" ++ text ++ "\x22"
  | .backtick => "\x60" ++ text ++ "\x60"

/-- A minus sign, or nothing. -/
def signContent (negative : Bool) : List Content := if negative then [Symbol.minus.content] else []

/-- A literal as tokens. -/
def Literal.rendering : Literal → List Content
  | .integer value radix =>
      signContent (decide (value < 0)) ++ [(.integer radix, Numeral.spelling radix value.natAbs, none)]
  | .float value => signContent value.isNegative ++ [(.float, value.spelling, none)]
  | .string value style => [(.string style, style.written value, some value)]
  | .boolean value => [Keyword.content (if value then .trueKw else .falseKw)]
  | .null => [Keyword.nullKw.content]

/-- What a field is bound to as a token. -/
def FieldBinding.content : FieldBinding → Content
  | .named x => binderContent x.name true
  | .wildcard _ => binderContent "_" false

/-- A field of a record as tokens. -/
def PatternField.rendering (f : PatternField) : List Content :=
  nameContent f.name.name :: match f.binding with
    | none => []
    | some b => [Symbol.colon.content, b.content]

/-- Parts with single commas between them. -/
def commaContents : List (List Content) → List Content
  | [] => []
  | [part] => part
  | part :: parts => part ++ Symbol.comma.content :: commaContents parts

/-- A record as tokens. -/
def RecordPattern.rendering (r : RecordPattern) : List Content :=
  Symbol.openBrace.content :: (commaContents (r.fields.map PatternField.rendering) ++ [Symbol.closeBrace.content])

mutual

/-- A pattern as tokens, with single commas. -/
def Pattern.rendering : Pattern → List Content
  | .literal _ value => value.rendering
  | .wildcard _ => [binderContent "_" false]
  | .binding _ name sigil => [binderContent name sigil]
  | .record r => r.rendering
  | .typedRecord _ typeName r => binderContent typeName.name false :: r.rendering
  | .list _ elements =>
      Symbol.openBracket.content :: (commaContents (Pattern.renderings elements) ++ [Symbol.closeBracket.content])
  | .rest _ name sigil => [Symbol.ellipsis.content, binderContent name sigil]

def Pattern.renderings : List Pattern → List (List Content)
  | [] => []
  | p :: ps => p.rendering :: Pattern.renderings ps

end

@[simp] theorem Pattern.renderings_eq (ps : List Pattern) : Pattern.renderings ps = ps.map Pattern.rendering := by
  induction ps with
  | nil => rw [renderings, List.map_nil]
  | cons p ps ih => rw [renderings, ih, List.map_cons]

/-! ## Spelling -/

/-- No tokens at all. -/
def NoGap (ts : List Token) : Prop := ts = []

/-- Line breaks, any number of them. -/
def LineBreaks (ts : List Token) : Prop := ∀ t ∈ ts, t.kind = .newline

/-- Tokens spell some things with a comma between any two, and perhaps one after the last; gaps of some sort may stand
    before and after each comma, and at the end. -/
inductive Commas {α : Type} (spells : α → List Token → Prop) (gap : List Token → Prop) :
    List α → List Token → Prop where
  | none : Commas spells gap [] []
  | last {a : α} {ts us : List Token} (h : spells a ts) (hgap : gap us) : Commas spells gap [a] (ts ++ us)
  | comma {a : α} {as : List α} {ts us us' more : List Token} {comma : Token} (h : spells a ts) (hgap : gap us)
      (hcomma : comma.content = Symbol.comma.content) (hgap' : gap us') (hmore : Commas spells gap as more) :
      Commas spells gap (a :: as) (ts ++ us ++ comma :: (us' ++ more))

/-- A token that is a number without a sign, and which one. -/
inductive Literal.Number : Literal → Token → Prop where
  | integer {t : Token} {radix : Radix} {n : Nat} (hkind : t.kind = .integer radix)
      (hvalue : Numeral.value? radix (t.lexeme.toList.drop radix.markLength) = some n) :
      Number (.integer n radix) t
  | float {t : Token} (hkind : t.kind = .float) : Number (.float (.ofLiteral t.lexeme.toList)) t

/-- A number with the other sign. -/
def Literal.negated : Literal → Literal
  | .integer value radix => .integer (-value) radix
  | .float value => .float value.neg
  | value => value

/-- Tokens **spell** a literal: a number, perhaps after a minus sign, a string, or a keyword. -/
inductive Literal.Spelled : Literal → List Token → Prop where
  | number {value : Literal} {t : Token} (h : value.Number t) : Spelled value [t]
  | negative {value : Literal} {sign t : Token} (hsign : sign.content = Symbol.minus.content) (h : value.Number t) :
      Spelled value.negated [sign, t]
  | string {style : StringStyle} {t : Token} (hkind : t.kind = .string style) : Spelled (.string t.payload style) [t]
  | boolean {value : Bool} {t : Token} (h : t.content = Keyword.content (if value then .trueKw else .falseKw)) :
      Spelled (.boolean value) [t]
  | null {t : Token} (h : t.content = Keyword.nullKw.content) : Spelled .null [t]

/-- Tokens spell a field of a record when they are its rendering. -/
def PatternField.Spelled (f : PatternField) (ts : List Token) : Prop := ts.map Token.content = f.rendering

/-- Tokens **spell** a record: line breaks may stand anywhere around its fields. -/
inductive RecordPattern.Spelled : RecordPattern → List Token → Prop where
  | braces {r : RecordPattern} {opener closer : Token} {gap ts : List Token}
      (hopener : opener.content = Symbol.openBrace.content) (hgap : LineBreaks gap)
      (h : Commas PatternField.Spelled LineBreaks r.fields ts)
      (hcloser : closer.content = Symbol.closeBrace.content) : Spelled r (opener :: (gap ++ ts ++ [closer]))

/-- Tokens **spell** a pattern: its rendering, but for line breaks inside the braces of records, commas after the last
    part, and how its literals are spelled. -/
inductive Pattern.Spelled : Pattern → List Token → Prop where
  | literal {span : Span} {value : Literal} {ts : List Token} (h : value.Spelled ts) : Spelled (.literal span value) ts
  | wildcard {span : Span} {t : Token} (h : t.content = binderContent "_" false) : Spelled (.wildcard span) [t]
  | binding {span : Span} {name : String} {sigil : Bool} {t : Token} (h : t.content = binderContent name sigil) :
      Spelled (.binding span name sigil) [t]
  | record {r : RecordPattern} {ts : List Token} (h : r.Spelled ts) : Spelled (.record r) ts
  | typedRecord {span : Span} {typeName : Ident} {r : RecordPattern} {t : Token} {ts : List Token}
      (hname : t.content = binderContent typeName.name false) (h : r.Spelled ts) :
      Spelled (.typedRecord span typeName r) (t :: ts)
  | list {span : Span} {elements : List Pattern} {opener closer : Token} {ts : List Token}
      (hopener : opener.content = Symbol.openBracket.content) (h : Commas Spelled NoGap elements ts)
      (hcloser : closer.content = Symbol.closeBracket.content) :
      Spelled (.list span elements) (opener :: (ts ++ [closer]))
  | rest {span : Span} {name : String} {sigil : Bool} {dots t : Token}
      (hdots : dots.content = Symbol.ellipsis.content) (h : t.content = binderContent name sigil) :
      Spelled (.rest span name sigil) [dots, t]

/-! ## The rendering is a spelling -/

/-- Parts with single commas between them are spelled so. -/
theorem Commas.of_rendering {α : Type} {spells : α → List Token → Prop} {gap : List Token → Prop}
    (hnil : gap []) {rendering : α → List Content} {as : List α}
    (h : ∀ a ∈ as, ∀ ts, ts.map Token.content = rendering a → spells a ts) {ts : List Token}
    (hts : ts.map Token.content = commaContents (as.map rendering)) : Commas spells gap as ts := by
  induction as generalizing ts with
  | nil =>
      obtain rfl : ts = [] := List.map_eq_nil_iff.mp hts
      exact .none
  | cons a as ih =>
      obtain ⟨hfirst, hmore⟩ := List.forall_mem_cons.mp h
      cases as with
      | nil =>
          rw [← List.append_nil ts]
          exact .last (hfirst ts hts) hnil
      | cons b bs =>
          obtain ⟨us, vs, rfl, hus, hvs⟩ := List.map_eq_append_iff.mp hts
          obtain ⟨comma, more, rfl, hcomma, hrest⟩ := List.map_eq_cons_iff.mp hvs
          have hspelled := Commas.comma (hfirst us hus) hnil hcomma hnil (ih hmore hrest)
          rwa [List.append_nil, List.nil_append] at hspelled

namespace Literal

/-- A number with its sign is spelled by its number token. -/
theorem spelled_signed {number : Literal} {negative : Bool} {w : Content} (h : ∀ t, t.content = w → number.Number t)
    {ts : List Token} (hts : ts.map Token.content = signContent negative ++ [w]) :
    (if negative then number.negated else number).Spelled ts := by
  cases negative with
  | false =>
      obtain ⟨t, rfl, ht⟩ := List.map_eq_singleton_iff.mp hts
      exact .number (h t ht)
  | true =>
      obtain ⟨sign, us, rfl, hsign, hus⟩ := List.map_eq_cons_iff.mp hts
      obtain ⟨t, rfl, ht⟩ := List.map_eq_singleton_iff.mp hus
      exact .negative hsign (h t ht)

theorem spelled_integer {value : Int} {radix : Radix} (h : (Literal.integer value radix).Writable) {ts : List Token}
    (hts : ts.map Token.content = (Literal.integer value radix).rendering) :
    (Literal.integer value radix).Spelled ts := by
  have hshort : radix = .decimal → (Nat.toDigits 10 value.natAbs).length ≤ Numeral.decimalLimit := by
    rintro rfl
    exact h
  have hnumber (t : Token) (ht : t.content = (.integer radix, Numeral.spelling radix value.natAbs, none)) :
      (Literal.integer value.natAbs radix).Number t := by
    obtain ⟨hkind, hlexeme, -⟩ := Prod.mk.injEq .. ▸ Prod.mk.injEq .. ▸ ht
    refine .integer hkind ?_
    rw [hlexeme, Numeral.drop_spelling]
    exact Numeral.value_toDigits hshort
  have hspelled := spelled_signed hnumber hts
  rcases Int.lt_or_le value 0 with hneg | hpos
  · rw [decide_eq_true hneg, if_pos rfl, negated, Int.ofNat_natAbs_of_nonpos hneg.le, neg_neg] at hspelled
    exact hspelled
  · rw [decide_eq_false (not_lt.mpr hpos), if_neg Bool.false_ne_true, Int.natAbs_of_nonneg hpos] at hspelled
    exact hspelled

theorem spelled_float {value : Binary64} (h : (Literal.float value).Writable) {ts : List Token}
    (hts : ts.map Token.content = (Literal.float value).rendering) : (Literal.float value).Spelled ts := by
  have hnumber (t : Token) (ht : t.content = (.float, value.spelling, none)) :
      (Literal.float (if value.isNegative then value.neg else value)).Number t := by
    obtain ⟨hkind, hlexeme, -⟩ := Prod.mk.injEq .. ▸ Prod.mk.injEq .. ▸ ht
    rw [← Binary64.ofLiteral_spelling h, ← hlexeme]
    exact .float hkind
  have hspelled := spelled_signed hnumber hts
  cases hnegative : value.isNegative with
  | false =>
      rw [hnegative] at hspelled
      exact hspelled
  | true =>
      have hback : value.neg.neg = value := by cases value <;> rw [Binary64.neg, Binary64.neg, Bool.not_not]
      rw [hnegative, if_pos rfl, if_pos rfl, negated, hback] at hspelled
      exact hspelled

/-- **The rendering of a literal spells it.** -/
theorem spelled_of_rendering {value : Literal} (h : value.Writable) {ts : List Token}
    (hts : ts.map Token.content = value.rendering) : value.Spelled ts := by
  cases value with
  | integer => exact spelled_integer h hts
  | float => exact spelled_float h hts
  | string text style =>
      obtain ⟨t, rfl, ht⟩ := List.map_eq_singleton_iff.mp hts
      obtain ⟨hkind, -, hvalue⟩ := Prod.mk.injEq .. ▸ Prod.mk.injEq .. ▸ ht
      have hpayload : t.payload = text := by rw [Token.payload, hvalue, Option.getD_some]
      exact hpayload ▸ .string hkind
  | boolean =>
      obtain ⟨t, rfl, ht⟩ := List.map_eq_singleton_iff.mp hts
      exact .boolean ht
  | null =>
      obtain ⟨t, rfl, ht⟩ := List.map_eq_singleton_iff.mp hts
      exact .null ht

end Literal

/-- Tokens between two others. -/
theorem map_content_enclosed {ts : List Token} {w w' : Content} {ws : List Content}
    (h : ts.map Token.content = w :: (ws ++ [w'])) : ∃ opener inner closer, ts = opener :: (inner ++ [closer]) ∧
      opener.content = w ∧ inner.map Token.content = ws ∧ closer.content = w' := by
  obtain ⟨opener, us, rfl, hopener, hus⟩ := List.map_eq_cons_iff.mp h
  obtain ⟨inner, vs, rfl, hinner, hvs⟩ := List.map_eq_append_iff.mp hus
  obtain ⟨closer, rfl, hcloser⟩ := List.map_eq_singleton_iff.mp hvs
  exact ⟨opener, inner, closer, rfl, hopener, hinner, hcloser⟩

/-- **The rendering of a record spells it.** -/
theorem RecordPattern.spelled_of_rendering {r : RecordPattern} {ts : List Token}
    (hts : ts.map Token.content = r.rendering) : r.Spelled ts := by
  obtain ⟨opener, inner, closer, rfl, hopener, hinner, hcloser⟩ := map_content_enclosed hts
  have hnone : LineBreaks [] := List.forall_mem_nil _
  have hfields : Commas PatternField.Spelled LineBreaks r.fields inner :=
    .of_rendering hnone (fun _ _ _ h => h) hinner
  have hspelled := RecordPattern.Spelled.braces hopener hnone hfields hcloser
  exact hspelled

namespace Pattern

mutual

/-- **The rendering of a pattern spells it.** -/
theorem spelled_of_rendering : ∀ {p : Pattern} {ts : List Token}, p.BuiltFrom Literal.Writable ∨ p.isRest = true →
    ts.map Token.content = p.rendering → p.Spelled ts
  | .literal .., _, h, hts => by
      obtain ⟨hvalue⟩ := h.resolve_right Bool.false_ne_true
      exact .literal (Literal.spelled_of_rendering hvalue hts)
  | .wildcard _, _, _, hts => by
      obtain ⟨t, rfl, ht⟩ := List.map_eq_singleton_iff.mp hts
      exact .wildcard ht
  | .binding .., _, _, hts => by
      obtain ⟨t, rfl, ht⟩ := List.map_eq_singleton_iff.mp hts
      exact .binding ht
  | .record _, _, _, hts => .record (RecordPattern.spelled_of_rendering hts)
  | .typedRecord .., _, _, hts => by
      obtain ⟨t, us, rfl, ht, hus⟩ := List.map_eq_cons_iff.mp hts
      exact .typedRecord ht (RecordPattern.spelled_of_rendering hus)
  | .list _ elements, _, h, hts => by
      obtain ⟨opener, inner, closer, rfl, hopener, hinner, hcloser⟩ := map_content_enclosed hts
      have hbuilt : ∀ p ∈ elements, p.BuiltFrom Literal.Writable ∨ p.isRest = true := fun p hp => by
        cases h.resolve_right Bool.false_ne_true with
        | list helements =>
            cases hrest : p.isRest with
            | false => exact .inl (helements p hp hrest)
            | true => exact .inr rfl
      rw [renderings_eq] at hinner
      have hnone : NoGap [] := rfl
      exact .list hopener (.of_rendering hnone (all_spelled_of_rendering hbuilt) hinner) hcloser
  | .rest .., _, _, hts => by
      obtain ⟨dots, us, rfl, hdots, hus⟩ := List.map_eq_cons_iff.mp hts
      obtain ⟨t, rfl, ht⟩ := List.map_eq_singleton_iff.mp hus
      exact .rest hdots ht

theorem all_spelled_of_rendering : ∀ {ps : List Pattern}, (∀ p ∈ ps, p.BuiltFrom Literal.Writable ∨ p.isRest = true) →
    ∀ p ∈ ps, ∀ ts, ts.map Token.content = p.rendering → p.Spelled ts
  | [], _ => List.forall_mem_nil _
  | _ :: _, h => List.forall_mem_cons.mpr ⟨fun _ hts => spelled_of_rendering (List.forall_mem_cons.mp h).1 hts,
      all_spelled_of_rendering (List.forall_mem_cons.mp h).2⟩

end

end Pattern

end ShellFront
