import ShellFront.Proofs.Values.Braces
import ShellFront.Proofs.Written.Spelling

/-!
# How values are spelled

One lemma for each kind of value: from tokens that spell its parts, and the marks around and between them, comes
what spells the whole.

## Contents
- Literals and variables.
- `Grammar.Rows`, values with commas between them; lists, tuples, parentheses and calls.
- Fields and methods, operators.
-/

namespace ShellFront

/-! ## Equality but for places -/

namespace Node

variable {span span' : Span} {m m' n n' : Node} {ms ns : List Node} {x y : Ident}

/-- Lists of trees that are equal but for places. -/
def AllAlike (ms ns : List Node) : Prop := ms.map (view .unplaced) = ns.map (view .unplaced)

/-- The places of brackets do not matter, so lists are alike when their elements are. -/
theorem Alike.list (h : AllAlike ms ns) : Alike (.list span ms) (.list span' ns) := by
  rw [Alike, view, view, views_eq, views_eq, h]
  rfl

theorem Alike.tuple (h : AllAlike ms ns) : Alike (.tuple span ms) (.tuple span' ns) := by
  rw [Alike, view, view, views_eq, views_eq, h]
  rfl

theorem Alike.paren (h : Alike m n) : Alike (.paren span m) (.paren span' n) := by
  rw [Alike, view, view, h]
  rfl

/-- Calls are alike when the names are equal and the arguments alike. -/
theorem Alike.call (hname : x.name = y.name) (h : AllAlike ms ns) : Alike (.call span x ms) (.call span' y ns) := by
  rw [Alike, view, view, views_eq, views_eq, h, Ident.view, Ident.view, hname]
  rfl

/-- The place of the field does not matter, its name does. -/
theorem Alike.fieldAccess (h : Alike m n) (hname : x.name = y.name) :
    Alike (.fieldAccess span m x) (.fieldAccess span' n y) := by
  rw [Alike, view, view, h, Ident.view, Ident.view, hname]
  rfl

theorem Alike.methodCall (h : Alike m n) (hname : x.name = y.name) (hargs : AllAlike ms ns) :
    Alike (.methodCall span m x ms) (.methodCall span' n y ns) := by
  rw [Alike, view, view, views_eq, views_eq, h, hargs, Ident.view, Ident.view, hname]
  rfl

/-- Operators are alike by their operands. -/
theorem Alike.unary {operator : UnaryOperator} (h : Alike m n) :
    Alike (.unary span operator m) (.unary span' operator n) := by
  rw [Alike, view, view, h]
  rfl

theorem Alike.binary {operator : Operator} (h : Alike m n) (h' : Alike m' n') :
    Alike (.binary span operator m m') (.binary span' operator n n') := by
  rw [Alike, view, view, h, h']
  rfl

end Node

namespace Grammar

open Parse

variable {e : Node} {ts us : List Token} {t : Token} {n : Nat} {ctx : Context} {c c' : Cursor} {span : Span}

/-! ## Literals and variables -/

/-- What is no range is the value by itself. -/
theorem rangeFrom_gives {first : Node} (h : c.kind.endsPrimary = true) :
    Gives (rangeFrom first) ctx c (· = first) c := by
  obtain ⟨hdots, hequal, -⟩ := TokenKind.endsPrimary_free h
  have hequal : (c.current.kind == .symbol .dotDotEqual) = false := beq_eq_false_iff_ne.mpr hequal
  have hdots : (c.current.kind == .symbol .dotDot) = false := beq_eq_false_iff_ne.mpr hdots
  refine .peek ?_
  dsimp only
  rw [hequal, hdots]
  exact .pure rfl

/-- A value that is spelled by one token. -/
theorem Chained.of_token (hopens : t.kind.opensPrimary = true)
    (h : ∀ {n : Nat} {ctx : Context} {c : Cursor}, c.current = t → c.advance.kind.endsPrimary = true →
      Gives (primary (.upTo n)) ctx c e.Alike c.advance) : Chained e [t] := by
  have hpart : t.kind.isPart = true := by
    unfold TokenKind.opensPrimary at hopens
    split at hopens <;> first | contradiction | (next hkind => rw [hkind]; rfl)
  refine .of_primary (List.forall_mem_singleton.mpr hpart) ⟨t, rfl, hopens⟩ fun _ _ hread hend => ?_
  obtain ⟨hcurrent, hread⟩ := hread.step (TokenKind.ne_endOfInput_of_isPart hpart)
  obtain rfl := hread.eq_of_nil
  exact h hcurrent hend

/-- The value of an integer token. -/
theorem integerLiteral_gives {radix : Radix} {value : Nat}
    (hvalue : Numeral.value? radix (t.lexeme.toList.drop radix.markLength) = some value) (negative : Bool) :
    Gives (integerLiteral t radix negative) ctx c
      (· = .integer (if negative then -(value : Int) else value) radix) c := by
  rw [integerLiteral, hvalue]
  exact .pure rfl

/-- An integer is an expression without operators. -/
theorem primary_integer {radix : Radix} {value : Nat} (r : Rules) (hcurrent : c.current = t)
    (hkind : t.kind = .integer radix)
    (hvalue : Numeral.value? radix (t.lexeme.toList.drop radix.markLength) = some value)
    (hend : c.advance.kind.endsPrimary = true) :
    Gives (primary r) ctx c (· = .literal t.span (.integer value radix)) c.advance := by
  refine .peek ?_
  rw [hcurrent, hkind]
  refine .advance (.bind (integerLiteral_gives hvalue false) ?_)
  rintro _ rfl
  exact rangeFrom_gives hend

/-- An integer is written with one token, whose digits have to give its value. -/
theorem chained_integer {value : Nat} (hkind : t.kind = .integer .decimal)
    (hvalue : Numeral.value? .decimal t.lexeme.toList = some value) :
    Chained (.literal span (.integer value .decimal)) [t] := by
  refine .of_token (by rw [hkind]; rfl) fun {n ctx c} hcurrent hend => ?_
  refine (primary_integer _ hcurrent hkind hvalue hend).mono ?_
  rintro _ rfl
  rfl

/-- A variable is written with the dollar sign in front; the payload of the token is the bare name. -/
theorem chained_variable {name : String} (hkind : t.kind = .variableName) (hname : t.payload = name) :
    Chained (.variableUse span name) [t] := by
  refine .of_token (by rw [hkind]; rfl) fun {n ctx c} hcurrent hend => ?_
  subst hcurrent hname
  refine .peek ?_
  rw [hkind]
  refine .advance ((rangeFrom_gives hend).mono ?_)
  rintro _ rfl
  rfl

/-- A string is written with its escapes; the payload is what they stand for. -/
theorem chained_string {value : String} (hkind : t.kind = .string .double) (hvalue : t.payload = value) :
    Chained (.literal span (.string value .double)) [t] := by
  refine .of_token (by rw [hkind]; rfl) fun {n ctx c} hcurrent _ => ?_
  subst hcurrent hvalue
  refine .peek ?_
  rw [hkind]
  exact .advance (.pure rfl)

/-- The two truth values have a keyword each. -/
theorem chained_boolean {value : Bool} (hkind : t.kind = .keyword (if value then .trueKw else .falseKw)) :
    Chained (.literal span (.boolean value)) [t] := by
  refine .of_token (by rw [hkind]; cases value <;> rfl) fun {n ctx c} hcurrent _ => ?_
  subst hcurrent
  refine .peek ?_
  rw [hkind]
  cases value <;> exact .here (.advance (.pure rfl))

theorem chained_null (hkind : t.kind = .keyword .nullKw) : Chained (.literal span .null) [t] := by
  refine .of_token (by rw [hkind]; rfl) fun {n ctx c} hcurrent _ => ?_
  subst hcurrent
  refine .peek ?_
  rw [hkind]
  exact .here (.advance (.pure rfl))

/-! ## Values with commas between them -/

/-- Tokens spell some things with commas between them. -/
inductive Separated {α : Type} (spells : α → List Token → Prop) : List α → List Token → Prop where
  | nil : Separated spells [] []
  | single {a : α} {ts : List Token} (h : spells a ts) : Separated spells [a] ts
  | cons {a : α} {as : List α} {ts us : List Token} {comma : Token} (h : spells a ts)
      (hcomma : comma.kind = .symbol .comma) (hrest : Separated spells as us) (hne : as ≠ []) :
      Separated spells (a :: as) (ts ++ comma :: us)

namespace Separated

variable {α : Type} {spells : α → List Token → Prop} {as : List α}

/-- What spells the whole is made of what spells the members, and of commas. -/
theorem parts (h : Separated spells as ts) (hspells : ∀ {a ts}, spells a ts → ∀ t ∈ ts, t.kind.isPart = true) :
    ∀ t ∈ ts, t.kind.isPart = true := by
  induction h with
  | nil => exact List.forall_mem_nil _
  | single h => exact hspells h
  | cons h hcomma _ _ ih =>
      refine List.forall_mem_append.mpr ⟨hspells h, List.forall_mem_cons.mpr ⟨?_, ih⟩⟩
      rw [hcomma]
      rfl

/-- There are at least as many tokens as members, so the fuel for the loop over them is enough. -/
theorem length_le (h : Separated spells as ts) (hspells : ∀ {a ts}, spells a ts → 0 < ts.length) :
    as.length ≤ ts.length := by
  induction h with
  | nil => exact Nat.le_refl _
  | single h => exact hspells h
  | cons h _ _ _ ih =>
      have := hspells h
      rw [List.length_append, List.length_cons, List.length_cons]
      omega

end Separated

/-- Tokens spell values with commas between them. -/
abbrev Rows := Separated Spells

variable {es : List Node} {comma opener closer : Token} {mark : Symbol}

/-- Values with commas between them are spelled with tokens that values are made of: a comma is one of them. -/
theorem Rows.parts (h : Rows es ts) : ∀ t ∈ ts, t.kind.isPart = true := Separated.parts h Spells.parts

theorem Rows.length_le (h : Rows es ts) : es.length ≤ ts.length :=
  Separated.length_le h fun h => length_pos_of_opens h.opens

/-- What the first of some tokens that open a value is not. -/
theorem kind_of_opens (h : Spells e ts) (hread : c.Reads ts c') :
    c.kind.closesValue = false ∧ c.kind ≠ .newline := by
  obtain ⟨t, hhead, hopens⟩ := h.opens
  have hhead' := hread.head (ne_nil_of_opens h.opens)
  obtain rfl : c.current = t := Option.some.inj (hhead'.symm.trans hhead)
  exact TokenKind.opensValue_open hopens

/-- A value does not begin with what closes one. -/
theorem ne_of_opens (h : Spells e ts) (hread : c.Reads ts c') {kind : TokenKind} (hclose : kind.closesValue = true) :
    c.kind ≠ kind := by
  intro heq
  have hopen := (kind_of_opens h hread).1
  rw [heq, hclose] at hopen
  contradiction

/-- **Values are read up to what closes them.** -/
theorem Rows.give (h : Rows es ts) (hmark : (TokenKind.symbol mark).closesValue = true) (hcomma : mark ≠ .comma)
    (hctx : ctx.Valued) {k : Nat} (hk : es.length < k) (hn : ts.length ≤ n) {items : Array Node}
    (hread : c.Reads ts c') (hkind : c'.kind = .symbol mark) :
    Gives (iterate (commaTurn (.symbol mark) (Rules.upTo (n + 1)).expression) k items) ctx c
      (fun nodes => ∃ added, nodes = items.toList ++ added ∧ Node.AllAlike es added) c' := by
  induction h generalizing c items k with
  | nil =>
      obtain rfl := hread.eq_of_nil
      obtain ⟨k, rfl⟩ : ∃ i, k = i + 1 := ⟨k - 1, by omega⟩
      refine .done (.check ?_)
      rw [hkind, beq_self_eq_true]
      exact .pure ⟨_, rfl, [], (List.append_nil _).symm, rfl⟩
  | @single e ts h =>
      obtain ⟨k, rfl⟩ : ∃ i, k = i + 1 := ⟨k - 1, by omega⟩
      have hopen : (c.kind == .symbol mark) = false := beq_eq_false_iff_ne.mpr (ne_of_opens h hread hmark)
      refine .done (.check ?_)
      rw [hopen]
      refine .bind (h.whole hctx hn hread (hkind ▸ hmark)) fun a ha => .decline ?_ (.pure ⟨_, rfl, [a], ?_, ?_⟩)
      · rw [hkind]
        exact fun heq => hcomma (TokenKind.symbol.inj heq)
      · rw [Array.toList_push]
      · exact congrArg (· :: []) ha
  | @cons e es ts us comma h hcomma' _ _ ih =>
      obtain ⟨k, rfl⟩ : ∃ i, k = i + 1 := ⟨k - 1, by omega⟩
      rw [List.length_append, List.length_cons] at hn
      rw [List.length_cons] at hk
      obtain ⟨c₁, hfirst, hrest⟩ := hread.split
      have hopen : (c.kind == .symbol mark) = false := beq_eq_false_iff_ne.mpr (ne_of_opens h hfirst hmark)
      have hkind₁ : c₁.kind = .symbol .comma := hrest.kind.trans hcomma'
      obtain ⟨-, hrest⟩ := hrest.step (by rw [hcomma']; nofun)
      -- the value and the comma are one turn, and the others are read by the turns after it
      have hturn : Gives (commaTurn (.symbol mark) (Rules.upTo (n + 1)).expression items) ctx c
          (fun t => ∃ items', t = .again items' ∧ ∃ a, e.Alike a ∧ items' = items.push a) c₁.advance := by
        refine .check ?_
        rw [hopen]
        exact .bind (h.whole hctx (by omega) hfirst (by rw [hkind₁]; rfl)) fun a ha =>
          .accept hkind₁ (.pure ⟨_, rfl, a, ha, rfl⟩)
      refine .again hturn ?_
      rintro _ ⟨a, ha, rfl⟩
      refine (ih (by omega) (by omega) hrest).mono ?_
      rintro _ ⟨added, rfl, hadded⟩
      refine ⟨a :: added, ?_, ?_⟩
      · rw [Array.toList_push, List.append_assoc]
        rfl
      · rw [Node.AllAlike, List.map_cons, List.map_cons, hadded, ha]

/-! ## Brackets -/

/-- Values up to a closer, which is read as well. -/
theorem commaValues_gives (h : Rows es ts) (hmark : (TokenKind.symbol mark).closesValue = true)
    (hcomma : mark ≠ .comma) (hcloser : closer.kind = .symbol mark) {inside : Sequence} (hn : ts.length < n)
    (hread : c.Reads (ts ++ [closer]) c') :
    Gives (commaValues (.upTo n) mark inside) ctx c (Node.AllAlike es) c' := by
  obtain ⟨n, rfl⟩ : ∃ m, n = m + 1 := ⟨n - 1, by omega⟩
  obtain ⟨c₁, hvalues, hkind, rfl⟩ := hread.concat (by rw [hcloser]; nofun)
  rw [hcloser] at hkind
  have hlength := h.length_le
  have hlist : Gives ((Rules.upTo (n + 1)).commaList (.symbol mark) (Rules.upTo (n + 1)).expression)
      { ctx with mode := ctx.mode.nested } c (Node.AllAlike es) c₁ := by
    rw [Rules.commaList, Rules.loop, Rules.upTo_fuel]
    refine (h.give hmark hcomma ctx.nested_valued (by omega) (by omega) hvalues hkind).mono ?_
    rintro _ ⟨added, rfl, hadded⟩
    exact hadded
  exact .bind (.within hlist) fun nodes hnodes => .expect hkind (.pure hnodes)

/-- What is enclosed in brackets. -/
theorem parts_enclosed (h : ∀ t ∈ ts, t.kind.isPart = true) (hopener : opener.kind.isPart = true)
    (hcloser : closer.kind.isPart = true) : ∀ t ∈ opener :: (ts ++ [closer]), t.kind.isPart = true :=
  List.forall_mem_cons.mpr ⟨hopener, List.forall_mem_append.mpr ⟨h, List.forall_mem_singleton.mpr hcloser⟩⟩

/-- Brackets around elements that are spelled one after the other give back the list. -/
theorem chained_list (h : Rows es ts) (hopener : opener.kind = .symbol .openBracket)
    (hcloser : closer.kind = .symbol .closeBracket) : Chained (.list span es) (opener :: (ts ++ [closer])) := by
  refine .of_primary (parts_enclosed h.parts (by rw [hopener]; rfl) (by rw [hcloser]; rfl))
    ⟨opener, rfl, by rw [hopener]; rfl⟩ fun {n ctx c c'} _ hn hread _ => ?_
  rw [List.length_cons, List.length_append] at hn
  have hkind := hread.kind.trans hopener
  obtain ⟨hcurrent, hrest⟩ := hread.step (by rw [hopener]; nofun)
  have hvalues : Gives (bracketed (.upTo n)) ctx c (Node.AllAlike es) c' :=
    .expect hkind (commaValues_gives h rfl (by decide) hcloser (by omega) hrest)
  refine .peek ?_
  rw [show c.current.kind = .symbol .openBracket from hkind]
  exact .peek (.bind hvalues fun nodes hnodes => .spanFrom fun span => .pure (.list hnodes))

/-- An expression in parentheses gives back the node around it. -/
theorem chained_paren (h : Spells e ts) (hopener : opener.kind = .symbol .openParen)
    (hcloser : closer.kind = .symbol .closeParen) : Chained (.paren span e) (opener :: (ts ++ [closer])) := by
  refine .of_primary (parts_enclosed h.parts (by rw [hopener]; rfl) (by rw [hcloser]; rfl))
    ⟨opener, rfl, by rw [hopener]; rfl⟩ fun {n ctx c c'} _ hn hread _ => ?_
  rw [List.length_cons, List.length_append] at hn
  obtain ⟨n, rfl⟩ : ∃ m, n = m + 1 := ⟨n - 1, by omega⟩
  have hkind := hread.kind.trans hopener
  obtain ⟨-, hrest⟩ := hread.step (by rw [hopener]; nofun)
  obtain ⟨c₁, hinner, hkind₁, rfl⟩ := hrest.concat (by rw [hcloser]; nofun)
  rw [hcloser] at hkind₁
  have hfirst : Gives (Rules.upTo (n + 1)).expression { ctx with mode := ctx.mode.nested } c.advance e.Alike c₁ :=
    h.whole ctx.nested_valued (by omega) hinner (by rw [hkind₁]; rfl)
  refine .peek ?_
  rw [show c.current.kind = .symbol .openParen from hkind]
  refine .advance (.decline (ne_of_opens h hinner rfl) (.within (.bind hfirst fun a ha => ?_)))
  refine .decline (by rw [hkind₁]; nofun) (.expect hkind₁ (.spanFrom fun span => .pure (.paren ha)))

/-- A tuple has no element, or a comma after the first one. -/
theorem chained_tuple (h : Rows es ts) (hlength : es.length ≠ 1) (hopener : opener.kind = .symbol .openParen)
    (hcloser : closer.kind = .symbol .closeParen) : Chained (.tuple span es) (opener :: (ts ++ [closer])) := by
  refine .of_primary (parts_enclosed h.parts (by rw [hopener]; rfl) (by rw [hcloser]; rfl))
    ⟨opener, rfl, by rw [hopener]; rfl⟩ fun {n ctx c c'} _ hn hread _ => ?_
  rw [List.length_cons, List.length_append] at hn
  obtain ⟨n, rfl⟩ : ∃ m, n = m + 1 := ⟨n - 1, by omega⟩
  have hkind := hread.kind.trans hopener
  obtain ⟨-, hrest⟩ := hread.step (by rw [hopener]; nofun)
  refine .peek ?_
  rw [show c.current.kind = .symbol .openParen from hkind]
  refine .advance ?_
  cases h with
  | nil =>
      have hkind₁ := hrest.kind.trans hcloser
      obtain ⟨-, hrest⟩ := hrest.step (by rw [hcloser]; nofun)
      obtain rfl := hrest.eq_of_nil
      exact .accept hkind₁ (.spanFrom fun span => .pure (.tuple rfl))
  | single h => exact absurd rfl hlength
  | @cons e es ts us comma h hcomma hothers _ =>
      rw [List.length_append, List.length_cons] at hn
      rw [List.append_assoc, List.cons_append] at hrest
      obtain ⟨c₁, hinner, hmore⟩ := hrest.split
      have hkind₁ := hmore.kind.trans hcomma
      obtain ⟨-, hmore⟩ := hmore.step (by rw [hcomma]; nofun)
      have hfirst : Gives (Rules.upTo (n + 1)).expression { ctx with mode := ctx.mode.nested } c.advance e.Alike c₁ :=
        h.whole ctx.nested_valued (by omega) hinner (by rw [hkind₁]; rfl)
      refine .decline (ne_of_opens h hinner rfl) (.within (.bind hfirst fun a ha => .accept hkind₁ ?_))
      refine .bind (commaValues_gives hothers rfl (by decide) hcloser (by omega) hmore) fun nodes hnodes => ?_
      refine .spanFrom fun span => .pure (.tuple ?_)
      rw [Node.AllAlike, List.map_cons, List.map_cons, hnodes, ha]

/-! ## Calls -/

/-- The arguments are read up to the closing parenthesis, and no further. -/
theorem callArguments_gives (h : Rows es ts) (hopener : opener.kind = .symbol .openParen)
    (hcloser : closer.kind = .symbol .closeParen) (hn : ts.length < n)
    (hread : c.Reads (opener :: (ts ++ [closer])) c') :
    Gives (callArguments (.upTo n)) ctx c (Node.AllAlike es) c' := by
  obtain ⟨-, hrest⟩ := hread.step (by rw [hopener]; nofun)
  exact .expect (hread.kind.trans hopener) (commaValues_gives h rfl (by decide) hcloser hn hrest)

/-- The parenthesis has to touch the name: with a blank between them the name would be a command. -/
theorem chained_call {name : Token} {callee : Ident} (h : Rows es ts) (hname : name.kind = .identifier)
    (hlexeme : name.lexeme = callee.name) (htouches : name.touches opener = true)
    (hopener : opener.kind = .symbol .openParen) (hcloser : closer.kind = .symbol .closeParen) :
    Chained (.call span callee es) (name :: opener :: (ts ++ [closer])) := by
  have hparts : ∀ t ∈ opener :: (ts ++ [closer]), t.kind.isPart = true :=
    parts_enclosed h.parts (by rw [hopener]; rfl) (by rw [hcloser]; rfl)
  refine .of_primary (List.forall_mem_cons.mpr ⟨by rw [hname]; rfl, hparts⟩) ⟨name, rfl, by rw [hname]; rfl⟩
    fun {n ctx c c'} hctx hn hread _ => ?_
  rw [List.length_cons, List.length_cons, List.length_append] at hn
  have hkind := hread.kind.trans hname
  have hnext : c.next = opener := hread.next
  obtain ⟨hcurrent, hrest⟩ := hread.step (by rw [hname]; nofun)
  -- the parenthesis touches the name, so that this is no command with an argument
  have huse : nameUse ctx.mode c = .call := by
    rw [nameUse, hnext, hcurrent, hopener, htouches, if_neg (by simp), if_pos (by simp)]
  refine .peek ?_
  rw [show c.current.kind = .identifier from hkind]
  refine .mode ?_
  rw [hctx.words]
  refine .mode (.here ?_)
  rw [huse]
  refine .advance (.bind (callArguments_gives h hopener hcloser (by omega) hrest) fun args hargs => ?_)
  exact .spanFrom fun span => .pure (.call (by rw [hcurrent, hlexeme]) hargs)

/-! ## Fields and methods -/

variable {dot name : Token}

/-- A name can be a member. -/
theorem isMember_of_isName {kind : TokenKind} (h : kind.isName = true) :
    isMember kind = true ∧ kind.isPart = true := by
  unfold TokenKind.isName at h
  split at h <;> first | contradiction | exact ⟨rfl, rfl⟩

/-- A dot and a name are glued to what was read before them. -/
theorem glued_of_touches (h : ∃ t, ts.head? = some t ∧ t.kind.opensPrimary = true)
    (hdot : dot.kind = .symbol .dot) (hname : name.kind.isName = true)
    (hlast : ∀ t ∈ ts.getLast?, t.touches dot = true) (htouches : dot.touches name = true) (hread : c.Reads ts c')
    {c'' : Cursor} (hmore : c'.Reads (dot :: name :: us) c'') : gluedPart c' isMember = true := by
  have hprevious := hlast _ (hread.last (ne_nil_of_opens h))
  have hnext : c'.next = name := hmore.next
  obtain ⟨hcurrent, -⟩ := hmore.step (by rw [hdot]; nofun)
  rw [gluedPart, hmore.kind, hcurrent, hnext, hprevious, htouches, hdot, (isMember_of_isName hname).1]
  rfl

/-- A dot and the name after it are read. -/
theorem dottedPart_gives (ctx : Context) (hdot : dot.kind = .symbol .dot) (hread : c.Reads (dot :: name :: us) c') :
    Gives dottedPart ctx c (· = name) c.advance.advance := by
  obtain ⟨-, hrest⟩ := hread.step (by rw [hdot]; nofun)
  have hcurrent : c.advance.current = name := (List.cons.inj hrest.rest).1
  exact .advance fun _ _ => ⟨_, rfl, hcurrent⟩

/-- Whether a parenthesis touches is read off the two tokens. -/
theorem Gives.callTouches {β : Type} {Q : β → Prop} {f : Bool → Parse β}
    (hf : Gives (f (c.kind == .symbol .openParen && t.touches c.current)) ctx c Q c') :
    Gives (callTouches t >>= f) ctx c Q c' := hf

/-- A dot, a name and what is read after them are one more turn of the loop. -/
theorem Chained.dotted {e' : Node} (h : Chained e ts) (hdot : dot.kind = .symbol .dot)
    (hname : name.kind.isName = true) (hlast : ∀ t ∈ ts.getLast?, t.touches dot = true)
    (htouches : dot.touches name = true) (hparts : ∀ t ∈ us, t.kind.isPart = true)
    (hmember : ∀ {n : Nat} {ctx : Context} {c c' : Cursor} {a : Node}, us.length ≤ n → e.Alike a → c.Reads us c' →
      c'.kind.endsPrimary = true →
      Gives (memberTurn (.upTo n) a name) ctx c (fun t => ∃ b, t = .again b ∧ e'.Alike b) c') :
    Chained e' (ts ++ dot :: name :: us) where
  parts := List.forall_mem_append.mpr ⟨h.parts, List.forall_mem_cons.mpr
    ⟨by rw [hdot]; rfl, List.forall_mem_cons.mpr ⟨(isMember_of_isName hname).2, hparts⟩⟩⟩
  opens := by
    obtain ⟨t, hhead, hopens⟩ := h.opens
    exact ⟨t, by rw [List.head?_append, hhead, Option.some_or], hopens⟩
  comesTo := by
    intro n ctx c c' hctx hn hread hend P c'' hloop
    have hlength : (ts ++ dot :: name :: us).length = ts.length + (us.length + 2) := List.length_append
    rw [hlength] at hn
    obtain ⟨c₁, htarget, hmore⟩ := hread.split
    have hglued := glued_of_touches h.opens hdot hname hlast htouches htarget hmore
    have hkind := hmore.kind.trans hdot
    obtain ⟨-, hafter⟩ := hmore.step (by rw [hdot]; nofun)
    obtain ⟨-, hrest⟩ := hafter.step (TokenKind.ne_endOfInput_of_isPart (isMember_of_isName hname).2)
    -- the loop comes to the target first, and this turn is the next one
    refine h.comesTo hctx (by omega) htarget (by rw [hkind]; rfl) P c'' fun k a ha hk => ?_
    obtain ⟨k, rfl⟩ : ∃ i, k = i + 1 := ⟨k - 1, by omega⟩
    have hturn : Gives (accessTurn (.upTo n) a) ctx c₁ (fun t => ∃ b, t = .again b ∧ e'.Alike b) c' := by
      refine .here ?_
      rw [hglued]
      refine .bind (dottedPart_gives ctx hdot hmore) ?_
      rintro _ rfl
      exact hmember (by omega) ha hrest hend
    refine .again hturn fun b hb => hloop k b hb ?_
    rw [hlength]
    omega

/-- Dot and name have to touch what stands before them. -/
theorem chained_fieldAccess {field : Ident} (h : Chained e ts) (hdot : dot.kind = .symbol .dot)
    (hname : name.kind.isName = true) (hlexeme : name.lexeme = field.name)
    (hlast : ∀ t ∈ ts.getLast?, t.touches dot = true) (htouches : dot.touches name = true) :
    Chained (.fieldAccess span e field) (ts ++ [dot, name]) := by
  refine h.dotted hdot hname hlast htouches (List.forall_mem_nil _) fun {n ctx c c' a} _ ha hread hend => ?_
  obtain rfl := hread.eq_of_nil
  have hcall : (c'.kind == .symbol .openParen) = false :=
    beq_eq_false_iff_ne.mpr (TokenKind.endsPrimary_free hend).2.2
  refine Gives.callTouches ?_
  rw [hcall, Bool.false_and]
  exact .spanFrom fun span => .pure ⟨_, rfl, .fieldAccess ha hlexeme.symm⟩

/-- As for a field, with a parenthesis that touches the name. -/
theorem chained_methodCall {method : Ident} (h : Chained e ts) (hargs : Rows es us) (hdot : dot.kind = .symbol .dot)
    (hname : name.kind.isName = true) (hlexeme : name.lexeme = method.name)
    (hlast : ∀ t ∈ ts.getLast?, t.touches dot = true) (htouches : dot.touches name = true)
    (hcall : name.touches opener = true) (hopener : opener.kind = .symbol .openParen)
    (hcloser : closer.kind = .symbol .closeParen) :
    Chained (.methodCall span e method es) (ts ++ dot :: name :: opener :: (us ++ [closer])) := by
  have hparts : ∀ t ∈ opener :: (us ++ [closer]), t.kind.isPart = true :=
    parts_enclosed hargs.parts (by rw [hopener]; rfl) (by rw [hcloser]; rfl)
  refine h.dotted hdot hname hlast htouches hparts fun {n ctx c c' a} hn ha hread _ => ?_
  rw [List.length_cons, List.length_append] at hn
  have hcurrent : c.current = opener := (List.cons.inj hread.rest).1
  refine Gives.callTouches ?_
  rw [hread.kind, hcurrent, hopener, hcall]
  refine .bind (callArguments_gives hargs hopener hcloser (by omega) hread) fun args hargs => ?_
  exact .spanFrom fun span => .pure ⟨_, rfl, .methodCall ha hlexeme.symm hargs⟩

/-! ## Operators -/

/-- Values may be made with the signs of unary operators. -/
theorem isPart_of_unary {kind : TokenKind} {operator : UnaryOperator}
    (h : UnaryOperator.ofToken? kind = some operator) : kind.isPart = true := by
  unfold UnaryOperator.ofToken? at h
  split at h <;> first | contradiction | rfl

/-- And with those of binary ones. -/
theorem isPart_of_binary {kind : TokenKind} {operator : Operator} (h : Operator.ofToken? kind = some operator) :
    kind.isPart = true := by
  unfold Operator.ofToken? at h
  split at h <;> first | contradiction | rfl

/-- A unary operator takes an operand that no binary one makes. -/
theorem spells_unary {operator : UnaryOperator} (h : Spells e ts) (hoperand : e.isOperand = true)
    (hoperator : UnaryOperator.ofToken? t.kind = some operator) : Spells (.unary span operator e) (t :: ts) := by
  have hpart := isPart_of_unary hoperator
  refine .of_operand (List.forall_mem_cons.mpr ⟨hpart, h.parts⟩)
    ⟨t, rfl, TokenKind.opensValue_of_unary hoperator⟩ nofun fun {n ctx c c'} hctx hn hread hend => ?_
  rw [List.length_cons] at hn
  obtain ⟨n, rfl⟩ : ∃ m, n = m + 1 := ⟨n - 1, by omega⟩
  obtain ⟨hcurrent, hrest⟩ := hread.step (TokenKind.ne_endOfInput_of_isPart hpart)
  have hinner : Gives (Rules.upTo (n + 1)).unary ctx c.advance e.Alike c' :=
    h.operand hoperand hctx (by omega) hrest hend
  refine .peek ?_
  rw [hcurrent, hoperator]
  exact .advance (.bind hinner fun a ha => .pure (.unary ha))

/-- The left operand is what the loop over operators has so far, and the right one is read by itself. -/
theorem spells_binary {left right : Node} {operator : Operator} (hleft : Spells left ts) (hright : Spells right us)
    (hoperator : Operator.ofToken? t.kind = some operator) (htight : operator.precedence ≤ left.tightness)
    (htighter : operator.precedence < right.tightness) : Spells (.binary span operator left right) (ts ++ t :: us) where
  parts := List.forall_mem_append.mpr ⟨hleft.parts, List.forall_mem_cons.mpr
    ⟨isPart_of_binary hoperator, hright.parts⟩⟩
  opens := by
    obtain ⟨t', hhead, hopens⟩ := hleft.opens
    exact ⟨t', by rw [List.head?_append, hhead, Option.some_or], hopens⟩
  chained := nofun
  operand := nofun
  comesTo := by
    intro least n ctx c c' hleast hctx hn hread hend hstop P c'' hloop
    rw [List.length_append, List.length_cons] at hn
    obtain ⟨n, rfl⟩ : ∃ m, n = m + 1 := ⟨n - 1, by omega⟩
    obtain ⟨c₁, hfirst, hmore⟩ := hread.split
    have hkind : Operator.ofToken? c₁.kind = some operator := hmore.kind ▸ hoperator
    obtain ⟨-, hrest⟩ := hmore.step (TokenKind.ne_endOfInput_of_isPart (isPart_of_binary hoperator))
    -- what comes after the left operand is the operator itself
    have hle : ∀ operator', Operator.ofToken? c₁.kind = some operator' → operator'.precedence ≤ left.tightness := by
      intro operator' hoperator'
      obtain rfl := Option.some.inj (hkind.symm.trans hoperator')
      exact htight
    refine hleft.comesTo (Nat.le_trans hleast htight) hctx (by omega) hfirst
      (TokenKind.endsOperand_of_operator hkind) hle P c'' fun k a ha hk => ?_
    obtain ⟨k, rfl⟩ : ∃ i, k = i + 1 := ⟨k - 1, by omega⟩
    have hturn : Gives (binaryTurn (.upTo (n + 1)) least a) ctx c₁
        (fun t => ∃ b, t = .again b ∧ Node.Alike (.binary span operator left right) b) c' := by
      have hgoes : continuing? ctx.mode least c₁ = some operator := by
        rw [continuing?, hkind]
        dsimp only
        have htightly : ¬ operator.precedence < least := Nat.not_lt.mpr hleast
        rw [hctx.words, Bool.false_and, Bool.or_false, decide_eq_false htightly]
        rfl
      have hinner : Gives ((Rules.upTo (n + 1)).binary (operator.precedence + 1)) ctx c₁.advance right.Alike c' :=
        hright.bound htighter hctx (by omega) hrest hend fun operator' hoperator' =>
          Nat.lt_succ_of_le (hstop operator' hoperator')
      refine .mode (.here ?_)
      rw [hgoes]
      refine .advance (.skipWhile ?_ (.bind hinner fun b hb => .pure ⟨_, rfl, .binary ha hb⟩))
      exact beq_eq_false_iff_ne.mpr (kind_of_opens hright hrest).2
    refine .again hturn fun b hb => hloop k b hb ?_
    rw [List.length_append, List.length_cons]
    omega

end Grammar

end ShellFront
